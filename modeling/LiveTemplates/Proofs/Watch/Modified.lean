import LiveTemplates.Proofs.Watch.InPlace
import LiveTemplates.Proofs.Watch.Moments

/-!
# Caches over files with honest times

A file whose modification time never goes back, and never stands for two contents, can be watched
by that time. A snapshot may hold newer contents than those at the time of its marker, because the
file can be edited while it is compiled; but then the time of the file has moved on as well, so the
snapshot is not taken for fresh.
-/

namespace LiveTemplates

/-- What is at a path, faults apart: its modification time, and its contents if it is a file. -/
structure Sight where
  modified : Int
  contents : Option Bytes
deriving DecidableEq

def FileSystem.sight? (fs : FileSystem) (path : Path) : Option Sight :=
  match fs.lookup path with
  | .error _ => none
  | .ok (.directory modified) => some ⟨modified, none⟩
  | .ok (.file id) => some ⟨(fs.storedAt id).modified, some (fs.storedAt id).contents⟩

/-- The times of these sights never go back, and at one time there are the same contents. -/
def Honest (sights : List Sight) : Prop :=
  sights.Pairwise fun s t =>
    s.modified ≤ t.modified ∧ (s.modified = t.modified → s.contents = t.contents)

namespace Honest

variable {sights : List Sight}

theorem sublist {sights' : List Sight} (h : Honest sights) (hsub : sights'.Sublist sights) :
    Honest sights' := List.Pairwise.sublist hsub h

/-- A sight that is no older than the last one shows the same contents. -/
theorem contents_eq_last {s last : Sight} (h : Honest (sights ++ [last]))
    (hs : s ∈ sights ++ [last]) (hle : last.modified ≤ s.modified) :
    s.contents = last.contents := by
  rcases List.mem_append.1 hs with hs | hs
  · obtain ⟨hold, hsame⟩ := (List.pairwise_append.1 h).2.2 s hs last (List.mem_singleton_self _)
    exact hsame (by omega)
  · rw [List.mem_singleton.1 hs]

end Honest

namespace WatchedFile

variable {A F : Type} {path : Path} {compile : Compiler A F}

def sightsIn (path : Path) (moments : List WatchedFile) : List Sight :=
  moments.filterMap fun w => w.files.sight? path

theorem mem_sightsIn {moments : List WatchedFile} {w : WatchedFile} {s : Sight} (hw : w ∈ moments)
    (hs : w.files.sight? path = some s) : s ∈ sightsIn path moments :=
  List.mem_filterMap.2 ⟨w, hw, hs⟩

def Timed (path : Path) (w : WatchedFile) : Prop := w.file = ⟨path, .modified⟩

theorem marker_of_timed {w : WatchedFile} (h : Timed path w) :
    source.marker w =
      match w.files.modified path with
      | .error refusal => (.error refusal.reason, w)
      | .ok modified => (.ok modified, w) := by
  have hfile : w.file = ⟨path, .modified⟩ := h
  cases hmodified : w.files.modified path <;> simp [source, marker, hfile, hmodified]

theorem source_marker_of_timed {w : WatchedFile} (h : Timed path w) : (source.marker w).2 = w := by
  rw [marker_of_timed h]
  split <;> rfl

theorem timed_change (e : FileSystem.Edit) (w : WatchedFile) (h : Timed path w) :
    Timed path (change e w) := h

theorem sight_of_lookup {fs : FileSystem} {id : Nat} (h : fs.lookup path = .ok (.file id)) :
    fs.sight? path = some ⟨(fs.storedAt id).modified, some (fs.storedAt id).contents⟩ := by
  simp only [FileSystem.sight?, h]

theorem lookup_of_sight {fs : FileSystem} {s : Sight} {bytes : Bytes}
    (h : fs.sight? path = some s) (hbytes : s.contents = some bytes) :
    ∃ id, fs.lookup path = .ok (.file id) ∧ (fs.storedAt id).contents = bytes := by
  unfold FileSystem.sight? at h
  split at h
  · cases h
  · cases h
    cases hbytes
  · rename_i id hlookup
    cases h
    exact ⟨id, hlookup, Option.some.inj hbytes⟩

/-- The time that a file answers is the one that is seen at its path. -/
theorem sight_of_marker {w w' : WatchedFile} {live : Int} (hw : Timed path w)
    (h : source.marker w = (.ok live, w')) :
    w' = w ∧ ∃ s, w.files.sight? path = some s ∧ s.modified = live := by
  rw [marker_of_timed hw] at h
  split at h
  · cases h
  · rename_i modified hmodified
    cases h
    refine ⟨rfl, ?_⟩
    unfold FileSystem.modified at hmodified
    split at hmodified
    · cases hmodified
    · split at hmodified
      · cases hmodified
      · rename_i hlookup
        cases hmodified
        exact ⟨⟨live, none⟩, by simp only [FileSystem.sight?, hlookup], rfl⟩
      · rename_i id hlookup
        cases hmodified
        exact ⟨_, sight_of_lookup hlookup, rfl⟩

theorem timed_runAll (compile : Compiler A F) {w : Watch WatchedFile A Int F}
    (hw : Timed path w.resource) (steps : List (Step FileSystem.Edit)) :
    let w' := Step.runAll (source.bench change compile) w steps
    Timed path w'.resource ∧ w'.reloading = w.reloading := by
  refine source.runAll_keeps compile (Timed path) ?_ timed_change hw steps
  intro r hr
  rwa [source_marker_of_timed hr]

/-- A value that was compiled from contents seen no earlier than its marker. -/
def SeenSince (compile : Compiler A F) (sights : List Sight) (marker : Int) (value : A) : Prop :=
  ∃ s ∈ sights, marker ≤ s.modified ∧
    ∃ bytes, s.contents = some bytes ∧ compile bytes = .ok value

/-- What a request compiles is seen at the moment when its stream is read, and its marker is the
time at the moment before the request. -/
theorem seenSince_of_compiled {w u : Watch WatchedFile A Int F} {step : Step FileSystem.Edit}
    {rest : List (Step FileSystem.Edit)} {live : Int} {value : A} (hw : Timed path w.resource)
    (inPlace : ∀ inner, step = .requestDuring inner → ∀ s ∈ inner, s.InPlace path)
    (honest : Honest (sightsIn path
      (Step.momentsAll (source.bench change compile) w (step :: rest))))
    (h : Compiled source.access ((compile.reading source.access.read).after
      (step.during (source.bench change compile))) w live value u) :
    SeenSince compile (sightsIn path
      (Step.momentsAll (source.bench change compile) w (step :: rest))) live value := by
  obtain ⟨id, v, contents, hopened, hmarker, hopen, hread, hvalue, -⟩ := h.of_stream
  rw [source_marker_of_timed hw] at hmarker
  obtain ⟨hv, s₀, hs₀, rfl⟩ := sight_of_marker hw hmarker
  have hpath : v.resource.file.path = path := by rw [hv, hw]
  let later := Step.momentsAll (source.bench change compile)
    (Step.run (source.bench change compile) w step).2 rest
  have hstart : sightsIn path (Step.momentsAll (source.bench change compile) w (step :: rest)) =
      s₀ :: sightsIn path (Step.moments (source.bench change compile) w step ++ later) := by
    rw [Step.momentsAll, sightsIn, List.filterMap_cons, hs₀]
    rfl
  rw [hstart] at honest ⊢
  cases step with
  | requestDuring inner =>
    have hentered := enteredAt?_of_opened hopened
    let r := Step.runAll (source.bench change compile) (v.note .compilerCalled) inner
    have hlookup : r.resource.files.lookup path = .ok (.file id) :=
      lookup_runAll_inPlace hpath hopen (inPlace inner rfl)
    have hmoment : r.resource ∈
        Step.moments (source.bench change compile) w (.requestDuring inner) := by
      rw [Step.moments_of_entered hentered]
      exact Step.runAll_mem_momentsAll _ inner
    have hseen := mem_sightsIn (List.mem_append_left later hmoment) (sight_of_lookup hlookup)
    obtain ⟨hle, -⟩ := (List.pairwise_cons.1 honest).1 _ hseen
    have hcontents : (r.resource.files.storedAt id).contents = contents := Except.ok.inj hread
    exact ⟨_, List.mem_cons_of_mem _ hseen, hle, contents, by rw [hcontents], hvalue⟩
  | request | staleness | marker | contents | identity | description | change =>
    have hlookup := lookup_of_openStream hopen
    rw [hpath] at hlookup
    have hsight := sight_of_lookup hlookup
    have hcontents : (v.resource.files.storedAt id).contents = contents := Except.ok.inj hread
    rw [hv, hs₀, ← hv, hcontents, Option.some.injEq] at hsight
    exact ⟨s₀, List.mem_cons_self, Int.le_refl _, contents, by rw [hsight], hvalue⟩

/-- Along a run what is held was compiled from contents seen no earlier than its marker. -/
theorem seenSince_runAll (compile : Compiler A F) {w : Watch WatchedFile A Int F}
    (hw : Timed path w.resource) (hheld : w.cache.held = none)
    {steps : List (Step FileSystem.Edit)}
    (inPlace : ∀ inner, .requestDuring inner ∈ steps → ∀ step ∈ inner, step.InPlace path)
    (honest : Honest (sightsIn path (Step.momentsAll (source.bench change compile) w steps))) :
    (Step.runAll (source.bench change compile) w steps).Fits fun _ => SeenSince compile
      (sightsIn path (Step.momentsAll (source.bench change compile) w steps)) := by
  have external : (source.bench change compile).External AnyMove :=
    source.bench_external compile (fun r => .single trivial) fun _ _ => trivial
  have hmarker : ∀ r, Relation.ReflTransGen AnyMove r (source.marker r).2 :=
    fun _ => .single trivial
  refine Watch.Fits.runAll_of_compiled hmarker (fun _ _ _ _ _ h => h) (.of_none hheld)
    (fun _ _ _ _ _ _ h => h) steps (fun step _ => external.during_meanwhile step) ?_
  rintro before step after rfl live value u hcompiled
  have hsub : (sightsIn path (Step.momentsAll (source.bench change compile)
      (Step.runAll (source.bench change compile) w before) (step :: after))).Sublist
      (sightsIn path (Step.momentsAll (source.bench change compile) w
        (before ++ step :: after))) :=
    (Step.momentsAll_suffix w before (step :: after)).sublist.filterMap _
  have hin : ∀ inner, step = .requestDuring inner → ∀ s ∈ inner, s.InPlace path := by
    rintro inner rfl
    exact inPlace inner (by simp)
  obtain ⟨s, hs, hseen⟩ := seenSince_of_compiled (timed_runAll compile hw before).1 hin
    (honest.sublist hsub) hcompiled
  exact ⟨s, hsub.mem hs, hseen⟩

/-- A value that was seen since a marker which is still fresh belongs to the present contents. -/
theorem SeenSince.compile_eq_ok {sights : List Sight} {last : Sight} {marker : Int} {value : A}
    (h : SeenSince compile (sights ++ [last]) marker value) (honest : Honest (sights ++ [last]))
    (hfresh : last.modified ≤ marker) :
    ∃ bytes, last.contents = some bytes ∧ compile bytes = .ok value := by
  obtain ⟨s, hs, hle, bytes, hbytes, hcompile⟩ := h
  rw [honest.contents_eq_last hs (Int.le_trans hfresh hle)] at hbytes
  exact ⟨bytes, hbytes, hcompile⟩

/-- Where what is held was compiled from contents seen since its marker, and the times are honest,
a request serves the present contents if it serves anything. -/
theorem serve_of_seenSince {w : Watch WatchedFile A Int F} {earlier moments : List WatchedFile}
    (hmoments : moments = earlier ++ [w.resource])
    (h : w.Fits fun _ => SeenSince compile (sightsIn path moments))
    (honest : Honest (sightsIn path moments)) (free : w.reloading = false)
    (hw : Timed path w.resource) {value : A}
    (hserve : (serve source.access (compile.reading source.access.read) w).1.map (·.value) =
      .ok value) :
    ∃ id, w.resource.files.lookup path = .ok (.file id) ∧
      compile (w.resource.files.storedAt id).contents = .ok value := by
  rcases hmarker : source.marker w.resource with ⟨reason | live, r⟩
  · rw [Source.serve_of_refusal hmarker] at hserve
    cases hserve
  · obtain ⟨rfl, last, hlast, rfl⟩ := sight_of_marker hw hmarker
    have hsights : sightsIn path moments = sightsIn path earlier ++ [last] := by
      simp [hmoments, sightsIn, hlast]
    rw [hsights] at h honest
    rcases h.serve_settled (by simp) free hmarker hmarker with
      ⟨m, value', hseen, hnew, hheld⟩ | hrecompiled
    · obtain rfl : value' = value := Except.ok.inj (hheld.symm.trans hserve)
      have hfresh : last.modified ≤ m := by simpa using hnew
      obtain ⟨bytes, hbytes, hcompile⟩ := hseen.compile_eq_ok honest hfresh
      obtain ⟨id, hlookup, rfl⟩ := lookup_of_sight hlast hbytes
      exact ⟨id, hlookup, hcompile⟩
    · obtain ⟨id, contents, hopen, hread, hcompile⟩ :=
        Source.recompiled_eq_ok (hrecompiled.symm.trans hserve)
      have hlookup := lookup_of_openStream hopen
      rw [hw] at hlookup
      obtain rfl : (w.resource.files.storedAt id).contents = contents := Except.ok.inj hread
      exact ⟨id, hlookup, hcompile⟩

/-- Along any run of requests and staleness checks, between which the file system changes in any
way, and during whose compilations the watched file is edited in place: if the modification time
of the path never goes back and never stands for two contents, then a request that succeeds serves
the value of the present contents. -/
theorem modified_cache_follows_contents (compile : Compiler A F) (path : Path)
    (files : FileSystem) (steps : List (Step FileSystem.Edit))
    (inPlace : ∀ inner, .requestDuring inner ∈ steps → ∀ step ∈ inner, step.InPlace path)
    (honest : Honest (sightsIn path (Step.momentsAll (source.bench change compile)
      ({ resource := ⟨⟨path, .modified⟩, files⟩ } : Watch WatchedFile A Int F) steps))) :
    let bench := source.bench change compile
    let w := Step.runAll bench { resource := ⟨⟨path, .modified⟩, files⟩ } steps
    let outcome := (serve bench.access bench.compilation w).1.map (·.value)
    ∀ value, outcome = .ok value → ∃ id, w.resource.files.lookup path = .ok (.file id) ∧
      compile (w.resource.files.storedAt id).contents = .ok value := by
  intro bench w outcome value hvalue
  let start : Watch WatchedFile A Int F := { resource := ⟨⟨path, .modified⟩, files⟩ }
  have hstart : Timed path start.resource := rfl
  obtain ⟨hw, free⟩ : Timed path w.resource ∧ w.reloading = false :=
    timed_runAll compile hstart steps
  obtain ⟨earlier, hmoments⟩ := Step.momentsAll_eq_append start steps
  have hfits := seenSince_runAll compile hstart rfl inPlace honest
  exact serve_of_seenSince hmoments hfits honest free hw hvalue

/-- A file is edited while it is compiled, then removed, and written once more as it was. -/
def restored : List (Step FileSystem.Edit) :=
  [.change (.write template [65] 5),
    .requestDuring [.change (.write template [66] 7), .change (.touch template 8)],
    .change (.remove template), .request, .change (.write template [66] 8), .staleness, .request]

def restoredSights : List Sight :=
  [⟨5, some [65]⟩, ⟨5, some [65]⟩, ⟨7, some [66]⟩, ⟨8, some [66]⟩, ⟨8, some [66]⟩,
    ⟨8, some [66]⟩, ⟨8, some [66]⟩, ⟨8, some [66]⟩]

theorem modified_cache_follows_contents_restored :
    let bench := source.bench change (Except.ok : Compiler Bytes Empty)
    let start : Watch WatchedFile Bytes Int Empty := { resource := ⟨⟨template, .modified⟩, {}⟩ }
    let w := Step.runAll bench start restored
    (∀ inner, .requestDuring inner ∈ restored → ∀ step ∈ inner, step.InPlace template) ∧
    sightsIn template (Step.momentsAll bench start restored) = restoredSights ∧
    (serve bench.access bench.compilation w).1.map (·.value) = .ok [66] ∧
    ∃ id, w.resource.files.lookup template = .ok (.file id) ∧
      (w.resource.files.storedAt id).contents = [66] := by
  have inPlace : ∀ inner, .requestDuring inner ∈ restored →
      ∀ step ∈ inner, step.InPlace template := by
    simp [restored, Step.InPlace, FileSystem.Edit.InPlace]
  have hsights : sightsIn template (Step.momentsAll
      (source.bench change (Except.ok : Compiler Bytes Empty))
      { resource := ⟨⟨template, .modified⟩, {}⟩ } restored) = restoredSights := by
    decide +kernel
  have honest : Honest restoredSights := by
    unfold Honest
    decide
  have hfollows := modified_cache_follows_contents (.ok : Compiler Bytes Empty) template {} restored
    inPlace (hsights ▸ honest)
  refine ⟨inPlace, hsights, rfl, ?_⟩
  obtain ⟨id, hlookup, hvalue⟩ := hfollows [66] rfl
  exact ⟨id, hlookup, Except.ok.inj hvalue⟩

end WatchedFile

end LiveTemplates
