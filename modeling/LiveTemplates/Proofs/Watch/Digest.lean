import LiveTemplates.Proofs.Watch.InPlace

/-!
# Caches over digested files

Whenever contents are seen whose digest is not that of the contents seen last, the generation of a
file grows, and a generation that has passed never comes back. A snapshot marked with the present
generation was therefore compiled from contents with the digest that was seen last, whatever the
timestamps of the file and whichever of its contents nobody has seen.
-/

namespace LiveTemplates

variable {A F : Type}

namespace Generation

variable (g : Generation) (bytes : Bytes)

theorem see_last : (g.see bytes).last = some (Sha1.digest bytes) := by
  unfold see
  dsimp only
  split <;> simp_all

@[simp] theorem see_see : (g.see bytes).see bytes = g.see bytes := by
  have hlast := see_last g bytes
  rw [see, if_pos hlast]

theorem count_le_see : g.count ≤ (g.see bytes).count := by
  unfold see
  dsimp only
  split
  · exact Nat.le_refl _
  · exact Nat.le_succ _

theorem see_eq_self {g : Generation} {bytes : Bytes} (h : (g.see bytes).count = g.count) :
    g.see bytes = g := by
  unfold see at h ⊢
  dsimp only at h ⊢
  split
  · rfl
  · rw [if_neg ‹_›] at h
    simp at h

/-- A marker that is a generation so far. If it is the present one, its value stands for contents
with the digest seen last, which are among those that occur. -/
structure Marks (stands : Bytes → A → Prop) (occurring : List Bytes) (g : Generation)
    (marker : Int) (value : A) : Prop where
  past : marker ≤ g.count
  present : marker = g.count →
    ∃ bytes ∈ occurring, g.last = some (Sha1.digest bytes) ∧ stands bytes value

def Collisionless (occurring : List Bytes) : Prop :=
  ∀ a ∈ occurring, ∀ b ∈ occurring, Sha1.digest a = Sha1.digest b → a = b

namespace Marks

variable {stands : Bytes → A → Prop} {occurring : List Bytes} {g : Generation} {marker : Int}
  {value : A} {bytes : Bytes}

/-- A generation that grows leaves all markers so far behind. -/
theorem see (h : g.Marks stands occurring marker value) (bytes : Bytes) :
    (g.see bytes).Marks stands occurring marker value := by
  have hle := count_le_see g bytes
  have hpast := h.past
  refine ⟨by omega, ?_⟩
  intro hmarker
  -- A marker so far cannot be the present generation if that has just grown.
  have hsame : g.see bytes = g := see_eq_self (by omega)
  rw [hsame] at hmarker ⊢
  exact h.present hmarker

theorem of_seen (hbytes : bytes ∈ occurring) (hstands : stands bytes value) :
    (g.see bytes).Marks stands occurring (g.see bytes).count value :=
  ⟨Int.le_refl _, fun _ => ⟨bytes, hbytes, see_last g bytes, hstands⟩⟩

/-- The value of a marker that is still fresh after contents were seen stands for them. -/
theorem stands_of_fresh (h : g.Marks stands occurring marker value)
    (collisionless : Collisionless occurring) (hbytes : bytes ∈ occurring)
    (hfresh : ¬ marker < (g.see bytes).count) : stands bytes value := by
  have hsee := h.see bytes
  have hpast := hsee.past
  obtain ⟨bytes', hbytes', hlast, hstands⟩ := hsee.present (by omega)
  rw [see_last, Option.some.injEq] at hlast
  rw [collisionless bytes hbytes bytes' hbytes' hlast]
  exact hstands

end Marks

end Generation

namespace WatchedFile

/-- The contents of the watched file as its marker sees them. -/
def contents (w : WatchedFile) : Except Refusal Bytes := w.files.contents w.file.path

def Digested (path : Path) (w : WatchedFile) : Prop := ∃ g, w.file = ⟨path, .generation g⟩

def Looked (w w' : WatchedFile) : Prop := w' = (source.marker w).2

def Fitting (stands : Bytes → A → Prop) (occurring : List Bytes) (w : WatchedFile) (marker : Int)
    (value : A) : Prop :=
  ∃ g, w.file.mark = .generation g ∧ g.Marks stands occurring marker value

def ValueOf (compile : Compiler A F) (bytes : Bytes) (value : A) : Prop := compile bytes = .ok value

variable {path : Path} {compile : Compiler A F} {stands : Bytes → A → Prop}
variable {occurring : List Bytes} {w : WatchedFile}

theorem Digested.path_eq (h : Digested path w) : w.file.path = path := by
  obtain ⟨g, hg⟩ := h
  rw [hg]

theorem marker_of_digested {g : Generation} (hg : w.file = ⟨path, .generation g⟩) :
    source.marker w =
      match w.contents with
      | .error refusal => (.error refusal.reason, w)
      | .ok bytes =>
        (.ok (g.see bytes).count, { w with file := ⟨path, .generation (g.see bytes)⟩ }) := by
  cases hcontents : w.files.contents path <;> simp [source, marker, contents, hg, hcontents]

theorem digested_marker (h : Digested path w) : Digested path (source.marker w).2 := by
  obtain ⟨g, hg⟩ := id h
  rw [marker_of_digested hg]
  split
  · exact h
  · exact ⟨_, rfl⟩

theorem digested_change (e : FileSystem.Edit) (w : WatchedFile) (h : Digested path w) :
    Digested path (change e w) := h

@[simp] theorem source_marker_contents (w : WatchedFile) :
    (source.marker w).2.contents = w.contents := by
  rw [contents, contents, source_marker_files, source_marker_path]

theorem files_of_looked {w' : WatchedFile} (h : Relation.ReflTransGen Looked w w') :
    w'.files = w.files := by
  induction h with
  | refl => rfl
  | tail _ hlook ih => rw [hlook, source_marker_files, ih]

theorem marker_looks (w : WatchedFile) : Relation.ReflTransGen Looked w (source.marker w).2 :=
  .single rfl

theorem fitting_looked : Kept Looked (Fitting stands occurring) := by
  rintro w _ rfl marker value ⟨g, hg, hmarks⟩
  have hfile : w.file = ⟨w.file.path, .generation g⟩ := by rw [← hg]
  rw [marker_of_digested hfile]
  split
  · exact ⟨g, hg, hmarks⟩
  · exact ⟨_, rfl, hmarks.see _⟩

theorem fitting_change (e : FileSystem.Edit) :
    Kept (fun w w' => w' = change e w) (Fitting stands occurring) := by
  rintro w _ rfl marker value h
  exact h

theorem marker_eq_ok {w' : WatchedFile} {live : Int} (hw : Digested path w)
    (h : source.marker w = (.ok live, w')) :
    ∃ (g : Generation) (bytes : Bytes), w.contents = .ok bytes ∧ live = (g.see bytes).count ∧
      w' = { w with file := ⟨path, .generation (g.see bytes)⟩ } := by
  obtain ⟨g, hg⟩ := hw
  rw [marker_of_digested hg] at h
  split at h
  · cases h
  · rename_i bytes hbytes
    cases h
    exact ⟨g, bytes, hbytes, rfl, rfl⟩

/-- A reload that nothing disturbs compiles the contents that its marker has seen. -/
theorem fitting_reloaded {w' : WatchedFile} {live : Int} {value : A} (hw : Digested path w)
    (hoccurring : ∀ bytes, w.contents = .ok bytes → bytes ∈ occurring)
    (h : source.Reloads compile Looked w live value w') :
    Fitting (ValueOf compile) occurring w' live value := by
  obtain ⟨opened, id, bytes', hmarker, hopen, hlooked, hread, hcompile⟩ := h
  have hpath := hw.path_eq
  obtain ⟨g, bytes, hbytes, rfl, rfl⟩ := marker_eq_ok hw hmarker
  rw [source_openStream_eq_ok] at hopen
  have hcontents : w.files.contents path = .ok bytes := by rw [← hpath]; exact hbytes
  have hstored := FileSystem.storedAt_of_openStream hcontents hopen
  have hsame : bytes' = bytes := by
    rw [← hstored, ← files_of_looked hlooked]
    exact (Except.ok.inj hread).symm
  subst hsame
  exact fitting_looked.star hlooked ⟨_, rfl, .of_seen (hoccurring _ hbytes) hcompile⟩

/-- What the compiler makes of a file that can be read, if it can be opened as well. -/
theorem source_recompiled {bytes : Bytes} (hbytes : w.contents = .ok bytes) :
    (source.recompiled compile w : Except (LoadFailure Int F) A) =
      match w.files.openStream w.file.path with
      | .error refusal => .error (.unavailable ⟨w.file.path.text, refusal.reason⟩)
      | .ok _ => (compile bytes).mapError CompileFailure.toLoad := by
  cases hopen : w.files.openStream w.file.path with
  | error refusal =>
    simp [Source.recompiled, source, WatchedFile.openStream, hopen, Source.unavailable]
  | ok id =>
    have hstored := FileSystem.storedAt_of_openStream hbytes hopen
    simp [Source.recompiled, source, WatchedFile.openStream, hopen, hstored]

end WatchedFile

/-- A step of a run in which nothing happens while a request compiles. -/
def Step.Single {E : Type} : Step E → Prop
  | .requestDuring _ => False
  | _ => True

namespace WatchedFile

variable {path : Path} {compile : Compiler A F} {stands : Bytes → A → Prop}
variable {occurring : List Bytes}

def contentsIn (states : List (Watch WatchedFile A Int F)) : List Bytes :=
  states.filterMap fun w => w.resource.contents.toOption

theorem mem_contentsIn {states : List (Watch WatchedFile A Int F)} {w : Watch WatchedFile A Int F}
    (h : w ∈ states) {bytes : Bytes} (hbytes : w.resource.contents = .ok bytes) :
    bytes ∈ contentsIn states := by
  rw [contentsIn, List.mem_filterMap]
  exact ⟨w, h, by rw [hbytes]; rfl⟩

/-- A request for a digested file that can be read serves what stands for the contents, or else
what the compiler makes of them if the file can be opened. -/
theorem serve_of_fits {w : Watch WatchedFile A Int F} (h : w.Fits (Fitting stands occurring))
    (free : w.reloading = false) (hw : Digested path w.resource)
    (collisionless : Generation.Collisionless occurring) {bytes : Bytes}
    (hbytes : w.resource.contents = .ok bytes) (hmem : bytes ∈ occurring) :
    let outcome := (serve source.access (compile.reading source.access.read) w).1.map (·.value)
    (∃ value, stands bytes value ∧ outcome = .ok value) ∨
      outcome = (compile bytes).mapError CompileFailure.toLoad ∨
      ∃ refusal, w.resource.files.openStream path = .error refusal ∧
        outcome = .error (.unavailable ⟨path.text, refusal.reason⟩) := by
  intro outcome
  obtain ⟨g, hg⟩ := hw
  -- After the first look the generation is that of the present contents, and stays so.
  let r : WatchedFile := { w.resource with file := ⟨path, .generation (g.see bytes)⟩ }
  have hfirst : source.marker w.resource = (.ok (g.see bytes).count, r) := by
    rw [marker_of_digested hg, hbytes]
  have hcontents : r.contents = .ok bytes := by
    rw [← hbytes, ← source_marker_contents w.resource, hfirst]
  have hsecond : source.marker r = (.ok (g.see bytes).count, r) := by
    rw [marker_of_digested (g := g.see bytes) rfl, hcontents]
    simp [r]
  rcases h.serve_settled (by simp) free hfirst hsecond with ⟨m, value, hfits, hnew, hserve⟩ | hserve
  · obtain ⟨g', hg', hmarks⟩ := hfits
    rw [hg] at hg'
    cases hg'
    have hfresh : ¬ m < (g.see bytes).count := by simpa using hnew
    exact .inl ⟨value, hmarks.stands_of_fresh collisionless hmem hfresh, hserve⟩
  · rw [source_recompiled hcontents] at hserve
    cases hopen : w.resource.files.openStream path with
    | error refusal =>
      refine .inr (.inr ⟨refusal, rfl, ?_⟩)
      simpa [r, hopen] using hserve
    | ok id =>
      refine .inr (.inl ?_)
      simpa [r, hopen] using hserve

/-- Where what is held was compiled from contents seen for its marker, a request is answered as if
it compiled the present contents, unless it would have to open the file, and cannot. -/
theorem serve_of_fitting {w : Watch WatchedFile A Int F}
    (h : w.Fits (Fitting (ValueOf compile) occurring)) (free : w.reloading = false)
    (hw : Digested path w.resource) (collisionless : Generation.Collisionless occurring)
    {bytes : Bytes} (hbytes : w.resource.contents = .ok bytes) (hmem : bytes ∈ occurring) :
    let outcome := (serve source.access (compile.reading source.access.read) w).1.map (·.value)
    outcome = (compile bytes).mapError CompileFailure.toLoad ∨
      ∃ refusal, w.resource.files.openStream path = .error refusal ∧
        outcome = .error (.unavailable ⟨path.text, refusal.reason⟩) := by
  intro outcome
  rcases serve_of_fits h free hw collisionless hbytes hmem with ⟨value, hvalue, hserve⟩ | hserve
  · have hcompile : compile bytes = .ok value := hvalue
    refine .inl (hserve.trans ?_)
    rw [hcompile]
    rfl
  · exact hserve

theorem serve_of_refusal {compilation : Compilation WatchedFile A Int F Nat}
    {w : Watch WatchedFile A Int F} (hw : Digested path w.resource) {refusal : Refusal}
    (h : w.resource.contents = .error refusal) :
    (serve source.access compilation w).1 = .error (.unavailable ⟨path.text, refusal.reason⟩) := by
  obtain ⟨g, hg⟩ := id hw
  have hmarker := marker_of_digested hg
  rw [h] at hmarker
  rw [Source.serve_of_refusal hmarker, ← hw.path_eq]
  rfl

theorem digested_runAll (compile : Compiler A F) {w : Watch WatchedFile A Int F}
    (hw : Digested path w.resource) (steps : List (Step FileSystem.Edit)) :
    let w' := Step.runAll (source.bench change compile) w steps
    Digested path w'.resource ∧ w'.reloading = w.reloading :=
  source.runAll_keeps compile (Digested path) (fun _ => digested_marker) digested_change hw steps

/-- Along a run what is held fits the file, where all contents count that are there between its
steps. -/
theorem fits_runAll (compile : Compiler A F) {w : Watch WatchedFile A Int F}
    (hw : Digested path w.resource) (hheld : w.cache.held = none)
    {steps : List (Step FileSystem.Edit)} (single : ∀ step ∈ steps, step.Single) :
    (Step.runAll (source.bench change compile) w steps).Fits
      (Fitting (ValueOf compile)
        (contentsIn (Step.states (source.bench change compile) w steps))) := by
  refine Watch.Fits.runAll marker_looks fitting_looked (.of_none hheld) fitting_change steps ?_ ?_
  · intro inner hinner
    exact (single _ hinner).elim
  · intro u hu live value w' hreload
    obtain ⟨before, rfl⟩ := Step.exists_of_mem_states hu
    have hdigested := (digested_runAll compile hw before).1
    refine fitting_reloaded (digested_marker hdigested) ?_ hreload
    intro bytes hbytes
    rw [source_marker_contents] at hbytes
    exact mem_contentsIn hu hbytes

/-- Along any run of requests, staleness checks and marker reads, between which the file system
changes in any way, provided that no two contents that the file has between the steps have the
same digest: a request that succeeds serves the value of the present contents; if the file can be
read and opened, the outcome is what the compiler makes of them; if it cannot be read for its
marker, that is the outcome. -/
theorem digest_cache_follows_contents (compile : Compiler A F) (path : Path) (g : Generation)
    (files : FileSystem) (steps : List (Step FileSystem.Edit))
    (single : ∀ step ∈ steps, step.Single)
    (collisionless : Generation.Collisionless (contentsIn (Step.states
      (source.bench change compile) { resource := ⟨⟨path, .generation g⟩, files⟩ } steps))) :
    let bench := source.bench change compile
    let w := Step.runAll bench { resource := ⟨⟨path, .generation g⟩, files⟩ } steps
    let outcome := (serve bench.access bench.compilation w).1.map (·.value)
    (∀ value, outcome = .ok value →
      ∃ bytes, w.resource.files.contents path = .ok bytes ∧ compile bytes = .ok value) ∧
    (∀ bytes id, w.resource.files.contents path = .ok bytes →
      w.resource.files.openStream path = .ok id →
      outcome = (compile bytes).mapError CompileFailure.toLoad) ∧
    ∀ refusal, w.resource.files.contents path = .error refusal →
      outcome = .error (.unavailable ⟨path.text, refusal.reason⟩) := by
  intro bench w outcome
  obtain ⟨hdigested, free⟩ : Digested path w.resource ∧ w.reloading = false :=
    digested_runAll compile ⟨g, rfl⟩ steps
  have hfits : w.Fits (Fitting (ValueOf compile) _) := fits_runAll compile ⟨g, rfl⟩ rfl single
  have hcontents : w.resource.files.contents path = w.resource.contents := by
    rw [contents, hdigested.path_eq]
  have hrefused : ∀ refusal, w.resource.contents = .error refusal →
      outcome = .error (.unavailable ⟨path.text, refusal.reason⟩) := by
    intro refusal hrefusal
    exact congrArg (Except.map _) (serve_of_refusal hdigested hrefusal)
  have hserve : ∀ bytes, w.resource.contents = .ok bytes →
      outcome = (compile bytes).mapError CompileFailure.toLoad ∨
        ∃ refusal, w.resource.files.openStream path = .error refusal ∧
          outcome = .error (.unavailable ⟨path.text, refusal.reason⟩) := by
    intro bytes hbytes
    have hoccurs := mem_contentsIn (Step.runAll_mem_states _ steps) hbytes
    exact serve_of_fitting hfits free hdigested collisionless hbytes hoccurs
  rw [hcontents]
  refine ⟨?_, ?_, hrefused⟩
  · intro value hvalue
    cases hbytes : w.resource.contents with
    | error refusal =>
      rw [hrefused refusal hbytes] at hvalue
      cases hvalue
    | ok bytes =>
      refine ⟨bytes, rfl, ?_⟩
      rcases hserve bytes hbytes with houtcome | ⟨refusal, -, houtcome⟩
      · rwa [houtcome, mapError_eq_ok] at hvalue
      · rw [houtcome] at hvalue
        cases hvalue
  · intro bytes id hbytes hopen
    rcases hserve bytes hbytes with houtcome | ⟨refusal, hrefusal, -⟩
    · exact houtcome
    · rw [hopen] at hrefusal
      cases hrefusal

/-- An edit that only a staleness check observes is taken back. All edits have one timestamp. -/
def takenBack : List (Step FileSystem.Edit) :=
  [.change (.write template [65] 5), .request, .change (.write template [66] 5), .staleness,
    .change (.write template [65] 5)]

theorem digest_cache_follows_contents_taken_back :
    let bench := source.bench change (Except.ok : Compiler Bytes Empty)
    let start : Watch WatchedFile Bytes Int Empty :=
      { resource := ⟨⟨template, .generation {}⟩, {}⟩ }
    let w := Step.runAll bench start takenBack
    (∀ step ∈ takenBack, step.Single) ∧
    Generation.Collisionless (contentsIn (Step.states bench start takenBack)) ∧
    (serve bench.access bench.compilation w).1.map (·.value) = .ok [65] := by
  intro bench start w
  have single : ∀ step ∈ takenBack, step.Single := by simp [takenBack, Step.Single]
  let contents := contentsIn (Step.states bench start takenBack)
  have hcontents : contents = [[65], [65], [66], [66], [65]] := by decide +kernel
  have collisionless : Generation.Collisionless contents := by
    rw [hcontents]
    unfold Generation.Collisionless
    decide +kernel
  obtain ⟨-, hserve, -⟩ := digest_cache_follows_contents (.ok : Compiler Bytes Empty)
    template {} {} takenBack single collisionless
  refine ⟨single, collisionless, hserve [65] 0 ?_ ?_⟩
  · decide +kernel
  · decide +kernel

end WatchedFile

end LiveTemplates
