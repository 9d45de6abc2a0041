import LiveTemplates.Proofs.Watch.Digest
import LiveTemplates.Proofs.Watch.Moments
import LiveTemplates.Watch.Script

/-!
# Digested files that are edited while they are compiled

The generation of a file tells which contents were there when the marker was read, not which were
compiled. Contents that are written after the marker is read, are there when the stream is read,
and are taken back after the request, are never seen by a look at the file, so the generation does
not move on. What was compiled from them then passes for the value of the contents before. What is
served always belongs to the present contents, or to contents that have overwritten just these
while they were compiled.
-/

namespace LiveTemplates

namespace WatchedFile

variable {A F : Type} {path : Path} {compile : Compiler A F}

/-- In a run, while a request compiled a file that was marked by some contents, others overwrote
them, and gave a value. -/
def Overwritten (compile : Compiler A F) (start : Watch WatchedFile A Int F)
    (steps : List (Step FileSystem.Edit)) (marked : Bytes) (value : A) : Prop :=
  let bench := source.bench change compile
  ∃ before inner after w read, steps = before ++ .requestDuring inner :: after ∧
    enteredAt? bench.access (Step.runAll bench start before) = some w ∧
    w.resource.contents = .ok marked ∧
    (Step.runAll bench w inner).resource.contents = .ok read ∧ compile read = .ok value

/-- A value stands for the contents that it was compiled from, and for those that were overwritten
by them. -/
def MarkedBy (compile : Compiler A F) (start : Watch WatchedFile A Int F)
    (steps : List (Step FileSystem.Edit)) (bytes : Bytes) (value : A) : Prop :=
  ValueOf compile bytes value ∨ Overwritten compile start steps bytes value

/-- Edits in place leave a file that could be read readable, through a stream opened before as well
as at its path. -/
theorem contents_runAll_inPlace {w : Watch WatchedFile A Int F} {id : Nat} {marked read : Bytes}
    {steps : List (Step FileSystem.Edit)} (hpath : w.resource.file.path = path)
    (hmarked : w.resource.contents = .ok marked) (hopen : source.openStream w.resource = .ok id)
    (inPlace : ∀ step ∈ steps, step.InPlace path) :
    let w' := Step.runAll (source.bench change compile) w steps
    source.read id w'.resource = .ok read → w'.resource.contents = .ok read := by
  intro w' hread
  rw [contents, hpath, FileSystem.contents_eq_ok] at hmarked
  obtain ⟨hallowed, -⟩ := hmarked
  have hlookup : w'.resource.files.lookup path = .ok (.file id) :=
    lookup_runAll_inPlace hpath hopen inPlace
  have hthere := lookup_of_openStream hopen
  rw [hpath] at hthere
  obtain ⟨hfile, hsame⟩ : w'.resource.file = w.resource.file ∧
      w.resource.files.SameNames w'.resource.files := runAll_inPlace hpath hthere inPlace
  rw [contents, hfile, hpath, FileSystem.contents_eq_ok, hsame.allowed]
  exact ⟨hallowed, id, hlookup, Except.ok.inj hread⟩

/-- What a request compiles stands for the contents that its marker has seen. -/
theorem fitting_of_compiled {start u : Watch WatchedFile A Int F}
    {before after : List (Step FileSystem.Edit)} {step : Step FileSystem.Edit} {live : Int}
    {value : A}
    (hw : Digested path (Step.runAll (source.bench change compile) start before).resource)
    (inPlace : ∀ inner, step = .requestDuring inner → ∀ s ∈ inner, s.InPlace path)
    (h : Compiled source.access ((compile.reading source.access.read).after
      (step.during (source.bench change compile)))
      (Step.runAll (source.bench change compile) start before) live value u) :
    Fitting (MarkedBy compile start (before ++ step :: after))
      (contentsIn (Step.states (source.bench change compile) start (before ++ step :: after)))
      u.resource live value := by
  obtain ⟨id, v, read, hopened, hmarker, hopen, hread, hvalue, hu⟩ := h.of_stream
  obtain ⟨g, marked, hmarked, rfl, hv⟩ := marker_eq_ok (digested_marker hw) hmarker
  rw [source_marker_contents] at hmarked
  have hoccurs := mem_contentsIn (Step.runAll_mem_states_append start before (step :: after))
    hmarked
  have hfile : v.resource.file = ⟨path, .generation (g.see marked)⟩ := by rw [hv]
  have hpath : v.resource.file.path = path := by rw [hfile]
  have hthere : v.resource.contents = .ok marked := by
    rw [← hmarked, contents, contents, hpath, hw.path_eq, hv, source_marker_files]
  rw [hu]
  cases step with
  | requestDuring inner =>
    have hentered := enteredAt?_of_opened hopened
    have hin := inPlace inner rfl
    have hlater := contents_runAll_inPlace (w := v.note .compilerCalled) hpath hthere hopen hin
      hread
    have hlookup := lookup_of_openStream hopen
    rw [hpath] at hlookup
    obtain ⟨hsame, -⟩ := runAll_inPlace (w := v.note .compilerCalled) hpath hlookup hin
    have hmark := hsame.trans hfile
    refine ⟨g.see marked, congrArg TrackedFile.mark hmark, .of_seen hoccurs (.inr ?_)⟩
    exact ⟨before, inner, after, _, read, rfl, hentered, hthere, hlater, hvalue⟩
  | request | staleness | marker | contents | identity | description | change =>
    rw [source_openStream_eq_ok] at hopen
    have hstored := FileSystem.storedAt_of_openStream hthere hopen
    obtain rfl : marked = read := hstored.symm.trans (Except.ok.inj hread)
    exact ⟨g.see marked, congrArg TrackedFile.mark hfile, .of_seen hoccurs (.inl hvalue)⟩

/-- Along a run what is held stands for the contents that its marker has seen. -/
theorem fits_runAll_inPlace (compile : Compiler A F) {start : Watch WatchedFile A Int F}
    (hstart : Digested path start.resource) (hheld : start.cache.held = none)
    {steps : List (Step FileSystem.Edit)}
    (inPlace : ∀ inner, .requestDuring inner ∈ steps → ∀ step ∈ inner, step.InPlace path) :
    (Step.runAll (source.bench change compile) start steps).Fits
      (Fitting (MarkedBy compile start steps)
        (contentsIn (Step.states (source.bench change compile) start steps))) := by
  let moves : WatchedFile → WatchedFile → Prop := fun w w' => Looked w w' ∨ ∃ e, w' = change e w
  have external : (source.bench change compile).External moves :=
    source.bench_external compile (fun r => .single (.inl rfl)) fun e _ => .inr ⟨e, rfl⟩
  have hmarker : ∀ r, Relation.ReflTransGen moves r (source.marker r).2 :=
    fun r => .single (.inl rfl)
  refine Watch.Fits.runAll_of_compiled hmarker ?_ (.of_none hheld) fitting_change steps
    (fun step _ => external.during_meanwhile step) ?_
  · rintro w w' (hlook | ⟨e, he⟩) marker value h
    · exact fitting_looked w w' hlook marker value h
    · exact fitting_change e w w' he marker value h
  · rintro before step after rfl live value u hcompiled
    refine fitting_of_compiled (digested_runAll compile hstart before).1 ?_ hcompiled
    rintro inner rfl
    exact inPlace inner (by simp)

/-- Along any run of requests, staleness checks and marker reads, between which the file system
changes in any way, and during whose compilations the watched file is edited in place, provided
that no two contents that the file has between the steps have the same digest: a request that
succeeds serves the value of the present contents, or of contents that have overwritten these while
they were compiled. -/
theorem digest_cache_serves_present_or_overwriting (compile : Compiler A F) (path : Path)
    (g : Generation) (files : FileSystem) (steps : List (Step FileSystem.Edit))
    (inPlace : ∀ inner, .requestDuring inner ∈ steps → ∀ step ∈ inner, step.InPlace path)
    (collisionless : Generation.Collisionless (contentsIn (Step.states
      (source.bench change compile) { resource := ⟨⟨path, .generation g⟩, files⟩ } steps))) :
    let bench := source.bench change compile
    let start : Watch WatchedFile A Int F := { resource := ⟨⟨path, .generation g⟩, files⟩ }
    let w := Step.runAll bench start steps
    let outcome := (serve bench.access bench.compilation w).1.map (·.value)
    ∀ value, outcome = .ok value → ∃ bytes, w.resource.files.contents path = .ok bytes ∧
      (compile bytes = .ok value ∨ Overwritten compile start steps bytes value) := by
  intro bench start w outcome value hvalue
  obtain ⟨hdigested, free⟩ : Digested path w.resource ∧ w.reloading = false :=
    digested_runAll compile ⟨g, rfl⟩ steps
  have hfits : w.Fits (Fitting (MarkedBy compile start steps) _) :=
    fits_runAll_inPlace compile ⟨g, rfl⟩ rfl inPlace
  have hcontents : w.resource.files.contents path = w.resource.contents := by
    rw [contents, hdigested.path_eq]
  rw [hcontents]
  cases hbytes : w.resource.contents with
  | error refusal =>
    have hrefused : outcome = .error (.unavailable ⟨path.text, refusal.reason⟩) :=
      congrArg (Except.map _) (serve_of_refusal hdigested hbytes)
    rw [hrefused] at hvalue
    cases hvalue
  | ok bytes =>
    have hoccurs := mem_contentsIn (Step.runAll_mem_states _ steps) hbytes
    refine ⟨bytes, rfl, ?_⟩
    rcases serve_of_fits hfits free hdigested collisionless hbytes hoccurs with
      ⟨value', hmarked, hserve⟩ | hserve | ⟨refusal, -, hserve⟩
    · obtain rfl : value' = value := Except.ok.inj (hserve.symm.trans hvalue)
      exact hmarked
    · exact .inl (mapError_eq_ok.1 (hserve.symm.trans hvalue))
    · have herror : outcome = .error _ := hserve
      rw [herror] at hvalue
      cases hvalue

def overwritten : List (Step FileSystem.Edit) :=
  [.change (.write template [65] 5), .requestDuring [.change (.write template [66] 5)]]

theorem digest_cache_serves_present_or_overwriting_kept :
    let bench := source.bench change (Except.ok : Compiler Bytes Empty)
    let start : Watch WatchedFile Bytes Int Empty :=
      { resource := ⟨⟨template, .generation {}⟩, {}⟩ }
    let w := Step.runAll bench start overwritten
    (∀ inner, .requestDuring inner ∈ overwritten → ∀ step ∈ inner, step.InPlace template) ∧
    contentsIn (Step.states bench start overwritten) = [[65], [66]] ∧
    (serve bench.access bench.compilation w).1.map (·.value) = .ok [66] ∧
    ∃ bytes, w.resource.files.contents template = .ok bytes ∧
      (bytes = [66] ∨ Overwritten .ok start overwritten bytes [66]) := by
  have inPlace : ∀ inner, .requestDuring inner ∈ overwritten →
      ∀ step ∈ inner, step.InPlace template := by
    simp [overwritten, Step.InPlace, FileSystem.Edit.InPlace]
  have hcontents : contentsIn (Step.states
      (source.bench change (Except.ok : Compiler Bytes Empty))
      { resource := ⟨⟨template, .generation {}⟩, {}⟩ } overwritten) = [[65], [66]] := by
    decide +kernel
  have collisionless : Generation.Collisionless [[65], [66]] := by
    unfold Generation.Collisionless
    decide +kernel
  have hserves := digest_cache_serves_present_or_overwriting (.ok : Compiler Bytes Empty) template
    {} {} overwritten inPlace (hcontents ▸ collisionless)
  have hserve : let bench := source.bench change (Except.ok : Compiler Bytes Empty)
      let w := Step.runAll bench { resource := ⟨⟨template, .generation {}⟩, {}⟩ } overwritten
      (serve bench.access bench.compilation w).1.map (·.value) = .ok [66] :=
    toOption_eq_some.1 (by decide +kernel)
  refine ⟨inPlace, hcontents, hserve, ?_⟩
  obtain ⟨bytes, hbytes, hvalue⟩ := hserves [66] hserve
  exact ⟨bytes, hbytes, hvalue.imp_left Except.ok.inj⟩

/-- A file is overwritten while it is compiled, and then written as it was. -/
def overwrittenBack : List (Step FileSystem.Edit) :=
  overwritten ++ [.change (.write template [65] 5)]

/-- What the file answers in this run as a script: its marker does not move, and its streams deliver
the overwriting contents first. -/
def replayed : Script Int :=
  { key := template.text, cue := .answer 1, later := [], contents := [66] }

def replayedBack : List (Step (Script.Change Int)) :=
  [.request, .change { contents := some [65] }]

/-- What was compiled from the overwriting contents is served for the present ones, and nothing is
compiled. The marker is that of the first request, so a script with the same answers is served
alike. -/
theorem overwritten_snapshot_passes_for_current :
    let bench := source.bench change (Except.ok : Compiler Bytes Empty)
    let start : Watch WatchedFile Bytes Int Empty :=
      { resource := ⟨⟨template, .generation {}⟩, {}⟩ }
    let w := Step.runAll bench start overwrittenBack
    let request := serve bench.access bench.compilation w
    let script := Script.bench Script.change (Except.ok : Compiler Bytes Empty)
    let v := Step.runAll script { resource := replayed } replayedBack
    let replay := serve script.access script.compilation v
    (∀ inner, .requestDuring inner ∈ overwrittenBack → ∀ step ∈ inner, step.InPlace template) ∧
    Generation.Collisionless (contentsIn (Step.states bench start overwrittenBack)) ∧
    w.resource.files.contents template = .ok [65] ∧
    request.1.map (·.value) = .ok [66] ∧
    request.2.compiled = w.compiled ∧
    (w.cache.marker? = some 1 ∧ (liveMarker bench.access w).1 = .ok 1) ∧
    v.resource.contents = [65] ∧ replay.1.map (·.value) = .ok [66] ∧
    replay.2.compiled = v.compiled := by
  have hcontents : contentsIn (Step.states
      (source.bench change (Except.ok : Compiler Bytes Empty))
      { resource := ⟨⟨template, .generation {}⟩, {}⟩ } overwrittenBack) = [[65], [66], [65]] := by
    decide +kernel
  have collisionless : Generation.Collisionless [[65], [66], [65]] := by
    unfold Generation.Collisionless
    decide +kernel
  refine ⟨?_, hcontents ▸ collisionless, rfl, toOption_eq_some.1 ?_, ?_, ⟨?_, ?_⟩, rfl, ?_, ?_⟩
  · simp [overwrittenBack, overwritten, Step.InPlace, FileSystem.Edit.InPlace]
  · decide +kernel
  · decide +kernel
  · decide +kernel
  · exact toOption_eq_some.1 (by decide +kernel)
  · exact toOption_eq_some.1 (by decide +kernel)
  · decide +kernel

end WatchedFile

end LiveTemplates
