import LiveTemplates.Proofs.Watch.Following
import LiveTemplates.Watch.Memory

/-!
# Caches over memory

A revision stands for the contents that it was written with, and every change makes a new one. A
snapshot marked with the present revision was therefore compiled from the present contents, and
its cache answers like one that compiles at every request.
-/

namespace LiveTemplates

namespace Memory

variable {A F : Type}

def Changed (m m' : Memory) : Prop := ∃ c, m' = change c m

structure Marks (compile : Compiler A F) (m : Memory) (marker : Int) (value : A) : Prop where
  past : marker ≤ m.revision
  present : marker = m.revision → ∃ bytes, m.contents = some bytes ∧ compile bytes = .ok value

/-- What a cache would answer that compiles at every request. -/
def recompiled (compile : Compiler A F) (m : Memory) : Except (LoadFailure Int F) A :=
  match m.contents with
  | none => .error (.unavailable ⟨m.key, absentReason⟩)
  | some bytes => (compile bytes).mapError CompileFailure.toLoad

variable {compile : Compiler A F}

@[simp] theorem source_marker_snd (m : Memory) : (source.marker m).2 = m := by
  simp only [source]
  split <;> rfl

theorem source_marker_eq_ok {m m' : Memory} {live : Int} (h : source.marker m = (.ok live, m')) :
    ∃ bytes, m.contents = some bytes ∧ live = m.revision ∧ m' = m := by
  cases hcontents : m.contents with
  | none => simp [source, hcontents] at h
  | some bytes =>
    simp only [source, hcontents, Prod.mk.injEq, Except.ok.injEq] at h
    exact ⟨bytes, rfl, h.1.symm, h.2.symm⟩

theorem source_recompiled (m : Memory) : source.recompiled compile m = m.recompiled compile := by
  unfold Source.recompiled recompiled
  cases hcontents : m.contents <;> simp [source, Source.unavailable, hcontents]

theorem revision_change (c : Change) (m : Memory) : (change c m).revision = m.revision + 1 := by
  cases c <;> rfl

/-- Any change makes the revisions so far past ones. -/
theorem marks_kept : Kept Changed (Marks compile) := by
  rintro m _ ⟨c, rfl⟩ marker value ⟨past, -⟩
  have hrevision := revision_change c m
  constructor
  · omega
  · intro hpresent
    omega

/-- The stream delivers the contents of the revision that was read before, so changes that come
while it is compiled are seen later. -/
theorem marks_reloaded {m m' : Memory} {live : Int} {value : A}
    (h : source.Reloads compile Changed m live value m') : Marks compile m' live value := by
  obtain ⟨opened, stream, contents, hmarker, hopen, hmoved, hread, hcompile⟩ := h
  obtain ⟨bytes, hbytes, rfl, rfl⟩ := source_marker_eq_ok hmarker
  have hstream : bytes = stream := by simpa [source, hbytes] using hopen
  have hcontents : stream = contents := by simpa [source] using hread
  subst hstream hcontents
  exact marks_kept.star hmoved ⟨Int.le_refl _, fun _ => ⟨_, hbytes, hcompile⟩⟩

theorem recompiled_unavailable_iff (m : Memory) :
    (∃ e, m.recompiled compile = .error (.unavailable e)) ↔ m.contents = none := by
  unfold recompiled
  cases hcontents : m.contents with
  | none => simp
  | some bytes =>
    cases hcompile : compile bytes with
    | error e => cases e <;> simp [hcompile, Except.mapError, CompileFailure.toLoad]
    | ok value => simp [hcompile, Except.mapError]

theorem marker_moves (m : Memory) : Relation.ReflTransGen Changed m (source.marker m).2 := by
  rw [source_marker_snd]

theorem bench_external : (source.bench change compile).External Changed :=
  source.bench_external compile marker_moves fun c _ => ⟨c, rfl⟩

theorem marks_runAll {w : Watch Memory A Int F} (hheld : w.cache.held = none)
    (steps : List (Step Change)) :
    (Step.runAll (source.bench change compile) w steps).Fits (Marks compile) := by
  refine Watch.Fits.runAll marker_moves marks_kept (.of_none hheld) (fun c => ?_) steps ?_ ?_
  · rintro m _ rfl
    exact marks_kept _ _ ⟨c, rfl⟩
  · intro inner _ v
    exact bench_external.runAll_meanwhile v inner
  · intro u _ live value m' hreload
    rw [source_marker_snd] at hreload
    exact marks_reloaded hreload

/-- Where what is held was compiled from the contents of its revision, it is served as long as
these are the present ones. -/
theorem serve_of_marks {w : Watch Memory A Int F} (h : w.Fits (Marks compile))
    (free : w.reloading = false) :
    (serve source.access (compile.reading source.access.read) w).1.map (·.value) =
      w.resource.recompiled compile := by
  cases hcontents : w.resource.contents with
  | none =>
    have hmarker : source.marker w.resource = (.error absentReason, w.resource) := by
      simp [source, hcontents]
    rw [Source.serve_of_refusal hmarker, recompiled, hcontents]
    rfl
  | some bytes =>
    have hmarker : source.marker w.resource = (.ok w.resource.revision, w.resource) := by
      simp [source, hcontents]
    rcases h.serve_settled (by simp) free hmarker hmarker with
      ⟨m, value, hmarks, hnew, hserve⟩ | hserve
    · have hpresent : m = w.resource.revision := by
        have hle := hmarks.past
        have hnlt : ¬ m < w.resource.revision := by simpa using hnew
        omega
      obtain ⟨present, hbytes, hvalue⟩ := hmarks.present hpresent
      rw [hserve, recompiled, hbytes]
      simp [hvalue, Except.mapError]
    · rw [hserve, source_recompiled]

/-- After any run of requests, staleness checks, writes and deletions, those in the middle of a
compilation included, a request is answered as if nothing were ever held: with what the compiler
makes of the present contents, and with their absence exactly if there are none. -/
theorem memory_cache_recompiles (compile : Compiler A F) (m : Memory) (steps : List (Step Change)) :
    let bench := source.bench change compile
    let w := Step.runAll bench { resource := m } steps
    let outcome := (serve bench.access bench.compilation w).1.map (·.value)
    outcome = w.resource.recompiled compile ∧
    ((∃ e, outcome = .error (.unavailable e)) ↔ w.resource.contents = none) := by
  intro bench w outcome
  obtain ⟨log, hlog⟩ := (bench_external.runAll_meanwhile { resource := m } steps).extends
  have free : w.reloading = false := hlog.reloading
  have hfits : w.Fits (Marks compile) := marks_runAll rfl steps
  have houtcome : outcome = w.resource.recompiled compile := serve_of_marks hfits free
  rw [houtcome]
  exact ⟨rfl, recompiled_unavailable_iff w.resource⟩

end Memory

end LiveTemplates
