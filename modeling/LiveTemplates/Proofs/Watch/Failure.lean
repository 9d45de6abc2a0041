import LiveTemplates.Proofs.Watch.External

/-!
# Failures leave no trace

Whatever fails in a request, its failure reaches the caller as it was raised. What is held is what
was held when the first marker was read, an opened stream is closed, the lock is free, and later
requests go as if the failed one had not been made.
-/

namespace LiveTemplates

variable {R A M F S E : Type}

section LogBlind

def Watch.preceded (w : Watch R A M F) (log : List (Event A M F)) : Watch R A M F :=
  { w with events := log ++ w.events }

def LogBlind {α : Type} (step : Watch R A M F → α × Watch R A M F) : Prop :=
  ∀ log w, step (w.preceded log) = ((step w).1, (step w).2.preceded log)

theorem Watch.preceded_note (w : Watch R A M F) (log : List (Event A M F)) (e : Event A M F) :
    (w.preceded log).note e = (w.note e).preceded log := by
  simp [Watch.preceded, Watch.note]

namespace LogBlind

variable {α β : Type}

theorem andThen {step : Watch R A M F → Except (LoadFailure M F) α × Watch R A M F}
    {next : α → Watch R A M F → Except (LoadFailure M F) β × Watch R A M F} (h : LogBlind step)
    (hnext : ∀ a, LogBlind (next a)) :
    LogBlind fun w => LiveTemplates.andThen (step w) next := by
  intro log w
  dsimp only
  rw [h log w]
  rcases step w with ⟨e | a, v⟩
  · rfl
  · exact hnext a log v

theorem answered (a : Except (LoadFailure M F) α) (e : Event A M F) :
    LogBlind fun w : Watch R A M F => (a, w.note e) := by
  intro log w
  simp only [Watch.preceded_note]

theorem noted {step : Watch R A M F → α × Watch R A M F} (h : LogBlind step) (e : Event A M F) :
    LogBlind fun w => step (w.note e) := by
  intro log w
  simp only [Watch.preceded_note]
  exact h log (w.note e)

theorem exclusively {step : Watch R A M F → Except (LoadFailure M F) α × Watch R A M F}
    (h : LogBlind step) : LogBlind fun w => w.exclusively step := by
  intro log w
  dsimp only
  cases free : w.reloading with
  | true => simp [Watch.exclusively, Watch.preceded, free]
  | false =>
    have hlocked : step (w.preceded log).locked = _ := h log w.locked
    rw [Watch.exclusively_of_free free, Watch.exclusively_of_free (w := w.preceded log) free,
      hlocked]
    rfl

variable [Marking M]

theorem freshOr (live : M)
    {reload : Watch R A M F → Except (LoadFailure M F) (Artifact A) × Watch R A M F}
    (h : LogBlind reload) : LogBlind fun w => w.freshOr live reload := by
  intro log w
  have hheld : (w.preceded log).cache.held = w.cache.held := rfl
  dsimp only
  simp only [Watch.freshOr, hheld]
  split
  · rfl
  · rfl
  · exact h log w

end LogBlind

variable {access : Access R A M F S} {compilation : Compilation R A M F S}

theorem liveMarker_logBlind (h : LogBlind access.marker) : LogBlind (liveMarker access) :=
  (h.noted .markerAsked).andThen fun live => .answered (.ok live) (.markerAnswered live)

theorem compileStream_logBlind (h : ∀ stream, LogBlind (compilation stream)) (stream : S) :
    LogBlind (compileStream compilation stream) := by
  refine ((h stream).noted .compilerCalled).andThen ?_
  intro value log w
  simp [Watch.register, Watch.preceded, Watch.note]

theorem reload_logBlind (ho : LogBlind access.openStream)
    (hc : ∀ stream, LogBlind (compilation stream)) (marker : M) :
    LogBlind (reload access compilation marker) := by
  refine (ho.noted .streamAsked).andThen ?_
  intro stream log w
  simp only [compileStream_logBlind hc stream log w, Watch.preceded_note]
  rcases compileStream compilation stream w with ⟨e | artifact, v⟩
  · rfl
  · simp [Watch.hold, Watch.preceded, Watch.note]

variable [Marking M]

theorem serve_logBlind (hm : LogBlind access.marker) (ho : LogBlind access.openStream)
    (hc : ∀ stream, LogBlind (compilation stream)) : LogBlind (serve access compilation) :=
  have hreload : LogBlind (reloadIfStale access compilation) :=
    (liveMarker_logBlind hm).andThen fun live => (reload_logBlind ho hc live).freshOr live
  (liveMarker_logBlind hm).andThen fun live => hreload.exclusively.freshOr live

omit [Marking M] in
theorem Compiler.reading_logBlind (compile : Compiler A F)
    {read : S → Watch R A M F → Except (LoadFailure M F) Bytes}
    (h : ∀ stream log w, read stream (w.preceded log) = read stream w) (stream : S) :
    LogBlind (compile.reading read stream) := by
  intro log w
  unfold Compiler.reading
  dsimp only
  rw [Watch.preceded_note, h stream log (w.note .streamRead)]
  cases read stream (w.note .streamRead) <;> rfl

omit [Marking M] in
theorem Script.openStream_logBlind : LogBlind (Script.openStream (M := M) (A := A) (F := F)) := by
  intro log w
  unfold Script.openStream
  cases hfault : w.resource.openFault <;> simp [Watch.preceded, hfault]

/-- The requests that a scripted marker waits for do not look at the log either. -/
theorem Script.marker_logBlind {compilation : Compilation (Script M) A M F Script.Stream}
    (h : ∀ stream, LogBlind (compilation stream)) (depth : Nat) :
    LogBlind (Script.marker compilation depth) := by
  induction depth with
  | zero => intro log w; rfl
  | succ depth ih =>
    intro log w
    have htake : (w.preceded log).resource.take = w.resource.take := rfl
    unfold Script.marker
    rw [htake]
    rcases w.resource.take with ⟨m | reason | m, script⟩
    · rfl
    · rfl
    · have hother : LogBlind (serve ⟨Script.marker compilation depth, Script.openStream,
          Script.readStream⟩ compilation) := serve_logBlind ih Script.openStream_logBlind h
      let moved : Watch (Script M) A M F := { w with resource := script }
      have hmoved : ({ w.preceded log with resource := script } : Watch (Script M) A M F) =
        moved.preceded log := rfl
      dsimp only
      rw [hmoved, hother log moved, Watch.preceded_note]

end LogBlind

variable [Marking M]

section Requests

variable {access : Access R A M F S} {compilation : Compilation R A M F S}

theorem held_of_serve_ok {w w' : Watch R A M F} {a : Artifact A}
    (h : serve access compilation w = (.ok a, w')) :
    ∃ s, w'.cache.held = some s ∧ s.artifact = a := by
  have hcourse := serve_course access compilation w
  rw [h] at hcourse
  cases hcourse with
  | fresh hlive hfresh =>
    obtain ⟨s, hs, -, ha⟩ := Snapshot.freshAt_eq_some hfresh
    exact ⟨s, hs, ha⟩
  | overtaken hw free hlive hfresh =>
    obtain ⟨s, hs, -, ha⟩ := Snapshot.freshAt_eq_some hfresh
    exact ⟨s, hs, ha⟩
  | reloaded hcompiled => exact ⟨_, rfl, rfl⟩

/-- If the lock is free when the first look ends, a request fails where one of its steps fails. -/
theorem serve_eq_error_iff {w : Watch R A M F} {e : LoadFailure M F}
    (free : (liveMarker access w).2.reloading = false) :
    (serve access compilation w).1 = .error e ↔
      ∃ stage v, FailsAt access compilation w stage e v := by
  constructor
  · intro h
    have hcourse := serve_course access compilation w
    rcases hserve : serve access compilation w with ⟨outcome, w'⟩
    rw [hserve] at h hcourse
    subst h
    cases hcourse with
    | failed hfails => exact ⟨_, _, hfails⟩
    | busy hw locked =>
      obtain ⟨live, hlive, -⟩ := hw
      simp [hlive, locked] at free
  · rintro ⟨stage, v, hfails⟩
    rw [hfails.serve_eq]

end Requests

/-- A state as it would be, had the resource moved and the snapshots in the log `others` been
swapped in. -/
def Watch.advanced (w : Watch R A M F) (r : R) (others : List (Event A M F)) : Watch R A M F :=
  { w with
    resource := r
    cache := w.cache.replay others
    compiled := w.compiled + (snapshots others).length }

/-- A request that failed between `w` and `w'`. While it read the marker for the first time, other
callers left `others` in the log; the rest is its own. -/
structure FailedCleanly (bench : Bench R A M F S E) (w w' : Watch R A M F)
    (others own : List (Event A M F)) : Prop where
  first : (bench.access.marker (w.note .markerAsked)).2.events =
    w.events ++ .markerAsked :: others
  events : w'.events = w.events ++ .markerAsked :: others ++ own
  cache : w'.cache = w.cache.replay others
  unlocked : w'.reloading = false
  uncompiled : artifacts own = []
  /-- A stream that was opened is closed at the end. -/
  closed : ∀ live stream u, Opened bench.access w live stream u →
    ∃ during, (∀ e ∈ during, e.IsAside) ∧
      w'.events = u.events ++ .compilerCalled :: during ++ [.streamClosed]
  /-- If staleness was confirmed, what is held is still stale at the marker that was read. -/
  stale : ∀ live u, Confirmed bench.access w live u →
    Snapshot.freshAt (F := F) w'.cache.held live = .ok none
  /-- The next request, whatever its resource and its compiler do, goes as it would have gone
  before the failed one, with the resource as it is now. -/
  resumes : ∀ {S' : Type} (access : Access R A M F S') (compilation : Compilation R A M F S'),
    LogBlind access.marker → LogBlind access.openStream →
    (∀ stream, LogBlind (compilation stream)) →
    ∃ outcome, ∃ u : Watch R A M F,
      serve access compilation w' = (outcome, u.preceded w'.events) ∧
      serve access compilation (w.advanced w'.resource others) = (outcome, u.preceded w.events)

section Runs

variable {bench : Bench R A M F S E} (external : bench.External AnyMove)

include external

theorem Bench.External.liveMarker_reloading (w : Watch R A M F) :
    (liveMarker bench.access w).2.reloading = w.reloading := by
  obtain ⟨log, h⟩ := (liveMarker_meanwhile external.marker w).extends
  exact h.reloading

theorem Bench.External.confirmed_cache {w u : Watch R A M F} {live : M}
    (h : Confirmed bench.access w live u) :
    u.cache = (bench.access.marker (w.note .markerAsked)).2.cache := by
  obtain ⟨w₁, ⟨first, hfirst, -⟩, -, hlive, -⟩ := h
  obtain ⟨v, hv, rfl⟩ := liveMarker_eq_ok hfirst
  obtain ⟨second, -, hidle⟩ := locked_liveMarker_idle (fun v => (external.marker v).extends) hlive
  rw [hidle.cache, hv]
  rfl

theorem Bench.External.closed_of_failed {w v u : Watch R A M F} {stage : Stage}
    {e : LoadFailure M F} (h : FailsAt bench.access bench.compilation w stage e v) {live : M}
    {stream : S} (hopened : Opened bench.access w live stream u) :
    ∃ during, (∀ e ∈ during, e.IsAside) ∧
      (v.leaving stage).events = u.events ++ .compilerCalled :: during ++ [.streamClosed] := by
  rcases hcompile : bench.compilation stream (u.note .compilerCalled) with ⟨e' | value, u'⟩
  · have hat : FailsAt bench.access bench.compilation w .compilation e' u' :=
      .compilation hopened hcompile
    have hstate : v.leaving stage = u'.leaving .compilation :=
      congrArg Prod.snd (h.serve_eq.symm.trans hat.serve_eq)
    obtain ⟨during, haside, hduring⟩ := compilation_aside (fun v => (external.marker v).extends)
      external.openStream (fun stream v => (external.compilation stream v).extends) hopened hcompile
    refine ⟨during, haside, ?_⟩
    rw [hstate]
    simp [Watch.leaving, Watch.unlocked, Watch.note, hduring.events]
  · have hok := serve_of_compiled ⟨stream, u, hopened, hcompile⟩
    rw [h.serve_eq] at hok
    cases hok

theorem Bench.External.failedCleanly {w v : Watch R A M F} {stage : Stage} {e : LoadFailure M F}
    (free : w.reloading = false)
    (h : FailsAt bench.access bench.compilation w stage e v) :
    ∃ others own, FailedCleanly bench w (v.leaving stage) others own := by
  have hm := fun v => (external.marker v).extends
  have hc := fun stream v => (external.compilation stream v).extends
  obtain ⟨others, hothers⟩ := marker_extends (w := w) hm rfl
  obtain ⟨own, hown, -⟩ := h.idle hm external.openStream hc
  have hcache : (v.leaving stage).cache = w.cache.replay others := hown.cache.trans hothers.cache
  have hcompiled : (v.leaving stage).compiled = w.compiled + (snapshots others).length :=
    hown.compiled.trans hothers.compiled
  have hreloading : (v.leaving stage).reloading = false :=
    hown.reloading.trans (hothers.reloading.trans free)
  refine ⟨others, own, hothers.events, ?_, hcache, hreloading, hown.uncompiled, ?_, ?_, ?_⟩
  · rw [hown.events, hothers.events]
  · intro live stream u hopened
    exact external.closed_of_failed h hopened
  · intro live u hconf
    obtain ⟨-, -, -, -, stale⟩ := id hconf
    rwa [hown.cache, ← external.confirmed_cache hconf]
  · intro S' access compilation hmarker hopen hcompile
    have hblind := serve_logBlind hmarker hopen hcompile
    -- The two states that go on are one state without a log, preceded by different logs.
    let u : Watch R A M F := { v.leaving stage with events := [] }
    have hlater : v.leaving stage = u.preceded (v.leaving stage).events := by
      simp [u, Watch.preceded]
    have hbefore : w.advanced (v.leaving stage).resource others = u.preceded w.events := by
      simp [u, Watch.preceded, Watch.advanced, hcache, hcompiled, hreloading, free]
    refine ⟨(serve access compilation u).1, (serve access compilation u).2, ?_, ?_⟩
    · have hgoes := hblind (v.leaving stage).events u
      rwa [← hlater] at hgoes
    · rw [hbefore]
      exact hblind _ u

end Runs

/-- Over any resource and any compiler, from any state that a run reaches: a request fails with
exactly what the step raised that fails; the failure leaves no trace; as soon as no step fails any
more, a request succeeds, with the value that the compiler gives then; and what a cache serves
that has never compiled was compiled meanwhile. -/
theorem failed_requests_leave_no_trace (bench : Bench R A M F S E)
    (external : bench.External AnyMove) (r : R) (steps : List (Step E)) :
    let w := Step.runAll bench { resource := r } steps
    let request := serve bench.access bench.compilation
    let fails := FailsAt bench.access bench.compilation
    (∀ e, (request w).1 = .error e ↔ ∃ stage v, fails w stage e v) ∧
    (∀ e w', request w = (.error e, w') →
      (∃ others own, FailedCleanly bench w w' others own) ∧
      ∀ r', let later := { w' with resource := r' }
        ((∀ stage e v, ¬ fails later stage e v) → ∃ a, (request later).1 = .ok a) ∧
        ∀ live value u, Compiled bench.access bench.compilation later live value u →
          request later = (.ok ⟨u.compiled, value⟩, u.swap live value)) ∧
    (w.cache.held = none → ∀ a, (request w).1 = .ok a →
      ∃ log, (request w).2.events = w.events ++ log ∧ .compiled a ∈ log) := by
  intro w request fails
  obtain ⟨before, hbefore⟩ := (external.runAll_meanwhile { resource := r } steps).extends
  have free : w.reloading = false := hbefore.reloading
  have raises : ∀ v : Watch R A M F, v.reloading = false → ∀ e,
      (request v).1 = .error e ↔ ∃ stage u, fails v stage e u :=
    fun v hv e => serve_eq_error_iff ((external.liveMarker_reloading v).trans hv)
  refine ⟨raises w free, ?_, ?_⟩
  · intro e w' hfailed
    obtain ⟨stage, v, hfails⟩ := (raises w free e).1 (congrArg Prod.fst hfailed)
    obtain rfl : v.leaving stage = w' :=
      congrArg Prod.snd (hfails.serve_eq.symm.trans hfailed)
    obtain ⟨others, own, hclean⟩ := external.failedCleanly free hfails
    refine ⟨⟨others, own, hclean⟩, ?_⟩
    intro r' later
    refine ⟨?_, fun live value u h => serve_of_compiled h⟩
    intro hnone
    rcases hlater : (request later).1 with e' | a
    · obtain ⟨stage', u, hfails'⟩ := (raises later hclean.unlocked e').1 hlater
      exact absurd hfails' (hnone stage' e' u)
    · exact ⟨a, rfl⟩
  · intro hheld a ha
    rcases hserve : request w with ⟨outcome, w'⟩
    rw [hserve] at ha
    obtain rfl : outcome = .ok a := ha
    obtain ⟨s, hs, rfl⟩ := held_of_serve_ok hserve
    obtain ⟨log, hlog⟩ := (external.run_meanwhile w .request).extends
    rw [show (Step.run bench w .request).2 = w' from congrArg Prod.snd hserve] at hlog
    exact ⟨log, hlog.events, hlog.compiled_of_held hheld hs⟩

/-- While the first caller waits for the marker 5, another one reloads at the marker 3; the next
marker is a text. -/
def overtaken : Script Marker where
  key := Text.ofString "memory"
  cue := .afterOther (.number (.int 5))
  later := [.answer (.number (.int 3)), .answer (.number (.int 3)),
    .answer (.text (Text.ofString "x"))]
  contents := [65]

theorem failed_requests_leave_no_trace_overtaken :
    let bench := Script.bench (Script.change (M := Marker)) (Except.ok : Compiler Bytes Empty)
    let w : Watch (Script Marker) Bytes Marker Empty := { resource := overtaken }
    let e := .incomparable (.number (.int 3)) (.text (Text.ofString "x"))
    bench.External AnyMove ∧
    (LogBlind bench.access.marker ∧ LogBlind bench.access.openStream ∧
      ∀ stream, LogBlind (bench.compilation stream)) ∧
    (serve bench.access bench.compilation w).1 = .error e ∧
    ∃ others own, FailedCleanly bench w (serve bench.access bench.compilation w).2 others own ∧
      snapshots others = [⟨⟨0, [65]⟩, .number (.int 3)⟩] := by
  intro bench w e
  have external := Script.bench_external (Script.change (M := Marker)) (.ok : Compiler Bytes Empty)
  have hread : ∀ stream, LogBlind (Compiler.reading (.ok : Compiler Bytes Empty)
      (Script.readStream (M := Marker)) stream) :=
    Compiler.reading_logBlind (.ok : Compiler Bytes Empty) fun _ _ _ => rfl
  refine ⟨external, ⟨?_, Script.openStream_logBlind, hread⟩, ?_⟩
  · intro log v
    exact Script.marker_logBlind hread v.resource.depth log v
  · have hfailed : (serve bench.access bench.compilation w).1 = .error e := rfl
    have hnested : snapshots (bench.access.marker (w.note .markerAsked)).2.events =
      [⟨⟨0, [65]⟩, .number (.int 3)⟩] := rfl
    obtain ⟨-, clean, -⟩ := failed_requests_leave_no_trace bench external overtaken []
    obtain ⟨⟨others, own, h⟩, -⟩ := clean e (serve bench.access bench.compilation w).2
      (Prod.ext hfailed rfl)
    have hfirst : (bench.access.marker (w.note .markerAsked)).2.events = .markerAsked :: others :=
      h.first
    rw [hfirst] at hnested
    exact ⟨hfailed, others, own, h, hnested⟩

end LiveTemplates
