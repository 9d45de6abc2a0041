import LiveTemplates.Proofs.Watch.Meanwhile
import LiveTemplates.Watch.Run
import LiveTemplates.Watch.Script

/-!
# Resources and compilers outside of a cache

A resource and a compiler reach the cache that uses them through its own operations alone. What a
run of any steps does to the cache is then no more than what may happen meanwhile.
-/

namespace LiveTemplates

variable {R A M F S E : Type} [Marking M]

/-- On such a bench a marker read and a compilation touch what is held by whole requests only, and
changes move the resource. -/
structure Bench.External (moves : R → R → Prop) (bench : Bench R A M F S E) : Prop where
  marker : ∀ w, Meanwhile moves w (bench.access.marker w).2
  openStream : OnlyMoves moves bench.access.openStream
  compilation : ∀ stream w, Meanwhile moves w (bench.compilation stream w).2
  change : ∀ e r, moves r (bench.change e r)

variable {moves : R → R → Prop}

theorem liveMarker_meanwhile {access : Access R A M F S}
    (h : ∀ w, Meanwhile moves w (access.marker w).2) (w : Watch R A M F) :
    Meanwhile moves w (liveMarker access w).2 := by
  have hread : Meanwhile moves w (access.marker (w.note .markerAsked)).2 :=
    (Meanwhile.noted (e := .markerAsked) trivial (.refl w)).trans (h _)
  rcases hlive : liveMarker access w with ⟨e | live, v⟩
  · rw [liveMarker_eq_error hlive] at hread
    exact hread
  · obtain ⟨u, hu, rfl⟩ := liveMarker_eq_ok hlive
    rw [hu] at hread
    exact .noted trivial hread

theorem isOutdated_snd (access : Access R A M F S) (w : Watch R A M F) :
    (isOutdated access w).2 = (liveMarker access w).2 := by
  unfold isOutdated
  cases liveMarker access w with
  | mk outcome v =>
    cases outcome with
    | error e => rfl
    | ok live =>
      simp only [andThen_ok]
      split <;> rfl

omit [Marking M] in
theorem readContents_snd (access : Access R A M F S) (w : Watch R A M F) :
    let opened := (access.openStream (w.note .streamAsked)).2
    (readContents access w).2 = opened ∨
      (readContents access w).2 = (opened.note .streamRead).note .streamClosed := by
  intro opened
  unfold readContents
  rcases hopen : access.openStream (w.note .streamAsked) with ⟨e | stream, v⟩
  · exact .inl (by simp [opened, hopen])
  · exact .inr (by simp [opened, hopen])

theorem readContents_meanwhile {access : Access R A M F S}
    (h : OnlyMoves moves access.openStream) (w : Watch R A M F) :
    Meanwhile moves w (readContents access w).2 := by
  have hasked : Meanwhile moves w (w.note .streamAsked) := .noted trivial (.refl w)
  obtain ⟨r, hr, heq⟩ := h (w.note .streamAsked)
  have hopened := Meanwhile.moved hr hasked
  rw [← heq] at hopened
  rcases readContents_snd access w with hread | hread <;> rw [hread]
  · exact hopened
  · exact .noted trivial (.noted trivial hopened)

namespace Bench.External

variable {bench : Bench R A M F S E} (h : bench.External moves)

include h

theorem serve_meanwhile {during : Watch R A M F → Watch R A M F}
    (hduring : ∀ w, Meanwhile moves w (during w)) (w : Watch R A M F) :
    Meanwhile moves w (serve bench.access (bench.compilation.after during) w).2 :=
  .served h.marker h.openStream
    (fun stream v => (hduring v).trans (h.compilation stream (during v))) (.refl w)

omit h

mutual

/-- What a step does to a cache is no more than what may happen meanwhile. -/
theorem run_meanwhile (h : bench.External moves) (w : Watch R A M F) (step : Step E) :
    Meanwhile moves w (Step.run bench w step).2 := by
  cases step with
  | request => exact .served h.marker h.openStream h.compilation (.refl w)
  | staleness =>
    rw [Step.run, answering, isOutdated_snd]
    exact liveMarker_meanwhile h.marker w
  | marker => exact liveMarker_meanwhile h.marker w
  | contents => exact readContents_meanwhile h.openStream w
  | identity => exact .refl w
  | description => exact .refl w
  | change e => exact .moved (.single (h.change e w.resource)) (.refl w)
  | requestDuring steps => exact h.serve_meanwhile (fun v => runAll_meanwhile h v steps) w

theorem runAll_meanwhile (h : bench.External moves) (w : Watch R A M F) (steps : List (Step E)) :
    Meanwhile moves w (Step.runAll bench w steps) := by
  cases steps with
  | nil => exact .refl w
  | cons step rest => exact (run_meanwhile h w step).trans (runAll_meanwhile h _ rest)

end

end Bench.External

section Sources

omit [Marking M]

theorem Compiler.reading_snd (compile : Compiler A F)
    (read : S → Watch R A M F → Except (LoadFailure M F) Bytes) (stream : S) (w : Watch R A M F) :
    (compile.reading read stream w).2 = w.note .streamRead := by
  unfold Compiler.reading
  dsimp only
  split <;> rfl

theorem Source.access_marker (source : Source R M S) (w : Watch R A M F) :
    source.access.marker w =
      ((source.marker w.resource).1.mapError (source.unavailable (source.marker w.resource).2),
        { w with resource := (source.marker w.resource).2 }) := by
  simp only [Source.access]
  rcases source.marker w.resource with ⟨e | m, r⟩ <;> rfl

theorem Source.access_openStream (source : Source R M S) (w : Watch R A M F) :
    source.access.openStream w =
      ((source.openStream w.resource).mapError (source.unavailable w.resource), w) := by
  simp only [Source.access]
  cases source.openStream w.resource <;> rfl

end Sources

theorem Compiler.reading_meanwhile (compile : Compiler A F)
    (read : S → Watch R A M F → Except (LoadFailure M F) Bytes) (stream : S) (w : Watch R A M F) :
    Meanwhile moves w (compile.reading read stream w).2 := by
  rw [Compiler.reading_snd]
  exact .noted trivial (.refl w)

/-- A source touches nothing but its resource, so its compiler decides what else is touched. -/
theorem Source.external (source : Source R M S) {change : E → R → R}
    {compilation : Compilation R A M F S}
    (hmarker : ∀ r, Relation.ReflTransGen moves r (source.marker r).2)
    (hcompile : ∀ stream w, Meanwhile moves w (compilation stream w).2)
    (hchange : ∀ e r, moves r (change e r)) :
    Bench.External moves ⟨source.access, source.identity, change, compilation⟩ where
  marker w := by
    rw [Source.access_marker]
    exact .moved (hmarker w.resource) (.refl w)
  openStream w := ⟨w.resource, .refl, by rw [Source.access_openStream]⟩
  compilation := hcompile
  change := hchange

theorem Source.bench_external (source : Source R M S) {change : E → R → R}
    (compile : Compiler A F) (hmarker : ∀ r, Relation.ReflTransGen moves r (source.marker r).2)
    (hchange : ∀ e r, moves r (change e r)) :
    (source.bench change compile).External moves :=
  source.external hmarker (compile.reading_meanwhile source.access.read) hchange

def AnyMove (_ _ : R) : Prop := True

namespace Script

omit [Marking M] in
theorem openStream_onlyMoves {moves : Script M → Script M → Prop} :
    OnlyMoves moves (openStream (M := M) (A := A) (F := F)) := by
  intro w
  refine ⟨w.resource, .refl, ?_⟩
  unfold openStream
  split <;> rfl

/-- Callers that are let in before a scripted marker is answered make whole requests, in which
others may be let in again. -/
theorem marker_meanwhile {compilation : Compilation (Script M) A M F Stream}
    (h : ∀ stream w, Meanwhile AnyMove w (compilation stream w).2) (depth : Nat)
    (w : Watch (Script M) A M F) : Meanwhile AnyMove w (marker compilation depth w).2 := by
  induction depth generalizing w with
  | zero => exact .refl w
  | succ depth ih =>
    rcases htake : w.resource.take with ⟨cue, script⟩
    have htaken : Meanwhile AnyMove w { w with resource := script } :=
      .moved (.single trivial) (.refl w)
    simp only [marker, htake]
    cases cue with
    | answer m => exact htaken
    | unavailable reason => exact htaken
    | afterOther m => exact .noted trivial (.served ih openStream_onlyMoves h htaken)

theorem external (change : E → Script M → Script M)
    {compilation : Compilation (Script M) A M F Stream}
    (hcompile : ∀ stream w, Meanwhile AnyMove w (compilation stream w).2) :
    Bench.External AnyMove ⟨access compilation, key, change, compilation⟩ where
  marker w := marker_meanwhile hcompile w.resource.depth w
  openStream := openStream_onlyMoves
  compilation := hcompile
  change _ _ := trivial

theorem bench_external (change : E → Script M → Script M) (compile : Compiler A F) :
    (bench change compile).External AnyMove :=
  external change (compile.reading_meanwhile readStream)

end Script

end LiveTemplates
