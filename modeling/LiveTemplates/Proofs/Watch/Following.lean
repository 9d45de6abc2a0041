import LiveTemplates.Proofs.Watch.Reloading

/-!
# Snapshots that fit their resource

A source alone changes what is held by reloads of its cache. If all that may happen to a resource
keeps the snapshots that fit it, and every reload leaves one that fits, then what is held fits the
resource at any time. A request that is not disturbed then serves a snapshot that fits, or else
what the compiler gives now.
-/

namespace LiveTemplates

variable {R A M F S E : Type}

def Watch.Fits (fits : R → M → A → Prop) (w : Watch R A M F) : Prop :=
  ∀ s, w.cache.held = some s → fits w.resource s.marker s.artifact.value

theorem Watch.Fits.of_none {fits : R → M → A → Prop} {w : Watch R A M F}
    (h : w.cache.held = none) : w.Fits fits := by
  intro s hs
  rw [h] at hs
  cases hs

def Kept (moves : R → R → Prop) (fits : R → M → A → Prop) : Prop :=
  ∀ r r', moves r r' → ∀ m a, fits r m a → fits r' m a

variable {moves : R → R → Prop} {fits : R → M → A → Prop}

theorem Kept.star (kept : Kept moves fits) {r r' : R} (h : Relation.ReflTransGen moves r r')
    {m : M} {a : A} (hfits : fits r m a) : fits r' m a := by
  induction h with
  | refl => exact hfits
  | tail _ hmove ih => exact kept _ _ hmove m a ih

theorem Watch.Fits.idle {w w' : Watch R A M F} {log : List (Event A M F)} (h : w.Fits fits)
    (kept : Kept moves fits) (hidle : Idle moves w w' log) : w'.Fits fits := by
  intro s hs
  rw [hidle.cache] at hs
  exact kept.star hidle.resource (h s hs)

section States

variable [Marking M] {bench : Bench R A M F S E}

def Step.states (bench : Bench R A M F S E) (w : Watch R A M F) :
    List (Step E) → List (Watch R A M F)
  | [] => [w]
  | step :: rest => w :: Step.states bench (Step.run bench w step).2 rest

theorem Step.runAll_mem_states_append (w : Watch R A M F) (before after : List (Step E)) :
    Step.runAll bench w before ∈ Step.states bench w (before ++ after) := by
  induction before generalizing w with
  | nil => cases after <;> simp [Step.states, Step.runAll]
  | cons step rest ih =>
    rw [List.cons_append, Step.states, Step.runAll]
    exact List.mem_cons_of_mem _ (ih _)

theorem Step.runAll_mem_states (w : Watch R A M F) (steps : List (Step E)) :
    Step.runAll bench w steps ∈ Step.states bench w steps := by
  have h : Step.runAll bench w steps ∈ Step.states bench w (steps ++ []) :=
    Step.runAll_mem_states_append w steps []
  rwa [List.append_nil] at h

def Step.during (bench : Bench R A M F S E) : Step E → Watch R A M F → Watch R A M F
  | .requestDuring steps => fun w => Step.runAll bench w steps
  | _ => id

theorem Bench.External.during_meanwhile (external : bench.External moves) (step : Step E)
    (w : Watch R A M F) : Meanwhile moves w (step.during bench w) := by
  cases step with
  | requestDuring steps => exact external.runAll_meanwhile w steps
  | _ => exact .refl w

theorem Step.exists_of_mem_states {w u : Watch R A M F} {steps : List (Step E)}
    (h : u ∈ Step.states bench w steps) : ∃ before, u = Step.runAll bench w before := by
  induction steps generalizing w with
  | nil =>
    rw [Step.states, List.mem_singleton] at h
    exact ⟨[], h⟩
  | cons step rest ih =>
    rw [Step.states, List.mem_cons] at h
    rcases h with rfl | h
    · exact ⟨[], rfl⟩
    · obtain ⟨before, hbefore⟩ := ih h
      exact ⟨step :: before, hbefore⟩

end States

section Sources

variable {source : Source R M S} {compile : Compiler A F} {change : E → R → R}

/-- Every reload that looks at `r` under the lock leaves a snapshot that fits. -/
def Source.Refits (source : Source R M S) (compile : Compiler A F) (moves : R → R → Prop)
    (fits : R → M → A → Prop) (r : R) : Prop :=
  ∀ live value r', source.Reloads compile moves r live value r' → fits r' live value

variable [Marking M] (hmarker : ∀ r, Relation.ReflTransGen moves r (source.marker r).2)
variable (kept : Kept moves fits)

include hmarker kept

/-- What is held after a request fits the resource as the request leaves it, whatever happens
while it compiles, if what a reload leaves does. -/
theorem Watch.Fits.serve {during : Watch R A M F → Watch R A M F}
    (hduring : ∀ w, Meanwhile moves w (during w)) {w : Watch R A M F} (h : w.Fits fits)
    (hcompiled : ∀ live value u,
      Compiled source.access ((compile.reading source.access.read).after during) w live value u →
      fits u.resource live value) :
    (serve source.access ((compile.reading source.access.read).after during) w).2.Fits fits := by
  have hc : ∀ stream v, ∃ log, Extends moves v
      ((compile.reading source.access.read).after during stream v).2 log := fun stream v =>
    ((hduring v).trans (compile.reading_meanwhile source.access.read stream (during v))).extends
  rcases serve_idle_or_compiled (Source.marker_onlyMoves hmarker) Source.openStream_onlyMoves hc w
    with ⟨log, hidle⟩ | ⟨live, value, u, hcompiled', heq⟩
  · exact h.idle kept hidle
  · rw [heq]
    intro s hs
    obtain rfl : (⟨⟨u.compiled, value⟩, live⟩ : Snapshot A M) = s := Option.some.inj hs
    exact hcompiled live value u hcompiled'

/-- A step keeps what is held fitting, given that what a reload of its request leaves fits, and
that changes and whatever happens while it compiles keep what fits. -/
theorem Watch.Fits.run_of_compiled {w : Watch R A M F} (h : w.Fits fits)
    (hchange : ∀ e, Kept (fun r r' => r' = change e r) fits) (step : Step E)
    (hduring : ∀ v, Meanwhile moves v (step.during (source.bench change compile) v))
    (hcompiled : ∀ live value u,
      Compiled source.access ((compile.reading source.access.read).after
        (step.during (source.bench change compile))) w live value u → fits u.resource live value) :
    (Step.run (source.bench change compile) w step).2.Fits fits := by
  have hlook := liveMarker_idle (A := A) (F := F) (Source.marker_onlyMoves hmarker) w
  cases step with
  | request => exact h.serve hmarker kept hduring hcompiled
  | requestDuring steps => exact h.serve hmarker kept hduring hcompiled
  | staleness =>
    obtain ⟨log, hidle⟩ := hlook
    rw [Step.run, answering, isOutdated_snd]
    exact h.idle kept hidle
  | marker =>
    obtain ⟨log, hidle⟩ := hlook
    exact h.idle kept hidle
  | contents =>
    have hopen : OnlyMoves moves (source.access (A := A) (F := F)).openStream :=
      Source.openStream_onlyMoves
    obtain ⟨log, hidle⟩ := readContents_idle hopen w
    exact h.idle kept hidle
  | identity => exact h
  | description => exact h
  | change e =>
    intro s hs
    exact hchange e _ _ rfl _ _ (h s hs)

/-- Along a run what is held goes on fitting, given that what the reloads on its way leave fits. -/
theorem Watch.Fits.runAll_of_compiled {w : Watch R A M F} (h : w.Fits fits)
    (hchange : ∀ e, Kept (fun r r' => r' = change e r) fits) (steps : List (Step E))
    (hduring : ∀ step ∈ steps, ∀ v,
      Meanwhile moves v (step.during (source.bench change compile) v))
    (hcompiled : ∀ before step after, steps = before ++ step :: after → ∀ live value u,
      Compiled source.access ((compile.reading source.access.read).after
        (step.during (source.bench change compile)))
        (Step.runAll (source.bench change compile) w before) live value u →
      fits u.resource live value) :
    (Step.runAll (source.bench change compile) w steps).Fits fits := by
  induction steps generalizing w with
  | nil => exact h
  | cons step rest ih =>
    have hstep : (Step.run (source.bench change compile) w step).2.Fits fits :=
      h.run_of_compiled hmarker kept hchange step (hduring step List.mem_cons_self)
        (hcompiled [] step rest rfl)
    refine ih hstep (fun later hlater => hduring later (List.mem_cons_of_mem _ hlater)) ?_
    rintro before later after rfl
    exact hcompiled (step :: before) later after rfl

/-- Along a run what is held goes on fitting, given that every reload leaves what fits. -/
theorem Watch.Fits.runAll {w : Watch R A M F} (h : w.Fits fits)
    (hchange : ∀ e, Kept (fun r r' => r' = change e r) fits) (steps : List (Step E))
    (hnested : ∀ inner, .requestDuring inner ∈ steps →
      ∀ v, Meanwhile moves v (Step.runAll (source.bench change compile) v inner))
    (hreload : ∀ u ∈ Step.states (source.bench change compile) w steps,
      source.Refits compile moves fits (source.marker u.resource).2) :
    (Step.runAll (source.bench change compile) w steps).Fits fits := by
  have hduring : ∀ step ∈ steps, ∀ v,
      Meanwhile moves v (step.during (source.bench change compile) v) := by
    intro step hstep v
    cases step with
    | requestDuring inner => exact hnested inner hstep v
    | _ => exact .refl v
  refine h.runAll_of_compiled hmarker kept hchange steps hduring ?_
  rintro before step after rfl live value u hcompiled
  exact hreload _ (Step.runAll_mem_states_append w before (step :: after)) live value u.resource
    (hcompiled.reloads (hduring step (by simp)))

omit hmarker kept

/-- What marker reads and changes keep holds of the resource all along a run, and the lock is given
back. -/
theorem Source.runAll_keeps (source : Source R M S) (compile : Compiler A F) (keeps : R → Prop)
    (hmarker : ∀ r, keeps r → keeps (source.marker r).2)
    (hchange : ∀ e r, keeps r → keeps (change e r)) {w : Watch R A M F} (h : keeps w.resource)
    (steps : List (Step E)) :
    let w' := Step.runAll (source.bench change compile) w steps
    keeps w'.resource ∧ w'.reloading = w.reloading := by
  intro w'
  have external : (source.bench change compile).External fun r r' => keeps r → keeps r' :=
    source.bench_external compile (fun r => .single (hmarker r)) hchange
  obtain ⟨log, hlog⟩ := (external.runAll_meanwhile w steps).extends
  have hmoves : ∀ r', Relation.ReflTransGen (fun r r' => keeps r → keeps r') w.resource r' →
      keeps r' := by
    intro r' hr
    induction hr with
    | refl => exact h
    | tail _ hmove ih => exact hmove ih
  exact ⟨hmoves _ hlog.resource, hlog.reloading⟩

/-- Where markers can always be compared, a request that finds its source settled serves a value
that fits, with a marker that is not older than the live one, or recompiles. -/
theorem Watch.Fits.serve_settled {w : Watch R A M F} (h : w.Fits fits)
    (comparable : ∀ m n : M, Marking.older? m n ≠ none) {live : M} {r : R}
    (free : w.reloading = false) (hfirst : source.marker w.resource = (.ok live, r))
    (hsecond : source.marker r = (.ok live, r)) :
    let request := LiveTemplates.serve source.access (compile.reading source.access.read)
    (∃ m value, fits w.resource m value ∧ Marking.older? m live = some false ∧
      (request w).1.map (·.value) = .ok value) ∨
    (request w).1.map (·.value) = source.recompiled compile r := by
  intro request
  have houtcome : (request w).1.map (·.value) = _ := Source.serve_settled free hfirst hsecond
  cases hfresh : Snapshot.freshAt (F := F) w.cache.held live with
  | error e =>
    obtain ⟨s, -, hnone, -⟩ := Snapshot.freshAt_eq_error hfresh
    exact absurd hnone (comparable s.marker live)
  | ok held =>
    rw [hfresh] at houtcome
    cases held with
    | none => exact .inr houtcome
    | some a =>
      obtain ⟨s, hs, hnewer, rfl⟩ := Snapshot.freshAt_eq_some hfresh
      exact .inl ⟨s.marker, s.artifact.value, h s hs, hnewer, houtcome⟩

end Sources

end LiveTemplates
