import LiveTemplates.Proofs.Watch.Following

/-!
# The moments of a run

A resource may change between the steps of a run and also within one, while a request compiles.
The moments of a run are all the states that its resource goes through in this way. What a reload
leaves depends on the moment at which its stream was opened and on the moment at which the stream
was read.
-/

namespace LiveTemplates

variable {R A M F S E : Type}

section Entering

variable [Marking M] (access : Access R A M F S)

/-- The state in which a request calls the compiler, if it gets so far. -/
def enteredAt? (w : Watch R A M F) : Option (Watch R A M F) :=
  match liveMarker access w with
  | (.error _, _) => none
  | (.ok live, w₁) =>
    match Snapshot.freshAt (F := F) w₁.cache.held live, w₁.reloading with
    | .ok none, false =>
      match liveMarker access w₁.locked with
      | (.error _, _) => none
      | (.ok live, w₂) =>
        match Snapshot.freshAt (F := F) w₂.cache.held live with
        | .ok none =>
          match access.openStream (w₂.note .streamAsked) with
          | (.error _, _) => none
          | (.ok _, w₃) => some (w₃.note .compilerCalled)
        | _ => none
    | _, _ => none

variable {access}

theorem enteredAt?_eq_some_iff {w v : Watch R A M F} :
    enteredAt? access w = some v ↔
      ∃ live stream u, Opened access w live stream u ∧ v = u.note .compilerCalled := by
  constructor
  · intro h
    unfold enteredAt? at h
    split at h
    · cases h
    rename_i first w₁ hfirst
    split at h
    · rename_i hwanting free
      split at h
      · cases h
      rename_i live w₂ hlive
      split at h
      · rename_i hstale
        split at h
        · cases h
        rename_i stream w₃ hopen
        have hconfirmed : Confirmed access w live w₂ :=
          ⟨w₁, ⟨first, hfirst, hwanting⟩, free, hlive, hstale⟩
        exact ⟨live, stream, w₃, ⟨w₂, hconfirmed, hopen⟩, (Option.some.inj h).symm⟩
      · cases h
    · cases h
  · rintro ⟨live, stream, u, ⟨w₂, ⟨w₁, ⟨first, hfirst, hwanting⟩, free, hlive, hstale⟩, hopen⟩, rfl⟩
    simp only [enteredAt?, hfirst, hwanting, free, hlive, hstale, hopen]

theorem enteredAt?_of_opened {w u : Watch R A M F} {live : M} {stream : S}
    (h : Opened access w live stream u) :
    enteredAt? access w = some (u.note .compilerCalled) :=
  enteredAt?_eq_some_iff.2 ⟨live, stream, u, h, rfl⟩

end Entering

section Moments

variable [Marking M] (bench : Bench R A M F S E)

mutual

/-- The moments within a step, where the compiler of a request lets others in. -/
def Step.moments (w : Watch R A M F) : Step E → List R
  | .requestDuring steps =>
    match enteredAt? bench.access w with
    | none => []
    | some v => Step.momentsAll v steps
  | _ => []

def Step.momentsAll (w : Watch R A M F) : List (Step E) → List R
  | [] => [w.resource]
  | step :: rest =>
    w.resource :: (Step.moments w step ++ Step.momentsAll (Step.run bench w step).2 rest)

end

variable {bench}

theorem Step.moments_of_entered {w v : Watch R A M F} {steps : List (Step E)}
    (h : enteredAt? bench.access w = some v) :
    Step.moments bench w (.requestDuring steps) = Step.momentsAll bench v steps := by
  simp only [Step.moments, h]

/-- A run ends with a moment of its own. -/
theorem Step.momentsAll_eq_append (w : Watch R A M F) (steps : List (Step E)) :
    ∃ earlier,
      Step.momentsAll bench w steps = earlier ++ [(Step.runAll bench w steps).resource] := by
  induction steps generalizing w with
  | nil => exact ⟨[], by rw [Step.momentsAll, Step.runAll, List.nil_append]⟩
  | cons step rest ih =>
    obtain ⟨earlier, h⟩ := ih (Step.run bench w step).2
    refine ⟨w.resource :: (Step.moments bench w step ++ earlier), ?_⟩
    rw [Step.momentsAll, Step.runAll, h]
    simp

theorem Step.runAll_mem_momentsAll (w : Watch R A M F) (steps : List (Step E)) :
    (Step.runAll bench w steps).resource ∈ Step.momentsAll bench w steps := by
  obtain ⟨earlier, h⟩ : ∃ earlier, Step.momentsAll bench w steps = earlier ++ _ :=
    Step.momentsAll_eq_append w steps
  simp [h]

/-- The moments from some place of a run on come last among its moments. -/
theorem Step.momentsAll_suffix (w : Watch R A M F) (before after : List (Step E)) :
    Step.momentsAll bench (Step.runAll bench w before) after <:+
      Step.momentsAll bench w (before ++ after) := by
  induction before generalizing w with
  | nil => exact List.suffix_rfl
  | cons step rest ih =>
    rw [List.cons_append, Step.momentsAll, Step.runAll]
    exact ((ih _).trans (List.suffix_append _ _)).trans (List.suffix_cons _ _)

end Moments

end LiveTemplates
