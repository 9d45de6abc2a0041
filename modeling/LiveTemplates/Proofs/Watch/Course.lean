import LiveTemplates.Watch.Cache

/-!
# The course of a request

A request looks at the marker twice, the second time under the lock, and then opens a stream and
compiles it. The first look that shows a fresh artifact ends it, and so does the first step that
fails. Every request goes one of the ways that `Course` lists.
-/

namespace LiveTemplates

variable {R A M F S : Type} [Marking M]

theorem Snapshot.freshAt_eq_none {held : Option (Snapshot A M)} {live : M}
    (h : freshAt (F := F) held live = .ok none) {s : Snapshot A M} (hs : held = some s) :
    Marking.older? s.marker live = some true := by
  subst hs
  simp only [freshAt] at h
  split at h <;> simp_all

theorem Snapshot.freshAt_eq_some {held : Option (Snapshot A M)} {live : M} {a : Artifact A}
    (h : freshAt (F := F) held live = .ok (some a)) :
    ∃ s, held = some s ∧ Marking.older? s.marker live = some false ∧ s.artifact = a := by
  cases held with
  | none => simp [freshAt] at h
  | some s =>
    simp only [freshAt] at h
    split at h
    · cases h
    · cases h
    · rename_i hs
      cases h
      exact ⟨s, rfl, hs, rfl⟩

theorem Snapshot.freshAt_eq_error {held : Option (Snapshot A M)} {live : M} {e : LoadFailure M F}
    (h : freshAt held live = .error e) :
    ∃ s, held = some s ∧ Marking.older? s.marker live = none ∧ e = .incomparable s.marker live := by
  cases held with
  | none => simp [freshAt] at h
  | some s =>
    simp only [freshAt] at h
    split at h
    · rename_i hs
      cases h
      exact ⟨s, rfl, hs, rfl⟩
    · cases h
    · cases h

namespace Watch

def locked (w : Watch R A M F) : Watch R A M F := { w with reloading := true }

def unlocked (w : Watch R A M F) : Watch R A M F := { w with reloading := false }

def swap (w : Watch R A M F) (marker : M) (value : A) : Watch R A M F :=
  let artifact : Artifact A := ⟨w.compiled, value⟩
  { resource := w.resource
    cache := ⟨some ⟨artifact, marker⟩, w.cache.compiles + 1⟩
    reloading := false
    compiled := w.compiled + 1
    events := w.events ++ [.compiled artifact, .streamClosed, .held ⟨artifact, marker⟩] }

end Watch

section Progress

variable (access : Access R A M F S) (compilation : Compilation R A M F S)

def Wanting (w w₁ : Watch R A M F) : Prop :=
  ∃ live, liveMarker access w = (.ok live, w₁) ∧
    Snapshot.freshAt (F := F) w₁.cache.held live = .ok none

def Confirmed (w : Watch R A M F) (live : M) (w₂ : Watch R A M F) : Prop :=
  ∃ w₁, Wanting access w w₁ ∧ w₁.reloading = false ∧
    liveMarker access w₁.locked = (.ok live, w₂) ∧
    Snapshot.freshAt (F := F) w₂.cache.held live = .ok none

def Opened (w : Watch R A M F) (live : M) (stream : S) (w₃ : Watch R A M F) : Prop :=
  ∃ w₂, Confirmed access w live w₂ ∧ access.openStream (w₂.note .streamAsked) = (.ok stream, w₃)

def Compiled (w : Watch R A M F) (live : M) (value : A) (w₄ : Watch R A M F) : Prop :=
  ∃ stream w₃, Opened access w live stream w₃ ∧
    compilation stream (w₃.note .compilerCalled) = (.ok value, w₄)

inductive Stage where
  | firstMarker
  | firstComparison
  | secondMarker
  | secondComparison
  | opening
  | compilation
deriving DecidableEq

/-- A request from `w` gets as far as a stage, where `e` is raised and the state is `v`. -/
inductive FailsAt (w : Watch R A M F) : Stage → LoadFailure M F → Watch R A M F → Prop
  | firstMarker {e : LoadFailure M F} {v : Watch R A M F} :
    access.marker (w.note .markerAsked) = (.error e, v) → FailsAt w .firstMarker e v
  | firstComparison {live : M} {e : LoadFailure M F} {v : Watch R A M F} :
    liveMarker access w = (.ok live, v) → Snapshot.freshAt v.cache.held live = .error e →
    FailsAt w .firstComparison e v
  | secondMarker {w₁ : Watch R A M F} {e : LoadFailure M F} {v : Watch R A M F} :
    Wanting access w w₁ → w₁.reloading = false →
    access.marker (w₁.locked.note .markerAsked) = (.error e, v) → FailsAt w .secondMarker e v
  | secondComparison {w₁ : Watch R A M F} {live : M} {e : LoadFailure M F} {v : Watch R A M F} :
    Wanting access w w₁ → w₁.reloading = false → liveMarker access w₁.locked = (.ok live, v) →
    Snapshot.freshAt v.cache.held live = .error e → FailsAt w .secondComparison e v
  | opening {live : M} {w₂ : Watch R A M F} {e : LoadFailure M F} {v : Watch R A M F} :
    Confirmed access w live w₂ → access.openStream (w₂.note .streamAsked) = (.error e, v) →
    FailsAt w .opening e v
  | compilation {live : M} {stream : S} {w₃ : Watch R A M F} {e : LoadFailure M F}
    {v : Watch R A M F} :
    Opened access w live stream w₃ →
    compilation stream (w₃.note .compilerCalled) = (.error e, v) → FailsAt w .compilation e v

def Watch.leaving (v : Watch R A M F) : Stage → Watch R A M F
  | .firstMarker | .firstComparison => v
  | .secondMarker | .secondComparison | .opening => v.unlocked
  | .compilation => (v.note .streamClosed).unlocked

/-- The ways that a request from `w` can go, with its outcome and the state after it. -/
inductive Course (w : Watch R A M F) :
    Except (LoadFailure M F) (Artifact A) × Watch R A M F → Prop
  | failed {stage : Stage} {e : LoadFailure M F} {v : Watch R A M F} :
    FailsAt access compilation w stage e v → Course w (.error e, v.leaving stage)
  | busy {w₁ : Watch R A M F} :
    Wanting access w w₁ → w₁.reloading = true → Course w (.error .deadlock, w₁)
  | fresh {live : M} {w₁ : Watch R A M F} {a : Artifact A} :
    liveMarker access w = (.ok live, w₁) →
    Snapshot.freshAt (F := F) w₁.cache.held live = .ok (some a) → Course w (.ok a, w₁)
  | overtaken {w₁ : Watch R A M F} {live : M} {w₂ : Watch R A M F} {a : Artifact A} :
    Wanting access w w₁ → w₁.reloading = false → liveMarker access w₁.locked = (.ok live, w₂) →
    Snapshot.freshAt (F := F) w₂.cache.held live = .ok (some a) → Course w (.ok a, w₂.unlocked)
  | reloaded {live : M} {value : A} {w₄ : Watch R A M F} :
    Compiled access compilation w live value w₄ →
    Course w (.ok ⟨w₄.compiled, value⟩, w₄.swap live value)

variable {access compilation}

omit [Marking M] in
theorem Watch.exclusively_of_free {α : Type} {w : Watch R A M F} (h : w.reloading = false)
    (step : Watch R A M F → Except (LoadFailure M F) α × Watch R A M F) :
    w.exclusively step = ((step w.locked).1, (step w.locked).2.unlocked) := by
  simp only [Watch.exclusively, h, Bool.false_eq_true, ↓reduceIte]
  rfl

theorem serve_of_wanting {w w₁ : Watch R A M F} (h : Wanting access w w₁) :
    serve access compilation w = w₁.exclusively (reloadIfStale access compilation) := by
  obtain ⟨live, hm, hs⟩ := h
  simp only [serve, hm, andThen_ok, Watch.freshOr, hs]

theorem serve_of_wanting_free {w w₁ : Watch R A M F} (h : Wanting access w w₁)
    (free : w₁.reloading = false) :
    serve access compilation w =
      ((reloadIfStale access compilation w₁.locked).1,
        (reloadIfStale access compilation w₁.locked).2.unlocked) := by
  rw [serve_of_wanting h, Watch.exclusively_of_free free]

theorem serve_of_confirmed {w w₂ : Watch R A M F} {live : M} (h : Confirmed access w live w₂) :
    serve access compilation w =
      ((reload access compilation live w₂).1, (reload access compilation live w₂).2.unlocked) := by
  obtain ⟨w₁, hw, free, hm, hs⟩ := h
  rw [serve_of_wanting_free hw free]
  simp only [reloadIfStale, hm, andThen_ok, Watch.freshOr, hs]

theorem serve_of_compiled {w w₄ : Watch R A M F} {live : M} {value : A}
    (h : Compiled access compilation w live value w₄) :
    serve access compilation w = (.ok ⟨w₄.compiled, value⟩, w₄.swap live value) := by
  obtain ⟨stream, w₃, ⟨w₂, hc, ho⟩, hv⟩ := h
  rw [serve_of_confirmed hc]
  simp only [reload, ho, andThen_ok, compileStream, hv]
  simp [Watch.register, Watch.note, Watch.hold, Watch.unlocked, Watch.swap]

theorem FailsAt.serve_eq {w v : Watch R A M F} {stage : Stage} {e : LoadFailure M F}
    (h : FailsAt access compilation w stage e v) :
    serve access compilation w = (.error e, v.leaving stage) := by
  cases h with
  | firstMarker hm => simp only [serve, liveMarker, hm, andThen_error, Watch.leaving]
  | firstComparison hm hs =>
    simp only [serve, hm, andThen_ok, Watch.freshOr, hs, Watch.leaving]
  | secondMarker hw free hm =>
    rw [serve_of_wanting_free hw free]
    simp only [reloadIfStale, liveMarker, hm, andThen_error, Watch.leaving]
  | secondComparison hw free hm hs =>
    rw [serve_of_wanting_free hw free]
    simp only [reloadIfStale, hm, andThen_ok, Watch.freshOr, hs, Watch.leaving]
  | opening hc ho =>
    rw [serve_of_confirmed hc]
    simp only [reload, ho, andThen_error, Watch.leaving]
  | compilation ho hv =>
    obtain ⟨w₂, hc, ho⟩ := ho
    rw [serve_of_confirmed hc]
    simp only [reload, ho, andThen_ok, compileStream, hv, andThen_error, Watch.leaving]

omit [Marking M] in
theorem liveMarker_eq_error {w v : Watch R A M F} {e : LoadFailure M F}
    (h : liveMarker access w = (.error e, v)) :
    access.marker (w.note .markerAsked) = (.error e, v) := by
  unfold liveMarker at h
  cases hm : access.marker (w.note .markerAsked) with
  | mk outcome v' =>
    rw [hm] at h
    cases outcome with
    | error e' => exact h
    | ok live => simp at h

omit [Marking M] in
theorem liveMarker_eq_ok {w v : Watch R A M F} {live : M}
    (h : liveMarker access w = (.ok live, v)) :
    ∃ v', access.marker (w.note .markerAsked) = (.ok live, v') ∧
      v = v'.note (.markerAnswered live) := by
  unfold liveMarker at h
  cases hm : access.marker (w.note .markerAsked) with
  | mk outcome v' =>
    rw [hm] at h
    cases outcome with
    | error e => simp at h
    | ok live' =>
      simp only [andThen_ok, Prod.mk.injEq, Except.ok.injEq] at h
      obtain ⟨rfl, rfl⟩ := h
      exact ⟨v', rfl, rfl⟩

variable (access compilation)

theorem course_of_confirmed {w w₂ : Watch R A M F} {live : M} (h : Confirmed access w live w₂) :
    Course access compilation w (serve access compilation w) := by
  cases ho : access.openStream (w₂.note .streamAsked) with
  | mk opened w₃ =>
    cases opened with
    | error e =>
      have hf : FailsAt access compilation w .opening e w₃ := .opening h ho
      exact hf.serve_eq ▸ .failed hf
    | ok stream =>
      cases hv : compilation stream (w₃.note .compilerCalled) with
      | mk value w₄ =>
        cases value with
        | error e =>
          have hf : FailsAt access compilation w .compilation e w₄ := .compilation ⟨w₂, h, ho⟩ hv
          exact hf.serve_eq ▸ .failed hf
        | ok value =>
          have hc : Compiled access compilation w live value w₄ := ⟨stream, w₃, ⟨w₂, h, ho⟩, hv⟩
          exact serve_of_compiled hc ▸ .reloaded hc

theorem course_of_wanting {w w₁ : Watch R A M F} (h : Wanting access w w₁)
    (free : w₁.reloading = false) : Course access compilation w (serve access compilation w) := by
  cases hm : liveMarker access w₁.locked with
  | mk outcome w₂ =>
    cases outcome with
    | error e =>
      have hf : FailsAt access compilation w .secondMarker e w₂ :=
        .secondMarker h free (liveMarker_eq_error hm)
      exact hf.serve_eq ▸ .failed hf
    | ok live =>
      cases hs : Snapshot.freshAt (F := F) w₂.cache.held live with
      | error e =>
        have hf : FailsAt access compilation w .secondComparison e w₂ :=
          .secondComparison h free hm hs
        exact hf.serve_eq ▸ .failed hf
      | ok fresh =>
        cases fresh with
        | none => exact course_of_confirmed access compilation ⟨w₁, h, free, hm, hs⟩
        | some a =>
          have he : serve access compilation w = (.ok a, w₂.unlocked) := by
            rw [serve_of_wanting_free h free]
            simp only [reloadIfStale, hm, andThen_ok, Watch.freshOr, hs]
          exact he ▸ .overtaken h free hm hs

/-- Every request goes one of these ways. -/
theorem serve_course (w : Watch R A M F) :
    Course access compilation w (serve access compilation w) := by
  cases hm : liveMarker access w with
  | mk outcome w₁ =>
    cases outcome with
    | error e =>
      have hf : FailsAt access compilation w .firstMarker e w₁ :=
        .firstMarker (liveMarker_eq_error hm)
      exact hf.serve_eq ▸ .failed hf
    | ok live =>
      cases hs : Snapshot.freshAt (F := F) w₁.cache.held live with
      | error e =>
        have hf : FailsAt access compilation w .firstComparison e w₁ := .firstComparison hm hs
        exact hf.serve_eq ▸ .failed hf
      | ok fresh =>
        cases fresh with
        | none =>
          have hw : Wanting access w w₁ := ⟨live, hm, hs⟩
          cases free : w₁.reloading with
          | false => exact course_of_wanting access compilation hw free
          | true =>
            have he : serve access compilation w = (.error .deadlock, w₁) := by
              simp only [serve_of_wanting hw, Watch.exclusively, free, ↓reduceIte]
            exact he ▸ .busy hw free
        | some a =>
          have he : serve access compilation w = (.ok a, w₁) := by
            simp only [serve, hm, andThen_ok, Watch.freshOr, hs]
          exact he ▸ .fresh hm hs

end Progress

end LiveTemplates
