import Mathlib.Logic.Relation
import LiveTemplates.Proofs.Watch.Course
import LiveTemplates.Proofs.Watch.Log

/-!
# What may happen meanwhile

While a cache reads a marker, opens a stream or waits for its compiler, its surroundings go on:
the resource changes, markers are asked for, and other callers make whole requests, in which the
same may happen again. `Meanwhile` describes this without regard to the depth of nesting. Whatever
happens extends the log, what is held can be replayed from the extension, and nothing is held as
long as the lock is taken.
-/

namespace LiveTemplates

variable {R A M F : Type} [Marking M]

structure Idle (moves : R → R → Prop) (w w' : Watch R A M F) (log : List (Event A M F)) :
    Prop where
  events : w'.events = w.events ++ log
  resource : Relation.ReflTransGen moves w.resource w'.resource
  reloading : w'.reloading = w.reloading
  cache : w'.cache = w.cache
  compiled : w'.compiled = w.compiled
  unheld : snapshots log = []
  uncompiled : artifacts log = []

structure Extends (moves : R → R → Prop) (w w' : Watch R A M F) (log : List (Event A M F)) :
    Prop where
  events : w'.events = w.events ++ log
  resource : Relation.ReflTransGen moves w.resource w'.resource
  reloading : w'.reloading = w.reloading
  cache : w'.cache = w.cache.replay log
  compiled : w'.compiled = w.compiled + (snapshots log).length
  matched : artifacts log = (snapshots log).map (·.artifact)
  serials : (snapshots log).map (·.artifact.serial) =
    List.range' w.compiled (snapshots log).length
  ascending : Ascending w.cache log
  paired : ∀ s ∈ snapshots log, Paired log s
  aside : w.reloading = true → ∀ e ∈ log, e.IsAside

def OnlyMoves {α : Type} (moves : R → R → Prop) (step : Watch R A M F → α × Watch R A M F) :
    Prop :=
  ∀ w, ∃ r, Relation.ReflTransGen moves w.resource r ∧ (step w).2 = { w with resource := r }

variable {moves : R → R → Prop} {w w' w'' : Watch R A M F} {a b log : List (Event A M F)}

section

omit [Marking M]

theorem Idle.refl (w : Watch R A M F) : Idle moves w w [] :=
  ⟨by simp, .refl, rfl, rfl, rfl, rfl, rfl⟩

theorem Idle.trans (h : Idle moves w w' a) (h' : Idle moves w' w'' b) :
    Idle moves w w'' (a ++ b) where
  events := by rw [h'.events, h.events, List.append_assoc]
  resource := h.resource.trans h'.resource
  reloading := h'.reloading.trans h.reloading
  cache := h'.cache.trans h.cache
  compiled := h'.compiled.trans h.compiled
  unheld := by simp [h.unheld, h'.unheld]
  uncompiled := by simp [h.uncompiled, h'.uncompiled]

theorem Idle.note (w : Watch R A M F) (e : Event A M F) (hs : snapshots [e] = [])
    (ha : artifacts [e] = []) : Idle moves w (w.note e) [e] :=
  ⟨rfl, .refl, rfl, rfl, rfl, hs, ha⟩

theorem Idle.moved (w : Watch R A M F) {r : R} (h : Relation.ReflTransGen moves w.resource r) :
    Idle moves w { w with resource := r } [] :=
  ⟨by simp, h, rfl, rfl, rfl, rfl, rfl⟩

theorem Idle.unlocked (h : Idle moves w.locked w' log) (free : w.reloading = false) :
    Idle moves w w'.unlocked log :=
  ⟨h.events, h.resource, free.symm, h.cache, h.compiled, h.unheld, h.uncompiled⟩

end

theorem Idle.extends (h : Idle moves w w' log)
    (aside : w.reloading = true → ∀ e ∈ log, e.IsAside) : Extends moves w w' log where
  events := h.events
  resource := h.resource
  reloading := h.reloading
  cache := h.cache.trans (w.cache.replay_of_snapshots_eq_nil h.unheld).symm
  compiled := by simp [h.compiled, h.unheld]
  matched := by simp [h.uncompiled, h.unheld]
  serials := by simp [h.unheld]
  ascending := .of_snapshots_eq_nil _ h.unheld
  paired := by simp [h.unheld]
  aside := aside

theorem Extends.idle (h : Extends moves w w' log) (locked : w.reloading = true) :
    Idle moves w w' log := by
  have hs := snapshots_of_aside (h.aside locked)
  refine ⟨h.events, h.resource, h.reloading, ?_, ?_, hs, artifacts_of_aside (h.aside locked)⟩
  · rw [h.cache, w.cache.replay_of_snapshots_eq_nil hs]
  · rw [h.compiled, hs]
    rfl

theorem Extends.note (w : Watch R A M F) {e : Event A M F} (he : e.IsAside) :
    Extends moves w (w.note e) [e] := by
  have h : ∀ x ∈ [e], x.IsAside := by simpa using he
  exact (Idle.note w e (snapshots_of_aside h) (artifacts_of_aside h)).extends fun _ => h

theorem Extends.trans (h : Extends moves w w' a) (h' : Extends moves w' w'' b) :
    Extends moves w w'' (a ++ b) where
  events := by rw [h'.events, h.events, List.append_assoc]
  resource := h.resource.trans h'.resource
  reloading := h'.reloading.trans h.reloading
  cache := by rw [h'.cache, h.cache, Cache.replay_append]
  compiled := by rw [h'.compiled, h.compiled, snapshots_append, List.length_append, Nat.add_assoc]
  matched := by rw [artifacts_append, h.matched, h'.matched, snapshots_append, List.map_append]
  serials := by
    rw [snapshots_append, List.map_append, h.serials, h'.serials, h.compiled, List.length_append,
      List.range'_append_1]
  ascending := h.ascending.append (h.cache ▸ h'.ascending)
  paired := by
    intro s hs
    rw [snapshots_append, List.mem_append] at hs
    rcases hs with hs | hs
    · exact (h.paired s hs).mono (List.infix_append' [] a b)
    · exact (h'.paired s hs).mono ⟨a, [], by simp⟩
  aside := by
    intro locked e he
    rcases List.mem_append.mp he with he | he
    · exact h.aside locked e he
    · exact h'.aside (h.reloading.trans locked) e he

/-- What is held where nothing was held before has been compiled in between. -/
theorem Extends.compiled_of_held (h : Extends moves w w' log) (hnone : w.cache.held = none)
    {s : Snapshot A M} (hs : w'.cache.held = some s) : .compiled s.artifact ∈ log := by
  have hmem : s ∈ snapshots log := by
    rw [h.cache] at hs
    exact List.mem_of_getLast? (by simpa [Cache.replay, hnone] using hs)
  rw [← mem_artifacts, h.matched]
  exact List.mem_map_of_mem hmem

/-- What may happen to a cache from outside: its resource moves, events that no reload needs are
logged, and whole requests are made, whose own access and compilation leave the same open. -/
inductive Meanwhile (moves : R → R → Prop) : Watch R A M F → Watch R A M F → Prop
  | refl (w : Watch R A M F) : Meanwhile moves w w
  | moved {w w' : Watch R A M F} {r : R} :
    Relation.ReflTransGen moves w'.resource r → Meanwhile moves w w' →
    Meanwhile moves w { w' with resource := r }
  | noted {w w' : Watch R A M F} {e : Event A M F} :
    e.IsAside → Meanwhile moves w w' → Meanwhile moves w (w'.note e)
  | served {w w' : Watch R A M F} {S : Type} {access : Access R A M F S}
    {compilation : Compilation R A M F S} :
    (∀ v, Meanwhile moves v (access.marker v).2) → OnlyMoves moves access.openStream →
    (∀ stream v, Meanwhile moves v (compilation stream v).2) → Meanwhile moves w w' →
    Meanwhile moves w (serve access compilation w').2

theorem Meanwhile.trans (h : Meanwhile moves w w') (h' : Meanwhile moves w' w'') :
    Meanwhile moves w w'' := by
  induction h' with
  | refl => exact h
  | moved hr _ ih => exact .moved hr (ih h)
  | noted he _ ih => exact .noted he (ih h)
  | served hm ho hc _ _ _ ih => exact .served hm ho hc (ih h)

structure LooksTwice {S : Type} (access : Access R A M F S) (w w₁ : Watch R A M F) (live : M)
    (second : List (Event A M F)) : Prop where
  wanting : Wanting access w w₁
  free : w₁.reloading = false
  stale : Snapshot.freshAt (F := F) w₁.cache.held live = .ok none
  aside : ∀ e ∈ second, e.IsAside

/-- A reload that was let through holds a younger snapshot, and its log shows how it came about. -/
theorem Idle.swap {v w₄ : Watch R A M F} {first live : M} {value : A}
    {second during : List (Event A M F)}
    (h : Idle moves (v.note (.markerAnswered first)).locked w₄
      (.markerAsked :: second ++ [.markerAnswered live, .streamAsked, .compilerCalled] ++ during))
    (free : v.reloading = false)
    (stale : Snapshot.freshAt (F := F) v.cache.held live = .ok none)
    (hsecond : ∀ e ∈ second, e.IsAside) (hduring : ∀ e ∈ during, e.IsAside) :
    Extends moves v (w₄.swap live value)
      (reloadLog first second during ⟨⟨w₄.compiled, value⟩, live⟩) := by
  have hs : snapshots (reloadLog first second during ⟨⟨w₄.compiled, value⟩, live⟩) =
      [⟨⟨w₄.compiled, value⟩, live⟩] := snapshots_reloadLog hsecond hduring
  have ha : artifacts (reloadLog first second during ⟨⟨w₄.compiled, value⟩, live⟩) =
      [⟨w₄.compiled, value⟩] := artifacts_reloadLog hsecond hduring
  have hcompiled : w₄.compiled = v.compiled := h.compiled
  have hcache : w₄.cache = v.cache := h.cache
  refine ⟨?_, h.resource, free.symm, ?_, ?_, ?_, ?_, ?_, ?_, ?_⟩
  · simp [Watch.swap, h.events, Watch.locked, Watch.note, reloadLog]
  · simp [Watch.swap, Cache.replay, hs, hcache]
  · rw [hs, ← hcompiled]
    rfl
  · rw [ha, hs]
    rfl
  · rw [hs, ← hcompiled]
    rfl
  · unfold Ascending
    rw [hs]
    cases held : v.cache.held with
    | none => simp
    | some s => simpa [Snapshot.Older] using Snapshot.freshAt_eq_none stale held
  · intro s hmem
    rw [hs, List.mem_singleton] at hmem
    subst hmem
    exact ⟨first, second, during, hsecond, hduring, List.infix_rfl⟩
  · simp [free]

section Requests

variable {S : Type} {access : Access R A M F S} {compilation : Compilation R A M F S}
variable (hm : ∀ v, ∃ log, Extends moves v (access.marker v).2 log)
variable (ho : OnlyMoves moves access.openStream)
variable (hc : ∀ stream v, ∃ log, Extends moves v (compilation stream v).2 log)

include hm

theorem marker_extends {outcome : Except (LoadFailure M F) M}
    (h : access.marker (w.note .markerAsked) = (outcome, w')) :
    ∃ log, Extends moves w w' (.markerAsked :: log) := by
  obtain ⟨log, hlog⟩ := hm (w.note .markerAsked)
  rw [h] at hlog
  exact ⟨log, (Extends.note w (e := .markerAsked) trivial).trans hlog⟩

theorem liveMarker_extends {live : M} (h : liveMarker access w = (.ok live, w')) :
    ∃ v log, Extends moves w v (.markerAsked :: log) ∧ w' = v.note (.markerAnswered live) := by
  obtain ⟨v, hv, hw⟩ := liveMarker_eq_ok h
  obtain ⟨log, hlog⟩ := marker_extends hm hv
  exact ⟨v, log, hlog, hw⟩

/-- Under the lock a look changes nothing but the log and the resource. -/
theorem locked_liveMarker_idle {live : M} (h : liveMarker access w.locked = (.ok live, w')) :
    ∃ second, (∀ e ∈ second, e.IsAside) ∧
      Idle moves w.locked w' (.markerAsked :: second ++ [.markerAnswered live]) := by
  obtain ⟨v, second, hv, rfl⟩ := liveMarker_extends hm h
  have hidle := hv.idle rfl
  refine ⟨second, fun e he => hv.aside rfl e (List.mem_cons_of_mem _ he), ?_⟩
  exact hidle.trans (.note v (.markerAnswered live) rfl rfl)

include ho

theorem openStream_idle {opened : Except (LoadFailure M F) S} {live : M} {w₂ w₃ : Watch R A M F}
    (h : Confirmed access w live w₂)
    (hopen : access.openStream (w₂.note .streamAsked) = (opened, w₃)) :
    ∃ w₁ second, LooksTwice access w w₁ live second ∧
      Idle moves w₁.locked w₃
        (.markerAsked :: second ++ [.markerAnswered live, .streamAsked]) := by
  obtain ⟨w₁, hw, free, hlive, stale⟩ := h
  obtain ⟨second, hsecond, hidle⟩ := locked_liveMarker_idle hm hlive
  obtain ⟨r, hr, heq⟩ := ho (w₂.note .streamAsked)
  rw [hopen] at heq
  have hopened := (hidle.trans (.note w₂ .streamAsked rfl rfl)).trans (.moved _ hr)
  rw [← heq] at hopened
  rw [hidle.cache] at stale
  exact ⟨w₁, second, ⟨hw, free, stale, hsecond⟩, by simpa using hopened⟩

include hc

/-- While a stream is compiled, the lock keeps everybody else from reloading. -/
theorem compilation_aside {outcome : Except (LoadFailure M F) A} {live : M} {stream : S}
    {w₃ w₄ : Watch R A M F} (h : Opened access w live stream w₃)
    (hcompile : compilation stream (w₃.note .compilerCalled) = (outcome, w₄)) :
    ∃ during, (∀ e ∈ during, e.IsAside) ∧ Idle moves (w₃.note .compilerCalled) w₄ during := by
  obtain ⟨w₂, hconf, hopen⟩ := h
  obtain ⟨w₁, second, -, hidle⟩ := openStream_idle hm ho hconf hopen
  have locked : (w₃.note .compilerCalled).reloading = true := hidle.reloading
  obtain ⟨during, hduring⟩ := hc stream (w₃.note .compilerCalled)
  rw [hcompile] at hduring
  exact ⟨during, hduring.aside locked, hduring.idle locked⟩

theorem compilation_idle {outcome : Except (LoadFailure M F) A} {live : M} {stream : S}
    {w₃ w₄ : Watch R A M F} (h : Opened access w live stream w₃)
    (hcompile : compilation stream (w₃.note .compilerCalled) = (outcome, w₄)) :
    ∃ w₁ second during, LooksTwice access w w₁ live second ∧ (∀ e ∈ during, e.IsAside) ∧
      Idle moves w₁.locked w₄ (.markerAsked :: second ++
        [.markerAnswered live, .streamAsked, .compilerCalled] ++ during) := by
  obtain ⟨during, haside, hduring⟩ := compilation_aside hm ho hc h hcompile
  obtain ⟨w₂, hconf, hopen⟩ := h
  obtain ⟨w₁, second, hlooks, hidle⟩ := openStream_idle hm ho hconf hopen
  have hall := (hidle.trans (.note w₃ .compilerCalled rfl rfl)).trans hduring
  exact ⟨w₁, second, during, hlooks, haside, by simpa using hall⟩

theorem swap_extends {live : M} {value : A} {w₄ : Watch R A M F}
    (h : Compiled access compilation w live value w₄) :
    ∃ log, Extends moves w (w₄.swap live value) log := by
  obtain ⟨stream, w₃, hopened, hcompile⟩ := h
  obtain ⟨w₁, second, during, ⟨⟨first, hfirst, -⟩, free, stale, hsecond⟩, hduring, hidle⟩ :=
    compilation_idle hm ho hc hopened hcompile
  obtain ⟨v, log, hlog, rfl⟩ := liveMarker_extends hm hfirst
  exact ⟨_, hlog.trans (hidle.swap free stale hsecond hduring)⟩

omit hm ho hc in
theorem Wanting.idle {w₁ v : Watch R A M F} (h : Wanting access w w₁) (free : w₁.reloading = false)
    (hidle : Idle moves w₁.locked v log) :
    ∃ own, Idle moves (access.marker (w.note .markerAsked)).2 v.unlocked own ∧
      ((access.marker (w.note .markerAsked)).2.reloading = true → ∀ e ∈ own, e.IsAside) := by
  obtain ⟨first, hfirst, -⟩ := h
  obtain ⟨u, hu, rfl⟩ := liveMarker_eq_ok hfirst
  rw [hu]
  have hfree : u.reloading = false := free
  exact ⟨_, (Idle.note u (.markerAnswered first) rfl rfl).trans (hidle.unlocked free),
    by simp [hfree]⟩

theorem FailsAt.idle {stage : Stage} {e : LoadFailure M F} {v : Watch R A M F}
    (h : FailsAt access compilation w stage e v) :
    ∃ own, Idle moves (access.marker (w.note .markerAsked)).2 (v.leaving stage) own ∧
      ((access.marker (w.note .markerAsked)).2.reloading = true → ∀ e ∈ own, e.IsAside) := by
  cases h with
  | firstMarker hmark =>
    rw [hmark]
    exact ⟨[], .refl v, by simp⟩
  | firstComparison hlive hfresh =>
    rename_i live
    obtain ⟨u, hu, rfl⟩ := liveMarker_eq_ok hlive
    rw [hu]
    exact ⟨_, .note u (.markerAnswered live) rfl rfl, by simp [Event.IsAside]⟩
  | secondMarker hw free hmark =>
    obtain ⟨log, hlog⟩ := marker_extends hm hmark
    exact hw.idle free (hlog.idle rfl)
  | secondComparison hw free hlive hfresh =>
    obtain ⟨second, -, hidle⟩ := locked_liveMarker_idle hm hlive
    exact hw.idle free hidle
  | opening hconf hopen =>
    obtain ⟨w₁, second, hlooks, hidle⟩ := openStream_idle hm ho hconf hopen
    exact hlooks.wanting.idle hlooks.free hidle
  | compilation hopened hcompile =>
    obtain ⟨w₁, second, during, hlooks, -, hidle⟩ := compilation_idle hm ho hc hopened hcompile
    exact hlooks.wanting.idle hlooks.free (hidle.trans (.note v .streamClosed rfl rfl))

theorem Course.extends {result : Except (LoadFailure M F) (Artifact A) × Watch R A M F}
    (h : Course access compilation w result) : ∃ log, Extends moves w result.2 log := by
  have first := marker_extends (w := w) hm rfl
  obtain ⟨others, hothers⟩ := first
  cases h with
  | failed h =>
    obtain ⟨own, hidle, haside⟩ := h.idle hm ho hc
    exact ⟨_, hothers.trans (hidle.extends haside)⟩
  | busy h locked =>
    obtain ⟨live, hlive, -⟩ := h
    obtain ⟨v, log, hlog, rfl⟩ := liveMarker_extends hm hlive
    exact ⟨_, hlog.trans (.note v trivial)⟩
  | fresh hlive hfresh =>
    obtain ⟨v, log, hlog, rfl⟩ := liveMarker_extends hm hlive
    exact ⟨_, hlog.trans (.note v trivial)⟩
  | overtaken h free hlive hfresh =>
    obtain ⟨second, -, hidle⟩ := locked_liveMarker_idle hm hlive
    obtain ⟨own, hidle, haside⟩ := h.idle free hidle
    exact ⟨_, hothers.trans (hidle.extends haside)⟩
  | reloaded h => exact swap_extends hm ho hc h

end Requests

/-- Whatever happens meanwhile extends the log, at any depth of nesting. -/
theorem Meanwhile.extends (h : Meanwhile moves w w') : ∃ log, Extends moves w w' log := by
  -- A nested request is described by its course, once its own reads and its compiler are.
  induction h with
  | refl w => exact ⟨[], (Idle.refl w).extends (by simp)⟩
  | moved hr _ ih =>
    obtain ⟨log, hlog⟩ := ih
    exact ⟨_, hlog.trans ((Idle.moved _ hr).extends (by simp))⟩
  | noted he _ ih =>
    obtain ⟨log, hlog⟩ := ih
    exact ⟨_, hlog.trans (.note _ he)⟩
  | served _ ho _ _ hm hc ih =>
    obtain ⟨log, hlog⟩ := ih
    obtain ⟨more, hmore⟩ := (serve_course _ _ _).extends hm ho hc
    exact ⟨_, hlog.trans hmore⟩

end LiveTemplates
