import LiveTemplates.Proofs.Watch.External

/-!
# The order of effects

A request looks at the marker, looks once more under the lock, opens a stream, and has it compiled
and closed. It may end at either look or when it opens the stream, and its effects are then those
up to there; from the opening on they are always the same ones. Others may be at work while a
marker is read, and what they log stands in the log where the request waits for them.
-/

namespace LiveTemplates

variable {R A M F S : Type}

inductive Effect where
  | looking
  | opening
  | compiling
  | reading
  | closing
deriving DecidableEq

def Event.effect? : Event A M F → Option Effect
  | .markerAsked => some .looking
  | .streamAsked => some .opening
  | .compilerCalled => some .compiling
  | .streamRead => some .reading
  | .streamClosed => some .closing
  | _ => none

def effects (log : List (Event A M F)) : List Effect := log.filterMap Event.effect?

/-- How far a request gets: it ends at its first or at its second look or when it opens a stream,
or else has a stream compiled. -/
inductive Extent where
  | firstLook
  | secondLook
  | opening
  | compilation
deriving DecidableEq

def Extent.effects : Extent → List Effect
  | .firstLook => [.looking]
  | .secondLook => [.looking, .looking]
  | .opening => [.looking, .looking, .opening]
  | .compilation => [.looking, .looking, .opening, .compiling, .reading, .closing]

theorem Extent.effects_injective {extent extent' : Extent} (h : extent.effects = extent'.effects) :
    extent = extent' := by
  cases extent <;> cases extent' <;> simp_all [Extent.effects]

variable [Marking M]

/-- A compiler that reads its stream once. While it works the resource may change, and nothing else
happens. -/
structure Compilation.ReadsOnce (compilation : Compilation R A M F S) : Prop where
  meanwhile : ∀ stream w, Meanwhile AnyMove w (compilation stream w).2
  events : ∀ stream w, (compilation stream w).2.events = w.events ++ [.streamRead]

theorem Compiler.reading_readsOnce (compile : Compiler A F)
    (read : S → Watch R A M F → Except (LoadFailure M F) Bytes) :
    (compile.reading read).ReadsOnce where
  meanwhile := compile.reading_meanwhile read
  events stream w := by rw [Compiler.reading_snd, Watch.note]

section Looks

variable (access : Access R A M F S)

inductive LookEnds (w : Watch R A M F) : List (Event A M F) → Prop
  | raised {e : LoadFailure M F} {v : Watch R A M F} :
    access.marker (w.note .markerAsked) = (.error e, v) → LookEnds w []
  | incomparable {live : M} {e : LoadFailure M F} {v : Watch R A M F} :
    liveMarker access w = (.ok live, v) → Snapshot.freshAt v.cache.held live = .error e →
    LookEnds w [.markerAnswered live]
  | fresh {live : M} {a : Artifact A} {v : Watch R A M F} :
    liveMarker access w = (.ok live, v) →
    Snapshot.freshAt (F := F) v.cache.held live = .ok (some a) → LookEnds w [.markerAnswered live]

def LogsAside (w : Watch R A M F) (log : List (Event A M F)) : Prop :=
  (access.marker (w.note .markerAsked)).2.events = w.events ++ .markerAsked :: log

def EndsAt (w : Watch R A M F) : Extent → Prop
  | .firstLook => ∃ answer, LookEnds access w answer
  | .secondLook => ∃ w₁ answer, Wanting access w w₁ ∧ LookEnds access w₁.locked answer
  | .opening => ∃ live w₂ e v, Confirmed access w live w₂ ∧
    access.openStream (w₂.note .streamAsked) = (.error e, v)
  | .compilation => ∃ live stream w₃, Opened access w live stream w₃

variable {access} {w w₁ w₁' w₂ : Watch R A M F} {live : M} {answer : List (Event A M F)}

theorem lookEnds_or_wanting (access : Access R A M F S) (w : Watch R A M F) :
    (∃ answer, LookEnds access w answer) ∨ ∃ w₁, Wanting access w w₁ := by
  rcases hlive : liveMarker access w with ⟨e | live, v⟩
  · exact .inl ⟨_, .raised (liveMarker_eq_error hlive)⟩
  · cases hfresh : Snapshot.freshAt (F := F) v.cache.held live with
    | error e => exact .inl ⟨_, .incomparable hlive hfresh⟩
    | ok held =>
      cases held with
      | some a => exact .inl ⟨_, .fresh hlive hfresh⟩
      | none => exact .inr ⟨v, live, hlive, hfresh⟩

theorem LookEnds.not_stale (h : LookEnds access w answer)
    (hlive : liveMarker access w = (.ok live, w₁))
    (hstale : Snapshot.freshAt (F := F) w₁.cache.held live = .ok none) : False := by
  cases h with
  | raised hm => simp [liveMarker, hm] at hlive
  | incomparable hlive' hfresh =>
    rw [hlive] at hlive'
    cases hlive'
    rw [hstale] at hfresh
    cases hfresh
  | fresh hlive' hfresh =>
    rw [hlive] at hlive'
    cases hlive'
    rw [hstale] at hfresh
    cases hfresh

theorem LookEnds.not_wanting (h : LookEnds access w answer) : ¬ Wanting access w w₁ :=
  fun ⟨_, hlive, hstale⟩ => h.not_stale hlive hstale

theorem Wanting.unique (h : Wanting access w w₁) (h' : Wanting access w w₁') : w₁' = w₁ := by
  obtain ⟨live, hlive, -⟩ := h
  obtain ⟨live', hlive', -⟩ := h'
  rw [hlive] at hlive'
  cases hlive'
  rfl

theorem Confirmed.wanting (h : Confirmed access w live w₂) : ∃ w₁, Wanting access w w₁ := by
  obtain ⟨w₁, hwanting, -⟩ := h
  exact ⟨w₁, hwanting⟩

theorem Confirmed.not_lookEnds (h : Confirmed access w live w₂) (hwanting : Wanting access w w₁) :
    ¬ LookEnds access w₁.locked answer := by
  obtain ⟨w₁', hwanting', -, hlive, hstale⟩ := h
  obtain rfl := hwanting.unique hwanting'
  exact fun hends => hends.not_stale hlive hstale

theorem Confirmed.unique {live' : M} {w₂' : Watch R A M F} (h : Confirmed access w live w₂)
    (h' : Confirmed access w live' w₂') : live' = live ∧ w₂' = w₂ := by
  obtain ⟨w₁, hwanting, -, hlive, -⟩ := h
  obtain ⟨w₁', hwanting', -, hlive', -⟩ := h'
  obtain rfl := hwanting.unique hwanting'
  rw [hlive] at hlive'
  cases hlive'
  exact ⟨rfl, rfl⟩

structure Reaches (access : Access R A M F S) (w : Watch R A M F) (extent : Extent) : Prop where
  wanting : (∃ w₁, Wanting access w w₁) ↔ extent ≠ .firstLook
  confirmed : (∃ live w₂, Confirmed access w live w₂) ↔ extent = .opening ∨ extent = .compilation
  opened : (∃ live stream w₃, Opened access w live stream w₃) ↔ extent = .compilation

theorem Opened.confirmed {stream : S} {w₃ : Watch R A M F} (h : Opened access w live stream w₃) :
    ∃ w₂, Confirmed access w live w₂ := by
  obtain ⟨w₂, hconfirmed, -⟩ := h
  exact ⟨w₂, hconfirmed⟩

theorem EndsAt.reaches {extent : Extent} (h : EndsAt access w extent) :
    Reaches access w extent := by
  cases extent with
  | firstLook =>
    obtain ⟨answer, hends⟩ := h
    have unwanting : ¬ ∃ w₁, Wanting access w w₁ := fun ⟨_, hwanting⟩ => hends.not_wanting hwanting
    have unconfirmed : ¬ ∃ live w₂, Confirmed access w live w₂ :=
      fun ⟨_, _, hconfirmed⟩ => unwanting hconfirmed.wanting
    have unopened : ¬ ∃ live stream w₃, Opened access w live stream w₃ :=
      fun ⟨live, _, _, hopened⟩ => unconfirmed ⟨live, hopened.confirmed⟩
    exact ⟨by simpa using unwanting, by simpa using unconfirmed, by simpa using unopened⟩
  | secondLook =>
    obtain ⟨w₁, answer, hwanting, hends⟩ := h
    have unconfirmed : ¬ ∃ live w₂, Confirmed access w live w₂ :=
      fun ⟨_, _, hconfirmed⟩ => hconfirmed.not_lookEnds hwanting hends
    have unopened : ¬ ∃ live stream w₃, Opened access w live stream w₃ :=
      fun ⟨live, _, _, hopened⟩ => unconfirmed ⟨live, hopened.confirmed⟩
    exact ⟨by simpa using ⟨w₁, hwanting⟩, by simpa using unconfirmed, by simpa using unopened⟩
  | opening =>
    obtain ⟨live, w₂, e, v, hconfirmed, hrefused⟩ := h
    have unopened : ¬ ∃ live stream w₃, Opened access w live stream w₃ := by
      rintro ⟨live', stream, w₃, w₂', hconfirmed', hopen⟩
      obtain ⟨rfl, rfl⟩ := hconfirmed.unique hconfirmed'
      rw [hrefused] at hopen
      cases hopen
    exact ⟨by simpa using hconfirmed.wanting, by simpa using ⟨live, w₂, hconfirmed⟩,
      by simpa using unopened⟩
  | compilation =>
    obtain ⟨live, stream, w₃, hopened⟩ := h
    obtain ⟨w₂, hconfirmed⟩ := hopened.confirmed
    exact ⟨by simpa using hconfirmed.wanting, by simpa using ⟨live, w₂, hconfirmed⟩,
      by simpa using ⟨live, stream, w₃, hopened⟩⟩

/-- A request ends at one place. -/
theorem EndsAt.unique {extent extent' : Extent} (h : EndsAt access w extent)
    (h' : EndsAt access w extent') : extent' = extent := by
  have hwanting := h.reaches.wanting.symm.trans h'.reaches.wanting
  have hconfirmed := h.reaches.confirmed.symm.trans h'.reaches.confirmed
  have hopened := h.reaches.opened.symm.trans h'.reaches.opened
  cases extent <;> cases extent' <;> simp_all

end Looks

section Logs

variable (access : Access R A M F S) (compilation : Compilation R A M F S)

inductive ReloadLog (w₂ : Watch R A M F) (live : M) : List (Event A M F) → Prop
  | refused {e : LoadFailure M F} {v : Watch R A M F} :
    access.openStream (w₂.note .streamAsked) = (.error e, v) → ReloadLog w₂ live [.streamAsked]
  | failed {stream : S} {w₃ u : Watch R A M F} {e : LoadFailure M F} {during : List (Event A M F)} :
    access.openStream (w₂.note .streamAsked) = (.ok stream, w₃) →
    compilation stream (w₃.note .compilerCalled) = (.error e, u) →
    u.events = (w₃.note .compilerCalled).events ++ during →
    ReloadLog w₂ live (.streamAsked :: .compilerCalled :: during ++ [.streamClosed])
  | held {stream : S} {w₃ u : Watch R A M F} {value : A} {during : List (Event A M F)} :
    access.openStream (w₂.note .streamAsked) = (.ok stream, w₃) →
    compilation stream (w₃.note .compilerCalled) = (.ok value, u) →
    u.events = (w₃.note .compilerCalled).events ++ during →
    ReloadLog w₂ live (.streamAsked :: .compilerCalled :: during ++
      [.compiled ⟨u.compiled, value⟩, .streamClosed, .held ⟨⟨u.compiled, value⟩, live⟩])

/-- A request from `w` logs `own` itself, and others log `first` during its first look and `second`
during its second one. -/
inductive RequestLog (w : Watch R A M F) :
    List (Event A M F) → List (Event A M F) → List (Event A M F) → Prop
  | once {first answer : List (Event A M F)} :
    (∀ w₁, ¬ Wanting access w w₁) → LogsAside access w first →
    (serve access compilation w).2.events = w.events ++ .markerAsked :: first ++ answer →
    RequestLog w first [] (.markerAsked :: answer)
  | twice {w₁ : Watch R A M F} {live : M} {first second back : List (Event A M F)} :
    Wanting access w w₁ → LogsAside access w first → LogsAside access w₁.locked second →
    (serve access compilation w).2.events = w.events ++ .markerAsked :: first ++
      [.markerAnswered live, .markerAsked] ++ second ++ back →
    RequestLog w first second ([.markerAsked, .markerAnswered live, .markerAsked] ++ back)

structure OwnLog (w : Watch R A M F) (extent : Extent) (own : List (Event A M F)) : Prop where
  ends : EndsAt access w extent
  effects : effects own = extent.effects
  held : (∃ s, .held s ∈ own) ↔ ∃ live value u, Compiled access compilation w live value u
  closed : ∀ s, .held s ∈ own → ∃ before, own = before ++ [.streamClosed, .held s]

/-- A request from `w` has its effects in the order that belongs to the extent where it ends. What
it logs itself is `own`; others log `first` and `second` during its looks. -/
structure InOrder (w : Watch R A M F) (first second own : List (Event A M F)) : Prop where
  log : RequestLog access compilation w first second own
  ends : ∃ extent, EndsAt access w extent
  effects : ∀ extent, EndsAt access w extent ↔ effects own = extent.effects
  /-- What is held is replaced by the snapshots in the log, the own one of which comes last, when
  the stream is closed, and only if the compiler has given a value. -/
  cache : (serve access compilation w).2.cache = w.cache.replay (first ++ own)
  swapped : (∃ s, .held s ∈ own) ↔ ∃ live value u, Compiled access compilation w live value u
  closed : ∀ s, .held s ∈ own → ∃ before, own = before ++ [.streamClosed, .held s]
  /-- Both looks have shown that what is held is stale before a stream is asked for. -/
  confirmed : .opening ∈ LiveTemplates.effects own → ∃ live w₂, Confirmed access w live w₂
  closings : (∃ live stream w₃, Opened access w live stream w₃) →
    (LiveTemplates.effects own).count .opening = 1 ∧ (LiveTemplates.effects own).count .closing = 1
  unopened : (¬ ∃ live stream w₃, Opened access w live stream w₃) →
    .closing ∉ LiveTemplates.effects own
  compiles : (LiveTemplates.effects own).count .compiling ≤ 1

variable {access compilation} {moves : R → R → Prop} {w w₁ w₂ : Watch R A M F} {live : M}
variable {first second answer own log : List (Event A M F)} {extent : Extent}

/-- A look that ends a request is the last that it logs, whatever would have come next. -/
theorem LookEnds.events (h : LookEnds access w answer)
    (next : M → Watch R A M F → Except (LoadFailure M F) (Artifact A) × Watch R A M F) :
    (andThen (liveMarker access w) fun live v => v.freshOr live (next live)).2.events =
      (access.marker (w.note .markerAsked)).2.events ++ answer := by
  cases h with
  | raised hm => simp only [liveMarker, hm, andThen_error, List.append_nil]
  | incomparable hlive hfresh =>
    obtain ⟨u, hu, rfl⟩ := liveMarker_eq_ok hlive
    simp only [hlive, andThen_ok, Watch.freshOr, hfresh, hu]
    rfl
  | fresh hlive hfresh =>
    obtain ⟨u, hu, rfl⟩ := liveMarker_eq_ok hlive
    simp only [hlive, andThen_ok, Watch.freshOr, hfresh, hu]
    rfl

omit [Marking M] in
theorem LogsAside.answered (h : LogsAside access w log)
    (hlive : liveMarker access w = (.ok live, w₁)) :
    w₁.events = w.events ++ .markerAsked :: log ++ [.markerAnswered live] := by
  obtain ⟨u, hu, rfl⟩ := liveMarker_eq_ok hlive
  rw [LogsAside, hu] at h
  rw [Watch.note, h]

theorem Confirmed.reloadLog (h : Confirmed access w live w₂)
    (hopen : OnlyMoves moves access.openStream)
    (hcompile : ∀ stream v, ∃ during, (compilation stream v).2.events = v.events ++ during) :
    ∃ log, ReloadLog access compilation w₂ live log ∧
      (serve access compilation w).2.events = w₂.events ++ log := by
  have hasked : (access.openStream (w₂.note .streamAsked)).2.events =
      w₂.events ++ [.streamAsked] := by
    obtain ⟨r, -, hmoved⟩ := hopen (w₂.note .streamAsked)
    rw [hmoved, Watch.note]
  rcases hopened : access.openStream (w₂.note .streamAsked) with ⟨e | stream, w₃⟩
  · have hfails : FailsAt access compilation w .opening e w₃ := .opening h hopened
    rw [hopened] at hasked
    exact ⟨_, .refused hopened, by rw [hfails.serve_eq]; exact hasked⟩
  · rw [hopened] at hasked
    obtain ⟨during, hduring⟩ := hcompile stream (w₃.note .compilerCalled)
    rcases hvalue : compilation stream (w₃.note .compilerCalled) with ⟨e | value, u⟩
    · have hfails : FailsAt access compilation w .compilation e u :=
        .compilation ⟨w₂, h, hopened⟩ hvalue
      rw [hvalue] at hduring
      refine ⟨_, .failed hopened hvalue hduring, ?_⟩
      rw [hfails.serve_eq]
      simp_all [Watch.leaving, Watch.unlocked, Watch.note]
    · have hcompiled : Compiled access compilation w live value u :=
        ⟨stream, w₃, ⟨w₂, h, hopened⟩, hvalue⟩
      rw [hvalue] at hduring
      refine ⟨_, .held hopened hvalue hduring, ?_⟩
      rw [serve_of_compiled hcompiled]
      simp_all [Watch.swap, Watch.note]

omit [Marking M] in
/-- A reload asks for a stream, and calls its compiler if there is one. -/
theorem ReloadLog.calls (h : ReloadLog access compilation w₂ live log) :
    .streamAsked ∈ log ∧ (.compilerCalled ∈ log ↔
      ∃ stream, (access.openStream (w₂.note .streamAsked)).1 = .ok stream) := by
  cases h with
  | refused hopen => simp [hopen]
  | failed hopen => simp [hopen]
  | held hopen => simp [hopen]

theorem Compiled.endsAt {value : A} {u : Watch R A M F}
    (h : Compiled access compilation w live value u) : EndsAt access w .compilation := by
  obtain ⟨stream, w₃, hopened, -⟩ := h
  exact ⟨live, stream, w₃, hopened⟩

/-- A request that ends before its compiler is called holds nothing. -/
theorem OwnLog.of_unheld (ends : EndsAt access w extent) (early : extent ≠ .compilation)
    (heffects : LiveTemplates.effects own = extent.effects) (unheld : ∀ s, .held s ∉ own) :
    OwnLog access compilation w extent own where
  ends := ends
  effects := heffects
  held := by
    constructor
    · rintro ⟨s, hs⟩
      exact (unheld s hs).elim
    · rintro ⟨live, value, u, hcompiled⟩
      exact (early (hcompiled.endsAt.unique ends)).elim
  closed s hs := (unheld s hs).elim

theorem LookEnds.log_eq (h : LookEnds access w answer) :
    answer = [] ∨ ∃ live, answer = [.markerAnswered live] := by
  cases h with
  | raised => exact .inl rfl
  | incomparable => exact .inr ⟨_, rfl⟩
  | fresh => exact .inr ⟨_, rfl⟩

theorem LookEnds.ownLog_first (h : LookEnds access w answer) :
    OwnLog access compilation w .firstLook (.markerAsked :: answer) := by
  refine .of_unheld ⟨answer, h⟩ (by decide) ?_ ?_
  all_goals rcases h.log_eq with rfl | ⟨live, rfl⟩
  · rfl
  · rfl
  · simp
  · simp

theorem LookEnds.ownLog_second (hwanting : Wanting access w w₁)
    (h : LookEnds access w₁.locked answer) (live : M) :
    OwnLog access compilation w .secondLook
      ([.markerAsked, .markerAnswered live, .markerAsked] ++ answer) := by
  refine .of_unheld ⟨w₁, answer, hwanting, h⟩ (by decide) ?_ ?_
  all_goals rcases h.log_eq with rfl | ⟨live, rfl⟩
  · rfl
  · rfl
  · simp
  · simp

/-- A compiler that reads its stream once does so between its call and the closing of the stream. -/
theorem ReloadLog.ownLog (hc : compilation.ReadsOnce) (h : ReloadLog access compilation w₂ live log)
    (hconfirmed : Confirmed access w live w₂) (live' : M) :
    ∃ extent, OwnLog access compilation w extent
      ([.markerAsked, .markerAnswered live', .markerAsked] ++ .markerAnswered live :: log) := by
  have hread : ∀ {stream v outcome u during}, compilation stream v = (outcome, u) →
      u.events = v.events ++ during → during = [.streamRead] := by
    intro stream v outcome u during hcompile hduring
    have hevents := hc.events stream v
    rw [hcompile, hduring] at hevents
    exact List.append_cancel_left hevents
  cases h with
  | refused hopen =>
    exact ⟨.opening, .of_unheld ⟨live, w₂, _, _, hconfirmed, hopen⟩ (by decide) rfl (by simp)⟩
  | failed hopen hcompile hduring =>
    obtain rfl := hread hcompile hduring
    have hopened : Opened access w live _ _ := ⟨w₂, hconfirmed, hopen⟩
    refine ⟨.compilation, ⟨live, _, _, hopened⟩, rfl, ?_, by simp⟩
    have hfails : FailsAt access compilation w .compilation _ _ := .compilation hopened hcompile
    constructor
    · simp
    · rintro ⟨live, value, u, hcompiled⟩
      have hserve := serve_of_compiled hcompiled
      rw [hfails.serve_eq] at hserve
      cases hserve
  | @held stream w₃ u value _ hopen hcompile hduring =>
    obtain rfl := hread hcompile hduring
    have hcompiled : Compiled access compilation w live value u :=
      ⟨stream, w₃, ⟨w₂, hconfirmed, hopen⟩, hcompile⟩
    refine ⟨.compilation, hcompiled.endsAt, rfl, ?_, ?_⟩
    · exact iff_of_true ⟨⟨⟨u.compiled, value⟩, live⟩, by simp⟩ ⟨live, value, u, hcompiled⟩
    · intro s hs
      have hsnapshot : s = ⟨⟨u.compiled, value⟩, live⟩ := by simpa using hs
      rw [hsnapshot]
      exact ⟨[_, _, _, _, _, _, _, _], rfl⟩

theorem serve_ownLog (hm : ∀ v, ∃ log, Extends moves v (access.marker v).2 log)
    (ho : OnlyMoves moves access.openStream) (hc : compilation.ReadsOnce)
    (free : w.reloading = false) :
    ∃ extent first second own, RequestLog access compilation w first second own ∧
      OwnLog access compilation w extent own := by
  have aside : ∀ v, ∃ log, LogsAside access v log := by
    intro v
    obtain ⟨log, hlog⟩ := hm (v.note .markerAsked)
    exact ⟨log, by rw [LogsAside, hlog.events, Watch.note]; simp⟩
  obtain ⟨first, hfirst⟩ := aside w
  rcases lookEnds_or_wanting access w with ⟨answer, hends⟩ | ⟨w₁, hwanting⟩
  · have hserve := hends.events fun _ v => v.exclusively (reloadIfStale access compilation)
    refine ⟨.firstLook, first, [], _, .once (fun _ => hends.not_wanting) hfirst ?_,
      hends.ownLog_first⟩
    rw [← hfirst]
    exact hserve
  · obtain ⟨second, hsecond⟩ := aside w₁.locked
    obtain ⟨live, hlive, -⟩ := id hwanting
    have free₁ : w₁.reloading = false := by
      obtain ⟨v, log, hlog, rfl⟩ := liveMarker_extends hm hlive
      exact hlog.reloading.trans free
    have hanswered := hfirst.answered hlive
    rcases lookEnds_or_wanting access w₁.locked with ⟨answer, hends⟩ | ⟨w₂, live₂, hlive₂, hstale⟩
    · have hserve := hends.events (reload access compilation)
      refine ⟨.secondLook, first, second, _, .twice hwanting hfirst hsecond ?_,
        hends.ownLog_second hwanting live⟩
      calc (serve access compilation w).2.events
          = (access.marker (w₁.locked.note .markerAsked)).2.events ++ answer := by
            rw [serve_of_wanting_free hwanting free₁]
            exact hserve
        _ = w₁.events ++ .markerAsked :: second ++ answer := by
            rw [hsecond]
            rfl
        _ = _ := by simp [hanswered]
    · have hconfirmed : Confirmed access w live₂ w₂ := ⟨w₁, hwanting, free₁, hlive₂, hstale⟩
      obtain ⟨log, hlog, hserve⟩ := hconfirmed.reloadLog ho fun stream v => ⟨_, hc.events stream v⟩
      obtain ⟨extent, hown⟩ := hlog.ownLog hc hconfirmed live
      refine ⟨extent, first, second, _, .twice hwanting hfirst hsecond ?_, hown⟩
      have hsecondAnswered : w₂.events =
          w₁.events ++ .markerAsked :: second ++ [.markerAnswered live₂] :=
        hsecond.answered hlive₂
      rw [hserve, hsecondAnswered, hanswered]
      simp

omit [Marking M] in
theorem LogsAside.eq {log' : List (Event A M F)} (h : LogsAside access w log)
    (h' : (access.marker (w.note .markerAsked)).2.events = (w.note .markerAsked).events ++ log') :
    log = log' := by
  have hevents : w.events ++ [.markerAsked] ++ log = w.events ++ [.markerAsked] ++ log' := by
    rw [← List.append_cons, ← h, h', Watch.note]
  exact List.append_cancel_left hevents

/-- Others hold nothing while a marker is read under the lock. -/
theorem LogsAside.unheld (h : LogsAside access w.locked log)
    (hm : ∀ v, ∃ log, Extends moves v (access.marker v).2 log) : snapshots log = [] := by
  obtain ⟨aside, haside⟩ := hm (w.locked.note .markerAsked)
  rw [h.eq haside.events]
  exact snapshots_of_aside (haside.aside rfl)

/-- What is held can be replayed from what the request itself logs and what others log during its
first look. -/
theorem RequestLog.cache (h : RequestLog access compilation w first second own)
    (hm : ∀ v, ∃ log, Extends moves v (access.marker v).2 log)
    (ho : OnlyMoves moves access.openStream)
    (hc : ∀ stream v, ∃ log, Extends moves v (compilation stream v).2 log) :
    (serve access compilation w).2.cache = w.cache.replay (first ++ own) := by
  obtain ⟨log, hlog⟩ := (serve_course access compilation w).extends hm ho hc
  rw [hlog.cache, Cache.replay, Cache.replay]
  suffices hsnapshots : snapshots log = snapshots (first ++ own) by rw [hsnapshots]
  cases h with
  | @once _ answer _ _ hevents =>
    have heq : log = .markerAsked :: (first ++ answer) := by
      rw [hlog.events, List.append_assoc] at hevents
      exact List.append_cancel_left hevents
    rw [heq, snapshots_append]
    exact snapshots_append first answer
  | @twice w₁ live _ _ back _ _ hsecond hevents =>
    have heq : log = .markerAsked ::
        (first ++ ([.markerAnswered live, .markerAsked] ++ (second ++ back))) := by
      rw [hlog.events] at hevents
      simpa using hevents
    have hunheld := hsecond.unheld hm
    calc snapshots log
        = snapshots (first ++ ([.markerAnswered live, .markerAsked] ++ (second ++ back))) := by
          rw [heq]
          rfl
      _ = snapshots first ++ (snapshots second ++ snapshots back) := by
          rw [snapshots_append, snapshots_append, snapshots_append second]
          rfl
      _ = snapshots first ++ snapshots back := by rw [hunheld, List.nil_append]
      _ = snapshots (first ++ ([.markerAsked, .markerAnswered live, .markerAsked] ++ back)) := by
          rw [snapshots_append]
          rfl

/-- The effects of any request have their order. -/
theorem serve_inOrder (hm : ∀ v, ∃ log, Extends AnyMove v (access.marker v).2 log)
    (ho : OnlyMoves AnyMove access.openStream) (hc : compilation.ReadsOnce)
    (free : w.reloading = false) :
    ∃ first second own, InOrder access compilation w first second own := by
  obtain ⟨extent, first, second, own, hlog, hown⟩ := serve_ownLog hm ho hc free
  have hreaches := hown.ends.reaches
  refine ⟨first, second, own, hlog, ⟨extent, hown.ends⟩, fun extent' => ?_,
    hlog.cache hm ho fun stream v => (hc.meanwhile stream v).extends, hown.held, hown.closed,
    ?_, ?_, ?_, ?_⟩
  · constructor
    · intro hends
      rw [hown.ends.unique hends]
      exact hown.effects
    · intro heffects
      rw [hown.effects] at heffects
      exact Extent.effects_injective heffects ▸ hown.ends
  · intro hopening
    rw [hown.effects] at hopening
    exact hreaches.confirmed.2 (by cases extent <;> simp_all [Extent.effects])
  · intro hopened
    rw [hown.effects, hreaches.opened.1 hopened]
    exact ⟨rfl, rfl⟩
  · intro unopened
    rw [hreaches.opened] at unopened
    rw [hown.effects]
    cases extent <;> simp_all [Extent.effects]
  · rw [hown.effects]
    cases extent <;> decide

end Logs

namespace Script

variable {compilation : Compilation (Script M) A M F Stream}

def benchWith (compilation : Compilation (Script M) A M F Stream) :
    Bench (Script M) A M F Stream (Change M) :=
  ⟨access compilation, key, change, compilation⟩

theorem benchWith_external (hc : ∀ stream w, Meanwhile AnyMove w (compilation stream w).2) :
    (benchWith compilation).External AnyMove :=
  external change hc

def accessWithin (compilation : Compilation (Script M) A M F Stream) (depth : Nat) :
    Access (Script M) A M F Stream :=
  ⟨marker compilation depth, openStream, readStream⟩

/-- What others log while a scripted marker is read: nothing, or all that a single request logs,
and its end. -/
inductive OthersLog (compilation : Compilation (Script M) A M F Stream) :
    List (Event A M F) → Prop
  | nobody : OthersLog compilation []
  | served {depth : Nat} {w w' : Watch (Script M) A M F} {log : List (Event A M F)}
    {outcome : Except (LoadFailure M F) (Artifact A)} :
    serve (accessWithin compilation depth) compilation w = (outcome, w') →
    w'.events = w.events ++ log →
    OthersLog compilation (log ++ [.otherServed (outcome.map (·.serial))])

variable (hc : ∀ stream w, Meanwhile AnyMove w (compilation stream w).2)
include hc

theorem marker_othersLog (depth : Nat) (w : Watch (Script M) A M F) :
    ∃ log, OthersLog compilation log ∧ (marker compilation depth w).2.events = w.events ++ log := by
  cases depth with
  | zero => exact ⟨[], .nobody, by simp [marker]⟩
  | succ depth =>
    rcases htake : w.resource.take with ⟨cue, script⟩
    simp only [marker, htake]
    cases cue with
    | answer m => exact ⟨[], .nobody, by simp⟩
    | unavailable reason => exact ⟨[], .nobody, by simp⟩
    | afterOther m =>
      let v : Watch (Script M) A M F := { w with resource := script }
      have hserved : Meanwhile AnyMove v (serve (accessWithin compilation depth) compilation v).2 :=
        .served (marker_meanwhile hc depth) openStream_onlyMoves hc (.refl v)
      obtain ⟨log, hlog⟩ := hserved.extends
      have hevents : (serve (accessWithin compilation depth) compilation v).2.events =
          w.events ++ log := hlog.events
      refine ⟨_, .served rfl hlog.events, ?_⟩
      rw [← List.append_assoc, ← hevents]
      rfl

omit hc in
theorem inOrder_of_marker {access : Access (Script M) A M F Stream} (hc : compilation.ReadsOnce)
    (hmarker : ∀ w, ∃ depth, access.marker w = marker compilation depth w)
    (hopen : access.openStream = openStream) {w : Watch (Script M) A M F}
    (free : w.reloading = false) :
    ∃ first second own, OthersLog compilation first ∧ OthersLog compilation second ∧
      InOrder access compilation w first second own := by
  have hothers : ∀ {v log}, LogsAside access v log → OthersLog compilation log := by
    intro v log hlog
    obtain ⟨depth, hdepth⟩ := hmarker (v.note .markerAsked)
    obtain ⟨log', hlog', hevents⟩ := marker_othersLog hc.meanwhile depth (v.note .markerAsked)
    rw [← hdepth] at hevents
    rwa [hlog.eq hevents]
  have hm : ∀ v, ∃ log, Extends AnyMove v (access.marker v).2 log := by
    intro v
    obtain ⟨depth, hdepth⟩ := hmarker v
    rw [hdepth]
    exact (marker_meanwhile hc.meanwhile depth v).extends
  obtain ⟨first, second, own, h⟩ := serve_inOrder hm (hopen ▸ openStream_onlyMoves) hc free
  refine ⟨first, second, own, ?_, ?_, h⟩
  · cases h.log with
    | once _ hfirst _ => exact hothers hfirst
    | twice _ hfirst _ _ => exact hothers hfirst
  · cases h.log with
    | once => exact .nobody
    | twice _ _ hsecond _ => exact hothers hsecond

omit hc in
/-- The effects of a request for a scripted resource have their order in every state that a run
reaches, and so have those of the requests that others make while its markers are read. -/
theorem effects_in_order (hc : compilation.ReadsOnce) :
    (∀ (start : Script M) (steps : List (Step (Change M))),
      ∃ first second own, OthersLog compilation first ∧ OthersLog compilation second ∧
        InOrder (access compilation) compilation
          (Step.runAll (benchWith compilation) { resource := start } steps) first second own) ∧
    ∀ depth (w : Watch (Script M) A M F), w.reloading = false →
      ∃ first second own, OthersLog compilation first ∧ OthersLog compilation second ∧
        InOrder (accessWithin compilation depth) compilation w first second own := by
  constructor
  · intro start steps
    obtain ⟨log, hlog⟩ :=
      ((benchWith_external hc.meanwhile).runAll_meanwhile { resource := start } steps).extends
    exact inOrder_of_marker hc (fun w => ⟨w.resource.depth, rfl⟩) rfl hlog.reloading
  · exact fun depth w free => inOrder_of_marker hc (fun _ => ⟨depth, rfl⟩) rfl free

omit hc

def verbatim : Compilation (Script Marker) Bytes Marker Empty Stream :=
  Compiler.reading (.ok : Compiler Bytes Empty) readStream

theorem verbatim_readsOnce : verbatim.ReadsOnce := Compiler.reading_readsOnce _ _

def answers (cue : Cue Int) (later : List (Cue Int)) : Script Marker :=
  let marker : Cue Int → Cue Marker
    | .answer i => .answer (.number (.int i))
    | .unavailable reason => .unavailable reason
    | .afterOther i => .afterOther (.number (.int i))
  ⟨"k", marker cue, later.map marker, [120], none, none⟩

/-- Another caller is let in during the first look, and both reload. -/
theorem effects_in_order_let_in :
    let w := Step.runAll (benchWith verbatim)
      { resource := answers (.afterOther 3) [.answer 1, .answer 2, .answer 4] } []
    verbatim.ReadsOnce ∧ ∃ first second own,
      InOrder (access verbatim) verbatim w first second own ∧
      effects first = Extent.compilation.effects ∧ effects own = Extent.compilation.effects := by
  intro w
  obtain ⟨first, second, own, -, -, h⟩ := (effects_in_order verbatim_readsOnce).1
    (answers (.afterOther 3) [.answer 1, .answer 2, .answer 4]) []
  refine ⟨verbatim_readsOnce, first, second, own, h, ?_, ?_⟩
  · have hfirst : LogsAside (access verbatim) w first := by
      cases h.log with
      | once _ hfirst _ => exact hfirst
      | twice _ hfirst _ _ => exact hfirst
    have hlog : first = ((access verbatim).marker (w.note .markerAsked)).2.events.drop 1 :=
      hfirst.eq rfl
    rw [hlog]
    rfl
  · have hconfirmed : Confirmed (access verbatim) w (.number (.int 4)) _ :=
      ⟨_, ⟨.number (.int 3), rfl, rfl⟩, rfl, rfl, rfl⟩
    exact (h.effects .compilation).1 ⟨_, _, _, _, hconfirmed, rfl⟩

/-- The second look of a second request lets another caller in, who is served at once. -/
theorem others_log_during_second_look :
    let w := Step.runAll (benchWith verbatim)
      { resource := answers (.answer 1) [.answer 1, .answer 5, .afterOther 7, .answer 0] }
      [.request]
    verbatim.ReadsOnce ∧ LogsAside (access verbatim) w [] ∧
      ∃ log, (serve (access verbatim) verbatim w).2.events = w.events ++ log ∧
        ∀ extent : Extent, effects log ≠ extent.effects := by
  intro w
  refine ⟨verbatim_readsOnce, rfl,
    (serve (access verbatim) verbatim w).2.events.drop w.events.length, rfl, ?_⟩
  intro extent
  cases extent <;> decide

end Script

end LiveTemplates
