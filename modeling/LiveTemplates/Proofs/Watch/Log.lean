import Mathlib.Data.List.Chain
import LiveTemplates.Watch.Cache

/-!
# What a log tells about a cache

The events of a cache record each snapshot that was held and each value that was compiled. What
is held, and how often, can be replayed from them.
-/

namespace LiveTemplates

variable {A M F : Type}

def Event.snapshot? : Event A M F → Option (Snapshot A M)
  | .held s => some s
  | _ => none

def Event.artifact? : Event A M F → Option (Artifact A)
  | .compiled a => some a
  | _ => none

def Event.IsAside : Event A M F → Prop
  | .compilerCalled | .compiled _ | .held _ => False
  | _ => True

def snapshots (log : List (Event A M F)) : List (Snapshot A M) := log.filterMap Event.snapshot?

def artifacts (log : List (Event A M F)) : List (Artifact A) := log.filterMap Event.artifact?

@[simp] theorem snapshots_append (a b : List (Event A M F)) :
    snapshots (a ++ b) = snapshots a ++ snapshots b := List.filterMap_append

@[simp] theorem artifacts_append (a b : List (Event A M F)) :
    artifacts (a ++ b) = artifacts a ++ artifacts b := List.filterMap_append

theorem snapshots_of_aside {log : List (Event A M F)} (h : ∀ e ∈ log, e.IsAside) :
    snapshots log = [] := by
  rw [snapshots, List.filterMap_eq_nil_iff]
  intro e he
  have := h e he
  cases e <;> simp_all [Event.IsAside, Event.snapshot?]

theorem artifacts_of_aside {log : List (Event A M F)} (h : ∀ e ∈ log, e.IsAside) :
    artifacts log = [] := by
  rw [artifacts, List.filterMap_eq_nil_iff]
  intro e he
  have := h e he
  cases e <;> simp_all [Event.IsAside, Event.artifact?]

theorem mem_artifacts {log : List (Event A M F)} {a : Artifact A} :
    a ∈ artifacts log ↔ .compiled a ∈ log := by
  rw [artifacts, List.mem_filterMap]
  constructor
  · rintro ⟨e, he, ha⟩
    cases e <;> simp_all [Event.artifact?]
  · intro h
    exact ⟨_, h, rfl⟩

/-- A cache after what a log records: it holds the last snapshot, and has compiled once for each. -/
def Cache.replay (c : Cache A M) (log : List (Event A M F)) : Cache A M :=
  ⟨(snapshots log).getLast?.or c.held, c.compiles + (snapshots log).length⟩

theorem Cache.replay_of_snapshots_eq_nil (c : Cache A M) {log : List (Event A M F)}
    (h : snapshots log = []) : c.replay log = c := by
  simp [Cache.replay, h]

theorem Cache.replay_append (c : Cache A M) (a b : List (Event A M F)) :
    c.replay (a ++ b) = (c.replay a).replay b := by
  simp [Cache.replay, List.getLast?_append, Option.or_assoc, Nat.add_assoc]

def Snapshot.Older [Marking M] (s t : Snapshot A M) : Prop :=
  Marking.older? s.marker t.marker = some true

def Ascending [Marking M] (c : Cache A M) (log : List (Event A M F)) : Prop :=
  (c.held.toList ++ snapshots log).IsChain Snapshot.Older

theorem Cache.getLast?_toList_append (c : Cache A M) (log : List (Event A M F)) :
    (c.held.toList ++ snapshots log).getLast? = (c.replay log).held := by
  cases h : c.held <;> simp [Cache.replay, h, List.getLast?_cons]

theorem Ascending.append [Marking M] {c : Cache A M} {a b : List (Event A M F)}
    (ha : Ascending c a) (hb : Ascending (c.replay a) b) : Ascending c (a ++ b) := by
  unfold Ascending at *
  rw [snapshots_append, ← List.append_assoc, List.isChain_append]
  rw [List.isChain_append] at hb
  refine ⟨ha, hb.2.1, ?_⟩
  intro s hs t ht
  rw [Cache.getLast?_toList_append] at hs
  refine hb.2.2 s ?_ t ht
  rw [Option.mem_def] at hs
  simp [hs]

theorem Ascending.of_snapshots_eq_nil [Marking M] (c : Cache A M) {log : List (Event A M F)}
    (h : snapshots log = []) : Ascending c log := by
  unfold Ascending
  cases c.held <;> simp [h]

/-- What a request that holds the snapshot `s` leaves in the log, from the answer to its first
look on: its second look is answered with the marker of `s`, and next its stream is opened and
compiled. -/
def reloadLog (first : M) (second during : List (Event A M F)) (s : Snapshot A M) :
    List (Event A M F) :=
  [.markerAnswered first, .markerAsked] ++ second ++
    [.markerAnswered s.marker, .streamAsked, .compilerCalled] ++ during ++
    [.compiled s.artifact, .streamClosed, .held s]

theorem snapshots_reloadLog {first : M} {second during : List (Event A M F)} {s : Snapshot A M}
    (hsecond : ∀ e ∈ second, e.IsAside) (hduring : ∀ e ∈ during, e.IsAside) :
    snapshots (reloadLog first second during s) = [s] := by
  simp only [reloadLog, snapshots_append, snapshots_of_aside hsecond, snapshots_of_aside hduring]
  rfl

theorem artifacts_reloadLog {first : M} {second during : List (Event A M F)} {s : Snapshot A M}
    (hsecond : ∀ e ∈ second, e.IsAside) (hduring : ∀ e ∈ during, e.IsAside) :
    artifacts (reloadLog first second during s) = [s.artifact] := by
  simp only [reloadLog, artifacts_append, artifacts_of_aside hsecond, artifacts_of_aside hduring]
  rfl

/-- A log in which a single request compiled the artifact of `s` and read the marker of `s` under
the lock, just before it opened its stream. Nothing else is compiled or held meanwhile. -/
def Paired (log : List (Event A M F)) (s : Snapshot A M) : Prop :=
  ∃ first second during, (∀ e ∈ second, e.IsAside) ∧ (∀ e ∈ during, e.IsAside) ∧
    reloadLog first second during s <:+: log

theorem Paired.mono {a b : List (Event A M F)} {s : Snapshot A M} (h : Paired a s)
    (hab : a <:+: b) : Paired b s := by
  obtain ⟨first, second, during, hsecond, hduring, hlog⟩ := h
  exact ⟨first, second, during, hsecond, hduring, hlog.trans hab⟩

end LiveTemplates
