import Mathlib.Data.List.Nodup
import LiveTemplates.Proofs.Watch.Failure
import LiveTemplates.Proofs.Watch.Pairing

/-!
# As fresh as the first look

If the answers to marker reads never go down, a request that is served leaves a snapshot whose
marker has come up to the one that the request saw at its first look, however many other callers
have reloaded in between. A request that finds such a snapshot there already does nothing more.
-/

namespace LiveTemplates

variable {R A M F S E : Type}

def Event.answer? : Event A M F → Option M
  | .markerAnswered m => some m
  | _ => none

def answers (log : List (Event A M F)) : List M := log.filterMap Event.answer?

@[simp] theorem answers_append (a b : List (Event A M F)) :
    answers (a ++ b) = answers a ++ answers b := List.filterMap_append

theorem mem_answers {log : List (Event A M F)} {m : M} (h : .markerAnswered m ∈ log) :
    m ∈ answers log := by
  rw [answers, List.mem_filterMap]
  exact ⟨_, h, rfl⟩

section Looks

variable {access : Access R A M F S}

/-- What is answered under the lock after a first look is no less than the answer to that look. -/
theorem first_le_of_answered [Preorder M] {moves : R → R → Prop} {w w₁ w₂ : Watch R A M F}
    {first live : M} {later whole : List (Event A M F)}
    (hfirst : liveMarker access w = (.ok first, w₁)) (hidle : Idle moves w₁.locked w₂ later)
    (hlive : .markerAnswered live ∈ later) (hwhole : w₂.events <+: whole)
    (grows : (answers whole).Pairwise (· ≤ ·)) : first ≤ live := by
  obtain ⟨v, -, rfl⟩ := liveMarker_eq_ok hfirst
  have hlast : first ∈ answers (v.note (.markerAnswered first)).events :=
    mem_answers (by simp [Watch.note])
  have hgrows := grows.sublist (hwhole.sublist.filterMap Event.answer?)
  rw [hidle.events, ← answers, answers_append, List.pairwise_append] at hgrows
  exact hgrows.2.2 first hlast live (mem_answers hlive)

end Looks

variable [Marking M] [LinearOrder M]

section Requests

variable {access : Access R A M F S} {compilation : Compilation R A M F S}
variable (total : ∀ m n : M, Marking.older? m n = some (decide (m < n)))

include total

theorem Snapshot.freshAt_eq_some_iff {held : Option (Snapshot A M)} {live : M} {a : Artifact A} :
    freshAt (F := F) held live = .ok (some a) ↔
      ∃ s, held = some s ∧ live ≤ s.marker ∧ s.artifact = a := by
  constructor
  · intro h
    obtain ⟨s, hs, hfresh, ha⟩ := freshAt_eq_some h
    rw [total, Option.some.injEq, decide_eq_false_iff_not, not_lt] at hfresh
    exact ⟨s, hs, hfresh, ha⟩
  · rintro ⟨s, rfl, hle, rfl⟩
    simp [freshAt, total, not_lt.2 hle]

/-- The snapshot that a served request leaves has come up to the answer to its first look. -/
theorem served_reaches_first {moves : R → R → Prop} {w w' : Watch R A M F} {a : Artifact A}
    (hm : ∀ v, ∃ log, Extends moves v (access.marker v).2 log)
    (ho : OnlyMoves moves access.openStream)
    (hc : ∀ stream v, ∃ log, Extends moves v (compilation stream v).2 log)
    (h : serve access compilation w = (.ok a, w'))
    (grows : (answers w'.events).Pairwise (· ≤ ·)) :
    ∃ first w₁ s, liveMarker access w = (.ok first, w₁) ∧ w'.cache.held = some s ∧
      s.artifact = a ∧ first ≤ s.marker := by
  have hcourse := serve_course access compilation w
  rw [h] at hcourse
  cases hcourse with
  | fresh hlive hfresh =>
    obtain ⟨s, hs, hle, ha⟩ := (Snapshot.freshAt_eq_some_iff total).1 hfresh
    exact ⟨_, _, s, hlive, hs, ha, hle⟩
  | @overtaken w₁ live w₂ _ hw free hlive hfresh =>
    obtain ⟨first, hfirst, -⟩ := hw
    obtain ⟨s, hs, hle, ha⟩ := (Snapshot.freshAt_eq_some_iff total).1 hfresh
    obtain ⟨second, -, hidle⟩ := locked_liveMarker_idle hm hlive
    have hgrown : first ≤ live :=
      first_le_of_answered hfirst hidle (by simp) List.prefix_rfl grows
    exact ⟨first, w₁, s, hfirst, hs, ha, hgrown.trans hle⟩
  | @reloaded live value w₄ hcompiled =>
    obtain ⟨stream, w₃, hopened, hcompile⟩ := hcompiled
    obtain ⟨w₁, second, during, ⟨⟨first, hfirst, -⟩, -, -, -⟩, -, hidle⟩ :=
      compilation_idle hm ho hc hopened hcompile
    have hgrown : first ≤ live :=
      first_le_of_answered hfirst hidle (by simp) (List.prefix_append _ _) grows
    exact ⟨first, w₁, _, hfirst, rfl, rfl, hgrown⟩

/-- A request that finds a snapshot which has come up to its first look serves it, and ends. -/
theorem serve_of_reached {w w₁ : Watch R A M F} {first : M} {s : Snapshot A M}
    (hfirst : liveMarker access w = (.ok first, w₁)) (hs : w₁.cache.held = some s)
    (hle : first ≤ s.marker) : serve access compilation w = (.ok s.artifact, w₁) := by
  have hfresh : Snapshot.freshAt (F := F) w₁.cache.held first = .ok (some s.artifact) :=
    (Snapshot.freshAt_eq_some_iff total).2 ⟨s, hs, hle, rfl⟩
  simp only [serve, hfirst, andThen_ok, Watch.freshOr, hfresh]

end Requests

/-- Over any resource with totally ordered markers and any compiler, in any state that requests,
changes and requests within marker reads lead to, at any depth: if the answers to marker reads
never go down, a served request leaves a snapshot with the artifact that it serves and a marker
that has come up to the answer to its first look, and the log shows that this marker was read
before the stream of the artifact was opened. If such a snapshot is there after the first look,
the request serves it and does nothing more. No marker is compiled twice. -/
theorem served_no_older_than_first_look
    (total : ∀ m n : M, Marking.older? m n = some (decide (m < n))) (bench : Bench R A M F S E)
    (external : bench.External AnyMove) (r : R) (w : Watch R A M F)
    (reached : Meanwhile AnyMove { resource := r } w)
    (grows : (answers (serve bench.access bench.compilation w).2.events).Pairwise (· ≤ ·)) :
    let request := serve bench.access bench.compilation
    (∀ a w', request w = (.ok a, w') →
      ∃ first w₁ s, liveMarker bench.access w = (.ok first, w₁) ∧ w'.cache.held = some s ∧
        s.artifact = a ∧ first ≤ s.marker ∧ Paired w'.events s) ∧
    (∀ first w₁ s, liveMarker bench.access w = (.ok first, w₁) → w₁.cache.held = some s →
      first ≤ s.marker → request w = (.ok s.artifact, w₁)) ∧
    artifacts (request w).2.events = (snapshots (request w).2.events).map (·.artifact) ∧
    ∀ m, (heldMarkers (request w).2.events).count m ≤ 1 := by
  intro request
  have hm := fun v => (external.marker v).extends
  have hc := fun stream v => (external.compilation stream v).extends
  obtain ⟨log, hlog⟩ :=
    (Meanwhile.served external.marker external.openStream external.compilation reached).extends
  have hevents : (request w).2.events = log := by simpa using hlog.events
  have hcache : (request w).2.cache = Cache.replay {} log := hlog.cache
  refine ⟨?_, fun first w₁ s => serve_of_reached total, ?_, ?_⟩
  · intro a w' hserved
    have hw' : (request w).2 = w' := congrArg Prod.snd hserved
    rw [hw'] at hevents hcache
    obtain ⟨first, w₁, s, hfirst, hs, ha, hle⟩ := served_reaches_first total hm external.openStream
      hc hserved (hw' ▸ grows)
    refine ⟨first, w₁, s, hfirst, hs, ha, hle, ?_⟩
    rw [hcache] at hs
    exact hevents ▸ hlog.paired s (Cache.mem_snapshots_of_replay_held hs)
  · rw [hevents, hlog.matched]
  · intro m
    have hascending : (heldMarkers log).Pairwise (· < ·) := by
      simpa [Cache.marker?] using hlog.ascending.pairwise total
    rw [hevents]
    exact List.nodup_iff_count_le_one.1 (hascending.imp fun h => h.ne) m

/-- A caller waits for the marker 2 while a second one does, and a third one, let in by that one,
reloads at the marker 2. -/
def waiting : Script Int where
  key := Text.ofString "memory"
  cue := .afterOther 2
  later := [.afterOther 2, .answer 1, .answer 2]
  contents := [65]

def Script.plain : Bench (Script Int) Bytes Int Empty Script.Stream (Script.Change Int) :=
  Script.bench Script.change Except.ok

theorem served_no_older_than_first_look_waiting :
    let w : Watch (Script Int) Bytes Int Empty := { resource := waiting }
    let request := serve Script.plain.access Script.plain.compilation w
    (∀ m n : Int, Marking.older? m n = some (decide (m < n))) ∧
    Script.plain.External AnyMove ∧ Meanwhile AnyMove { resource := waiting } w ∧
    answers request.2.events = [1, 2, 2, 2] ∧ heldMarkers request.2.events = [2] ∧
    ∃ looked, liveMarker Script.plain.access w = (.ok 2, looked) ∧
      request = (.ok ⟨0, [65]⟩, looked) ∧
      ∃ s, looked.cache.held = some s ∧ 2 ≤ s.marker ∧ Paired looked.events s := by
  have total : ∀ m n : Int, Marking.older? m n = some (decide (m < n)) := fun _ _ => rfl
  have external : Script.plain.External AnyMove := Script.bench_external Script.change Except.ok
  refine ⟨total, external, .refl _, rfl, rfl, ?_⟩
  have grows : (answers (serve Script.plain.access Script.plain.compilation
      { resource := waiting }).2.events).Pairwise (· ≤ ·) := by decide
  have hfirst : (liveMarker Script.plain.access { resource := waiting }).1 = .ok 2 := rfl
  have hheld : (liveMarker Script.plain.access { resource := waiting }).2.cache.held =
    some ⟨⟨0, [65]⟩, 2⟩ := rfl
  obtain ⟨served, reached, -, -⟩ :=
    served_no_older_than_first_look total Script.plain external waiting _ (.refl _) grows
  rcases hlook : liveMarker Script.plain.access { resource := waiting } with ⟨outcome, looked⟩
  rw [hlook] at hfirst hheld
  obtain rfl : outcome = .ok 2 := hfirst
  have hend := reached 2 looked _ hlook hheld (Int.le_refl 2)
  obtain ⟨first, w₁, s, hlook', hs, -, hle, paired⟩ := served _ _ hend
  rw [hlook, Prod.mk.injEq, Except.ok.injEq] at hlook'
  obtain ⟨rfl, -⟩ := hlook'
  exact ⟨looked, rfl, hend, s, hs, hle, paired⟩

end LiveTemplates
