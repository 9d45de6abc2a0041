import Mathlib.Data.Int.Order.Basic
import Mathlib.Order.Lattice
import LiveTemplates.Proofs.Watch.External

/-!
# Artifacts and markers in pairs

What a cache holds is an artifact of one compilation with the marker that was read, under the
lock, before its stream was opened. From one swap to the next the marker grows strictly, whatever
the markers of the resource do and whoever else is served in between.
-/

namespace LiveTemplates

variable {R A M F S E : Type} [Marking M]

def heldMarkers (log : List (Event A M F)) : List M := (snapshots log).map (·.marker)

theorem Ascending.pairwise [LinearOrder M]
    (total : ∀ m n : M, Marking.older? m n = some (decide (m < n))) {c : Cache A M}
    {log : List (Event A M F)} (h : Ascending c log) :
    (c.marker?.toList ++ heldMarkers log).Pairwise (· < ·) := by
  have hchain : ((c.held.toList ++ snapshots log).map (·.marker)).IsChain (· < ·) := by
    rw [List.isChain_map]
    refine h.imp ?_
    intro s t hst
    simpa [Snapshot.Older, total] using hst
  have hmap : (c.held.toList ++ snapshots log).map (·.marker) =
      c.marker?.toList ++ heldMarkers log := by
    cases hheld : c.held <;> simp [Cache.marker?, heldMarkers, hheld]
  rw [← hmap]
  exact hchain.pairwise

omit [Marking M] in
theorem Cache.replay_held_eq_none_iff {log : List (Event A M F)} :
    (Cache.replay {} log).held = none ↔ (Cache.replay {} log).compiles = 0 := by
  simp [Cache.replay, List.length_eq_zero_iff]

omit [Marking M] in
theorem Cache.mem_snapshots_of_replay_held {log : List (Event A M F)} {s : Snapshot A M}
    (h : (Cache.replay {} log).held = some s) : s ∈ snapshots log := by
  have hlast : (snapshots log).getLast? = some s := by simpa [Cache.replay] using h
  exact List.mem_of_getLast? hlast

/-- Over any resource with totally ordered markers and any compiler, whatever is requested and
whoever else is served meanwhile: nothing is held until something was compiled; what is held was
compiled once, and comes with the marker read under the lock before; the log accounts for every
swap, and each swap has a marker of its own, greater than all before. -/
theorem held_snapshots_ascend [LinearOrder M]
    (total : ∀ m n : M, Marking.older? m n = some (decide (m < n)))
    (bench : Bench R A M F S E) (external : bench.External AnyMove) (r : R)
    (steps : List (Step E)) :
    let w := Step.runAll bench { resource := r } steps
    (w.cache.held = none ↔ w.cache.compiles = 0) ∧
    (∀ s, w.cache.held = some s → Paired w.events s) ∧
    w.cache = Cache.replay {} w.events ∧
    artifacts w.events = (snapshots w.events).map (·.artifact) ∧
    (artifacts w.events).map (·.serial) = List.range w.cache.compiles ∧
    (heldMarkers w.events).Pairwise (· < ·) ∧
    ∀ step, ∃ log,
      (Step.run bench w step).2.events = w.events ++ log ∧
      (Step.run bench w step).2.cache = w.cache.replay log ∧
      (∀ s ∈ snapshots log, Paired log s) ∧
      (w.cache.marker?.toList ++ heldMarkers log).Pairwise (· < ·) := by
  intro w
  obtain ⟨log, h⟩ := (external.runAll_meanwhile { resource := r } steps).extends
  have hevents : w.events = log := by simpa using h.events
  have hcache : w.cache = Cache.replay {} w.events := hevents ▸ h.cache
  refine ⟨?_, ?_, hcache, ?_, ?_, ?_, ?_⟩
  · rw [hcache]
    exact Cache.replay_held_eq_none_iff
  · intro s hs
    rw [hcache] at hs
    exact hevents ▸ h.paired s (hevents ▸ Cache.mem_snapshots_of_replay_held hs)
  · rw [hevents, h.matched]
  · rw [hcache, hevents, h.matched, List.map_map, List.range_eq_range']
    simpa [Cache.replay, Function.comp_def] using h.serials
  · simpa [hevents, Cache.marker?] using h.ascending.pairwise total
  · intro step
    obtain ⟨more, hmore⟩ := (external.run_meanwhile w step).extends
    exact ⟨more, hmore.events, hmore.cache, hmore.paired, hmore.ascending.pairwise total⟩

/-- Two callers race: while the first one waits for the marker 3, the second one reloads at the
marker 2, and when the first one looks again, the resource has gone back to 1. Another caller
reloads at the marker 3 while staleness is asked for. -/
def racing : Script Int where
  key := Text.ofString "memory"
  cue := .afterOther 3
  later := [.answer 2, .answer 2, .answer 1, .afterOther 3, .answer 3]
  contents := [65]

theorem held_snapshots_ascend_racing :
    let bench := Script.bench (Script.change (M := Int)) (Except.ok : Compiler Bytes Empty)
    let w := Step.runAll bench { resource := racing } [.request, .staleness, .request]
    (∀ m n : Int, Marking.older? m n = some (decide (m < n))) ∧
    bench.External AnyMove ∧
    heldMarkers w.events = [2, 3] ∧
    (∀ s, w.cache.held = some s → Paired w.events s) ∧
    (heldMarkers w.events).Pairwise (· < ·) := by
  have total : ∀ m n : Int, Marking.older? m n = some (decide (m < n)) := fun _ _ => rfl
  have external := Script.bench_external (Script.change (M := Int)) (.ok : Compiler Bytes Empty)
  obtain ⟨-, paired, -, -, -, ascending, -⟩ :=
    held_snapshots_ascend total _ external racing [.request, .staleness, .request]
  exact ⟨total, external, rfl, paired, ascending⟩

end LiveTemplates
