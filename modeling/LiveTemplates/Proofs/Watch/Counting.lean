import Mathlib.Data.List.SplitBy
import LiveTemplates.Proofs.Watch.Digest
import LiveTemplates.Proofs.Watch.Freshness

/-!
# Generations count blocks

The generation of a file is the number of blocks of equal digests in the sequence of the contents
that were read for its marker. It depends on nothing else: not on edits between two readings, not on
timestamps, and not on readings that fail.
-/

namespace LiveTemplates

section Blocks

variable {α : Type} (r : α → α → Bool) (a b : α) (l : List α)

theorem length_splitBy_loop (g : List α) (gs : List (List α)) :
    (List.splitBy.loop r l a g gs).length =
      gs.length + (List.splitBy.loop r l a [] []).length := by
  induction l generalizing a g gs with
  | nil => simp [List.splitBy.loop]
  | cons b l ih =>
    simp only [List.splitBy.loop]
    split
    · rw [ih b (a :: g) gs, ih b [a] [], List.length_nil, Nat.zero_add]
    · rw [ih b [] _, ih b [] [_], List.length_cons, List.length_singleton, Nat.add_assoc]

/-- An element begins a block of its own unless it goes with the next one. -/
theorem length_splitBy_cons_cons :
    ((a :: b :: l).splitBy r).length =
      ((b :: l).splitBy r).length + if r a b then 0 else 1 := by
  simp only [List.splitBy, List.splitBy.loop]
  split
  · rw [length_splitBy_loop, List.length_nil, if_pos ‹_›, Nat.zero_add, Nat.add_zero]
  · rw [length_splitBy_loop, List.length_singleton, if_neg (by simp [*]), Nat.add_comm]

end Blocks

namespace Generation

variable {g : Generation} {a : Bytes}

def blocks (readings : List Bytes) : List (List Sha1.Digest) :=
  (readings.map Sha1.digest).splitBy fun a b => decide (a = b)

theorem length_blocks_cons_cons (a b : Bytes) (readings : List Bytes) :
    (blocks (a :: b :: readings)).length =
      (blocks (b :: readings)).length + if Sha1.digest a = Sha1.digest b then 0 else 1 := by
  rw [blocks, List.map_cons, List.map_cons, length_splitBy_cons_cons]
  simp only [decide_eq_true_eq, blocks, List.map_cons]

/-- A generation grows by one when the digest changes. -/
theorem count_see (hlast : g.last = some (Sha1.digest a)) (bytes : Bytes) :
    (g.see bytes).count = g.count + if Sha1.digest a = Sha1.digest bytes then 0 else 1 := by
  simp only [see, hlast, Option.some.injEq]
  split <;> rfl

def seeAll (g : Generation) (readings : List Bytes) : Generation := readings.foldl see g

@[simp] theorem seeAll_cons (g : Generation) (bytes : Bytes) (later : List Bytes) :
    g.seeAll (bytes :: later) = (g.see bytes).seeAll later := rfl

theorem count_seeAll_of_last (hlast : g.last = some (Sha1.digest a)) (readings : List Bytes) :
    (g.seeAll readings).count + 1 = g.count + (blocks (a :: readings)).length := by
  induction readings generalizing g a with
  | nil => rfl
  | cons b readings ih =>
    have hlater := ih (see_last g b)
    have hcount := count_see hlast b
    rw [seeAll_cons, length_blocks_cons_cons]
    omega

theorem count_seeAll (readings : List Bytes) :
    (seeAll {} readings).count = (blocks readings).length := by
  cases readings with
  | nil => rfl
  | cons b readings =>
    have hlater := count_seeAll_of_last (see_last {} b) readings
    have hfirst : (see {} b).count = 1 := rfl
    rw [seeAll_cons]
    omega

def counts (g : Generation) : List Bytes → List Int
  | [] => []
  | bytes :: later => (g.see bytes).count :: (g.see bytes).counts later

theorem length_counts (g : Generation) (readings : List Bytes) :
    (g.counts readings).length = readings.length := by
  induction readings generalizing g with
  | nil => rfl
  | cons bytes later ih => rw [counts, List.length_cons, List.length_cons, ih]

structure Follows (earlier later : Bytes × Int) : Prop where
  le : earlier.2 ≤ later.2
  le_succ : later.2 ≤ earlier.2 + 1
  eq_iff : earlier.2 = later.2 ↔ Sha1.digest earlier.1 = Sha1.digest later.1

theorem follows_see (g : Generation) (a b : Bytes) :
    Follows (a, ((g.see a).count : Int)) (b, (((g.see a).see b).count : Int)) := by
  have hcount := count_see (see_last g a) b
  split at hcount
  · next hsame => exact ⟨by omega, by omega, iff_of_true (by omega) hsame⟩
  · next hchanged => exact ⟨by omega, by omega, iff_of_false (by omega) hchanged⟩

theorem isChain_counts (g : Generation) (readings : List Bytes) :
    (readings.zip (g.counts readings)).IsChain Follows := by
  induction readings generalizing g with
  | nil => exact .nil
  | cons a later ih =>
    have hlater := ih (g.see a)
    cases later with
    | nil => exact .singleton _
    | cons b later => exact .cons_cons (follows_see g a b) hlater

end Generation

namespace WatchedFile

variable {A F : Type} {path : Path} {g : Generation} {w : Watch WatchedFile A Int F}

def withFiles (w : Watch WatchedFile A Int F) (files : FileSystem) : Watch WatchedFile A Int F :=
  { w with resource := ⟨w.resource.file, files⟩ }

/-- The marker is read in one state of the file system after the other. A state in which it is read
several times is there as often. -/
def askAll (w : Watch WatchedFile A Int F) (states : List FileSystem) :
    Watch WatchedFile A Int F :=
  states.foldl (fun w files => (liveMarker source.access (withFiles w files)).2) w

def readings (path : Path) (states : List FileSystem) : List Bytes :=
  states.filterMap fun files => (files.contents path).toOption

section Asking

variable (hfile : w.resource.file = ⟨path, .generation g⟩) {files : FileSystem}

include hfile

/-- A reading that succeeds is seen, and answered with the generation that comes of it. -/
theorem liveMarker_of_contents {bytes : Bytes} (h : files.contents path = .ok bytes) :
    let asked := liveMarker source.access (withFiles w files)
    asked.1 = .ok ((g.see bytes).count : Int) ∧
      asked.2.resource.file = ⟨path, .generation (g.see bytes)⟩ ∧
      answers asked.2.events = answers w.events ++ [((g.see bytes).count : Int)] := by
  have hmarker : source.marker ⟨w.resource.file, files⟩ =
      (.ok (g.see bytes).count, ⟨⟨path, .generation (g.see bytes)⟩, files⟩) := by
    simp [source, marker, hfile, h]
  simp only [liveMarker, Source.access_marker, Watch.note, withFiles, hmarker]
  refine ⟨rfl, rfl, ?_⟩
  simp [Except.mapError, answers, Event.answer?, List.filterMap_cons]

/-- A reading that fails is told as an unavailable resource, and leaves no trace. -/
theorem liveMarker_of_refusal {refusal : Refusal} (h : files.contents path = .error refusal) :
    let asked := liveMarker source.access (withFiles w files)
    asked.1 = .error (.unavailable ⟨path.text, refusal.reason⟩) ∧
      asked.2.resource.file = w.resource.file ∧
      answers asked.2.events = answers w.events := by
  have hmarker : source.marker ⟨w.resource.file, files⟩ =
      (.error refusal.reason, ⟨w.resource.file, files⟩) := by
    simp [source, marker, hfile, h]
  simp only [liveMarker, Source.access_marker, Watch.note, withFiles, hmarker]
  refine ⟨?_, rfl, ?_⟩
  · simp [Except.mapError, Source.unavailable, source, hfile]
  · simp [Except.mapError, answers, Event.answer?]

theorem askAll_eq (states : List FileSystem) :
    (askAll w states).resource.file = ⟨path, .generation (g.seeAll (readings path states))⟩ ∧
      answers (askAll w states).events = answers w.events ++ g.counts (readings path states) := by
  induction states generalizing w g with
  | nil => exact ⟨hfile, (List.append_nil _).symm⟩
  | cons files states ih =>
    rw [askAll, List.foldl_cons, ← askAll]
    cases hcontents : files.contents path with
    | error refusal =>
      have hreadings : readings path (files :: states) = readings path states := by
        simp [readings, hcontents, Except.toOption]
      obtain ⟨-, hfile', hanswers⟩ := liveMarker_of_refusal hfile hcontents
      rw [hreadings, ← hanswers]
      exact ih (hfile'.trans hfile)
    | ok bytes =>
      have hreadings : readings path (files :: states) = bytes :: readings path states := by
        simp [readings, hcontents, Except.toOption]
      obtain ⟨-, hfile', hanswers⟩ := liveMarker_of_contents hfile hcontents
      obtain ⟨hlater, hrest⟩ := ih hfile'
      rw [hanswers, List.append_assoc, List.singleton_append] at hrest
      rw [hreadings]
      exact ⟨hlater, hrest⟩

end Asking

/-- The marker of a digested file is read in any states of the file system. The generation is the
number of blocks of equal digests among the contents that could be read; it goes up by one where
the digest changes from one reading that succeeds to the next, and stays where it does not. At any
further reading, contents are answered with the generation that they lead to, and where there are
none to be read the file is told to be unavailable and is watched as before. -/
theorem generation_counts_changes (path : Path) (files : FileSystem) (states : List FileSystem) :
    let w : Watch WatchedFile A Int F :=
      askAll { resource := ⟨.watching path .digest, files⟩ } states
    ∃ g : Generation, w.resource.file = ⟨path, .generation g⟩ ∧
      g.count = (Generation.blocks (readings path states)).length ∧
      (answers w.events).length = (readings path states).length ∧
      ((readings path states).zip (answers w.events)).IsChain Generation.Follows ∧
      ∀ now : FileSystem,
        let asked := liveMarker source.access (withFiles w now)
        (∀ bytes, now.contents path = .ok bytes → ∃ g' : Generation,
          asked.1 = .ok (g'.count : Int) ∧ asked.2.resource.file = ⟨path, .generation g'⟩ ∧
            answers asked.2.events = answers w.events ++ [(g'.count : Int)]) ∧
        ∀ refusal, now.contents path = .error refusal →
          asked.1 = .error (.unavailable ⟨path.text, refusal.reason⟩) ∧
            asked.2.resource.file = w.resource.file ∧
            answers asked.2.events = answers w.events := by
  intro w
  let start : Watch WatchedFile A Int F := { resource := ⟨.watching path .digest, files⟩ }
  have hstart : start.resource.file = ⟨path, .generation {}⟩ := rfl
  obtain ⟨hfile, hanswers⟩ := askAll_eq hstart states
  have hcounts : answers w.events = Generation.counts {} (readings path states) := hanswers
  refine ⟨_, hfile, Generation.count_seeAll _, ?_, ?_, fun now => ⟨?_, ?_⟩⟩
  · rw [hcounts, Generation.length_counts]
  · rw [hcounts]
    exact Generation.isChain_counts {} _
  · intro bytes hbytes
    exact ⟨_, liveMarker_of_contents hfile hbytes⟩
  · intro refusal hrefusal
    exact liveMarker_of_refusal hfile hrefusal

/-- Contents that come back count as a change, and a time without the file does not. -/
example :
    let a := FileSystem.edit (.write template [65] 5) {}
    let b := FileSystem.edit (.write template [66] 5) a
    let start : Watch WatchedFile Unit Int Empty :=
      { resource := ⟨.watching template .digest, {}⟩ }
    answers (askAll start [{}, a, a, {}, a, b, a]).events = [1, 1, 1, 2, 3] := by
  decide +kernel

end WatchedFile

end LiveTemplates
