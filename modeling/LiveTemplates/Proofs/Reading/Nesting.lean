import Mathlib.Order.MinMax
import LiveTemplates.Proofs.Reading.Repeats
import LiveTemplates.Proofs.Reading.Steps
import LiveTemplates.Proofs.Writing.Grammar

/-!
# How deep values that are read nest

What a reader holds nests no deeper than containers may, together with the containers around it. So
a value that is read stays within the limit, and even more so what is kept of it where names repeat.
-/

namespace LiveTemplates

namespace Json

section Depths

variable {d : Nat}

theorem itemsDepth_le_iff {items : List Json} :
    itemsDepth items ≤ d ↔ ∀ item ∈ items, item.depth ≤ d := by
  induction items with
  | nil => simp [itemsDepth]
  | cons item rest ih => rw [itemsDepth, Nat.max_le, ih, List.forall_mem_cons]

theorem membersDepth_le_iff {members : List (Text × Json)} :
    membersDepth members ≤ d ↔ ∀ m ∈ members, m.2.depth ≤ d := by
  induction members with
  | nil => simp [membersDepth]
  | cons m rest ih => rw [membersDepth, Nat.max_le, ih, List.forall_mem_cons]

mutual

theorem depth_distinct_le : (v : Json) → v.distinct.depth ≤ v.depth
  | .scalar _ => Nat.le_refl _
  | .array items => Nat.succ_le_succ (itemsDepth_distinct_le items)
  | .object members => by
    refine Nat.succ_le_succ (membersDepth_le_iff.2 fun m hm => ?_)
    exact membersDepth_le_iff.1 (membersDepth_distinct_le members) m (mem_of_mem_lastOfEach hm)

theorem itemsDepth_distinct_le :
    (items : List Json) → itemsDepth (distinctItems items) ≤ itemsDepth items
  | [] => Nat.le_refl _
  | item :: rest => max_le_max (depth_distinct_le item) (itemsDepth_distinct_le rest)

theorem membersDepth_distinct_le :
    (members : List (Text × Json)) → membersDepth (distinctMembers members) ≤ membersDepth members
  | [] => Nat.le_refl _
  | (_, value) :: rest => max_le_max (depth_distinct_le value) (membersDepth_distinct_le rest)

end

end Depths

def FramesFit : List Frame → Prop
  | [] => True
  | .item before :: outer => outer.length + 1 + itemsDepth before ≤ nestingLimit ∧ FramesFit outer
  | .member before _ :: outer =>
    outer.length + 1 + membersDepth before ≤ nestingLimit ∧ FramesFit outer

theorem FramesFit.length_le {outer : List Frame} (h : FramesFit outer) :
    outer.length ≤ nestingLimit := by
  match outer with
  | [] => exact Nat.zero_le _
  | .item _ :: _ | .member _ _ :: _ => exact Nat.le_of_add_right_le h.1

namespace Reader

/-- All that a reader holds stays within the limit. -/
def Fits : Reader → Prop
  | .nextValue outer => FramesFit outer
  | .firstItem outer => outer.length + 1 ≤ nestingLimit ∧ FramesFit outer
  | .nextName before _ outer =>
    outer.length + 1 + membersDepth before ≤ nestingLimit ∧ FramesFit outer
  | .nextColon before _ outer =>
    outer.length + 1 + membersDepth before ≤ nestingLimit ∧ FramesFit outer
  | .ended v outer => outer.length + v.depth ≤ nestingLimit ∧ FramesFit outer

variable {r r' : Reader} {t : Token}

theorem Begins.fits {outer : List Frame} (h : Begins outer t r) (fits : FramesFit outer) :
    r.Fits := by
  cases h with
  | atom | text => exact ⟨fits.length_le, fits⟩
  | openArray shallow | openObject shallow => exact ⟨shallow, fits⟩

theorem membersDepth_reverse (before : Members) :
    membersDepth before.reverse = membersDepth before :=
  eq_of_forall_ge_iff fun _ => by simp only [membersDepth_le_iff, List.mem_reverse]

theorem itemsDepth_reverse (before : List Json) :
    itemsDepth before.reverse = itemsDepth before :=
  eq_of_forall_ge_iff fun _ => by simp only [itemsDepth_le_iff, List.mem_reverse]

/-- A reader that goes on still holds nothing beyond the limit. -/
theorem Advances.fits (h : Advances r t r') (fits : r.Fits) : r'.Fits := by
  cases h with
  | value h => exact h.fits fits
  | emptyArray => exact fits
  | item h => exact h.fits fits
  | name | colon => exact fits
  | endObject =>
    obtain ⟨hdepth, houter⟩ := fits
    refine ⟨?_, houter⟩
    rw [depth, membersDepth_reverse]
    omega
  | nextItem | nextMember =>
    obtain ⟨hvalue, hbefore, houter⟩ := fits
    refine ⟨?_, houter⟩
    simp only [List.length_cons, itemsDepth, membersDepth] at hvalue ⊢
    omega
  | lastItem | lastMember =>
    obtain ⟨hvalue, hbefore, houter⟩ := fits
    refine ⟨?_, houter⟩
    simp only [List.length_cons, depth, itemsDepth_reverse, membersDepth_reverse, itemsDepth,
      membersDepth] at hvalue ⊢
    omega

theorem fits_start : start.Fits := trivial

theorem depth_of_run {ls : List Lexeme} {v : Json} (fits : r.Fits) (h : r.run ls = .ok v) :
    v.depth ≤ nestingLimit := by
  induction ls generalizing r with
  | nil =>
    unfold run finish at h
    split at h
    · cases h
      simpa using fits.1
    all_goals cases h
  | cons l ls ih =>
    rw [run] at h
    cases hadvance : r.advance l with
    | error stop =>
      rw [hadvance] at h
      cases h
    | ok r' =>
      rw [hadvance] at h
      exact ih ((advances_of_advance hadvance).fits fits) h

end Reader

theorem depth_of_ofDocument {document : List Char} {v : Json}
    (h : Json.ofDocument document = .ok v) : v.depth ≤ nestingLimit := by
  unfold Json.ofDocument at h
  split at h
  · cases h
  · exact Reader.depth_of_run Reader.fits_start h

end Json

end LiveTemplates
