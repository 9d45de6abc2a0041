import Mathlib.Data.List.Perm.Subperm
import LiveTemplates.Proofs.Number.Value
import LiveTemplates.Proofs.Writing.Grammar

/-!
# Canonical forms

In the canonical form of a template numbers stand for their values, and the objects of its context
for finite maps, which have no order. All else is kept. Comparing templates one node after the other
comes to comparing their canonical forms.
-/

namespace LiveTemplates

/-- A value up to how numbers are written and to the order of members. -/
inductive CanonicalValue where
  | scalar (s : CanonicalScalar)
  | array (items : List CanonicalValue)
  | object (members : Text → Option CanonicalValue)

inductive CanonicalNode where
  | static (key : Option Text) (value : CanonicalScalar)
  | dynamic (key : Option Text) (role : Role) (expression : Text)
  | composite (key : Option Text) (source : Option Text) (children : List CanonicalNode)
  | iterating (key : Option Text) (children : List CanonicalNode)

structure CanonicalRoot where
  context : CanonicalValue
  source : Option Text
  children : List CanonicalNode

namespace Json

mutual

def canonical : Json → CanonicalValue
  | .scalar s => .scalar s.canonical
  | .array items => .array (canonicalItems items)
  | .object members => .object (canonicalMembers members)

def canonicalItems : List Json → List CanonicalValue
  | [] => []
  | item :: rest => canonical item :: canonicalItems rest

def canonicalMembers : List (Text × Json) → Text → Option CanonicalValue
  | [], _ => none
  | (name, value) :: rest, name' =>
    if name = name' then some (canonical value) else canonicalMembers rest name'

end

theorem canonicalItems_eq_map (items : List Json) : canonicalItems items = items.map canonical := by
  induction items with
  | nil => rfl
  | cons item rest ih => rw [canonicalItems, ih, List.map_cons]

theorem canonicalMembers_eq_find? (members : Keyed Text Json) :
    canonicalMembers members = fun name => (members.find? name).map canonical := by
  funext name
  induction members with
  | nil => rfl
  | cons m rest ih =>
    obtain ⟨name', value⟩ := m
    by_cases h : name' = name <;> simp [canonicalMembers, Keyed.find?, h, ih]

section Members

variable {members others : Keyed Text Json}

def Matches (members others : Keyed Text Json) : Prop :=
  ∀ m ∈ members, (others.find? m.1).map canonical = some m.2.canonical

theorem Matches.keys_subset (h : Matches members others) : members.keys ⊆ others.keys := by
  intro name hname
  obtain ⟨m, hm, rfl⟩ := List.mem_map.1 hname
  by_contra hnone
  have hmatch := h m hm
  rw [Keyed.find?_eq_none_iff.2 hnone] at hmatch
  cases hmatch

/-- As many members, each with a namesake, are the same finite map. -/
theorem canonicalMembers_eq_iff (nodup : members.keys.Nodup) (nodup' : others.keys.Nodup) :
    canonicalMembers members = canonicalMembers others ↔
      members.length = others.length ∧ Matches members others := by
  have hlength : ∀ m : Keyed Text Json, m.length = m.keys.length := fun m =>
    (List.length_map _).symm
  rw [canonicalMembers_eq_find?, canonicalMembers_eq_find?]
  constructor
  · intro h
    have hsame : ∀ name, (members.find? name).map canonical = (others.find? name).map canonical :=
      congrFun h
    have hkeys : members.keys.Perm others.keys := by
      rw [List.perm_ext_iff_of_nodup nodup nodup']
      intro name
      rw [← not_iff_not, ← Keyed.find?_eq_none_iff, ← Keyed.find?_eq_none_iff,
        ← Option.map_eq_none_iff, hsame name, Option.map_eq_none_iff]
    refine ⟨by rw [hlength, hlength, hkeys.length_eq], fun m hm => ?_⟩
    rw [← hsame m.1, (Keyed.find?_eq_some_iff nodup).2 hm]
    rfl
  · rintro ⟨hcount, h⟩
    rw [hlength, hlength] at hcount
    have hkeys : members.keys.Perm others.keys :=
      (List.subperm_of_subset nodup h.keys_subset).perm_of_length_le hcount.ge
    funext name
    cases hfind : members.find? name with
    | some value => exact (h (name, value) (Keyed.mem_of_find? hfind)).symm
    | none =>
      rw [Keyed.find?_eq_none_iff, hkeys.mem_iff, ← Keyed.find?_eq_none_iff] at hfind
      rw [hfind]

end Members

-- By recursion on the first value: the second one follows its shape, and of an object it is the
-- namesake of the member that the recursion has come to.
mutual

/-- Values in which no name repeats are the same if and only if their canonical forms are equal. -/
theorem same_iff : (v w : Json) → v.NoRepeats → w.NoRepeats →
    (v.same w = true ↔ v.canonical = w.canonical)
  | .scalar s, .scalar t, _, _ => by
    rw [same, Scalar.same_iff, canonical, canonical, CanonicalValue.scalar.injEq]
  | .array items, .array others, hv, hw => by
    rw [same, sameItems_iff items others hv hw, canonical, canonical, CanonicalValue.array.injEq]
  | .object members, .object others, ⟨nodup, hv⟩, ⟨nodup', hw⟩ => by
    rw [same, Bool.and_eq_true, beq_iff_eq, sameMembers_iff members others hv hw, canonical,
      canonical, CanonicalValue.object.injEq, canonicalMembers_eq_iff nodup nodup']
  | .scalar _, .array _, _, _ | .scalar _, .object _, _, _ | .array _, .scalar _, _, _
  | .array _, .object _, _, _ | .object _, .scalar _, _, _ | .object _, .array _, _, _ => by
    simp [same, canonical]

theorem sameItems_iff : (items others : List Json) → NoItemRepeats items → NoItemRepeats others →
    (sameItems items others = true ↔ canonicalItems items = canonicalItems others)
  | [], [], _, _ => by simp [sameItems]
  | item :: rest, other :: others, ⟨hitem, hrest⟩, ⟨hother, hothers⟩ => by
    rw [sameItems, Bool.and_eq_true, same_iff item other hitem hother,
      sameItems_iff rest others hrest hothers, canonicalItems, canonicalItems, List.cons.injEq]
  | [], _ :: _, _, _ | _ :: _, [], _, _ => by simp [sameItems, canonicalItems]

theorem sameMembers_iff : (members others : List (Text × Json)) → NoMemberRepeats members →
    NoMemberRepeats others → (sameMembers members others = true ↔ Matches members others)
  | [], _, _, _ => by simp [sameMembers, Matches]
  | (name, value) :: rest, others, ⟨hvalue, hrest⟩, hothers => by
    rw [sameMembers, Bool.and_eq_true, sameMembers_iff rest others hrest hothers]
    refine Iff.trans (and_congr_left' ?_) List.forall_mem_cons.symm
    cases hfind : Keyed.find? others name with
    | none => simp
    | some other =>
      have hother := noMemberRepeats_iff.1 hothers name other (Keyed.mem_of_find? hfind)
      rw [Option.map_some, Option.some.injEq, eq_comm (a := other.canonical)]
      exact same_iff value other hvalue hother

end

end Json

namespace Node

mutual

def canonical : Node → CanonicalNode
  | .static key value => .static key value.canonical
  | .dynamic key role expression => .dynamic key role expression
  | .composite key source children => .composite key source (canonicalAll children)
  | .iterating key children => .iterating key (canonicalAll children)

def canonicalAll : List Node → List CanonicalNode
  | [] => []
  | node :: rest => canonical node :: canonicalAll rest

end

theorem canonicalAll_eq_map (nodes : List Node) : canonicalAll nodes = nodes.map canonical := by
  induction nodes with
  | nil => rfl
  | cons node rest ih => rw [canonicalAll, ih, List.map_cons]

mutual

theorem same_iff : (a b : Node) → (a.same b = true ↔ a.canonical = b.canonical)
  | .static key value, .static key' value' => by
    simp [same, canonical, Scalar.same_iff]
  | .dynamic .., .dynamic .. => by simp [same, canonical, and_assoc]
  | .composite _ _ children, .composite _ _ children' => by
    simp [same, canonical, sameAll_iff children children', and_assoc]
  | .iterating _ children, .iterating _ children' => by
    simp [same, canonical, sameAll_iff children children']
  | .static .., .dynamic .. | .static .., .composite .. | .static .., .iterating ..
  | .dynamic .., .static .. | .dynamic .., .composite .. | .dynamic .., .iterating ..
  | .composite .., .static .. | .composite .., .dynamic .. | .composite .., .iterating ..
  | .iterating .., .static .. | .iterating .., .dynamic .. | .iterating .., .composite .. => by
    simp [same, canonical]

theorem sameAll_iff : (nodes others : List Node) →
    (sameAll nodes others = true ↔ canonicalAll nodes = canonicalAll others)
  | [], [] => by simp [sameAll]
  | node :: rest, other :: others => by
    rw [sameAll, Bool.and_eq_true, same_iff node other, sameAll_iff rest others, canonicalAll,
      canonicalAll, List.cons.injEq]
  | [], _ :: _ | _ :: _, [] => by simp [sameAll, canonicalAll]

end

end Node

namespace Root

def canonical (root : Root) : CanonicalRoot :=
  ⟨root.context.thaw.canonical, root.source, Node.canonicalAll root.children⟩

theorem same_iff {r s : Root} (hr : r.context.thaw.NoRepeats) (hs : s.context.thaw.NoRepeats) :
    r.same s = true ↔ r.canonical = s.canonical := by
  rw [same, Bool.and_eq_true, Bool.and_eq_true, Json.same_iff _ _ hr hs, beq_iff_eq,
    Node.sameAll_iff, canonical, canonical, CanonicalRoot.mk.injEq, and_assoc]

end Root

end LiveTemplates
