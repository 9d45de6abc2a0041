import Mathlib.Data.List.Forall2
import LiveTemplates.Proofs.Template.NormalForm
import LiveTemplates.Proofs.Template.Reads

/-!
# What an evaluator may rely on

Every node of a tree that is issued came from a value of its contents. It has one child for each
member or item of that value, apart from the special members, and is of a kind that can be evaluated
without further checks: sources are not blank, expressions are whole, and names do not repeat.
-/

namespace LiveTemplates

namespace Text

theorem isBlank_head_trim {t : Text} {p : CodePoint} (h : p ∈ (trim t).head?) :
    p.isBlank = false := by
  obtain ⟨b, hb, -⟩ := exists_eq_trimEnd_append (t.dropWhile CodePoint.isBlank)
  have hhead : (t.dropWhile CodePoint.isBlank).head? = some p := by
    rw [hb, List.head?_append]
    exact congrArg (·.or b.head?) h
  simpa [hhead] using List.head?_dropWhile_not CodePoint.isBlank t

theorem isBlank_getLast_trim {t : Text} {p : CodePoint} (h : p ∈ (trim t).getLast?) :
    p.isBlank = false := isBlank_getLast_trimEnd _ p h

end Text

namespace Node

def children : Node → List Node
  | .composite _ _ children => children
  | .iterating _ children => children
  | _ => []

/-- One child for each member apart from the `special` ones, in their order, where no two children
have the same name and none has a special one. -/
structure OnePerMember (special : List Text) (members : Keyed Text Json) (children : List Node) :
    Prop where
  count : children.length = (members.others special).length
  keys : children.map key = (members.others special).map fun m => some m.1
  nodup : (children.map key).Nodup
  named : ∀ child ∈ children, ∃ name, child.key = some name ∧ name ∉ special

inductive Sound : Node → Json → Prop
  | static {key : Option Text} {s : Scalar}
    (unopened : ∀ t, s = .text t → ∀ role, ¬ Role.opener role <+: t) :
    Sound (.static key s) (.scalar s)
  | dynamic {key : Option Text} {role : Role} {expression inside : Text}
    (trimmed : Text.trim inside = expression) (nonempty : expression ≠ [])
    (brace : .char '\x7d' ∉ expression) (first : ∀ p ∈ expression.head?, p.isBlank = false)
    (last : ∀ p ∈ expression.getLast?, p.isBlank = false) :
    Sound (.dynamic key role expression) (.text (role.opener ++ inside ++ [.char '\x7d']))
  | composite {key source : Option Text} {children : List Node} {members : Keyed Text Json}
    (notBlank : ∀ t ∈ source, t.isBlank = false)
    (perMember : OnePerMember [sourceName] members children) :
    Sound (.composite key source children) (.object members)
  | iterating {key : Option Text} {children : List Node} {items : List Json}
    (count : children.length = items.length) (unnamed : ∀ child ∈ children, child.key = none) :
    Sound (.iterating key children) (.array items)

end Node

namespace Root

inductive Holds (root : Root) : Node → Prop
  | child {node : Node} (h : node ∈ root.children) : Holds root node
  | inner {node parent : Node} (h : Holds root parent) (mem : node ∈ parent.children) :
    Holds root node

/-- A node of the tree, at any depth, came from a value of an object with these members: the nth
child from the nth item, or from the nth of the members that are not special. -/
inductive Comes (root : Root) (members : Keyed Text Json) : Node → Json → Prop
  | child {m : Text × Json} {node : Node}
    (nth : (m, node) ∈ (members.others [contextName, sourceName]).zip root.children) :
    Comes root members node m.2
  | item {key : Option Text} {children : List Node} {items : List Json} {item : Json} {node : Node}
    (h : Comes root members (.iterating key children) (.array items))
    (nth : (item, node) ∈ items.zip children) : Comes root members node item
  | member {key source : Option Text} {children : List Node} {inner : Keyed Text Json}
    {m : Text × Json} {node : Node}
    (h : Comes root members (.composite key source children) (.object inner))
    (nth : (m, node) ∈ (inner.others [sourceName]).zip children) : Comes root members node m.2

end Root

theorem exists_mem_zip {α β : Type} {l : List α} {l' : List β} (length : l'.length = l.length)
    {b : β} (h : b ∈ l') : ∃ a, (a, b) ∈ l.zip l' := by
  rw [← List.map_snd_zip length.le] at h
  obtain ⟨⟨a, _⟩, hmem, rfl⟩ := List.mem_map.1 h
  exact ⟨a, hmem⟩

namespace Node

variable {key : Option Text} {special : List Text} {members : Keyed Text Json}
variable {children : List Node}

section Parts

theorem forall₂_of_ofItems {items : List Json} (h : ofItems items = .ok children) :
    List.Forall₂ (fun item node => ofJson none item = .ok node) items children := by
  induction items generalizing children with
  | nil =>
    cases h
    exact .nil
  | cons item rest ih =>
    obtain ⟨node, others, hnode, hothers, rfl⟩ := ofItems_cons_eq_ok_iff.1 h
    exact .cons hnode (ih hothers)

theorem forall₂_of_ofMembers (h : ofMembers special members = .ok children) :
    List.Forall₂ (fun m node => ofJson (some m.1) m.2 = .ok node) (members.others special)
      children := by
  induction members generalizing children with
  | nil =>
    cases h
    exact .nil
  | cons m rest ih =>
    obtain ⟨name, value⟩ := m
    by_cases hname : name ∈ special
    · rw [ofMembers_cons_special hname] at h
      rw [Keyed.others_cons_of_mem hname]
      exact ih h
    · obtain ⟨node, others, hnode, hothers, rfl⟩ := (ofMembers_cons_eq_ok_iff hname).1 h
      rw [Keyed.others_cons_of_not_mem hname]
      exact .cons hnode (ih hothers)

theorem noRepeats_of_mem_others {m : Text × Json} (noRepeats : Json.NoMemberRepeats members)
    (h : m ∈ members.others special) : m.2.NoRepeats :=
  Json.noMemberRepeats_iff.1 noRepeats m.1 m.2 (List.mem_of_mem_filter h)

theorem onePerMember_of_ofMembers (noRepeats : (Json.object members).NoRepeats)
    (h : ofMembers special members = .ok children) : OnePerMember special members children := by
  have hkeys := (wellFormed_of_ofMembers special members noRepeats.2 h).2
  have hnamed := named_of_keys noRepeats.1 hkeys
  refine ⟨(forall₂_of_ofMembers h).length_eq.symm, ?_, ?_, hnamed.key_eq_some⟩
  · rw [hkeys, Keyed.keys, Keyed.others, List.filter_map, List.map_map]
    exact congrArg _ (List.filter_congr fun m _ => by simp)
  · obtain ⟨names, heq, hnames, -⟩ := hnamed
    rw [heq]
    exact hnames.map (Option.some_injective Text)

end Parts

theorem sound_of_ofText {t : Text} {node : Node} (h : ofText key t = .ok node) :
    Sound node (.text t) := by
  rcases hopened : Role.opened? t with - | ⟨role, rest⟩
  · rw [ofText_static hopened] at h
    cases h
    refine .static fun t' ht' => ?_
    cases ht'
    exact Role.opened?_eq_none_iff.1 hopened
  · obtain rfl := Role.opened?_eq_some_iff.1 hopened
    rw [ofText_opener] at h
    split at h
    · rename_i hlast
      obtain ⟨inside, rfl⟩ : ∃ inside, rest = inside ++ [.char '\x7d'] :=
        ⟨_, (List.dropLast_append_getLast? _ hlast).symm⟩
      rw [List.dropLast_concat] at h
      split at h
      · cases h
      · split at h
        · cases h
        · cases h
          rw [← List.append_assoc]
          exact .dynamic rfl ‹_› ‹_› (fun _ => Text.isBlank_head_trim)
            fun _ => Text.isBlank_getLast_trim
    · cases h

theorem sound_of_ofJson {v : Json} {node : Node} (noRepeats : v.NoRepeats)
    (h : ofJson key v = .ok node) : Sound node v := by
  cases v with
  | scalar s =>
    cases s with
    | text t => exact sound_of_ofText h
    | null | bool | number =>
      cases h
      exact .static (by simp)
  | array items =>
    obtain ⟨children, hchildren, rfl⟩ := ofJson_array_eq_ok_iff.1 h
    exact .iterating (forall₂_of_ofItems hchildren).length_eq.symm
      (wellFormed_of_ofItems items noRepeats hchildren).2
  | object members =>
    obtain ⟨source, children, hsource, hchildren, rfl⟩ := ofJson_object_eq_ok_iff.1 h
    exact .composite (sourceOf_eq_ok_iff.1 hsource).1
      (onePerMember_of_ofMembers noRepeats hchildren)

end Node

namespace Root

variable {root : Root} {members : Keyed Text Json} {node : Node} {v : Json}

theorem Comes.ofJson_eq (noRepeats : (Json.object members).NoRepeats)
    (hroot : Root.ofJson (.object members) = .ok root) (h : root.Comes members node v) :
    v.NoRepeats ∧ ∃ key, Node.ofJson key v = .ok node := by
  induction h with
  | child nth =>
    obtain ⟨source, children, -, hchildren, rfl⟩ := ofJson_object_eq_ok_iff.1 hroot
    exact ⟨Node.noRepeats_of_mem_others noRepeats.2 (List.of_mem_zip nth).1,
      _, (List.forall₂_iff_zip.1 (Node.forall₂_of_ofMembers hchildren)).2 nth⟩
  | item _ nth ih =>
    obtain ⟨hitems, key, hbuild⟩ := ih
    obtain ⟨children, hchildren, heq⟩ := Node.ofJson_array_eq_ok_iff.1 hbuild
    cases heq
    exact ⟨Json.noItemRepeats_iff.1 hitems _ (List.of_mem_zip nth).1,
      _, (List.forall₂_iff_zip.1 (Node.forall₂_of_ofItems hchildren)).2 nth⟩
  | member _ nth ih =>
    obtain ⟨hmembers, key, hbuild⟩ := ih
    obtain ⟨source, children, -, hchildren, heq⟩ := Node.ofJson_object_eq_ok_iff.1 hbuild
    cases heq
    exact ⟨Node.noRepeats_of_mem_others hmembers.2 (List.of_mem_zip nth).1,
      _, (List.forall₂_iff_zip.1 (Node.forall₂_of_ofMembers hchildren)).2 nth⟩

theorem Comes.sound (noRepeats : (Json.object members).NoRepeats)
    (hroot : Root.ofJson (.object members) = .ok root) (h : root.Comes members node v) :
    node.Sound v := by
  obtain ⟨hvalue, key, hbuild⟩ := h.ofJson_eq noRepeats hroot
  exact Node.sound_of_ofJson hvalue hbuild

/-- No node of the tree is without a value. -/
theorem Holds.exists_comes (noRepeats : (Json.object members).NoRepeats)
    (hroot : Root.ofJson (.object members) = .ok root) (h : root.Holds node) :
    ∃ v, root.Comes members node v := by
  induction h with
  | child hmem =>
    obtain ⟨source, children, -, hchildren, rfl⟩ := ofJson_object_eq_ok_iff.1 hroot
    obtain ⟨m, nth⟩ :=
      exists_mem_zip (Node.onePerMember_of_ofMembers noRepeats hchildren).count hmem
    exact ⟨m.2, .child nth⟩
  | inner _ hmem ih =>
    obtain ⟨v, hcomes⟩ := ih
    cases hcomes.sound noRepeats hroot with
    | static | dynamic => cases hmem
    | composite _ hchildren =>
      obtain ⟨m, nth⟩ := exists_mem_zip hchildren.count hmem
      exact ⟨m.2, .member hcomes nth⟩
    | iterating count =>
      obtain ⟨item, nth⟩ := exists_mem_zip count hmem
      exact ⟨item, .item hcomes nth⟩

/-- Every tree that is issued came from an object, where names that repeat have been left out. Its
source is not blank, and it has one child for each member apart from the special ones. Every node in
it, at any depth, came from one of the values in that object, and is sound for the value. -/
theorem issued_trees_are_sound {contents : Bytes} {root : Root}
    (h : Root.ofBytes contents = .ok root) :
    ∃ stripped v members, ReadAs contents stripped v ∧ v.distinct = .object members ∧
      (∀ t ∈ root.source, t.isBlank = false) ∧
      Node.OnePerMember [contextName, sourceName] members root.children ∧
      (∀ node, root.Holds node → ∃ w, root.Comes members node w) ∧
      ∀ node w, root.Comes members node w → node.Sound w := by
  obtain ⟨stripped, v, hread, hbuild⟩ := ofBytes_eq_ok_iff_readAs.1 h
  have noRepeats := Json.noRepeats_distinct v
  cases hobject : v.distinct with
  | scalar | array =>
    rw [hobject] at hbuild
    cases hbuild
  | object members =>
    rw [hobject] at hbuild noRepeats
    obtain ⟨source, children, hsource, hchildren, hroot⟩ := ofJson_object_eq_ok_iff.1 hbuild
    refine ⟨stripped, v, members, hread, hobject, ?_, ?_, ?_, ?_⟩
    · rw [← hroot]
      exact (Node.sourceOf_eq_ok_iff.1 hsource).1
    · rw [← hroot]
      exact Node.onePerMember_of_ofMembers noRepeats hchildren
    · exact fun node => Holds.exists_comes noRepeats hbuild
    · exact fun node w => Comes.sound noRepeats hbuild

def spacious : List Char :=
  "\x7b\"a\": 1, \"$source\": \"s\", \"a\": [\"$\x7b x \x7d\", \"$ \x7b\"]\x7d".toList

theorem issued_trees_are_sound_spacious :
    ∃ root, Root.ofBytes (Utf8.encode spacious) = .ok root ∧
      root.Holds (.dynamic none .property "x") ∧
      ∃ w, Node.Sound (.dynamic none .property "x") w := by
  let parent : Node :=
    .iterating (some "a") [.dynamic none .property "x", .static none (.text "$ \x7b")]
  have hread : ReadAs (Utf8.encode spacious) spacious (.object [("a", .int 1),
      ("$source", .text "s"), ("a", .array [.text "$\x7b x \x7d", .text "$ \x7b"])]) :=
    readAs_encode ⟨_, _, rfl, by decide⟩ (by decide +kernel) rfl
  have hbuilt : Root.ofBytes (Utf8.encode spacious) = .ok ⟨.null, some "s", [parent]⟩ :=
    hread.ofBytes_eq.trans rfl
  have hparent : Holds ⟨.null, some "s", [parent]⟩ parent := .child List.mem_cons_self
  have hholds : Holds _ (.dynamic none .property "x") := .inner hparent List.mem_cons_self
  obtain ⟨stripped, v, members, -, -, -, -, hcomes, hsound⟩ := issued_trees_are_sound hbuilt
  obtain ⟨w, hw⟩ := hcomes _ hholds
  exact ⟨_, hbuilt, hholds, w, hsound _ w hw⟩

end Root

end LiveTemplates
