import LiveTemplates.Json.Parts
import LiveTemplates.Proofs.Files.Refusals
import LiveTemplates.Proofs.Template.NormalForm

/-!
# The scalars of a template

A tree shows the scalars of the value that it was built from, and no others apart from null and
texts of its own. An expression is shown without its braces and the blanks at its ends. So whatever
can be told from the parts of a text holds of a scalar of the tree if and only if it holds of one
of the value: being infinite, for one, and having a lone surrogate.
-/

namespace LiveTemplates

/-- A test that null fails, that texts of characters fail, and that a text passes if a part of it
does. -/
structure Scalar.Partwise (p : Scalar → Bool) : Prop where
  null : p .null = false
  chars (cs : List Char) : p (.text (Text.ofChars cs)) = false
  append (s t : Text) : p (.text (s ++ t)) = (p (.text s) || p (.text t))

theorem Scalar.partwise_isInfinite : Partwise isInfinite := ⟨rfl, fun _ => rfl, fun _ _ => rfl⟩

theorem Scalar.partwise_hasLone : Partwise hasLone :=
  ⟨rfl, Text.hasLone_ofChars, Text.hasLone_append⟩

theorem CodePoint.exists_char_of_isBlank {p : CodePoint} (h : p.isBlank = true) :
    ∃ c, p = .char c := by
  cases p with
  | char c => exact ⟨c, rfl⟩
  | lone offset =>
    have hoffset := offset.isLt
    have hlow : 0xD800 ≤ (CodePoint.lone offset).value := Nat.le_add_right ..
    have hhigh : (CodePoint.lone offset).value < 0xE000 := by
      rw [value]
      omega
    simp only [isBlank, Bool.or_eq_true, Bool.and_eq_true, decide_eq_true_eq, beq_iff_eq] at h
    omega

namespace Text

theorem exists_chars_of_isBlank {t : Text} (h : t.isBlank = true) : ∃ cs, t = ofChars cs := by
  induction t with
  | nil => exact ⟨[], rfl⟩
  | cons p t ih =>
    rw [isBlank, List.all_cons, Bool.and_eq_true] at h
    obtain ⟨c, rfl⟩ := CodePoint.exists_char_of_isBlank h.1
    obtain ⟨cs, rfl⟩ := ih h.2
    exact ⟨c :: cs, rfl⟩

/-- A text is its trimmed text with blank code points at both ends. -/
theorem exists_eq_trim_append (t : Text) :
    ∃ a b : Text, t = a ++ (trim t ++ b) ∧ a.isBlank = true ∧ b.isBlank = true := by
  obtain ⟨b, hb, hblank⟩ := exists_eq_trimEnd_append (t.dropWhile CodePoint.isBlank)
  refine ⟨t.takeWhile CodePoint.isBlank, b, ?_, List.all_takeWhile, hblank⟩
  rw [trim, ← hb, List.takeWhile_append_dropWhile]

end Text

variable {p : Scalar → Bool}

namespace Scalar.Partwise

theorem string (h : Partwise p) (s : String) : p (.text (Text.ofString s)) = false := h.chars _

theorem trim (h : Partwise p) (t : Text) : p (.text (Text.trim t)) = p (.text t) := by
  have hblank : ∀ b : Text, b.isBlank = true → p (.text b) = false := by
    intro b hb
    obtain ⟨cs, rfl⟩ := Text.exists_chars_of_isBlank hb
    exact h.chars cs
  obtain ⟨a, b, heq, ha, hb⟩ := Text.exists_eq_trim_append t
  have hsplit : p (.text t) = p (.text (a ++ (Text.trim t ++ b))) := by rw [← heq]
  rw [hsplit, h.append, h.append, hblank a ha, hblank b hb, Bool.false_or, Bool.or_false]

theorem opener (h : Partwise p) (role : Role) : p (.text role.opener) = false := by
  cases role with
  | property => exact h.chars ['$', '\x7b']
  | filter => exact h.chars ['$', '$', '\x7b']

end Scalar.Partwise

namespace Json

theorem anyScalarMembers_nil : anyScalarMembers p [] = false := rfl

theorem anyScalarMembers_eq_any (members : List (Text × Json)) :
    anyScalarMembers p members = members.any fun m => p (.text m.1) || m.2.anyScalar p := by
  induction members with
  | nil => rfl
  | cons m rest ih => rw [anyScalarMembers, ih, List.any_cons]

theorem anyScalarItems_eq_any (items : List Json) :
    anyScalarItems p items = items.any fun v => v.anyScalar p := by
  induction items with
  | nil => rfl
  | cons item rest ih => rw [anyScalarItems, ih, List.any_cons]

theorem anyScalarMembers_append (a b : List (Text × Json)) :
    anyScalarMembers p (a ++ b) = (anyScalarMembers p a || anyScalarMembers p b) := by
  simp only [anyScalarMembers_eq_any, List.any_append]

theorem mem_inFront {keys : List Text} {members : Keyed Text Json} {m : Text × Json} :
    m ∈ members.inFront keys ↔ m ∈ members := by
  simp only [Keyed.inFront, Keyed.of, Keyed.others, List.mem_append, List.mem_flatMap,
    List.mem_filter, decide_eq_true_eq]
  constructor
  · rintro (⟨k, -, hm, -⟩ | ⟨hm, -⟩) <;> exact hm
  · intro hm
    by_cases hk : m.1 ∈ keys
    · exact .inl ⟨m.1, hk, hm, rfl⟩
    · exact .inr ⟨hm, hk⟩

theorem anyScalarMembers_inFront (keys : List Text) (members : Keyed Text Json) :
    anyScalarMembers p (members.inFront keys) = anyScalarMembers p members := by
  rw [Bool.eq_iff_iff]
  simp only [anyScalarMembers_eq_any, List.any_eq_true, mem_inFront]

end Json

namespace Node

variable {key : Option Text} {members : Keyed Text Json} {special : List Text}

def optionalScalar : Option Text → Scalar
  | none => .null
  | some t => .text t

theorem optionalText_eq (t : Option Text) : optionalText t = .scalar (optionalScalar t) := by
  cases t <;> rfl

theorem anyScalarMembers_field (h : Scalar.Partwise p) (name : String) (v : Json)
    (rest : List (Text × Json)) :
    Json.anyScalarMembers p (field name v :: rest) =
      (v.anyScalar p || Json.anyScalarMembers p rest) := by
  rw [field, Json.anyScalarMembers, h.string, Bool.false_or]

theorem anyScalarMembers_kind (h : Scalar.Partwise p) (name : String)
    (rest : List (Text × Json)) :
    Json.anyScalarMembers p (kind name :: rest) = Json.anyScalarMembers p rest := by
  rw [kind, anyScalarMembers_field h, Json.anyScalar, h.string, Bool.false_or]

theorem anyScalar_static (h : Scalar.Partwise p) (key : Option Text) (s : Scalar) :
    (static key s).outline.anyScalar p = (p (optionalScalar key) || p s) := by
  simp only [outline, Json.anyScalar, anyScalarMembers_kind h, anyScalarMembers_field h,
    optionalText_eq, Json.anyScalarMembers_nil, Bool.or_false]

theorem anyScalar_outline_of_ofText (h : Scalar.Partwise p) {t : Text} {node : Node}
    (hbuild : ofText key t = .ok node) :
    node.outline.anyScalar p = (p (optionalScalar key) || p (.text t)) := by
  rcases hopened : Role.opened? t with - | ⟨role, rest⟩
  · rw [ofText_static hopened] at hbuild
    cases hbuild
    exact anyScalar_static h key (.text t)
  obtain rfl := Role.opened?_eq_some_iff.1 hopened
  rw [ofText_opener] at hbuild
  split at hbuild
  · rename_i hlast
    split at hbuild
    · cases hbuild
    split at hbuild
    · cases hbuild
    cases hbuild
    obtain ⟨inside, rfl⟩ : ∃ inside, rest = inside ++ [.char '\x7d'] :=
      ⟨_, (List.dropLast_append_getLast? _ hlast).symm⟩
    have hbrace : p (.text [.char '\x7d']) = false := h.chars ['\x7d']
    rw [List.dropLast_concat, h.append, h.append, h.opener, hbrace, Bool.false_or, Bool.or_false]
    simp only [outline, Json.anyScalar, anyScalarMembers_kind h, anyScalarMembers_field h,
      optionalText_eq, h.trim, Json.anyScalarMembers_nil, Bool.or_false]
  · cases hbuild

theorem anyScalar_source (h : Scalar.Partwise p) {source : Option Text}
    (nodup : members.keys.Nodup) (hsource : sourceOf members = .ok source) :
    Json.anyScalarMembers p (members.of sourceName) = p (optionalScalar source) := by
  rw [Keyed.of_eq_toList nodup, (sourceOf_eq_ok_iff.1 hsource).2]
  cases source with
  | none => exact h.null.symm
  | some t => simp [Json.anyScalarMembers, Json.anyScalar, sourceName, h.string, optionalScalar]

section Building

mutual

/-- A node shows its name and the scalars of its value. -/
theorem anyScalar_outline_of_ofJson (h : Scalar.Partwise p) : (v : Json) →
    ∀ {key : Option Text} {node : Node}, v.NoRepeats → ofJson key v = .ok node →
    node.outline.anyScalar p = (p (optionalScalar key) || v.anyScalar p)
  | .scalar (.text t), _, _, _, hbuild => anyScalar_outline_of_ofText h hbuild
  | .scalar .null, _, _, _, hbuild | .scalar (.bool _), _, _, _, hbuild
  | .scalar (.number _), _, _, _, hbuild => by
    cases hbuild
    exact anyScalar_static h _ _
  | .array items, _, _, noRepeats, hbuild => by
    obtain ⟨children, hchildren, rfl⟩ := ofJson_array_eq_ok_iff.1 hbuild
    simp only [outline, Json.anyScalar, anyScalarMembers_kind h, anyScalarMembers_field h,
      optionalText_eq, anyScalar_outlines_of_ofItems h items noRepeats hchildren,
      Json.anyScalarMembers_nil, Bool.or_false]
  | .object members, _, _, ⟨nodup, noRepeats⟩, hbuild => by
    obtain ⟨source, children, hsource, hchildren, rfl⟩ := ofJson_object_eq_ok_iff.1 hbuild
    have hmembers := Json.anyScalarMembers_inFront (p := p) [sourceName] members
    rw [Keyed.inFront, List.flatMap_singleton, Json.anyScalarMembers_append,
      anyScalar_source h nodup hsource] at hmembers
    simp only [outline, Json.anyScalar, anyScalarMembers_kind h, anyScalarMembers_field h,
      optionalText_eq, anyScalar_outlines_of_ofMembers h [sourceName] members noRepeats hchildren,
      Json.anyScalarMembers_nil, Bool.or_false, hmembers]

theorem anyScalar_outlines_of_ofItems (h : Scalar.Partwise p) : (items : List Json) →
    ∀ {children : List Node}, Json.NoItemRepeats items → ofItems items = .ok children →
    Json.anyScalarItems p (outlines children) = Json.anyScalarItems p items
  | [], _, _, hbuild => by
    cases hbuild
    rfl
  | item :: rest, _, ⟨hitem, hrest⟩, hbuild => by
    obtain ⟨node, others, hnode, hothers, rfl⟩ := ofItems_cons_eq_ok_iff.1 hbuild
    rw [outlines, Json.anyScalarItems, Json.anyScalarItems,
      anyScalar_outline_of_ofJson h item hitem hnode,
      anyScalar_outlines_of_ofItems h rest hrest hothers, optionalScalar, h.null, Bool.false_or]

theorem anyScalar_outlines_of_ofMembers (h : Scalar.Partwise p) (special : List Text) :
    (members : List (Text × Json)) → ∀ {children : List Node}, Json.NoMemberRepeats members →
    ofMembers special members = .ok children →
    Json.anyScalarItems p (outlines children) =
      Json.anyScalarMembers p (Keyed.others special members)
  | [], _, _, hbuild => by
    cases hbuild
    rfl
  | (name, value) :: rest, _, ⟨hvalue, hrest⟩, hbuild => by
    by_cases hname : name ∈ special
    · rw [ofMembers_cons_special hname] at hbuild
      rw [Keyed.others_cons_of_mem hname]
      exact anyScalar_outlines_of_ofMembers h special rest hrest hbuild
    · obtain ⟨node, others, hnode, hothers, rfl⟩ := (ofMembers_cons_eq_ok_iff hname).1 hbuild
      rw [Keyed.others_cons_of_not_mem hname, outlines, Json.anyScalarItems, Json.anyScalarMembers,
        anyScalar_outline_of_ofJson h value hvalue hnode,
        anyScalar_outlines_of_ofMembers h special rest hrest hothers, optionalScalar]

end

end Building

end Node

/-- A tree shows the scalars of its value. -/
theorem Root.anyScalar_outline (h : Scalar.Partwise p) {v : Json} {root : Root}
    (noRepeats : v.NoRepeats) (hbuild : Root.ofJson v = .ok root) :
    root.outline.anyScalar p = v.anyScalar p := by
  cases v with
  | scalar | array => cases hbuild
  | object members =>
    obtain ⟨nodup, noRepeats⟩ := noRepeats
    obtain ⟨source, children, hsource, hchildren, rfl⟩ := ofJson_object_eq_ok_iff.1 hbuild
    have hcontext : Json.anyScalarMembers p (Keyed.of members contextName) =
        ((Keyed.find? members contextName).getD .null).anyScalar p := by
      rw [Keyed.of_eq_toList nodup]
      cases Keyed.find? members contextName with
      | none => exact h.null.symm
      | some v => simp [Json.anyScalarMembers, contextName, h.string]
    have hmembers := Json.anyScalarMembers_inFront (p := p) [contextName, sourceName] members
    rw [Keyed.inFront, List.flatMap_cons, List.flatMap_singleton, Json.anyScalarMembers_append,
      Json.anyScalarMembers_append, hcontext, Node.anyScalar_source h nodup hsource] at hmembers
    simp only [outline, Json.anyScalar, Node.anyScalarMembers_kind h,
      Node.anyScalarMembers_field h, Node.optionalText_eq, Frozen.thaw_freeze,
      Node.anyScalar_outlines_of_ofMembers h _ members noRepeats hchildren,
      Json.anyScalarMembers_nil, Bool.or_false, ← hmembers, Bool.or_assoc]

end LiveTemplates
