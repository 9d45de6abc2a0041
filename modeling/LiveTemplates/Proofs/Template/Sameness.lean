import LiveTemplates.Proofs.Reading.Scalars
import LiveTemplates.Proofs.Template.Canonical
import LiveTemplates.Proofs.Template.Decompiling
import LiveTemplates.Proofs.Template.Reads

/-!
# Which templates are the same

Templates that compile are the same if and only if their canonical forms are equal. So sameness is
an equivalence, the order of members in a context does not count, the order of children does, and
two templates are the same if and only if their outlines are.
-/

namespace LiveTemplates

namespace Json

inductive Reordered : Json → Json → Prop
  | members {members others : List (Text × Json)} (h : members.Perm others) :
    Reordered (.object members) (.object others)
  | item {before after : List Json} {v w : Json} (h : Reordered v w) :
    Reordered (.array (before ++ v :: after)) (.array (before ++ w :: after))
  | member {before after : List (Text × Json)} {name : Text} {v w : Json} (h : Reordered v w) :
    Reordered (.object (before ++ (name, v) :: after)) (.object (before ++ (name, w) :: after))
  | trans {u v w : Json} (h : Reordered u v) (h' : Reordered v w) : Reordered u w

section Orders

variable {members others before after : Keyed Text Json} {name : Text} {v w : Json}

theorem noRepeats_of_perm (perm : members.Perm others) (h : (object members).NoRepeats) :
    (object others).NoRepeats := by
  obtain ⟨nodup, hmembers⟩ := h
  refine ⟨(perm.map Prod.fst).nodup_iff.1 nodup, noMemberRepeats_iff.2 fun name value hmem => ?_⟩
  exact noMemberRepeats_iff.1 hmembers name value (perm.mem_iff.2 hmem)

theorem canonicalMembers_of_perm (perm : members.Perm others) (nodup : members.keys.Nodup) :
    canonicalMembers members = canonicalMembers others := by
  have nodup' : others.keys.Nodup := (perm.map Prod.fst).nodup_iff.1 nodup
  refine (canonicalMembers_eq_iff nodup nodup').2 ⟨perm.length_eq, fun m hm => ?_⟩
  rw [(Keyed.find?_eq_some_iff nodup').2 (perm.mem_iff.1 hm)]
  rfl

theorem canonicalMembers_of_member (h : v.canonical = w.canonical) :
    canonicalMembers (before ++ (name, v) :: after) =
      canonicalMembers (before ++ (name, w) :: after) := by
  rw [canonicalMembers_eq_find?, canonicalMembers_eq_find?]
  funext name'
  rw [Keyed.find?_append, Keyed.find?_append, Keyed.find?, Keyed.find?]
  cases Keyed.find? before name' with
  | some value => rfl
  | none => by_cases hname : name = name' <;> simp [hname, h]

theorem noRepeats_member (h : (object (before ++ (name, v) :: after)).NoRepeats)
    (hw : w.NoRepeats) : (object (before ++ (name, w) :: after)).NoRepeats := by
  obtain ⟨nodup, hmembers⟩ := h
  refine ⟨by simpa [Keyed.keys] using nodup, noMemberRepeats_iff.2 fun name' value hmem => ?_⟩
  rcases List.mem_append.1 hmem with hbefore | hmem
  · exact noMemberRepeats_iff.1 hmembers _ _ (List.mem_append_left _ hbefore)
  rcases List.mem_cons.1 hmem with heq | hafter
  · cases heq
    exact hw
  · exact noMemberRepeats_iff.1 hmembers _ _
      (List.mem_append_right _ (List.mem_cons_of_mem _ hafter))

/-- Another order of members is another value with the same canonical form. -/
theorem Reordered.canonical_eq (h : Reordered v w) (noRepeats : v.NoRepeats) :
    w.NoRepeats ∧ v.canonical = w.canonical := by
  induction h with
  | members perm =>
    refine ⟨noRepeats_of_perm perm noRepeats, ?_⟩
    rw [canonical, canonical, canonicalMembers_of_perm perm noRepeats.1]
  | item _ ih =>
    obtain ⟨hbefore, hrest⟩ := List.forall_mem_append.1 (noItemRepeats_iff.1 noRepeats)
    obtain ⟨hv, hafter⟩ := List.forall_mem_cons.1 hrest
    obtain ⟨hw, heq⟩ := ih hv
    refine ⟨noItemRepeats_iff.2 ?_, ?_⟩
    · exact List.forall_mem_append.2 ⟨hbefore, List.forall_mem_cons.2 ⟨hw, hafter⟩⟩
    · simp only [canonical, canonicalItems_eq_map, List.map_append, List.map_cons, heq]
  | member _ ih =>
    obtain ⟨hw, heq⟩ := ih (noMemberRepeats_iff.1 noRepeats.2 _ _
      (List.mem_append_right _ List.mem_cons_self))
    refine ⟨noRepeats_member noRepeats hw, ?_⟩
    rw [canonical, canonical, canonicalMembers_of_member heq]
  | trans _ _ ih ih' =>
    obtain ⟨hv, heq⟩ := ih noRepeats
    obtain ⟨hw, heq'⟩ := ih' hv
    exact ⟨hw, heq.trans heq'⟩

end Orders

end Json

namespace Node

/-- Somewhere among nodes, at any depth, stand children in another order, which shows in their
canonical forms. -/
inductive Rearranged : List Node → List Node → Prop
  | here {children others : List Node} (perm : children.Perm others)
    (changed : children.map canonical ≠ others.map canonical) : Rearranged children others
  | composite {before after children others : List Node} {key source : Option Text}
    (h : Rearranged children others) :
    Rearranged (before ++ .composite key source children :: after)
      (before ++ .composite key source others :: after)
  | iterating {before after children others : List Node} {key : Option Text}
    (h : Rearranged children others) :
    Rearranged (before ++ .iterating key children :: after)
      (before ++ .iterating key others :: after)

theorem Rearranged.canonical_ne {children others : List Node} (h : Rearranged children others) :
    children.map canonical ≠ others.map canonical := by
  induction h with
  | here _ changed => exact changed
  | composite _ ih =>
    intro heq
    rw [List.map_append, List.map_append, List.append_cancel_left_eq, List.map_cons,
      List.map_cons, List.cons.injEq, canonical, canonical, CanonicalNode.composite.injEq,
      canonicalAll_eq_map, canonicalAll_eq_map] at heq
    exact ih heq.1.2.2
  | iterating _ ih =>
    intro heq
    rw [List.map_append, List.map_append, List.append_cancel_left_eq, List.map_cons,
      List.map_cons, List.cons.injEq, canonical, canonical, CanonicalNode.iterating.injEq,
      canonicalAll_eq_map, canonicalAll_eq_map] at heq
    exact ih heq.1.2

section Outlines

variable {label label' : String} {fields fields' : Keyed Text Json}

theorem same_optionalText (s t : Option Text) :
    (optionalText s).same (optionalText t) = (s == t) := by
  cases s <;> cases t <;> rfl

theorem beq_label (role role' : Role) :
    (Text.ofString role.label == Text.ofString role'.label) = (role == role') := by
  cases role <;> cases role' <;> decide

theorem same_outline_of_kind (h : Text.ofString label ≠ Text.ofString label') :
    (Json.object (kind label :: fields)).same (.object (kind label' :: fields')) = false := by
  have hlabel : (Json.text label).same (.text label') = false := beq_false_of_ne h
  rw [Json.same, kind, kind, field, field, Json.sameMembers, Keyed.find?, if_pos rfl]
  simp [hlabel]

-- Fields of one kind have the same names, and the kinds have different labels.
mutual

theorem same_outline : (a b : Node) → a.outline.same b.outline = a.same b
  | .static .., .static .. => by
    simp +decide [outline, Json.same, Json.sameMembers, Keyed.find?, kind, field,
      same_optionalText, same, Scalar.same]
  | .dynamic key role _, .dynamic key' role' _ => by
    simp +decide [outline, Json.same, Json.sameMembers, Keyed.find?, kind, field,
      same_optionalText, same, Scalar.same, beq_label, Bool.and_assoc,
      Bool.and_left_comm (role == role') (key == key')]
  | .composite _ _ children, .composite _ _ children' => by
    simp +decide [outline, Json.same, Json.sameMembers, Keyed.find?, kind, field,
      same_optionalText, same, sameItems_outlines children children', Scalar.same, Bool.and_assoc]
  | .iterating _ children, .iterating _ children' => by
    simp +decide [outline, Json.same, Json.sameMembers, Keyed.find?, kind, field,
      same_optionalText, same, sameItems_outlines children children', Scalar.same]
  | .static .., .dynamic _ role _ | .composite .., .dynamic _ role _
  | .iterating .., .dynamic _ role _ => by
    cases role <;> exact same_outline_of_kind (by decide)
  | .dynamic _ role _, .static .. | .dynamic _ role _, .composite ..
  | .dynamic _ role _, .iterating .. => by
    cases role <;> exact same_outline_of_kind (by decide)
  | .static .., .composite .. | .static .., .iterating .. | .composite .., .static ..
  | .composite .., .iterating .. | .iterating .., .static .. | .iterating .., .composite .. =>
    same_outline_of_kind (by decide)

theorem sameItems_outlines : (nodes others : List Node) →
    Json.sameItems (outlines nodes) (outlines others) = sameAll nodes others
  | [], [] | [], _ :: _ | _ :: _, [] => rfl
  | node :: rest, other :: others => by
    rw [outlines, outlines, Json.sameItems, same_outline node other, sameItems_outlines rest others,
      sameAll]

end

end Outlines

end Node

namespace Root

variable {r s : Root}

theorem same_outline (r s : Root) : r.outline.same s.outline = r.same s := by
  simp +decide [outline, Json.same, Json.sameMembers, Keyed.find?, Node.kind, Node.field,
    Node.same_optionalText, Node.sameItems_outlines, same, Scalar.same, Bool.and_assoc]

def Compiled (root : Root) : Prop := ∃ contents, ofBytes contents = .ok root

theorem Compiled.noRepeats (h : r.Compiled) : r.context.thaw.NoRepeats := by
  obtain ⟨contents, hcontents⟩ := h
  obtain ⟨stripped, v, -, hbuild⟩ := ofBytes_eq_ok_iff_readAs.1 hcontents
  exact (wellFormed_of_ofJson (Json.noRepeats_distinct v) hbuild).context

theorem Compiled.same_iff (hr : r.Compiled) (hs : s.Compiled) :
    r.same s = true ↔ r.canonical = s.canonical := Root.same_iff hr.noRepeats hs.noRepeats

theorem equivalence_same :
    Equivalence fun r s : { r : Root // r.Compiled } => r.1.same s.1 = true where
  refl r := (r.2.same_iff r.2).2 rfl
  symm {r s} h := (s.2.same_iff r.2).2 ((r.2.same_iff s.2).1 h).symm
  trans {r s t} h h' :=
    (r.2.same_iff t.2).2 (((r.2.same_iff s.2).1 h).trans ((s.2.same_iff t.2).1 h'))

/-- Another order of the members in a context does not show in the canonical form. -/
theorem canonical_reordered {c : Json} (hr : r.Compiled) (h : r.context.thaw.Reordered c) :
    c.NoRepeats ∧ ({ r with context := c.freeze } : Root).canonical = r.canonical := by
  obtain ⟨hc, heq⟩ := h.canonical_eq hr.noRepeats
  refine ⟨hc, ?_⟩
  rw [canonical, canonical, Frozen.thaw_freeze, heq]

theorem canonical_ne_of_rearranged (h : Node.Rearranged r.children s.children) :
    r.canonical ≠ s.canonical := by
  intro heq
  rw [canonical, canonical, CanonicalRoot.mk.injEq, Node.canonicalAll_eq_map,
    Node.canonicalAll_eq_map] at heq
  exact h.canonical_ne heq.2.2

/-- Templates that compile are the same if and only if their canonical forms are equal. So sameness
is an equivalence on them, and it does not see the order of members in a context, while it does see
the order of children. Templates with one outline are the same, and outlines are the same where
templates are. Sameness compares trees of any depth; an interpreter that recurses over them gives up
at about 248 levels. -/
theorem sameness_is_canonical :
    (∀ {a b : Bytes} {r s : Root}, ofBytes a = .ok r → ofBytes b = .ok s →
      (r.same s = true ↔ r.canonical = s.canonical)) ∧
    Equivalence (fun r s : { r : Root // r.Compiled } => r.1.same s.1 = true) ∧
    (∀ {r s : Root} {c : Json}, r.Compiled → s.Compiled → r.context.thaw.Reordered c →
      Root.same { r with context := c.freeze } s = r.same s ∧
      s.same { r with context := c.freeze } = s.same r) ∧
    (∀ {r s : Root}, r.Compiled → s.Compiled → Node.Rearranged r.children s.children →
      r.same s = false) ∧
    (∀ {r s : Root}, r.Compiled → r.outline = s.outline → r.same s = true) ∧
    ∀ r s : Root, r.outline.same s.outline = r.same s := by
  refine ⟨fun ha hb => Compiled.same_iff ⟨_, ha⟩ ⟨_, hb⟩, equivalence_same, ?_, ?_, ?_,
    same_outline⟩
  · intro r s c hr hs h
    obtain ⟨hc, hcanonical⟩ := canonical_reordered hr h
    have hc' : ({ r with context := c.freeze } : Root).context.thaw.NoRepeats := by
      rwa [Frozen.thaw_freeze]
    constructor
    · rw [Bool.eq_iff_iff, Root.same_iff hc' hs.noRepeats, hcanonical, hr.same_iff hs]
    · rw [Bool.eq_iff_iff, Root.same_iff hs.noRepeats hc', hcanonical, hs.same_iff hr]
  · intro r s hr hs h
    rw [Bool.eq_false_iff, Ne, hr.same_iff hs]
    exact canonical_ne_of_rearranged h
  · intro r s hr h
    rw [← same_outline, ← h, same_outline]
    exact equivalence_same.refl ⟨r, hr⟩

def counted : List Char :=
  "\x7b\"@context\": \x7b\"n\": true, \"m\": 0\x7d, \"x\": [1, 2]\x7d".toList

/-- Other numbers of the same values, and the members of the context in another order. -/
def recounted : List Char :=
  "\x7b\"@context\": \x7b\"m\": -0.0, \"n\": 1\x7d, \"x\": [1.0, 2]\x7d".toList

/-- The items of the list in another order. -/
def miscounted : List Char :=
  "\x7b\"@context\": \x7b\"n\": true, \"m\": 0\x7d, \"x\": [2, 1]\x7d".toList

theorem sameness_is_canonical_counted : ∃ r s t, ofBytes (Utf8.encode counted) = .ok r ∧
    ofBytes (Utf8.encode recounted) = .ok s ∧ ofBytes (Utf8.encode miscounted) = .ok t ∧
    r.canonical = s.canonical ∧
    Root.same { r with context := (Json.object [("m", .int 0), ("n", .bool true)]).freeze } s =
      true ∧
    r.same t = false := by
  let one : Scalar := .number (.float (.ofDecimal false 10 (-1)))
  let zero : Scalar := .number (.float (.ofDecimal true 0 (-1)))
  have hcounted : ReadAs (Utf8.encode counted) counted (.object [
      ("@context", .object [("n", .bool true), ("m", .int 0)]),
      ("x", .array [.int 1, .int 2])]) :=
    readAs_encode ⟨_, _, rfl, by decide⟩ (by decide +kernel) rfl
  have hrecounted : ReadAs (Utf8.encode recounted) recounted (.object [
      ("@context", .object [("m", .scalar zero), ("n", .int 1)]),
      ("x", .array [.scalar one, .int 2])]) :=
    readAs_encode ⟨_, _, rfl, by decide⟩ (by decide +kernel) rfl
  have hmiscounted : ReadAs (Utf8.encode miscounted) miscounted (.object [
      ("@context", .object [("n", .bool true), ("m", .int 0)]),
      ("x", .array [.int 2, .int 1])]) :=
    readAs_encode ⟨_, _, rfl, by decide⟩ (by decide +kernel) rfl
  have hr := hcounted.ofBytes_eq
  have hs := hrecounted.ofBytes_eq
  have ht := hmiscounted.ofBytes_eq
  obtain ⟨hcanonical, -, hreordered, hrearranged, -⟩ := sameness_is_canonical
  refine ⟨_, _, _, hr, hs, ht, ?_, ?_, ?_⟩
  · exact (hcanonical hr hs).1 (by decide +kernel)
  · refine (hreordered ⟨_, hr⟩ ⟨_, hs⟩ ?_).1.trans (by decide +kernel)
    exact .members (.swap _ _ _)
  · refine hrearranged ⟨_, hr⟩ ⟨_, ht⟩ ?_
    have hchanged : Scalar.canonical (.number (.int 1)) ≠ Scalar.canonical (.number (.int 2)) :=
      fun h => absurd ((Scalar.same_iff _ _).2 h) (by decide)
    refine @Node.Rearranged.iterating [] [] _ _ _ (.here (.swap _ _ _) fun h => hchanged ?_)
    exact (CanonicalNode.static.inj (List.cons.inj h).1).2

end Root

end LiveTemplates
