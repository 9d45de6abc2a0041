import Mathlib.Data.List.Basic
import LiveTemplates.Proofs.Template.Building
import LiveTemplates.Proofs.Writing.Grammar

/-!
# The values that trees come from

Every tree that can be built tells the value that it was built from: each node stands for a member
or an item, and what became a field of its node is a member again. The trees that can be built are
the well-formed ones, and building one from its value gives the same tree.
-/

namespace LiveTemplates

namespace Node

def sourceMember (source : Option Text) : List (Text × Json) :=
  source.toList.map fun t => (sourceName, .text t)

mutual

def decompile : Node → Json
  | .static _ value => .scalar value
  | .dynamic _ role expression => .text (role.opener ++ expression ++ [.char '\x7d'])
  | .composite _ source children => .object (sourceMember source ++ decompileMembers children)
  | .iterating _ children => .array (decompileItems children)

def decompileItems : List Node → List Json
  | [] => []
  | node :: rest => decompile node :: decompileItems rest

def decompileMembers : List Node → List (Text × Json)
  | [] => []
  | node :: rest => (node.key.getD [], decompile node) :: decompileMembers rest

end

def Named (special : List Text) (children : List Node) : Prop :=
  ∃ names : List Text, children.map key = names.map some ∧ names.Nodup ∧
    ∀ name ∈ names, name ∉ special

def Unnamed (children : List Node) : Prop := ∀ child ∈ children, child.key = none

def ProperSource (source : Option Text) : Prop := ∀ t ∈ source, t.isBlank = false

mutual

/-- Nodes as they are built: a static text opens no expression, an expression is not empty, has
no blanks at its ends and no closing brace, a source is not blank, and the children of an object
have distinct names, those of an array none. -/
def WellFormed : Node → Prop
  | .static _ (.text t) => ∀ role, ¬ Role.opener role <+: t
  | .static _ _ => True
  | .dynamic _ _ expression =>
    expression ≠ [] ∧ Text.trim expression = expression ∧ .char '\x7d' ∉ expression
  | .composite _ source children =>
    ProperSource source ∧ Named [sourceName] children ∧ AllWellFormed children
  | .iterating _ children => Unnamed children ∧ AllWellFormed children

def AllWellFormed : List Node → Prop
  | [] => True
  | node :: rest => WellFormed node ∧ AllWellFormed rest

end

end Node

namespace Root

def contextMember : Json → List (Text × Json)
  | .scalar .null => []
  | context => [(contextName, context)]

def specialMembers (root : Root) : List (Text × Json) :=
  contextMember root.context.thaw ++ Node.sourceMember root.source

def decompile (root : Root) : Json :=
  .object (root.specialMembers ++ Node.decompileMembers root.children)

structure WellFormed (root : Root) : Prop where
  context : root.context.thaw.NoRepeats
  source : Node.ProperSource root.source
  names : Node.Named [contextName, sourceName] root.children
  children : Node.AllWellFormed root.children

end Root

namespace Node

variable {key : Option Text} {members : Keyed Text Json} {special : List Text}

theorem sourceOf_eq_ok_iff {source : Option Text} :
    sourceOf members = .ok source ↔
      ProperSource source ∧ members.find? sourceName = source.map .text := by
  unfold sourceOf ProperSource
  split
  · rename_i hfind
    rw [hfind]
    cases source <;> simp
  · rename_i t hfind
    rw [hfind]
    cases source with
    | none => cases t.isBlank <;> simp
    | some t' =>
      constructor
      · intro h
        split at h
        · cases h
        · rename_i hblank
          cases h
          simpa using hblank
      · rintro ⟨hblank, heq⟩
        cases heq
        rw [if_neg (by simp [hblank t rfl])]
  · rename_i hother hfind
    rw [hfind]
    cases source with
    | none => simp
    | some t' =>
      simp only [Option.map_some, Option.some.injEq, reduceCtorEq, false_iff, not_and]
      exact fun _ => hother t'

theorem nodup_keys_sourceMember (source : Option Text) :
    (Keyed.keys (sourceMember source)).Nodup := by
  cases source <;> simp [sourceMember, Keyed.keys]

theorem noRepeats_of_mem_sourceMember {source : Option Text} {name : Text} {value : Json}
    (h : (name, value) ∈ sourceMember source) : value.NoRepeats := by
  obtain ⟨t, -, heq⟩ := List.mem_map.1 h
  cases heq
  trivial

theorem find?_sourceMember (source : Option Text) :
    Keyed.find? (sourceMember source) sourceName = source.map .text := by
  cases source <;> simp [sourceMember, Keyed.find?]

theorem mem_keys_sourceMember {source : Option Text} {name : Text}
    (h : name ∈ Keyed.keys (sourceMember source)) : name = sourceName := by
  cases source with
  | none => cases h
  | some t => exact List.mem_singleton.1 h

/-- Special members have no part in the children of an object. -/
theorem ofMembers_append_special {front : List (Text × Json)}
    (h : ∀ name ∈ Keyed.keys front, name ∈ special) (rest : List (Text × Json)) :
    ofMembers special (front ++ rest) = ofMembers special rest := by
  induction front with
  | nil => rfl
  | cons m front ih =>
    obtain ⟨hm, hfront⟩ := List.forall_mem_cons.1 h
    rw [List.cons_append, ofMembers_cons_special hm, ih hfront]

section Named

variable {children : List Node} {names : List Text}

theorem keys_decompileMembers (h : children.map Node.key = names.map some) :
    Keyed.keys (decompileMembers children) = names := by
  induction children generalizing names with
  | nil =>
    cases names with
    | nil => rfl
    | cons => cases h
  | cons child rest ih =>
    cases names with
    | nil => cases h
    | cons name names =>
      obtain ⟨hname, hrest⟩ := List.cons.inj h
      have ih := ih hrest
      simp only [Keyed.keys] at ih
      simp [decompileMembers, Keyed.keys, hname, ih]

/-- Members that have other names than the children are found among them. -/
theorem find?_append_decompileMembers (h : Named special children) (front : List (Text × Json))
    {name : Text} (hname : name ∈ special) :
    Keyed.find? (front ++ decompileMembers children) name = Keyed.find? front name := by
  obtain ⟨names, hkeys, -, hspecial⟩ := h
  have hnone : Keyed.find? (decompileMembers children) name = none := by
    rw [Keyed.find?_eq_none_iff, keys_decompileMembers hkeys]
    exact fun hmem => hspecial name hmem hname
  rw [Keyed.find?_append, hnone, Option.or_none]

theorem nodup_append_decompileMembers (h : Named special children) {front : List (Text × Json)}
    (nodup : (Keyed.keys front).Nodup) (hfront : ∀ name ∈ Keyed.keys front, name ∈ special) :
    (Keyed.keys (front ++ decompileMembers children)).Nodup := by
  obtain ⟨names, hkeys, hnames, hspecial⟩ := h
  have happend : Keyed.keys (front ++ decompileMembers children) = Keyed.keys front ++ names := by
    rw [← keys_decompileMembers hkeys]
    exact List.map_append
  rw [happend, List.nodup_append]
  refine ⟨nodup, hnames, ?_⟩
  rintro name hfrontName _ hname rfl
  exact hspecial name hname (hfront name hfrontName)

theorem named_of_keys (nodup : members.keys.Nodup)
    (h : children.map Node.key = (members.keys.filter (· ∉ special)).map some) :
    Named special children := by
  refine ⟨members.keys.filter (· ∉ special), h, nodup.filter _, ?_⟩
  intro name hname
  simpa using (List.mem_filter.1 hname).2

theorem Named.key_eq_some (h : Named special children) :
    ∀ child ∈ children, ∃ name, child.key = some name ∧ name ∉ special := by
  obtain ⟨names, hkeys, -, hspecial⟩ := h
  intro child hmem
  have hkey : child.key ∈ names.map some := hkeys ▸ List.mem_map_of_mem hmem
  obtain ⟨name, hname, heq⟩ := List.mem_map.1 hkey
  exact ⟨name, heq.symm, hspecial name hname⟩

end Named

section Rebuilding

mutual

/-- A well-formed node is built again from the value that it stands for. -/
theorem ofJson_decompile :
    (node : Node) → node.WellFormed → ofJson node.key node.decompile = .ok node
  | .static _ (.text _), h => ofText_static (Role.opened?_eq_none_iff.2 h)
  | .static _ .null, _ | .static _ (.bool _), _ | .static _ (.number _), _ => rfl
  | .dynamic key role expression, ⟨hne, htrim, hbrace⟩ => by
    rw [decompile, ofJson, ofText_closed, htrim, if_neg hne, if_neg hbrace]
    rfl
  | .composite key source children, ⟨hsource, hnamed, hchildren⟩ => by
    refine ofJson_object_eq_ok_iff.2 ⟨source, children, sourceOf_eq_ok_iff.2 ⟨hsource, ?_⟩, ?_, rfl⟩
    · rw [find?_append_decompileMembers hnamed _ (List.mem_singleton_self _), find?_sourceMember]
    · rw [ofMembers_append_special fun name h => List.mem_singleton.2 (mem_keys_sourceMember h)]
      exact ofMembers_decompileMembers [sourceName] children hnamed.key_eq_some hchildren
  | .iterating key children, ⟨hunnamed, hchildren⟩ =>
    ofJson_array_eq_ok_iff.2 ⟨children, ofItems_decompileItems children hunnamed hchildren, rfl⟩

theorem ofItems_decompileItems : (children : List Node) → Unnamed children →
    AllWellFormed children → ofItems (decompileItems children) = .ok children
  | [], _, _ => rfl
  | child :: rest, hunnamed, ⟨hchild, hrest⟩ => by
    obtain ⟨hkey, hkeys⟩ := List.forall_mem_cons.1 hunnamed
    have hbuilt := ofJson_decompile child hchild
    rw [hkey] at hbuilt
    exact ofItems_cons_eq_ok_iff.2
      ⟨child, rest, hbuilt, ofItems_decompileItems rest hkeys hrest, rfl⟩

theorem ofMembers_decompileMembers (special : List Text) : (children : List Node) →
    (∀ child ∈ children, ∃ name, child.key = some name ∧ name ∉ special) →
    AllWellFormed children → ofMembers special (decompileMembers children) = .ok children
  | [], _, _ => rfl
  | child :: rest, hnamed, ⟨hchild, hrest⟩ => by
    obtain ⟨⟨name, hkey, hname⟩, hkeys⟩ := List.forall_mem_cons.1 hnamed
    have hbuilt := ofJson_decompile child hchild
    rw [hkey] at hbuilt
    rw [decompileMembers, hkey, Option.getD_some]
    exact (ofMembers_cons_eq_ok_iff hname).2
      ⟨child, rest, hbuilt, ofMembers_decompileMembers special rest hkeys hrest, rfl⟩

end

end Rebuilding

section Building

theorem wellFormed_of_ofText {t : Text} {node : Node} (h : ofText key t = .ok node) :
    node.WellFormed ∧ node.key = key := by
  rcases hopened : Role.opened? t with - | ⟨role, rest⟩
  · rw [ofText_static hopened] at h
    cases h
    exact ⟨Role.opened?_eq_none_iff.1 hopened, rfl⟩
  · obtain rfl := Role.opened?_eq_some_iff.1 hopened
    rw [ofText_opener] at h
    split at h
    · split at h
      · cases h
      · split at h
        · cases h
        · cases h
          exact ⟨⟨‹_›, Text.trim_trim _, ‹_›⟩, rfl⟩
    · cases h

mutual

theorem wellFormed_of_ofJson : (v : Json) → ∀ {key : Option Text} {node : Node}, v.NoRepeats →
    ofJson key v = .ok node → node.WellFormed ∧ node.key = key
  | .scalar (.text _), _, _, _, h => wellFormed_of_ofText h
  | .scalar .null, _, _, _, h | .scalar (.bool _), _, _, _, h
  | .scalar (.number _), _, _, _, h => by
    cases h
    exact ⟨trivial, rfl⟩
  | .array items, _, _, noRepeats, h => by
    obtain ⟨children, hchildren, rfl⟩ := ofJson_array_eq_ok_iff.1 h
    exact ⟨(wellFormed_of_ofItems items noRepeats hchildren).symm, rfl⟩
  | .object members, _, _, ⟨nodup, noRepeats⟩, h => by
    obtain ⟨source, children, hsource, hchildren, rfl⟩ := ofJson_object_eq_ok_iff.1 h
    obtain ⟨hall, hkeys⟩ := wellFormed_of_ofMembers [sourceName] members noRepeats hchildren
    exact ⟨⟨(sourceOf_eq_ok_iff.1 hsource).1, named_of_keys nodup hkeys, hall⟩, rfl⟩

theorem wellFormed_of_ofItems : (items : List Json) → ∀ {children : List Node},
    Json.NoItemRepeats items → ofItems items = .ok children →
    AllWellFormed children ∧ Unnamed children
  | [], _, _, h => by
    cases h
    exact ⟨trivial, nofun⟩
  | item :: rest, _, ⟨hitem, hrest⟩, h => by
    obtain ⟨node, others, hnode, hothers, rfl⟩ := ofItems_cons_eq_ok_iff.1 h
    obtain ⟨hwell, hkey⟩ := wellFormed_of_ofJson item hitem hnode
    obtain ⟨hall, hkeys⟩ := wellFormed_of_ofItems rest hrest hothers
    exact ⟨⟨hwell, hall⟩, List.forall_mem_cons.2 ⟨hkey, hkeys⟩⟩

theorem wellFormed_of_ofMembers (special : List Text) : (members : List (Text × Json)) →
    ∀ {children : List Node}, Json.NoMemberRepeats members →
    ofMembers special members = .ok children → AllWellFormed children ∧
      children.map Node.key = ((Keyed.keys members).filter (· ∉ special)).map some
  | [], _, _, h => by
    cases h
    exact ⟨trivial, rfl⟩
  | (name, value) :: rest, _, ⟨hvalue, hrest⟩, h => by
    rw [Keyed.keys, List.map_cons]
    by_cases hname : name ∈ special
    · rw [ofMembers_cons_special hname] at h
      rw [List.filter_cons_of_neg (by simpa using hname)]
      exact wellFormed_of_ofMembers special rest hrest h
    · obtain ⟨node, others, hnode, hothers, rfl⟩ := (ofMembers_cons_eq_ok_iff hname).1 h
      obtain ⟨hwell, hkey⟩ := wellFormed_of_ofJson value hvalue hnode
      obtain ⟨hall, hkeys⟩ := wellFormed_of_ofMembers special rest hrest hothers
      rw [List.filter_cons_of_pos (by simpa using hname), List.map_cons, List.map_cons, hkey, hkeys]
      exact ⟨⟨hwell, hall⟩, rfl⟩

end

end Building

section Repeats

mutual

theorem noRepeats_decompile : (node : Node) → node.WellFormed → node.decompile.NoRepeats
  | .static .., _ | .dynamic .., _ => trivial
  | .composite _ source children, ⟨_, hnamed, hchildren⟩ => by
    refine ⟨nodup_append_decompileMembers hnamed ?_ ?_, Json.noMemberRepeats_iff.2 ?_⟩
    · exact nodup_keys_sourceMember source
    · exact fun name h => List.mem_singleton.2 (mem_keys_sourceMember h)
    · intro name value hmem
      rcases List.mem_append.1 hmem with hmem | hmem
      · exact noRepeats_of_mem_sourceMember hmem
      · exact noMemberRepeats_decompile children hchildren name value hmem
  | .iterating _ children, ⟨_, hchildren⟩ => noItemRepeats_decompile children hchildren

theorem noItemRepeats_decompile : (children : List Node) → AllWellFormed children →
    Json.NoItemRepeats (decompileItems children)
  | [], _ => trivial
  | child :: rest, ⟨hchild, hrest⟩ =>
    ⟨noRepeats_decompile child hchild, noItemRepeats_decompile rest hrest⟩

theorem noMemberRepeats_decompile : (children : List Node) → AllWellFormed children →
    ∀ name value, (name, value) ∈ decompileMembers children → value.NoRepeats
  | [], _, _, _, hmem => by cases hmem
  | child :: rest, ⟨hchild, hrest⟩, name, value, hmem => by
    rcases List.mem_cons.1 hmem with heq | hmem
    · cases heq
      exact noRepeats_decompile child hchild
    · exact noMemberRepeats_decompile rest hrest name value hmem

end

end Repeats

end Node

namespace Root

variable {root : Root}

theorem mem_keys_contextMember {context : Json} {name : Text}
    (h : name ∈ Keyed.keys (contextMember context)) : name = contextName := by
  unfold contextMember at h
  split at h
  · cases h
  · exact List.mem_singleton.1 h

theorem find?_contextMember (context : Json) :
    (Keyed.find? (contextMember context) contextName).getD .null = context := by
  unfold contextMember
  split
  · rfl
  · simp [Keyed.find?]

theorem nodup_keys_contextMember (context : Json) :
    (Keyed.keys (contextMember context)).Nodup := by
  unfold contextMember
  split <;> simp [Keyed.keys]

theorem noRepeats_of_mem_contextMember {context : Json} (noRepeats : context.NoRepeats)
    {name : Text} {value : Json} (h : (name, value) ∈ contextMember context) :
    value.NoRepeats := by
  unfold contextMember at h
  split at h
  · cases h
  · cases List.mem_singleton.1 h
    exact noRepeats

theorem keys_specialMembers (root : Root) : Keyed.keys root.specialMembers =
    Keyed.keys (contextMember root.context.thaw) ++ Keyed.keys (Node.sourceMember root.source) :=
  List.map_append

theorem mem_keys_specialMembers {name : Text} (h : name ∈ Keyed.keys root.specialMembers) :
    name ∈ [contextName, sourceName] := by
  rw [keys_specialMembers, List.mem_append] at h
  rcases h with h | h
  · simp [mem_keys_contextMember h]
  · simp [Node.mem_keys_sourceMember h]

theorem nodup_keys_specialMembers (root : Root) : (Keyed.keys root.specialMembers).Nodup := by
  rw [keys_specialMembers, List.nodup_append]
  refine ⟨nodup_keys_contextMember _, Node.nodup_keys_sourceMember _, ?_⟩
  rintro name hcontext _ hsource rfl
  have hnames : contextName = sourceName :=
    (mem_keys_contextMember hcontext).symm.trans (Node.mem_keys_sourceMember hsource)
  exact absurd hnames (by decide)

theorem find?_specialMembers_source (root : Root) :
    Keyed.find? root.specialMembers sourceName = root.source.map .text := by
  have hnone : Keyed.find? (contextMember root.context.thaw) sourceName = none := by
    rw [Keyed.find?_eq_none_iff]
    intro h
    exact absurd (mem_keys_contextMember h) (by decide)
  rw [specialMembers, Keyed.find?_append, hnone, Node.find?_sourceMember, Option.none_or]

theorem find?_specialMembers_context (root : Root) :
    (Keyed.find? root.specialMembers contextName).getD .null = root.context.thaw := by
  have hnone : Keyed.find? (Node.sourceMember root.source) contextName = none := by
    rw [Keyed.find?_eq_none_iff]
    intro h
    exact absurd (Node.mem_keys_sourceMember h) (by decide)
  rw [specialMembers, Keyed.find?_append, hnone, Option.or_none, find?_contextMember]

/-- A well-formed tree is built again from the value that it stands for. -/
theorem ofJson_decompile (h : root.WellFormed) : Root.ofJson root.decompile = .ok root := by
  obtain ⟨-, hsource, hnamed, hchildren⟩ := h
  have hfind : ∀ name ∈ [contextName, sourceName],
      Keyed.find? (root.specialMembers ++ Node.decompileMembers root.children) name =
        Keyed.find? root.specialMembers name :=
    fun name hname => Node.find?_append_decompileMembers hnamed _ hname
  refine ofJson_object_eq_ok_iff.2
    ⟨root.source, root.children, Node.sourceOf_eq_ok_iff.2 ⟨hsource, ?_⟩, ?_, ?_⟩
  · exact (hfind sourceName (by simp)).trans (find?_specialMembers_source root)
  · refine (Node.ofMembers_append_special (fun name => mem_keys_specialMembers) _).trans ?_
    exact Node.ofMembers_decompileMembers _ root.children hnamed.key_eq_some hchildren
  · have hcontext : (Keyed.find? (root.specialMembers ++ Node.decompileMembers root.children)
        contextName).getD .null = root.context.thaw := by
      rw [hfind contextName (by simp), find?_specialMembers_context]
    have hfrozen := congrArg Json.freeze hcontext
    rw [Frozen.freeze_thaw] at hfrozen
    exact congrArg (Root.mk · root.source root.children) hfrozen

/-- The trees that are built from values are well-formed. -/
theorem wellFormed_of_ofJson {v : Json} (noRepeats : v.NoRepeats) (h : Root.ofJson v = .ok root) :
    root.WellFormed := by
  cases v with
  | scalar | array => cases h
  | object members =>
    obtain ⟨nodup, noRepeats⟩ := noRepeats
    obtain ⟨source, children, hsource, hchildren, rfl⟩ := ofJson_object_eq_ok_iff.1 h
    obtain ⟨hall, hkeys⟩ := Node.wellFormed_of_ofMembers _ members noRepeats hchildren
    refine ⟨?_, (Node.sourceOf_eq_ok_iff.1 hsource).1, Node.named_of_keys nodup hkeys, hall⟩
    rw [Frozen.thaw_freeze]
    cases hfind : Keyed.find? members contextName with
    | none => trivial
    | some context =>
      exact Json.noMemberRepeats_iff.1 noRepeats _ _ (Keyed.mem_of_find? hfind)

theorem noRepeats_decompile (h : root.WellFormed) : root.decompile.NoRepeats := by
  obtain ⟨hcontext, -, hnamed, hchildren⟩ := h
  refine ⟨?_, Json.noMemberRepeats_iff.2 ?_⟩
  · exact Node.nodup_append_decompileMembers hnamed (nodup_keys_specialMembers root)
      fun name => mem_keys_specialMembers
  · intro name value hmem
    rcases List.mem_append.1 hmem with hmem | hmem
    · rcases List.mem_append.1 hmem with hmem | hmem
      · exact noRepeats_of_mem_contextMember hcontext hmem
      · exact Node.noRepeats_of_mem_sourceMember hmem
    · exact Node.noMemberRepeats_decompile root.children hchildren name value hmem

theorem wellFormed_iff : root.WellFormed ↔ ∃ v, v.NoRepeats ∧ Root.ofJson v = .ok root := by
  constructor
  · intro h
    exact ⟨root.decompile, noRepeats_decompile h, ofJson_decompile h⟩
  · rintro ⟨v, noRepeats, h⟩
    exact wellFormed_of_ofJson noRepeats h

end Root

end LiveTemplates
