import LiveTemplates.Proofs.Template.Decompiling

/-!
# Normal forms of templates

Of a value, a tree leaves open where the special members of objects stand, what blanks are at the
ends of expressions, and whether a context that is null is spelled out. In the normal form of a
value the special members are in front, no expression has blanks at its ends, and a context that
is null is left out. A tree gives back the normal form of the value that it was built from, so two
values give the same tree if and only if they have the same normal form.
-/

namespace LiveTemplates

namespace Keyed

variable {K V : Type} [DecidableEq K]

def of (m : Keyed K V) (k : K) : Keyed K V := m.filter fun e => e.1 = k

def others (keys : List K) (m : Keyed K V) : Keyed K V := m.filter fun e => e.1 ∉ keys

def inFront (keys : List K) (m : Keyed K V) : Keyed K V := keys.flatMap m.of ++ m.others keys

end Keyed

def Text.tidied (t : Text) : Text :=
  match Role.opened? t with
  | none => t
  | some (role, rest) =>
    if rest.getLast? = some (.char '\x7d') then
      role.opener ++ trim rest.dropLast ++ [.char '\x7d']
    else t

namespace Json

mutual

/-- The value with the source of each object in front and without blanks at the ends of
expressions. -/
def normal : Json → Json
  | .scalar (.text t) => .text t.tidied
  | .scalar s => .scalar s
  | .array items => .array (normalItems items)
  | .object members => .object (Keyed.inFront [sourceName] (normalMembers [sourceName] members))

def normalItems : List Json → List Json
  | [] => []
  | item :: rest => normal item :: normalItems rest

def normalMembers (special : List Text) : List (Text × Json) → List (Text × Json)
  | [] => []
  | (name, value) :: rest =>
    (name, if name ∈ special then value else normal value) :: normalMembers special rest

end

def isNullContext : Text × Json → Bool
  | (name, .scalar .null) => name = contextName
  | _ => false

def withoutNullContext (members : List (Text × Json)) : List (Text × Json) :=
  members.filter fun m => !isNullContext m

/-- The normal form of a value as a template: the context of the root is kept as it is, unless it
is null. -/
def normalTemplate : Json → Json
  | .object members =>
    .object (Keyed.inFront [contextName, sourceName]
      (withoutNullContext (normalMembers [contextName, sourceName] members)))
  | v => v

end Json

namespace Keyed

variable {K V : Type} [DecidableEq K]

theorem others_cons_of_mem {keys : List K} {e : K × V} (h : e.1 ∈ keys) (m : Keyed K V) :
    others keys (e :: m) = others keys m := List.filter_cons_of_neg (by simpa using h)

theorem others_cons_of_not_mem {keys : List K} {e : K × V} (h : e.1 ∉ keys) (m : Keyed K V) :
    others keys (e :: m) = e :: others keys m := List.filter_cons_of_pos (by simpa using h)

theorem find?_of (m : Keyed K V) (k k' : K) :
    find? (m.of k) k' = if k' = k then m.find? k' else none := by
  rw [of, find?_filter m (fun x => decide (x = k)) k']
  simp

theorem find?_others {m : Keyed K V} {keys : List K} {k : K} (h : k ∈ keys) :
    find? (m.others keys) k = none := by
  rw [others, find?_filter m (fun x => decide (x ∉ keys)) k]
  simp [h]

theorem find?_inFront {m : Keyed K V} {keys : List K} {k : K} (h : k ∈ keys) :
    find? (m.inFront keys) k = m.find? k := by
  have hfront : find? (keys.flatMap m.of) k = if k ∈ keys then m.find? k else none := by
    clear h
    induction keys with
    | nil => rfl
    | cons key rest ih =>
      rw [List.flatMap_cons, find?_append, find?_of, ih]
      by_cases hk : k = key
      · cases m.find? k <;> simp [hk]
      · simp [hk]
  rw [inFront, find?_append, hfront, find?_others h, if_pos h, Option.or_none]

/-- Where no key repeats, there is one entry of a key at most. -/
theorem of_eq_toList {m : Keyed K V} (h : m.keys.Nodup) (k : K) :
    m.of k = (m.find? k).toList.map (k, ·) := by
  rw [of]
  induction m with
  | nil => simp [find?]
  | cons e rest ih =>
    obtain ⟨k₀, v₀⟩ := e
    obtain ⟨hnew, hrest⟩ : k₀ ∉ keys rest ∧ (keys rest).Nodup := List.nodup_cons.1 h
    by_cases hk : k₀ = k
    · subst hk
      have hnone : find? rest k₀ = none := find?_eq_none_iff.2 hnew
      have ih := ih hrest
      rw [hnone] at ih
      simp [find?, ih]
    · simp [find?, hk, ih hrest]

end Keyed

namespace Json

variable {special : List Text} {members : Keyed Text Json}

theorem keys_normalMembers (special : List Text) (members : Keyed Text Json) :
    Keyed.keys (normalMembers special members) = members.keys := by
  induction members with
  | nil => rfl
  | cons m rest ih =>
    simp only [Keyed.keys] at ih
    simp [normalMembers, Keyed.keys, ih]

theorem find?_normalMembers {name : Text} (h : name ∈ special) :
    Keyed.find? (normalMembers special members) name = members.find? name := by
  induction members with
  | nil => rfl
  | cons m rest ih =>
    obtain ⟨name', value⟩ := m
    by_cases hname : name' = name
    · subst hname
      simp [normalMembers, Keyed.find?, h]
    · simp [normalMembers, Keyed.find?, hname, ih]

theorem eq_of_isNullContext {m : Text × Json} (h : isNullContext m = true) :
    m = (contextName, .null) := by
  unfold isNullContext at h
  split at h
  · simpa using h
  · cases h

theorem find?_withoutNullContext {name : Text} (h : name ≠ contextName) :
    Keyed.find? (withoutNullContext members) name = members.find? name := by
  induction members with
  | nil => rfl
  | cons m rest ih =>
    simp only [withoutNullContext] at ih
    cases hm : isNullContext m with
    | true =>
      have hne : m.1 ≠ name := by
        rw [eq_of_isNullContext hm]
        exact h.symm
      simp [withoutNullContext, Keyed.find?, hm, hne, ih]
    | false => simp [withoutNullContext, Keyed.find?, hm, ih]

theorem filter_withoutNullContext {p : Text × Json → Bool}
    (h : ∀ m, m.1 = contextName → p m = false) :
    (withoutNullContext members).filter p = members.filter p := by
  rw [withoutNullContext, List.filter_filter]
  apply List.filter_congr
  intro m _
  cases hm : isNullContext m with
  | true => simp [h m (congrArg Prod.fst (eq_of_isNullContext hm))]
  | false => simp

theorem of_withoutNullContext {name : Text} (h : name ≠ contextName) :
    Keyed.of (withoutNullContext members) name = members.of name :=
  filter_withoutNullContext fun m hm => by simp [hm, h.symm]

theorem others_withoutNullContext (h : contextName ∈ special) :
    Keyed.others special (withoutNullContext members) = members.others special :=
  filter_withoutNullContext fun m hm => by simp [hm, h]

/-- A context that is null is as good as none. -/
theorem find?_withoutNullContext_getD (nodup : members.keys.Nodup) :
    (Keyed.find? (withoutNullContext members) contextName).getD .null =
      (Keyed.find? members contextName).getD .null := by
  induction members with
  | nil => rfl
  | cons m rest ih =>
    obtain ⟨hnew, hrest⟩ := List.nodup_cons.1 nodup
    have ih := ih hrest
    rw [withoutNullContext] at ih ⊢
    cases hm : isNullContext m with
    | true =>
      obtain rfl := eq_of_isNullContext hm
      have hnone : Keyed.find? rest contextName = none := Keyed.find?_eq_none_iff.2 hnew
      rw [List.filter_cons_of_neg (by simp [hm]), ih, hnone, Keyed.find?, if_pos rfl]
      rfl
    | false =>
      obtain ⟨name, value⟩ := m
      rw [List.filter_cons_of_pos (by simp [hm]), Keyed.find?, Keyed.find?]
      split
      · rfl
      · exact ih

end Json

namespace Node

variable {special : List Text} {members : Keyed Text Json} {key : Option Text}

section Decompiled

theorem decompile_of_ofText {t : Text} {node : Node} (h : ofText key t = .ok node) :
    node.decompile = .text t.tidied := by
  unfold Text.tidied
  rcases hopened : Role.opened? t with - | ⟨role, rest⟩
  · rw [ofText_static hopened] at h
    cases h
    rfl
  · obtain rfl := Role.opened?_eq_some_iff.1 hopened
    rw [ofText_opener] at h
    dsimp only
    split at h
    · rw [if_pos ‹_›]
      split at h
      · cases h
      · split at h
        · cases h
        · cases h
          rfl
    · cases h

variable (special) in
/-- The source of an object stands for the member that it was taken from. -/
theorem sourceMember_of_sourceOf {source : Option Text} (nodup : members.keys.Nodup)
    (hspecial : sourceName ∈ special) (h : sourceOf members = .ok source) :
    Keyed.of (Json.normalMembers special members) sourceName = sourceMember source := by
  rw [← Json.keys_normalMembers special] at nodup
  rw [Keyed.of_eq_toList nodup, Json.find?_normalMembers hspecial,
    (sourceOf_eq_ok_iff.1 h).2]
  cases source <;> rfl

mutual

/-- A node stands for the normal form of the value that it was built from. -/
theorem decompile_of_ofJson : (v : Json) → ∀ {key : Option Text} {node : Node}, v.NoRepeats →
    ofJson key v = .ok node → node.decompile = v.normal
  | .scalar (.text _), _, _, _, h => decompile_of_ofText h
  | .scalar .null, _, _, _, h | .scalar (.bool _), _, _, _, h
  | .scalar (.number _), _, _, _, h => by
    cases h
    rfl
  | .array items, _, _, noRepeats, h => by
    obtain ⟨children, hchildren, rfl⟩ := ofJson_array_eq_ok_iff.1 h
    rw [decompile, Json.normal, decompile_of_ofItems items noRepeats hchildren]
  | .object members, _, _, ⟨nodup, noRepeats⟩, h => by
    obtain ⟨source, children, hsource, hchildren, rfl⟩ := ofJson_object_eq_ok_iff.1 h
    rw [decompile, Json.normal, Keyed.inFront, List.flatMap_singleton,
      sourceMember_of_sourceOf [sourceName] nodup (List.mem_singleton_self _) hsource,
      decompile_of_ofMembers [sourceName] members noRepeats hchildren]

theorem decompile_of_ofItems : (items : List Json) → ∀ {children : List Node},
    Json.NoItemRepeats items → ofItems items = .ok children →
    decompileItems children = Json.normalItems items
  | [], _, _, h => by
    cases h
    rfl
  | item :: rest, _, ⟨hitem, hrest⟩, h => by
    obtain ⟨node, others, hnode, hothers, rfl⟩ := ofItems_cons_eq_ok_iff.1 h
    rw [decompileItems, Json.normalItems, decompile_of_ofJson item hitem hnode,
      decompile_of_ofItems rest hrest hothers]

theorem decompile_of_ofMembers (special : List Text) : (members : List (Text × Json)) →
    ∀ {children : List Node}, Json.NoMemberRepeats members →
    ofMembers special members = .ok children →
    decompileMembers children = Keyed.others special (Json.normalMembers special members)
  | [], _, _, h => by
    cases h
    rfl
  | (name, value) :: rest, _, ⟨hvalue, hrest⟩, h => by
    rw [Json.normalMembers]
    by_cases hname : name ∈ special
    · rw [ofMembers_cons_special hname] at h
      rw [Keyed.others_cons_of_mem hname]
      exact decompile_of_ofMembers special rest hrest h
    · obtain ⟨node, others, hnode, hothers, rfl⟩ := (ofMembers_cons_eq_ok_iff hname).1 h
      have hkey := (wellFormed_of_ofJson value hvalue hnode).2
      rw [Keyed.others_cons_of_not_mem hname, if_neg hname, decompileMembers, hkey,
        Option.getD_some, decompile_of_ofJson value hvalue hnode,
        decompile_of_ofMembers special rest hrest hothers]

end

end Decompiled

section Normal

theorem ofMembers_others (special : List Text) (members : List (Text × Json)) :
    ofMembers special (Keyed.others special members) = ofMembers special members := by
  induction members with
  | nil => rfl
  | cons m rest ih =>
    obtain ⟨name, value⟩ := m
    by_cases h : name ∈ special
    · rw [ofMembers_cons_special h, Keyed.others_cons_of_mem h, ih]
    · rw [Keyed.others_cons_of_not_mem h, ofMembers, ofMembers, ih]

theorem ofMembers_inFront (special : List Text) (members : Keyed Text Json) :
    ofMembers special (members.inFront special) = ofMembers special members := by
  have hfront : ∀ name ∈ Keyed.keys (special.flatMap members.of), name ∈ special := by
    intro name hname
    obtain ⟨m, hm, rfl⟩ := List.mem_map.1 hname
    obtain ⟨k, hk, hmem⟩ := List.mem_flatMap.1 hm
    have hkey : m.1 = k := by simpa using (List.mem_filter.1 hmem).2
    exact hkey ▸ hk
  rw [Keyed.inFront, ofMembers_append_special hfront, ofMembers_others]

theorem ofText_tidied {t : Text} {node : Node} :
    ofText key t.tidied = .ok node ↔ ofText key t = .ok node := by
  unfold Text.tidied
  rcases hopened : Role.opened? t with - | ⟨role, rest⟩
  · rfl
  · obtain rfl := Role.opened?_eq_some_iff.1 hopened
    dsimp only
    split
    · rename_i hlast
      rw [ofText_closed, ofText_opener, if_pos hlast, Text.trim_trim]
      split
      · rfl
      · split <;> simp
    · rfl

mutual

/-- The normal form of a value gives the same node as the value, if either gives one. -/
theorem ofJson_normal : (v : Json) → ∀ {key : Option Text} {node : Node},
    ofJson key v.normal = .ok node ↔ ofJson key v = .ok node
  | .scalar (.text _), _, _ => ofText_tidied
  | .scalar .null, _, _ | .scalar (.bool _), _, _ | .scalar (.number _), _, _ => Iff.rfl
  | .array items, _, _ => by
    simp only [Json.normal, ofJson_array_eq_ok_iff, ofItems_normalItems items]
  | .object members, _, _ => by
    have hsource : sourceOf (Keyed.inFront [sourceName] (Json.normalMembers [sourceName] members)) =
        sourceOf members := by
      rw [sourceOf, sourceOf, Keyed.find?_inFront (by simp), Json.find?_normalMembers (by simp)]
    simp only [Json.normal, ofJson_object_eq_ok_iff, hsource, ofMembers_inFront,
      ofMembers_normalMembers [sourceName] members]

theorem ofItems_normalItems : (items : List Json) → ∀ {children : List Node},
    ofItems (Json.normalItems items) = .ok children ↔ ofItems items = .ok children
  | [], _ => Iff.rfl
  | item :: rest, _ => by
    simp only [Json.normalItems, ofItems_cons_eq_ok_iff, ofJson_normal item,
      ofItems_normalItems rest]

theorem ofMembers_normalMembers (special : List Text) : (members : List (Text × Json)) →
    ∀ {children : List Node},
      ofMembers special (Json.normalMembers special members) = .ok children ↔
        ofMembers special members = .ok children
  | [], _ => Iff.rfl
  | (name, value) :: rest, _ => by
    rw [Json.normalMembers]
    by_cases hname : name ∈ special
    · rw [ofMembers_cons_special hname, ofMembers_cons_special hname]
      exact ofMembers_normalMembers special rest
    · simp only [if_neg hname, ofMembers_cons_eq_ok_iff hname, ofJson_normal value,
        ofMembers_normalMembers special rest]

end

end Normal

end Node

namespace Root

variable {v w : Json} {root : Root} {members : Keyed Text Json}

theorem contextMember_getD (context : Option Json) :
    contextMember (context.getD .null) =
      Json.withoutNullContext (context.toList.map (contextName, ·)) := by
  rcases context with - | ((_ | _ | _ | _) | _ | _) <;> rfl

/-- The context of a root stands for the member that it was taken from, unless that is null. -/
theorem contextMember_of_find? (special : List Text) (nodup : members.keys.Nodup)
    (hspecial : contextName ∈ special) :
    Keyed.of (Json.withoutNullContext (Json.normalMembers special members)) contextName =
      contextMember ((members.find? contextName).getD .null) := by
  rw [← Json.keys_normalMembers special] at nodup
  rw [contextMember_getD, ← Json.find?_normalMembers hspecial, ← Keyed.of_eq_toList nodup,
    Keyed.of, Json.withoutNullContext, List.filter_comm]
  rfl

/-- A tree stands for the normal form of the value that it was built from. -/
theorem decompile_of_ofJson (noRepeats : v.NoRepeats) (h : Root.ofJson v = .ok root) :
    root.decompile = v.normalTemplate := by
  cases v with
  | scalar | array => cases h
  | object members =>
    obtain ⟨nodup, noRepeats⟩ := noRepeats
    obtain ⟨source, children, hsource, hchildren, rfl⟩ := ofJson_object_eq_ok_iff.1 h
    have hcontext := contextMember_of_find? [contextName, sourceName] nodup (by simp)
    have hsource := Node.sourceMember_of_sourceOf [contextName, sourceName] nodup (by simp) hsource
    have hnames : sourceName ≠ contextName := by decide
    rw [decompile, specialMembers, Json.normalTemplate, Keyed.inFront, List.flatMap_cons,
      List.flatMap_singleton, hcontext, Json.of_withoutNullContext hnames, hsource,
      Json.others_withoutNullContext (by simp), Frozen.thaw_freeze,
      Node.decompile_of_ofMembers _ members noRepeats hchildren]

section Normal

variable (members)

def normalMembers : List (Text × Json) :=
  Keyed.inFront [contextName, sourceName]
    (Json.withoutNullContext (Json.normalMembers [contextName, sourceName] members))

theorem sourceOf_normalMembers :
    Node.sourceOf (normalMembers members) = Node.sourceOf members := by
  have hfind : Keyed.find? (normalMembers members) sourceName =
      Keyed.find? members sourceName := by
    rw [normalMembers, Keyed.find?_inFront (by simp), Json.find?_withoutNullContext (by decide),
      Json.find?_normalMembers (by simp)]
  rw [Node.sourceOf, Node.sourceOf, hfind]

theorem ofMembers_normalMembers {children : List Node} :
    Node.ofMembers [contextName, sourceName] (normalMembers members) = .ok children ↔
      Node.ofMembers [contextName, sourceName] members = .ok children := by
  rw [normalMembers, Node.ofMembers_inFront, ← Node.ofMembers_others,
    Json.others_withoutNullContext (by simp), Node.ofMembers_others, Node.ofMembers_normalMembers]

variable {members}

theorem context_normalMembers (nodup : members.keys.Nodup) :
    (Keyed.find? (normalMembers members) contextName).getD .null =
      (Keyed.find? members contextName).getD .null := by
  rw [← Json.keys_normalMembers [contextName, sourceName]] at nodup
  rw [normalMembers, Keyed.find?_inFront (by simp), Json.find?_withoutNullContext_getD nodup,
    Json.find?_normalMembers (by simp)]

/-- The normal form of a value gives the same tree as the value, if either gives one. -/
theorem ofJson_normalTemplate (noRepeats : v.NoRepeats) :
    Root.ofJson v.normalTemplate = .ok root ↔ Root.ofJson v = .ok root := by
  cases v with
  | scalar | array => rfl
  | object members =>
    have hnormal : Json.normalTemplate (.object members) = .object (normalMembers members) := rfl
    rw [hnormal, ofJson_object_eq_ok_iff, ofJson_object_eq_ok_iff]
    simp only [sourceOf_normalMembers, ofMembers_normalMembers, context_normalMembers noRepeats.1]

end Normal

theorem member?_outline (root : Root) :
    root.outline.member? "context" = some root.context.thaw := rfl

/-- Trees and values determine each other. A tree that was built from a value gives back the value
in its normal form, and shows its context as it was written. A well-formed tree is built again from
the value that it gives, and the well-formed trees are those that are built. Two values give the
same tree if and only if they have the same normal form. -/
theorem decompile_inverts_ofJson :
    (∀ (v : Json) (root : Root), v.NoRepeats → Root.ofJson v = .ok root →
      root.decompile = v.normalTemplate ∧
      root.outline.member? "context" = some ((v.member? contextName).getD .null)) ∧
    (∀ root : Root, root.WellFormed → Root.ofJson root.decompile = .ok root) ∧
    (∀ root : Root, root.WellFormed ↔ ∃ v : Json, v.NoRepeats ∧ Root.ofJson v = .ok root) ∧
    ∀ (v w : Json) (root : Root), v.NoRepeats → w.NoRepeats → Root.ofJson v = .ok root →
      (Root.ofJson w = .ok root ↔ w.normalTemplate = v.normalTemplate) := by
  refine ⟨?_, fun _ => ofJson_decompile, fun _ => wellFormed_iff, ?_⟩
  · intro v root noRepeats h
    refine ⟨decompile_of_ofJson noRepeats h, ?_⟩
    cases v with
    | scalar | array => cases h
    | object members =>
      obtain ⟨source, children, -, -, rfl⟩ := ofJson_object_eq_ok_iff.1 h
      rw [member?_outline, Frozen.thaw_freeze]
      rfl
  · intro v w root hv hw h
    constructor
    · intro h'
      exact (decompile_of_ofJson hw h').symm.trans (decompile_of_ofJson hv h)
    · intro heq
      rw [← ofJson_normalTemplate hw, heq, ofJson_normalTemplate hv]
      exact h

/-- A template with blanks in an expression, a text that opens none, and a context that looks like a
template. -/
def untidy : Json :=
  .object [("a", .array [.text "$$\x7b x\t\x7d", .text "$ \x7b\x7d"]),
    ("@context", .object [("z", .text "$\x7b"), ("y", .null), ("$source", .int 1)]),
    ("b", .object [("@context", .null), ("$source", .text " s ")])]

def tidy : Json :=
  .object [("@context", .object [("z", .text "$\x7b"), ("y", .null), ("$source", .int 1)]),
    ("a", .array [.text "$$\x7bx\x7d", .text "$ \x7b\x7d"]),
    ("b", .object [("$source", .text " s "), ("@context", .null)])]

theorem decompile_inverts_ofJson_untidy :
    ∃ root, untidy.NoRepeats ∧ tidy.NoRepeats ∧ Root.ofJson untidy = .ok root ∧
      root.decompile = tidy ∧ root.WellFormed ∧ Root.ofJson root.decompile = .ok root ∧
      Root.ofJson tidy = .ok root ∧
      root.outline.member? "context" =
        some (.object [("z", .text "$\x7b"), ("y", .null), ("$source", .int 1)]) := by
  have huntidy : untidy.NoRepeats := by
    simp [untidy, Json.NoRepeats, Json.NoMemberRepeats, Json.NoItemRepeats, Keyed.keys]
    decide
  have htidy : tidy.NoRepeats := by
    simp [tidy, Json.NoRepeats, Json.NoMemberRepeats, Json.NoItemRepeats, Keyed.keys]
    decide
  have hbuilt : Root.ofJson untidy = .ok _ := rfl
  obtain ⟨hdecompile, hrebuild, hwell, hsame⟩ := decompile_inverts_ofJson
  obtain ⟨hnormal, hcontext⟩ := hdecompile untidy _ huntidy hbuilt
  have hform : tidy.normalTemplate = untidy.normalTemplate := rfl
  have hformed := (hwell _).2 ⟨untidy, huntidy, hbuilt⟩
  exact ⟨_, huntidy, htidy, hbuilt, hnormal, hformed, hrebuild _ hformed,
    (hsame untidy tidy _ huntidy htidy hbuilt).2 hform, hcontext⟩

end Root

end LiveTemplates
