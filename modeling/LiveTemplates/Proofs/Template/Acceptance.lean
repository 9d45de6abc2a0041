import LiveTemplates.Proofs.Template.Violation

/-!
# Which values are templates

Whether a value is a template is told by what stands in it, apart from the context of its root: the
sources have to be texts that are not blank, and the other texts must not be malformed. If it is
none, the first place that violates this is reported.
-/

namespace LiveTemplates

/-- What stands in an object with these members, at any depth: a value with the name of its member,
or an item of an array. What the context of the root holds does not count. -/
inductive Stands (members : Keyed Text Json) : Option Text → Json → Prop where
  | member {name : Text} {value : Json} (h : (name, value) ∈ members)
    (notContext : name ≠ contextName) : Stands members (some name) value
  | item {key : Option Text} {items : List Json} {item : Json}
    (h : Stands members key (.array items)) (mem : item ∈ items) : Stands members none item
  | inner {key : Option Text} {inner : Keyed Text Json} {name : Text} {value : Json}
    (h : Stands members key (.object inner)) (mem : (name, value) ∈ inner) :
    Stands members (some name) value

structure TemplateMembers (members : Keyed Text Json) : Prop where
  source : ∀ v, Stands members (some sourceName) v → ∃ t : Text, v = .text t ∧ t.isBlank = false
  text : ∀ key t, Stands members key (.text t) → key ≠ some sourceName → ¬ t.Malformed

namespace Check

theorem source_passes_iff {v : Json} :
    (source v).Passes ↔ ∃ t : Text, v = .text t ∧ t.isBlank = false := by
  constructor
  · intro h
    by_contra hnone
    refine h _ (.source fun t ht => ?_)
    by_contra hblank
    exact hnone ⟨t, ht, by simpa using hblank⟩
  · rintro ⟨t, rfl, hblank⟩ r hviolates
    cases hviolates with
    | source h =>
      rw [h t rfl] at hblank
      cases hblank

theorem text_passes_iff {key : Option Text} {t : Text} : (text key t).Passes ↔ ¬ t.Malformed := by
  constructor
  · rintro h ⟨role, rest, rfl, hrest⟩
    by_cases hlast : rest.getLast? = some (.char '\x7d')
    · obtain ⟨inside, rfl⟩ : ∃ inside, rest = inside ++ [.char '\x7d'] :=
        ⟨_, (List.dropLast_append_getLast? _ hlast).symm⟩
      rw [← List.append_assoc] at h
      by_cases hempty : Text.trim inside = []
      · exact h _ (.empty hempty)
      · by_cases hbrace : .char '\x7d' ∈ Text.trim inside
        · exact h _ (.stray hempty hbrace)
        · exact hrest ⟨inside, rfl, hempty, hbrace⟩
    · exact h _ (.unterminated hlast)
  · rintro h r hviolates
    apply h
    cases hviolates with
    | @unterminated _ role rest hlast =>
      refine ⟨role, rest, rfl, ?_⟩
      rintro ⟨inside, rfl, -⟩
      simp at hlast
    | @empty _ role inside hempty =>
      refine ⟨role, inside ++ [.char '\x7d'], List.append_assoc .., ?_⟩
      rintro ⟨inside', heq, hne, -⟩
      obtain rfl := List.append_cancel_right heq
      exact hne hempty
    | @stray _ role inside _ hbrace =>
      refine ⟨role, inside ++ [.char '\x7d'], List.append_assoc .., ?_⟩
      rintro ⟨inside', heq, -, hnone⟩
      obtain rfl := List.append_cancel_right heq
      exact hnone hbrace

end Check

section Places

variable {members : Keyed Text Json} {key : Option Text} {v : Json} {c : Check}

theorem Stands.noRepeats (h : Stands members key v) (noRepeats : (Json.object members).NoRepeats) :
    v.NoRepeats := by
  induction h with
  | member hmem => exact Json.noMemberRepeats_iff.1 noRepeats.2 _ _ hmem
  | item _ hmem ih => exact Json.noItemRepeats_iff.1 ih _ hmem
  | inner _ hmem ih => exact Json.noMemberRepeats_iff.1 ih.2 _ _ hmem

theorem source_mem_sourceChecks (noRepeats : members.keys.Nodup) (h : (sourceName, v) ∈ members) :
    .source v ∈ sourceChecks members := by
  rw [sourceChecks, (Keyed.find?_eq_some_iff noRepeats).2 h]
  exact List.mem_singleton_self _

theorem mem_itemChecks {items : List Json} {item : Json} (hmem : item ∈ items)
    (h : c ∈ item.checks none) : c ∈ Json.itemChecks items := by
  induction items with
  | nil => cases hmem
  | cons first rest ih =>
    rw [Json.itemChecks, List.mem_append]
    rcases List.mem_cons.1 hmem with rfl | hmem
    · exact .inl h
    · exact .inr (ih hmem)

theorem mem_memberChecks {special : List Text} {inner : List (Text × Json)} {name : Text}
    (hmem : (name, v) ∈ inner) (hname : name ∉ special) (h : c ∈ v.checks (some name)) :
    c ∈ Json.memberChecks special inner := by
  induction inner with
  | nil => cases hmem
  | cons m rest ih =>
    obtain ⟨name', value'⟩ := m
    rw [Json.memberChecks, List.mem_append]
    rcases List.mem_cons.1 hmem with heq | hmem
    · cases heq
      rw [if_neg hname]
      exact .inl h
    · exact .inr (ih hmem)

/-- A value passes where it stands: as a source, or else at all its places. -/
def PassesAs (key : Option Text) (v : Json) : Prop :=
  if key = some sourceName then (Check.source v).Passes else ∀ c ∈ v.checks key, c.Passes

theorem PassesAs.of_member {inner : Keyed Text Json} (special : List Text) {name : Text}
    (nodup : inner.keys.Nodup) (hmem : (name, v) ∈ inner)
    (hspecial : name ∈ special → name = sourceName)
    (passes : ∀ c ∈ sourceChecks inner ++ Json.memberChecks special inner, c.Passes) :
    PassesAs (some name) v := by
  rw [List.forall_mem_append] at passes
  by_cases hname : name = sourceName
  · subst hname
    rw [PassesAs, if_pos rfl]
    exact passes.1 _ (source_mem_sourceChecks nodup hmem)
  · rw [PassesAs, if_neg (by simpa using hname)]
    intro c hc
    exact passes.2 c (mem_memberChecks hmem (fun h => hname (hspecial h)) hc)

/-- What is no text passes at all its places, because it is no source. -/
theorem PassesAs.checks (h : PassesAs key v) (notText : ∀ t : Text, v ≠ .text t) :
    ∀ c ∈ v.checks key, c.Passes := by
  unfold PassesAs at h
  split at h
  · obtain ⟨t, rfl, -⟩ := Check.source_passes_iff.1 h
    exact absurd rfl (notText t)
  · exact h

theorem Stands.passesAs (noRepeats : (Json.object members).NoRepeats)
    (passes : ∀ c ∈ Root.checks (.object members), c.Passes) (h : Stands members key v) :
    PassesAs key v := by
  induction h with
  | member hmem notContext =>
    refine .of_member [contextName, sourceName] noRepeats.1 hmem ?_ ?_
    · simp [notContext]
    · rw [Root.checks, List.cons_append] at passes
      exact (List.forall_mem_cons.1 passes).2
  | item hstands hmem ih =>
    rw [PassesAs, if_neg (by simp)]
    intro c hc
    exact ih.checks (by simp) c (mem_itemChecks hmem hc)
  | inner hstands hmem ih =>
    exact .of_member [sourceName] (hstands.noRepeats noRepeats).1 hmem (by simp)
      (ih.checks (by simp))

def Check.StandsIn (members : Keyed Text Json) : Check → Prop
  | .root v => v = .object members
  | .source v => Stands members (some sourceName) v
  | .text key t => Stands members key (.text t) ∧ key ≠ some sourceName

theorem standsIn_of_mem_sourceChecks {inner : Keyed Text Json} (hc : c ∈ sourceChecks inner)
    (h : ∀ v, (sourceName, v) ∈ inner → Stands members (some sourceName) v) :
    c.StandsIn members := by
  rw [sourceChecks, List.mem_map] at hc
  obtain ⟨v, hv, rfl⟩ := hc
  exact h v (Keyed.mem_of_find? (Option.mem_toList.1 hv))

mutual

/-- All places of a value that stands in an object stand there. -/
theorem standsIn_of_mem_checks (v : Json) (key : Option Text) (h : Stands members key v)
    (notSource : key ≠ some sourceName) : ∀ c ∈ v.checks key, c.StandsIn members := by
  cases v with
  | scalar s =>
    cases s with
    | text t =>
      rintro c hc
      obtain rfl := List.mem_singleton.1 hc
      exact ⟨h, notSource⟩
    | null | bool | number => nofun
  | array items => exact standsIn_of_mem_itemChecks items fun item hmem => h.item hmem
  | object inner =>
    rw [Json.checks, List.forall_mem_append]
    constructor
    · intro c hc
      exact standsIn_of_mem_sourceChecks hc fun v hv => h.inner hv
    · exact standsIn_of_mem_memberChecks [sourceName] (by simp) inner
        fun name value hmem _ => h.inner hmem

theorem standsIn_of_mem_itemChecks (items : List Json)
    (h : ∀ item ∈ items, Stands members none item) :
    ∀ c ∈ Json.itemChecks items, c.StandsIn members := by
  cases items with
  | nil => nofun
  | cons item rest =>
    obtain ⟨hitem, hrest⟩ := List.forall_mem_cons.1 h
    rw [Json.itemChecks, List.forall_mem_append]
    exact ⟨standsIn_of_mem_checks item none hitem nofun, standsIn_of_mem_itemChecks rest hrest⟩

theorem standsIn_of_mem_memberChecks (special : List Text) (hspecial : sourceName ∈ special)
    (inner : List (Text × Json))
    (h : ∀ name value, (name, value) ∈ inner → name ∉ special → Stands members (some name) value) :
    ∀ c ∈ Json.memberChecks special inner, c.StandsIn members := by
  cases inner with
  | nil => nofun
  | cons m rest =>
    obtain ⟨name, value⟩ := m
    have hrest := standsIn_of_mem_memberChecks special hspecial rest fun n u hmem =>
      h n u (List.mem_cons_of_mem _ hmem)
    rw [Json.memberChecks]
    split
    · exact hrest
    · rename_i hname
      rw [List.forall_mem_append]
      refine ⟨standsIn_of_mem_checks value (some name) (h name value List.mem_cons_self hname) ?_,
        hrest⟩
      rintro ⟨⟩
      exact hname hspecial

end

theorem standsIn_of_mem_rootChecks (hc : c ∈ Root.checks (.object members)) :
    c.StandsIn members := by
  rw [Root.checks, List.cons_append, List.mem_cons, List.mem_append] at hc
  rcases hc with rfl | hc | hc
  · rfl
  · exact standsIn_of_mem_sourceChecks hc fun v hv => .member hv (by decide)
  · refine standsIn_of_mem_memberChecks [contextName, sourceName] (by simp) members ?_ c hc
    intro name value hmem hname
    exact .member hmem fun h => hname (by simp [h])

/-- An object passes at all its places if it is a template by what stands in it. -/
theorem passes_rootChecks_iff (noRepeats : (Json.object members).NoRepeats) :
    (∀ c ∈ Root.checks (.object members), c.Passes) ↔ TemplateMembers members := by
  constructor
  · intro passes
    refine ⟨fun v h => ?_, fun key t h notSource => ?_⟩
    · have hpasses := h.passesAs noRepeats passes
      rw [PassesAs, if_pos rfl] at hpasses
      exact Check.source_passes_iff.1 hpasses
    · have hpasses := h.passesAs noRepeats passes
      rw [PassesAs, if_neg notSource] at hpasses
      exact Check.text_passes_iff.1 (hpasses _ List.mem_cons_self)
  · intro h c hc
    have hstands := standsIn_of_mem_rootChecks hc
    cases c with
    | root v =>
      rintro r ⟨hobject⟩
      exact hobject members hstands
    | source v => exact Check.source_passes_iff.2 (h.source v hstands)
    | text key t => exact Check.text_passes_iff.2 (h.text key t hstands.1 hstands.2)

end Places

/-- A value in which no name repeats gives a tree if and only if it is an object and a template by
what stands in it. Otherwise the first place that violates the grammar is reported, where the
source of an object comes before all its other members. The texts that are accepted give an
expression, stripped of the blanks at its ends, if they open one, and are kept as they are if they
do not. The stack that building takes, enough for about 496 levels, is left out here. -/
theorem first_violation_is_reported (v : Json) (noRepeats : v.NoRepeats) :
    ((∃ root, Root.ofJson v = .ok root) ↔
      ∃ members, v = .object members ∧ TemplateMembers members) ∧
    (∀ r, Root.ofJson v = .error r ↔ FirstViolation (Root.checks v) r) ∧
    ∀ key t, ¬ t.Malformed →
      (∀ role inside, t = Role.opener role ++ inside ++ [.char '\x7d'] →
        Node.ofText key t = .ok (.dynamic key role (Text.trim inside))) ∧
      ((∀ role, ¬ Role.opener role <+: t) → Node.ofText key t = .ok (.static key (.text t))) := by
  refine ⟨?_, Root.reports_ofJson v, ?_⟩
  · rw [(Root.reports_ofJson v).exists_ok_iff]
    cases v with
    | object members =>
      rw [passes_rootChecks_iff noRepeats]
      constructor
      · exact fun h => ⟨members, rfl, h⟩
      · rintro ⟨_, ⟨⟩, h⟩
        exact h
    | scalar | array =>
      constructor
      · intro h
        exact (h _ List.mem_cons_self _ (.root fun _ heq => nomatch heq)).elim
      · rintro ⟨members, ⟨⟩, -⟩
  · intro key t hformed
    refine ⟨?_, fun h => Node.ofText_static (Role.opened?_eq_none_iff.2 h)⟩
    rintro role inside rfl
    have hpasses : ∀ r, Node.ofText key _ ≠ .error r := fun r herror =>
      Check.text_passes_iff.2 hformed r (Node.ofText_eq_error_iff.1 herror)
    rw [Node.ofText_closed] at hpasses ⊢
    split at hpasses
    · exact absurd rfl (hpasses _)
    · split at hpasses
      · exact absurd rfl (hpasses _)
      · rw [if_neg ‹_›, if_neg ‹_›]

/-- An inner source that is blank, behind a text that is malformed. The context of the root and its
source look malformed, and may. -/
def blankBehind : Json :=
  .object [("a", .object [("b", .text "$\x7b"), ("@context", .null), ("$source", .text " ")]),
    ("@context", .object [("$source", .int 1), ("c", .text "$\x7b")]), ("$source", .text "$\x7b")]

theorem first_violation_is_reported_blankBehind :
    blankBehind.NoRepeats ∧ Root.ofJson blankBehind = .error .blankSource ∧
      FirstViolation (Root.checks blankBehind) .blankSource ∧
      ¬ ∃ members, blankBehind = .object members ∧ TemplateMembers members := by
  have noRepeats : blankBehind.NoRepeats := by
    simp [blankBehind, Json.NoRepeats, Json.NoMemberRepeats, Keyed.keys]
    decide
  have herror : Root.ofJson blankBehind = .error .blankSource := rfl
  obtain ⟨haccepted, hreported, -⟩ := first_violation_is_reported blankBehind noRepeats
  refine ⟨noRepeats, herror, (hreported _).1 herror, ?_⟩
  rw [← haccepted, herror]
  simp

/-- Sources are not held to what other texts are: a template may have a source that would be
malformed elsewhere. -/
theorem source_may_look_malformed :
    let members : Keyed Text Json := [("$source", .text "$\x7b")]
    ¬ ((∃ root, Root.ofJson (.object members) = .ok root) ↔
      (∀ key t, Stands members key (.text t) → ¬ t.Malformed) ∧
      ∀ v, Stands members (some sourceName) v → ∃ t : Text, v = .text t ∧ t.isBlank = false) := by
  intro members h
  have hstands : Stands members (some sourceName) (.text "$\x7b") :=
    .member List.mem_cons_self (by decide)
  refine (h.1 ⟨_, rfl⟩).1 _ _ hstands ⟨.property, [], rfl, ?_⟩
  rintro ⟨inside, heq, -⟩
  simp at heq

end LiveTemplates
