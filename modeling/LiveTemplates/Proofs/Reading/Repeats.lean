import LiveTemplates.Proofs.Reading.Scalars

/-!
# Names that repeat

Of the members of an object that have one name, the first one tells the place and the last one the
value. All the others are discarded, at every depth, and what stands in a value that is discarded
does not matter.
-/

namespace LiveTemplates

namespace Keyed

variable {K V : Type} [DecidableEq K]

theorem keys_put (m : Keyed K V) (k : K) (v : V) :
    (m.put k v).keys = if k ∈ m.keys then m.keys else m.keys ++ [k] := by
  induction m with
  | nil => rfl
  | cons e rest ih =>
    obtain ⟨k', v'⟩ := e
    simp only [keys, List.map_cons] at ih ⊢
    by_cases h : k' = k
    · simp [put, h]
    · rw [put, if_neg h, List.map_cons, ih]
      by_cases hmem : k ∈ rest.map Prod.fst <;> simp [hmem, Ne.symm h]

/-- Lists with the same keys are equal if they have the same values under them. -/
theorem eq_of_find? {m m' : Keyed K V} (nodup : m.keys.Nodup) (keys : m.keys = m'.keys)
    (values : ∀ k ∈ m.keys, m.find? k = m'.find? k) : m = m' := by
  induction m generalizing m' with
  | nil => exact (List.map_eq_nil_iff.1 keys.symm).symm
  | cons e rest ih =>
    cases m' with
    | nil => cases keys
    | cons e' rest' =>
      obtain ⟨k, v⟩ := e
      obtain ⟨k', v'⟩ := e'
      obtain ⟨rfl, hkeys⟩ : k = k' ∧ Keyed.keys rest = Keyed.keys rest' := List.cons.inj keys
      obtain ⟨hnew, hrest⟩ : k ∉ Keyed.keys rest ∧ (Keyed.keys rest).Nodup :=
        List.nodup_cons.1 nodup
      have hvalue : v = v' := by simpa [find?] using values k List.mem_cons_self
      rw [hvalue, ih hrest hkeys fun k' hk' => ?_]
      have hne : k ≠ k' := fun h => hnew (h ▸ hk')
      have hlater := values k' (List.mem_cons_of_mem k hk')
      rwa [find?, find?, if_neg hne, if_neg hne] at hlater

end Keyed

namespace Json

section Members

variable {members : Keyed Text Json}

theorem lastOfEach_concat (members : Keyed Text Json) (name : Text) (value : Json) :
    lastOfEach (members ++ [(name, value)]) = (lastOfEach members).put name value :=
  List.foldl_concat ..

/-- Names stand in the order in which they come first. -/
theorem keys_lastOfEach (members : Keyed Text Json) :
    (lastOfEach members).keys = members.keys.eraseDups := by
  induction members using List.reverseRecOn with
  | nil => rfl
  | append_singleton members m ih =>
    obtain ⟨name, value⟩ := m
    rw [lastOfEach_concat, Keyed.keys_put, ih, Keyed.keys, Keyed.keys, List.map_append,
      List.eraseDups_append]
    by_cases h : name ∈ members.map Prod.fst <;> simp [h, List.removeAll, List.eraseDups_cons]

/-- A name has the value that comes last. -/
theorem find?_lastOfEach (members : Keyed Text Json) (name : Text) :
    (lastOfEach members).find? name = Keyed.find? members.reverse name := by
  induction members using List.reverseRecOn with
  | nil => rfl
  | append_singleton members m ih =>
    rw [lastOfEach_concat, Keyed.find?_put, ih, List.reverse_concat, Keyed.find?]

theorem distinctMembers_eq_map (members : List (Text × Json)) :
    distinctMembers members = members.map fun m => (m.1, m.2.distinct) := by
  induction members with
  | nil => rfl
  | cons m rest ih => rw [distinctMembers, ih, List.map_cons]

theorem distinctItems_eq_map (items : List Json) : distinctItems items = items.map distinct := by
  induction items with
  | nil => rfl
  | cons item rest ih => rw [distinctItems, ih, List.map_cons]

theorem keys_distinctMembers (members : Keyed Text Json) :
    Keyed.keys (distinctMembers members) = members.keys := by
  rw [distinctMembers_eq_map, Keyed.keys, List.map_map]
  rfl

theorem find?_map_distinct (members : Keyed Text Json) (name : Text) :
    Keyed.find? (members.map fun m => (m.1, m.2.distinct)) name =
      (members.find? name).map distinct := by
  induction members with
  | nil => rfl
  | cons m rest ih => by_cases h : m.1 = name <;> simp [Keyed.find?, h, ih]

theorem find?_lastOfEach_distinct (members : Keyed Text Json) (name : Text) :
    (lastOfEach (distinctMembers members)).find? name =
      (Keyed.find? members.reverse name).map distinct := by
  rw [find?_lastOfEach, distinctMembers_eq_map, ← List.map_reverse, find?_map_distinct]

end Members

/-- A value with each name kept once in its object, at every depth: at the place of the first member
that has it, with the value of the last one. -/
inductive Reduces : Json → Json → Prop
  | scalar (s : Scalar) : Reduces (.scalar s) (.scalar s)
  | array {items kept : List Json} (length : items.length = kept.length)
    (each : ∀ m ∈ items.zip kept, Reduces m.1 m.2) : Reduces (.array items) (.array kept)
  | object {members kept : Keyed Text Json} (names : kept.keys = members.keys.eraseDups)
    (values : ∀ name v w, Keyed.find? members.reverse name = some v → kept.find? name = some w →
      Reduces v w) : Reduces (.object members) (.object kept)

section Reduction

theorem eraseDups_keys_nodup (members : Keyed Text Json) : members.keys.eraseDups.Nodup :=
  keys_lastOfEach members ▸ nodup_keys_lastOfEach members

theorem exists_find?_reverse {members : Keyed Text Json} {name : Text}
    (h : name ∈ members.keys.eraseDups) : ∃ v, Keyed.find? members.reverse name = some v := by
  rw [← keys_lastOfEach] at h
  rw [← find?_lastOfEach, ← Option.ne_none_iff_exists']
  exact fun hnone => Keyed.find?_eq_none_iff.1 hnone h

theorem Reduces.eq_distinct {v w : Json} (h : v.Reduces w) : w = v.distinct := by
  induction h with
  | scalar s => rfl
  | @array items kept length _ ih =>
    rw [distinct, distinctItems_eq_map]
    refine congrArg Json.array (List.ext_getElem (by simpa using length.symm) fun i hi hi' => ?_)
    rw [List.getElem_map]
    have hzip : i < (items.zip kept).length := by simpa [length] using hi
    simpa [List.getElem_zip] using ih _ (List.getElem_mem hzip)
  | @object members kept names _ ih =>
    rw [distinct]
    have hnodup : kept.keys.Nodup := names ▸ eraseDups_keys_nodup members
    refine congrArg Json.object (Keyed.eq_of_find? hnodup ?_ fun name hname => ?_)
    · rw [keys_lastOfEach, keys_distinctMembers, names]
    · obtain ⟨v, hv⟩ := exists_find?_reverse (names ▸ hname)
      rw [find?_lastOfEach_distinct, hv]
      cases hw : kept.find? name with
      | none => exact absurd hname (Keyed.find?_eq_none_iff.1 hw)
      | some w => exact congrArg some (ih name v w hv hw)

mutual

theorem reduces_distinct : (v : Json) → v.Reduces v.distinct
  | .scalar s => .scalar s
  | .array items => by
    rw [distinct, distinctItems_eq_map]
    refine .array (List.length_map _).symm fun m hm => ?_
    obtain ⟨i, hi, rfl⟩ := List.getElem_of_mem hm
    rw [List.getElem_zip, List.getElem_map]
    exact reduces_distinctItems items _ (List.getElem_mem _)
  | .object members => by
    refine .object (by rw [keys_lastOfEach, keys_distinctMembers]) fun name v w hv hw => ?_
    rw [find?_lastOfEach_distinct, hv] at hw
    obtain rfl := Option.some.inj hw
    have hmem := List.mem_reverse.1 (Keyed.mem_of_find? hv)
    exact reduces_distinctMembers members (name, v) hmem

theorem reduces_distinctItems : (items : List Json) → ∀ item ∈ items, item.Reduces item.distinct
  | [] => by simp
  | item :: rest => List.forall_mem_cons.2 ⟨reduces_distinct item, reduces_distinctItems rest⟩

theorem reduces_distinctMembers :
    (members : List (Text × Json)) → ∀ m ∈ members, m.2.Reduces m.2.distinct
  | [] => by simp
  | (_, value) :: rest =>
    List.forall_mem_cons.2 ⟨reduces_distinct value, reduces_distinctMembers rest⟩

end

/-- A reader keeps of each name in an object what is to be kept of it. -/
theorem reduces_iff {v w : Json} : v.Reduces w ↔ w = v.distinct :=
  ⟨Reduces.eq_distinct, fun h => h ▸ reduces_distinct v⟩

end Reduction

/-- Two values are alike but for one that is discarded: behind it, a member has its name. -/
inductive Differs : Json → Json → Prop
  | discarded {before after : Keyed Text Json} {name : Text} (v w : Json)
    (later : name ∈ after.keys) :
    Differs (.object (before ++ (name, v) :: after)) (.object (before ++ (name, w) :: after))
  | item {before after : List Json} {v w : Json} (h : Differs v w) :
    Differs (.array (before ++ v :: after)) (.array (before ++ w :: after))
  | member {before after : Keyed Text Json} {name : Text} {v w : Json} (h : Differs v w) :
    Differs (.object (before ++ (name, v) :: after)) (.object (before ++ (name, w) :: after))

section Discarded

variable {before after : Keyed Text Json} {name : Text}

theorem find?_reverse_discarded (v w : Json) (later : name ∈ after.keys) (name' : Text) :
    Keyed.find? (before ++ (name, v) :: after).reverse name' =
      Keyed.find? (before ++ (name, w) :: after).reverse name' := by
  have hlater : name ∈ Keyed.keys after.reverse := by simpa [Keyed.keys] using later
  simp only [List.reverse_append, List.reverse_cons, List.append_assoc, List.singleton_append,
    Keyed.find?_append, Keyed.find?]
  by_cases h : name = name'
  · subst h
    cases hfind : Keyed.find? after.reverse name with
    | none => exact absurd hlater (Keyed.find?_eq_none_iff.1 hfind)
    | some x => rfl
  · rw [if_neg h, if_neg h]

/-- A value that is discarded does not matter for what is kept. -/
theorem Differs.distinct_eq {v w : Json} (h : v.Differs w) : v.distinct = w.distinct := by
  induction h with
  | @discarded before after name v w later =>
    rw [distinct, distinct]
    refine congrArg Json.object (Keyed.eq_of_find? (nodup_keys_lastOfEach _) ?_ fun name' _ => ?_)
    · rw [keys_lastOfEach, keys_lastOfEach, keys_distinctMembers, keys_distinctMembers]
      simp [Keyed.keys]
    · rw [find?_lastOfEach_distinct, find?_lastOfEach_distinct, find?_reverse_discarded v w later]
  | item _ ih => simp only [distinct, distinctItems_eq_map, List.map_append, List.map_cons, ih]
  | member _ ih => simp only [distinct, distinctMembers_eq_map, List.map_append, List.map_cons, ih]

end Discarded

end Json

end LiveTemplates
