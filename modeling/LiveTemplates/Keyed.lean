/-!
# Keyed lists

A list of keys with values, read as a finite map in the order of insertion: putting a value
under a key that is there already changes the value and keeps the place.
-/

namespace LiveTemplates

abbrev Keyed (K V : Type) := List (K × V)

namespace Keyed

variable {K V : Type} [DecidableEq K]

def keys (m : Keyed K V) : List K := m.map Prod.fst

def find? (m : Keyed K V) (k : K) : Option V :=
  match m with
  | [] => none
  | (k', v) :: rest => if k' = k then some v else find? rest k

def put (m : Keyed K V) (k : K) (v : V) : Keyed K V :=
  match m with
  | [] => [(k, v)]
  | (k', v') :: rest => if k' = k then (k, v) :: rest else (k', v') :: put rest k v

def drop (m : Keyed K V) (k : K) : Keyed K V := m.filter fun e => e.1 ≠ k

@[simp] theorem find?_put (m : Keyed K V) (k k' : K) (v : V) :
    (m.put k v).find? k' = if k = k' then some v else m.find? k' := by
  induction m with
  | nil => simp [put, find?]
  | cons e rest ih =>
    obtain ⟨k₀, v₀⟩ := e
    by_cases h : k₀ = k
    · subst h
      by_cases h' : k₀ = k' <;> simp [put, find?, h']
    · by_cases h' : k₀ = k'
      · subst h'
        simp [put, find?, h, Ne.symm h]
      · simp [put, find?, h, h', ih]

@[simp] theorem find?_drop (m : Keyed K V) (k k' : K) :
    (m.drop k).find? k' = if k = k' then none else m.find? k' := by
  induction m with
  | nil => simp [drop, find?]
  | cons e rest ih =>
    obtain ⟨k₀, v₀⟩ := e
    have ih : find? (List.filter (fun e => decide (e.1 ≠ k)) rest) k' =
        if k = k' then none else find? rest k' := ih
    by_cases h : k₀ = k
    · subst h
      by_cases h' : k₀ = k' <;> simp_all [drop, find?]
    · by_cases h' : k₀ = k'
      · subst h'
        simp [drop, find?, h, Ne.symm h]
      · simp_all [drop, find?]

theorem mem_of_find? {m : Keyed K V} {k : K} {v : V} (h : m.find? k = some v) : (k, v) ∈ m := by
  induction m with
  | nil => cases h
  | cons e rest ih =>
    obtain ⟨k₀, v₀⟩ := e
    by_cases hk : k₀ = k
    · subst hk
      rw [find?, if_pos rfl] at h
      cases h
      exact List.mem_cons_self
    · rw [find?, if_neg hk] at h
      exact List.mem_cons_of_mem _ (ih h)

theorem find?_eq_none_iff {m : Keyed K V} {k : K} : m.find? k = none ↔ k ∉ m.keys := by
  induction m with
  | nil => simp [find?, keys]
  | cons e rest ih =>
    obtain ⟨k₀, v₀⟩ := e
    simp only [keys] at ih
    by_cases hk : k₀ = k
    · simp [find?, keys, hk]
    · simp [find?, keys, hk, Ne.symm hk, ih]

/-- Where no key repeats, what is found is what the map holds. -/
theorem find?_eq_some_iff {m : Keyed K V} (h : m.keys.Nodup) {k : K} {v : V} :
    m.find? k = some v ↔ (k, v) ∈ m := by
  refine ⟨mem_of_find?, fun hmem => ?_⟩
  induction m with
  | nil => cases hmem
  | cons e rest ih =>
    obtain ⟨k₀, v₀⟩ := e
    obtain ⟨hnew, hrest⟩ : k₀ ∉ keys rest ∧ (keys rest).Nodup := List.nodup_cons.1 h
    rcases List.mem_cons.1 hmem with heq | hmem
    · cases heq
      rw [find?, if_pos rfl]
    · have hk : k₀ ≠ k := by
        rintro rfl
        exact hnew (List.mem_map_of_mem hmem)
      rw [find?, if_neg hk, ih hrest hmem]

theorem find?_append (m m' : Keyed K V) (k : K) :
    find? (m ++ m') k = (m.find? k).or (find? m' k) := by
  induction m with
  | nil => simp [find?]
  | cons e rest ih =>
    obtain ⟨k₀, v₀⟩ := e
    by_cases hk : k₀ = k <;> simp [find?, hk, ih]

theorem find?_filter (m : Keyed K V) (p : K → Bool) (k : K) :
    find? (m.filter fun e => p e.1) k = if p k then m.find? k else none := by
  induction m with
  | nil => simp [find?]
  | cons e rest ih =>
    obtain ⟨k₀, v₀⟩ := e
    by_cases hk : k₀ = k
    · subst hk
      cases hp : p k₀ <;> simp [find?, hp, ih]
    · cases hp : p k₀ <;> simp [find?, hp, hk, ih]

theorem mem_keys_put (m : Keyed K V) (k k' : K) (v : V) :
    k' ∈ (m.put k v).keys ↔ k' = k ∨ k' ∈ m.keys := by
  induction m with
  | nil => simp [put, keys]
  | cons e rest ih =>
    obtain ⟨k₀, v₀⟩ := e
    by_cases h : k₀ = k
    · subst h
      simp [put, keys]
    · simp only [keys] at ih
      simp only [put, h, if_false, keys, List.map_cons, List.mem_cons, ih]
      exact or_left_comm

theorem nodup_keys_put {m : Keyed K V} (h : m.keys.Nodup) (k : K) (v : V) :
    (m.put k v).keys.Nodup := by
  induction m with
  | nil => simp [put, keys]
  | cons e rest ih =>
    obtain ⟨k₀, v₀⟩ := e
    have hcons : k₀ ∉ keys rest ∧ (keys rest).Nodup := List.nodup_cons.1 h
    by_cases hk : k₀ = k
    · subst hk
      simpa [put, keys] using hcons
    · rw [put, if_neg hk]
      refine List.nodup_cons.2 ⟨?_, ih hcons.2⟩
      intro hmem
      rcases (mem_keys_put rest k k₀ v).1 hmem with h' | h'
      · exact hk h'
      · exact hcons.1 h'

theorem length_put (m : Keyed K V) (k : K) (v : V) :
    (m.put k v).length = if (m.find? k).isSome then m.length else m.length + 1 := by
  induction m with
  | nil => rfl
  | cons e rest ih =>
    obtain ⟨k₀, v₀⟩ := e
    by_cases h : k₀ = k
    · simp [put, find?, h]
    · simp only [put, find?, h, if_false, List.length_cons, ih]
      split <;> rfl

theorem nodup_keys_drop {m : Keyed K V} (h : m.keys.Nodup) (k : K) : (m.drop k).keys.Nodup :=
  h.sublist (List.filter_sublist.map Prod.fst)

theorem drop_eq_self {m : Keyed K V} {k : K} (h : k ∉ m.keys) : m.drop k = m := by
  refine List.filter_eq_self.2 ?_
  intro e he
  have hne : e.1 ≠ k := by
    rintro rfl
    exact h (List.mem_map_of_mem he)
  simpa using hne

theorem length_drop {m : Keyed K V} (h : m.keys.Nodup) {k : K} (hk : (m.find? k).isSome) :
    m.length = (m.drop k).length + 1 := by
  induction m with
  | nil => cases hk
  | cons e rest ih =>
    obtain ⟨k₀, v₀⟩ := e
    obtain ⟨hnew, hrest⟩ : k₀ ∉ keys rest ∧ (keys rest).Nodup := List.nodup_cons.1 h
    by_cases h₀ : k₀ = k
    · subst h₀
      have hdrop : drop ((k₀, v₀) :: rest) k₀ = drop rest k₀ := by simp [drop]
      rw [hdrop, drop_eq_self hnew, List.length_cons]
    · rw [find?, if_neg h₀] at hk
      have hdrop : drop ((k₀, v₀) :: rest) k = (k₀, v₀) :: drop rest k := by simp [drop, h₀]
      rw [hdrop, List.length_cons, List.length_cons, ih hrest hk]

end Keyed

end LiveTemplates
