import LiveTemplates.Proofs.Registry.Operations

/-!
# How registries grow

Apart from what a failed load forgets and from its warning, every step of a run only makes caches
and lets them work: what is held stays, under its number, and each cache that is added was
announced.
-/

namespace LiveTemplates

variable {A F : Type}

def Record.isWatching : Record → Bool
  | .watching _ _ => true
  | _ => false

def Record.isWarning : Record → Bool
  | .loadFailed _ _ => true
  | _ => false

namespace Registry

variable {files : FileSystem} {r r' r'' : Registry A} {path : Path} {entry : CacheEntry A}

/-- Every cache watches the file at its path as the registry says, no path and no number belongs to
two, and what caches hold they have compiled. -/
structure WellKept (r : Registry A) : Prop where
  keys : r.entries.keys.Nodup
  path : ∀ {path entry}, r.entries.find? path = some entry → entry.file.path = path
  watched : ∀ {path entry}, r.entries.find? path = some entry →
    entry.file.mark.strategy = r.strategy
  numbered : ∀ {path entry}, r.entries.find? path = some entry → entry.number < r.created
  distinct : ∀ {path path' entry entry'}, r.entries.find? path = some entry →
    r.entries.find? path' = some entry' → entry.number = entry'.number → path = path'
  counted : ∀ {path entry}, r.entries.find? path = some entry → entry.cache.Counted

theorem WellKept.entryAt_path (h : r.WellKept) : (r.entryAt path).file.path = path := by
  cases hentry : r.entries.find? path with
  | none =>
    rw [entryAt_of_none hentry]
    cases r.strategy <;> rfl
  | some entry =>
    rw [entryAt_of_find? hentry]
    exact h.path hentry

theorem WellKept.entryAt_strategy (h : r.WellKept) :
    (r.entryAt path).file.mark.strategy = r.strategy := by
  cases hentry : r.entries.find? path with
  | none =>
    rw [entryAt_of_none hentry]
    cases r.strategy <;> rfl
  | some entry =>
    rw [entryAt_of_find? hentry]
    exact h.watched hentry

theorem WellKept.empty (base : Path) (strategy : Strategy) :
    ({ base, strategy } : Registry A).WellKept where
  keys := List.nodup_nil
  path h := by cases h
  watched h := by cases h
  numbered h := by cases h
  distinct h := by cases h
  counted h := by cases h

theorem WellKept.leaving (h : r.WellKept) (dropped : Option Path) (warnings : List Record) :
    (r.leaving dropped warnings).WellKept := by
  have before {q : Path} {e : CacheEntry A}
      (hq : (r.leaving dropped warnings).entries.find? q = some e) :
      r.entries.find? q = some e := by
    rw [find?_leaving] at hq
    split at hq
    · cases hq
    · exact hq
  refine ⟨?_, fun hq => h.path (before hq), fun hq => h.watched (before hq),
    fun hq => h.numbered (before hq), fun hq hq' => h.distinct (before hq) (before hq'),
    fun hq => h.counted (before hq)⟩
  cases dropped with
  | none => exact h.keys
  | some path => exact Keyed.nodup_keys_drop h.keys path

def watchings (r : Registry A) : Nat := r.records.countP Record.isWatching

structure Grows (r r' : Registry A) : Prop where
  base : r'.base = r.base
  strategy : r'.strategy = r.strategy
  wellKept : r.WellKept → r'.WellKept
  kept : ∀ {path entry}, r.entries.find? path = some entry →
    ∃ entry', r'.entries.find? path = some entry' ∧ entry'.number = entry.number ∧
      (entry.cache.held.isSome → entry'.cache.held.isSome)
  announced : r'.watchings + r.size = r.watchings + r'.size
  unwarned : ∃ new, r'.records = r.records ++ new ∧ new.filter Record.isWarning = []

theorem Grows.refl (r : Registry A) : r.Grows r :=
  ⟨rfl, rfl, id, fun h => ⟨_, h, rfl, id⟩, rfl, [], by simp, rfl⟩

theorem Grows.trans (h : r.Grows r') (h' : r'.Grows r'') : r.Grows r'' where
  base := h'.base.trans h.base
  strategy := h'.strategy.trans h.strategy
  wellKept := h'.wellKept ∘ h.wellKept
  kept hentry := by
    obtain ⟨entry', hentry', hnumber, hheld⟩ := h.kept hentry
    obtain ⟨entry'', hentry'', hnumber', hheld'⟩ := h'.kept hentry'
    exact ⟨entry'', hentry'', hnumber'.trans hnumber, hheld' ∘ hheld⟩
  announced := by
    have := h.announced
    have := h'.announced
    omega
  unwarned := by
    obtain ⟨new, hnew, hquiet⟩ := h.unwarned
    obtain ⟨new', hnew', hquiet'⟩ := h'.unwarned
    exact ⟨new ++ new', by rw [hnew', hnew, List.append_assoc], by simp [hquiet, hquiet']⟩

theorem WellKept.cacheAt (h : r.WellKept) (path : Path) : (r.cacheAt path).2.WellKept := by
  cases hentry : r.entries.find? path with
  | some entry => rwa [cacheAt_of_find? hentry]
  | none =>
    have hnumber : (r.entryAt path).number = r.created := by rw [entryAt_of_none hentry]
    rw [cacheAt_of_none hentry]
    have found {q : Path} {e : CacheEntry A}
        (he : (r.entries.put path (r.entryAt path)).find? q = some e) :
        path = q ∧ e = r.entryAt path ∨ r.entries.find? q = some e := by
      rw [Keyed.find?_put] at he
      split at he
      · exact .inl ⟨‹_›, (Option.some.inj he).symm⟩
      · exact .inr he
    refine ⟨Keyed.nodup_keys_put h.keys _ _, ?_, ?_, ?_, ?_, ?_⟩
    · intro q e he
      rcases found he with ⟨rfl, rfl⟩ | he
      · exact h.entryAt_path
      · exact h.path he
    · intro q e he
      rcases found he with ⟨-, rfl⟩ | he
      · exact h.entryAt_strategy
      · exact h.watched he
    · intro q e he
      rcases found he with ⟨-, rfl⟩ | he
      · exact Nat.lt_succ_of_le hnumber.le
      · exact Nat.lt_succ_of_lt (h.numbered he)
    · -- The number of the new cache is not one of those given so far.
      intro q q' e e' he he' hsame
      rcases found he with ⟨rfl, rfl⟩ | he <;> rcases found he' with ⟨rfl, rfl⟩ | he'
      · rfl
      · have := h.numbered he'
        omega
      · have := h.numbered he
        omega
      · exact h.distinct he he' hsame
    · intro q e he
      rcases found he with ⟨-, rfl⟩ | he
      · simp [entryAt_of_none hentry, Cache.Counted]
      · exact h.counted he

theorem cacheAt_grows (r : Registry A) (path : Path) : r.Grows (r.cacheAt path).2 where
  base := cacheAt_base
  strategy := cacheAt_strategy
  wellKept h := h.cacheAt path
  kept {q entry} hq := by
    refine ⟨entry, ?_, rfl, id⟩
    rw [find?_cacheAt]
    split
    · rename_i heq
      rw [heq, entryAt_of_find? hq]
    · exact hq
  announced := by
    cases hentry : r.entries.find? path with
    | some entry => rw [cacheAt_of_find? hentry]
    | none =>
      rw [cacheAt_of_none hentry]
      simp [watchings, size, Keyed.length_put, hentry, Record.isWatching]
      omega
  unwarned := by
    cases hentry : r.entries.find? path with
    | some entry =>
      rw [cacheAt_of_find? hentry]
      exact ⟨[], by simp, rfl⟩
    | none =>
      rw [cacheAt_of_none hentry]
      exact ⟨_, rfl, rfl⟩

section Settling

variable {w : Watch WatchedFile A Int F}

theorem mem_calls {events : List (Event A Int F)} {record : Record} (h : record ∈ calls events) :
    record = .compilerCalled := by
  obtain ⟨e, -, he⟩ := List.mem_filterMap.1 h
  split at he
  · exact (Option.some.inj he).symm
  · cases he

theorem WellKept.settle (h : r.WellKept) (hentry : r.entries.find? path = some entry)
    (stays : (r.atWork (F := F) files entry).resource.Stays w.resource)
    (hcache : entry.cache.Advances w.cache) : (r.settle path entry w).WellKept := by
  -- What is found was found before, under the same number.
  have before {q : Path} {e' : CacheEntry A}
      (hq : (r.settle path entry w).entries.find? q = some e') :
      ∃ e, r.entries.find? q = some e ∧ e'.number = e.number ∧ e'.file.path = e.file.path ∧
        e'.file.mark.strategy = e.file.mark.strategy ∧ e.cache.Advances e'.cache := by
    rw [find?_settle] at hq
    split at hq
    · rename_i heq
      cases hq
      exact ⟨entry, heq ▸ hentry, rfl, stays.path, stays.strategy, hcache⟩
    · exact ⟨e', hq, rfl, rfl, rfl, .inl rfl⟩
  refine ⟨Keyed.nodup_keys_put h.keys _ _, ?_, ?_, ?_, ?_, ?_⟩
  · intro q e' hq
    obtain ⟨e, he, -, hfile, -⟩ := before hq
    exact hfile.trans (h.path he)
  · intro q e' hq
    obtain ⟨e, he, -, -, hstrategy, -⟩ := before hq
    exact hstrategy.trans (h.watched he)
  · intro q e' hq
    obtain ⟨e, he, hnumber, -⟩ := before hq
    exact hnumber ▸ h.numbered he
  · intro q q' e₁ e₂ hq hq' hsame
    obtain ⟨e, he, hnumber, -⟩ := before hq
    obtain ⟨e', he', hnumber', -⟩ := before hq'
    exact h.distinct he he' (by rw [← hnumber, ← hnumber', hsame])
  · intro q e' hq
    obtain ⟨e, he, -, -, -, hadvances⟩ := before hq
    exact hadvances.counted (h.counted he)

theorem settle_grows (hentry : r.entries.find? path = some entry)
    (stays : (r.atWork (F := F) files entry).resource.Stays w.resource)
    (hcache : entry.cache.Advances w.cache) : r.Grows (r.settle path entry w) where
  base := rfl
  strategy := rfl
  wellKept h := h.settle hentry stays hcache
  kept {q e} hq := by
    rw [find?_settle]
    split
    · rename_i heq
      rw [← heq, hentry] at hq
      cases hq
      exact ⟨_, rfl, rfl, hcache.held⟩
    · exact ⟨e, hq, rfl, id⟩
  announced := by
    have hcalls : (calls w.events).countP Record.isWatching = 0 := by
      refine List.countP_eq_zero.2 fun record h => ?_
      rw [mem_calls h]
      simp [Record.isWatching]
    simp [watchings, size, settle, Keyed.length_put, hentry, hcalls]
  unwarned := by
    refine ⟨_, rfl, List.filter_eq_nil_iff.2 fun record h => ?_⟩
    rw [mem_calls h]
    simp [Record.isWarning]

theorem cacheAt_settle_grows (r : Registry A) (path : Path)
    (stays : (r.atWork (F := F) files (r.entryAt path)).resource.Stays w.resource)
    (hcache : (r.entryAt path).cache.Advances w.cache) :
    r.Grows ((r.cacheAt path).2.settle path (r.entryAt path) w) :=
  (cacheAt_grows r path).trans
    (settle_grows (by rw [find?_cacheAt, if_pos rfl]) stays hcache)

theorem afterLoad_grows (compile : Compiler A F) (files : FileSystem) (r : Registry A)
    (path : Path) : r.Grows (r.afterLoad compile files path) :=
  cacheAt_settle_grows r path (WatchedFile.request_stays compile _)
    (WatchedFile.request_advances (w := r.atWork files (r.entryAt path)))

theorem find_grows (files : FileSystem) (r : Registry A) (name : Text) :
    r.Grows (r.find (F := F) files name).2 := by
  rcases find_snd (F := F) files r name with hsame | ⟨path, -, -, hmade⟩
  · rw [hsame]
    exact .refl r
  · rw [hmade]
    exact cacheAt_grows r path

theorem cacheOf_grows (r : Registry A) (name : Text) : r.Grows (r.cacheOf (F := F) name).2 := by
  unfold cacheOf
  split
  · exact .refl r
  · exact cacheAt_grows r _

theorem WellKept.staleness_grows (h : r.WellKept) (files : FileSystem) (name : Text) :
    r.Grows (r.staleness (F := F) files name).2 := by
  cases hpath : r.pathOf name with
  | error e =>
    simp only [staleness, find, hpath]
    exact .refl r
  | ok path =>
    by_cases present : r.Holds path ∨ files.isFile path = .ok true
    · rw [staleness_of_present hpath present h.entryAt_path]
      obtain ⟨log, hidle⟩ := WatchedFile.isOutdated_idle
        (r.atWork (F := F) files (r.entryAt path))
      exact cacheAt_settle_grows r path (.of_star hidle.resource) (.inl hidle.cache)
    · rw [staleness_of_absent hpath present]
      exact .refl r

end Settling

end Registry

end LiveTemplates
