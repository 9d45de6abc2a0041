import LiveTemplates.Proofs.Registry.Tracked
import LiveTemplates.Proofs.Watch.Lockstep

/-!
# Registries that match

A registry that forgets is matched by one that holds more caches, none of which has compiled. What
both have compiled is the same, under markers that differ by an offset for each path, which the
first compile there settles. Every operation gives the same answer in both and keeps them matching.
-/

namespace LiveTemplates

variable {A F : Type}

inductive Alongside (t t' : TrackedFile × Cache A Int) : Option Int → Prop
  | unused : t.2 = {} → t'.2 = {} → Alongside t t' none
  | compiled {d : Int} : t.1.mark.Offset d t'.1.mark → t'.2 = t.2.offset d → t.2.held.isSome →
    Alongside t t' (some d)

namespace Registry

def loadKeeping (compile : Compiler A F) (files : FileSystem) (r : Registry A) (name : Text) :
    Except (RegistryFailure F) (Artifact A) × Registry A :=
  match r.pathOf name with
  | .error e => (.error (.notFound e), r)
  | .ok path =>
    let (outcome, r) := r.loadAt compile files name path
    (outcome.mapError .load, r)

variable {compile : Compiler A F} {files : FileSystem} {r r' : Registry A} {name : Text}
variable {path : Path} {offsets : Path → Option Int}

theorem loadKeeping_eq (h : r.pathOf name = .ok path) : r.loadKeeping compile files name =
    ((r.served compile files path).1.mapError .load, (r.afterLoad compile files path).leaving none
      (warnings name (r.served compile files path).1)) := by
  simp only [loadKeeping, h, loadAt_eq]

structure Matching (offsets : Path → Option Int) (r r' : Registry A) : Prop where
  base : r'.base = r.base
  strategy : r'.strategy = r.strategy
  compiled : r'.compiled = r.compiled
  wellKept : r.WellKept
  wellKept' : r'.WellKept
  holds : ∀ {path}, r.Holds path → r'.Holds path
  alongside : ∀ path, Alongside (r.tracked path) (r'.tracked path) (offsets path)

theorem Matching.atWork_unused (h : Matching offsets r r') (files : FileSystem)
    (hunused : (r.tracked path).2 = {})
    (hunused' : (r'.tracked path).2 = {}) :
    Watch.Unused (r.atWork (F := F) files (r.entryAt path))
      (r'.atWork files (r'.entryAt path)) := by
  refine ⟨⟨rfl, ?_, ?_⟩, hunused, hunused', rfl, h.compiled⟩
  · exact h.wellKept'.entryAt_path.trans h.wellKept.entryAt_path.symm
  · exact h.wellKept'.entryAt_strategy.trans (h.strategy.trans h.wellKept.entryAt_strategy.symm)

theorem Matching.atWork_offset (h : Matching offsets r r') (files : FileSystem) {d : Int}
    (hmark : (r.tracked path).1.mark.Offset d (r'.tracked path).1.mark)
    (hcache : (r'.tracked path).2 = (r.tracked path).2.offset d) :
    Watch.Offset d (r.atWork (F := F) files (r.entryAt path))
      (r'.atWork files (r'.entryAt path)) := by
  refine ⟨⟨rfl, ?_, hmark⟩, hcache, rfl, h.compiled⟩
  exact h.wellKept'.entryAt_path.trans h.wellKept.entryAt_path.symm

theorem WellKept.entryAt_counted (h : r.WellKept) : (r.entryAt path).cache.Counted := by
  cases hentry : r.entries.find? path with
  | some entry => rw [entryAt_of_find? hentry]; exact h.counted hentry
  | none => simp [entryAt_of_none hentry, Cache.Counted]

/-- An unbiased step of the caches at a path answers alike in both registries, and leaves the caches
alongside each other. An offset that is settled stays. -/
theorem Matching.work {α : Type} {step : Watch WatchedFile A Int F →
      Except (LoadFailure Int F) α × Watch WatchedFile A Int F}
    (h : Matching offsets r r') (unbiased : Unbiased step) (files : FileSystem) (path : Path) :
    let x := step (r.atWork files (r.entryAt path))
    let y := step (r'.atWork files (r'.entryAt path))
    x.1 = y.1 ∧ y.2.compiled = x.2.compiled ∧
      ∃ offset, (∀ d, offsets path = some d → offset = some d) ∧
        Alongside (x.2.resource.file, x.2.cache) (y.2.resource.file, y.2.cache) offset := by
  intro x y
  have hend : (offsets path = none ∧ InStep Eq Watch.Unused x y) ∨
      ∃ d, (∀ d', offsets path = some d' → d = d') ∧ InStep Eq (Watch.Offset d) x y := by
    have halongside := h.alongside path
    generalize offsets path = offset at halongside ⊢
    cases halongside with
    | unused hunused hunused' =>
      rcases unbiased.unused (h.atWork_unused files hunused hunused') with hx | ⟨d, hx⟩
      · exact .inl ⟨rfl, hx⟩
      · exact .inr ⟨d, nofun, hx⟩
    | compiled hmark hcache _ =>
      exact .inr ⟨_, fun _ => Option.some.inj, unbiased.offset (h.atWork_offset files hmark hcache)⟩
  have hadvances := unbiased.advances (r.atWork files (r.entryAt path))
  rcases hend with ⟨hnone, hx⟩ | ⟨d, hd, hx⟩
  · exact ⟨hx.answer, hx.state.compiled, none, by simp [hnone],
      .unused hx.state.cache hx.state.cache'⟩
  · by_cases held : x.2.cache.held.isSome
    · refine ⟨hx.answer, hx.state.compiled, some d, fun d' hd' => ?_,
        .compiled hx.state.resource.mark hx.state.cache held⟩
      rw [hd d' hd']
    · have hcache : x.2.cache = {} := (hadvances.counted h.wellKept.entryAt_counted).eq_empty held
      refine ⟨hx.answer, hx.state.compiled, none, fun d' hd' => ?_, .unused hcache ?_⟩
      · -- What has compiled before has not come to nothing.
        have halongside := h.alongside path
        rw [hd'] at halongside
        cases halongside with
        | compiled _ _ hheld => exact (held (hadvances.held hheld)).elim
      · rw [hx.state.cache, hcache]
        rfl

def settled (offsets : Path → Option Int) (path : Path) (offset : Option Int) : Path → Option Int :=
  fun q => if path = q then offset else offsets q

theorem settled_self : settled offsets path (offsets path) = offsets := by
  funext q
  unfold settled
  split
  · rename_i hq
    rw [hq]
  · rfl

theorem settled_keeps {offset : Option Int} (h : ∀ d, offsets path = some d → offset = some d)
    {q : Path} {d : Int} (hq : offsets q = some d) : settled offsets path offset q = some d := by
  unfold settled
  split
  · rename_i heq
    subst heq
    exact h d hq
  · exact hq

theorem Matching.settle (h : Matching offsets r r') {w w' : Watch WatchedFile A Int F}
    {offset : Option Int} (hgrows : r.Grows ((r.cacheAt path).2.settle path (r.entryAt path) w))
    (hgrows' : r'.Grows ((r'.cacheAt path).2.settle path (r'.entryAt path) w'))
    (hcompiled : w'.compiled = w.compiled)
    (halongside : Alongside (w.resource.file, w.cache) (w'.resource.file, w'.cache) offset) :
    Matching (settled offsets path offset) ((r.cacheAt path).2.settle path (r.entryAt path) w)
      ((r'.cacheAt path).2.settle path (r'.entryAt path) w') where
  base := hgrows'.base.trans (h.base.trans hgrows.base.symm)
  strategy := hgrows'.strategy.trans (h.strategy.trans hgrows.strategy.symm)
  compiled := hcompiled
  wellKept := hgrows.wellKept h.wellKept
  wellKept' := hgrows'.wellKept h.wellKept'
  holds hq := holds_settle.2 ((holds_settle.1 hq).imp_right h.holds)
  alongside q := by
    rw [tracked_settle, tracked_settle, settled]
    split
    · exact halongside
    · exact h.alongside q

/-- Only the first registry forgets, and nothing that has compiled. -/
theorem Matching.leaving (h : Matching offsets r r') {dropped : Option Path}
    (unheld : ∀ q, dropped = some q → (r.tracked q).2.held = none) (ws ws' : List Record) :
    Matching offsets (r.leaving dropped ws) (r'.leaving none ws') where
  base := h.base
  strategy := h.strategy
  compiled := h.compiled
  wellKept := h.wellKept.leaving dropped ws
  wellKept' := h.wellKept'.leaving none ws'
  holds {q} hq := by
    rw [Holds, find?_leaving] at hq
    split at hq
    · cases hq
    · exact h.holds hq
  alongside q := by
    have halongside := h.alongside q
    rw [tracked_leaving, tracked_leaving, if_neg (by simp : ¬ none = some q)]
    split
    · rename_i hq
      generalize offsets q = offset at halongside ⊢
      cases halongside with
      | unused _ hunused' => exact .unused rfl hunused'
      | compiled _ _ held =>
        rw [unheld q hq] at held
        cases held
    · exact halongside

theorem Matching.load (h : Matching offsets r r') (compile : Compiler A F) (files : FileSystem)
    (hpath : r.pathOf name = .ok path) :
    (r.load compile files name).1 = (r'.loadKeeping compile files name).1 ∧
      ∃ offset, (∀ d, offsets path = some d → offset = some d) ∧
        Matching (settled offsets path offset) (r.load compile files name).2
          (r'.loadKeeping compile files name).2 := by
  obtain ⟨hanswer, hcompiled, offset, hkept, halongside⟩ :=
    h.work (WatchedFile.request_unbiased compile) files path
  have hpath' : r'.pathOf name = .ok path := (pathOf_of_base h.base name).trans hpath
  have hserved : (r.served compile files path).1 = (r'.served compile files path).1 := hanswer
  have hloaded : Matching (settled offsets path offset) (r.afterLoad compile files path)
      (r'.afterLoad compile files path) :=
    h.settle (afterLoad_grows compile files r path) (afterLoad_grows compile files r' path)
      hcompiled halongside
  rw [load_eq hpath, loadKeeping_eq hpath', ← hserved]
  refine ⟨rfl, offset, hkept, hloaded.leaving (fun q hq => ?_) _ _⟩
  obtain ⟨rfl, hcompiled, e, he⟩ := forgotten?_eq_some hq
  rwa [← hasCompiled_afterLoad_of_error he, ← entryAt_held, Option.not_isSome_iff_eq_none]
    at hcompiled

/-- Only the second registry checks a cache: one that the first does not hold. -/
theorem Matching.checks (h : Matching offsets r r') (unheld : ¬ r.Holds path)
    (hgrows : r'.Grows ((r'.cacheAt path).2.settle path (r'.entryAt path)
      (r'.checked (F := F) files path).2)) :
    Matching offsets r ((r'.cacheAt path).2.settle path (r'.entryAt path)
      (r'.checked (F := F) files path).2) := by
  obtain ⟨log, hidle⟩ := WatchedFile.isOutdated_idle
    (r'.atWork (F := F) files (r'.entryAt path))
  refine ⟨hgrows.base.trans h.base, hgrows.strategy.trans h.strategy,
    hidle.compiled.trans h.compiled, h.wellKept, hgrows.wellKept h.wellKept',
    fun hq => holds_settle.2 (.inr (h.holds hq)), fun q => ?_⟩
  have halongside := h.alongside q
  rw [tracked_settle]
  split
  · rename_i hq
    subst hq
    have hfresh := tracked_of_none (Option.not_isSome_iff_eq_none.1 unheld)
    generalize offsets path = offset at halongside ⊢
    cases halongside with
    | unused hunused hunused' => exact .unused hunused (hidle.cache.trans hunused')
    | compiled _ _ held =>
      rw [hfresh] at held
      cases held
  · exact halongside

theorem Matching.staleness (h : Matching offsets r r') (files : FileSystem)
    (hpath : r.pathOf name = .ok path) :
    ((r.staleness (F := F) files name).2.Holds path →
      (r.staleness (F := F) files name).1 = (r'.staleness files name).1) ∧
      ∃ offset, (∀ d, offsets path = some d → offset = some d) ∧
        Matching (settled offsets path offset) (r.staleness (F := F) files name).2
          (r'.staleness (F := F) files name).2 := by
  have hpath' : r'.pathOf name = .ok path := (pathOf_of_base h.base name).trans hpath
  by_cases present : r.Holds path ∨ files.isFile path = .ok true
  · obtain ⟨hanswer, hcompiled, offset, hkept, halongside⟩ :=
      h.work (F := F) WatchedFile.isOutdated_unbiased files path
    have present' : r'.Holds path ∨ files.isFile path = .ok true := present.imp_left h.holds
    have hgrows := h.wellKept.staleness_grows (F := F) files name
    have hgrows' := h.wellKept'.staleness_grows (F := F) files name
    have hchecked : (r.checked (F := F) files path).1 = (r'.checked files path).1 := hanswer
    rw [staleness_of_present hpath present h.wellKept.entryAt_path] at hgrows ⊢
    rw [staleness_of_present hpath' present' h.wellKept'.entryAt_path] at hgrows' ⊢
    exact ⟨fun _ => by rw [hchecked], offset, hkept,
      h.settle hgrows hgrows' hcompiled halongside⟩
  · have unheld : ¬ r.Holds path := fun held => present (.inl held)
    rw [staleness_of_absent hpath present]
    refine ⟨fun held => (unheld held).elim, offsets path, fun _ => id, ?_⟩
    rw [settled_self]
    by_cases present' : r'.Holds path ∨ files.isFile path = .ok true
    · have hgrows' := h.wellKept'.staleness_grows (F := F) files name
      rw [staleness_of_present hpath' present' h.wellKept'.entryAt_path] at hgrows' ⊢
      exact h.checks unheld hgrows'
    · rw [staleness_of_absent hpath' present']
      exact h

theorem Matching.cacheAt_right (h : Matching offsets r r') (path : Path) :
    Matching offsets r (r'.cacheAt path).2 where
  base := cacheAt_base.trans h.base
  strategy := cacheAt_strategy.trans h.strategy
  compiled := cacheAt_compiled.trans h.compiled
  wellKept := h.wellKept
  wellKept' := h.wellKept'.cacheAt path
  holds hq := holds_cacheAt.2 (.inr (h.holds hq))
  alongside q := by
    rw [tracked_cacheAt]
    exact h.alongside q

theorem Matching.cacheAt_left (h : Matching offsets r r') (held : r'.Holds path) :
    Matching offsets (r.cacheAt path).2 r' where
  base := h.base.trans cacheAt_base.symm
  strategy := h.strategy.trans cacheAt_strategy.symm
  compiled := h.compiled.trans cacheAt_compiled.symm
  wellKept := h.wellKept.cacheAt path
  wellKept' := h.wellKept'
  holds hq := by
    rcases holds_cacheAt.1 hq with rfl | hq
    · exact held
    · exact h.holds hq
  alongside q := by
    rw [tracked_cacheAt]
    exact h.alongside q

theorem Matching.cacheAt (h : Matching offsets r r') (path : Path) :
    Matching offsets (r.cacheAt path).2 (r'.cacheAt path).2 :=
  (h.cacheAt_right path).cacheAt_left (holds_cacheAt.2 (.inl rfl))

theorem Matching.find (h : Matching offsets r r') (files : FileSystem) (name : Text) :
    Matching offsets (r.find (F := F) files name).2 (r'.find (F := F) files name).2 := by
  cases hpath : r.pathOf name with
  | error e =>
    have hpath' : r'.pathOf name = .error e := (pathOf_of_base h.base name).trans hpath
    simp only [Registry.find, hpath, hpath']
    exact h
  | ok path =>
    have hpath' : r'.pathOf name = .ok path := (pathOf_of_base h.base name).trans hpath
    by_cases present : r.Holds path ∨ files.isFile path = .ok true
    · rw [find_of_present hpath present, find_of_present hpath' (present.imp_left h.holds)]
      exact h.cacheAt path
    · obtain ⟨outcome, hfind, -⟩ := find_of_absent (F := F) hpath present
      rw [hfind]
      rcases find_snd (F := F) files r' name with hsame | ⟨path', -, -, hmade⟩
      · rwa [hsame]
      · rw [hmade]
        exact h.cacheAt_right path'

theorem Matching.cacheOf (h : Matching offsets r r') (name : Text) :
    Matching offsets (r.cacheOf (F := F) name).2 (r'.cacheOf (F := F) name).2 := by
  unfold Registry.cacheOf
  rw [pathOf_of_base h.base name]
  split
  · exact h
  · exact h.cacheAt _

/-- Two registries have compiled the same at a path, under markers that differ by an offset. -/
def CompiledAlike (d : Int) (r r' : Registry A) (path : Path) : Prop :=
  ∃ entry entry' held held', r.entries.find? path = some entry ∧
    r'.entries.find? path = some entry' ∧ entry.cache.held = some held ∧
    entry'.cache.held = some held' ∧ held'.artifact = held.artifact ∧
    held'.marker = held.marker + d ∧ entry'.cache.compiles = entry.cache.compiles

def marker? (r : Registry A) (path : Path) : Option Int :=
  (r.entries.find? path).bind (·.cache.marker?)

theorem CompiledAlike.marker_offset {d m m' : Int} (h : CompiledAlike d r r' path)
    (hm : r.marker? path = some m) (hm' : r'.marker? path = some m') : m' = m + d := by
  obtain ⟨entry, entry', held, held', hentry, hentry', hheld, hheld', -, hoffset, -⟩ := h
  simp only [marker?, hentry, Option.bind_some, Cache.marker?, hheld, Option.map_some,
    Option.some.injEq] at hm
  simp only [marker?, hentry', Option.bind_some, Cache.marker?, hheld', Option.map_some,
    Option.some.injEq] at hm'
  rw [← hm, ← hm', hoffset]

theorem Matching.compiledAlike {d : Int} (h : Matching offsets r r') (hd : offsets path = some d) :
    CompiledAlike d r r' path := by
  have halongside := h.alongside path
  rw [hd] at halongside
  cases halongside with
  | compiled _ hcache held =>
    obtain ⟨entry, hentry, -⟩ := hasCompiled_iff.1 (entryAt_held.1 held)
    obtain ⟨entry', hentry'⟩ := holds_iff.1 (h.holds (holds_iff.2 ⟨entry, hentry⟩))
    rw [tracked_of_find? hentry] at hcache held
    rw [tracked_of_find? hentry'] at hcache
    obtain ⟨snapshot, hsnapshot⟩ := Option.isSome_iff_exists.1 held
    dsimp only at hcache hsnapshot
    have hsnapshot' : entry'.cache.held = some ⟨snapshot.artifact, snapshot.marker + d⟩ := by
      rw [hcache, Cache.offset, hsnapshot, Option.map_some]
    exact ⟨entry, entry', snapshot, _, hentry, hentry', hsnapshot, hsnapshot', rfl, rfl,
      by rw [hcache, Cache.offset]⟩

theorem Matching.offset_of_compiled (h : Matching offsets r r')
    (hcompiled : r.HasCompiled path ∨ r'.HasCompiled path) :
    ∃ d, offsets path = some d ∧ (r.strategy = .modified → d = 0) := by
  rw [← entryAt_held, ← entryAt_held] at hcompiled
  have halongside := h.alongside path
  generalize offsets path = offset at halongside ⊢
  cases halongside with
  | unused hunused hunused' =>
    have hnone : (r.entryAt path).cache = {} := hunused
    have hnone' : (r'.entryAt path).cache = {} := hunused'
    simp [hnone, hnone'] at hcompiled
  | compiled hmark _ _ =>
    refine ⟨_, rfl, fun hstrategy => ?_⟩
    have hkind : (r.tracked path).1.mark.strategy = .modified :=
      h.wellKept.entryAt_strategy.trans hstrategy
    exact hmark.eq_zero hkind

end Registry

end LiveTemplates
