import LiveTemplates.Proofs.Registry.Growth

/-!
# What a registry stands for

A cache that has just been made is like the one that would be made, so a registry stands for one
cache at every path, and making caches changes nothing. Work on a cache changes what stands at its
path; forgetting puts a fresh cache there.
-/

namespace LiveTemplates

namespace Registry

variable {A F : Type} {compile : Compiler A F} {files : FileSystem} {r r' : Registry A}
variable {name : Text} {path q : Path} {entry : CacheEntry A}

def tracked (r : Registry A) (path : Path) : TrackedFile × Cache A Int :=
  ((r.entryAt path).file, (r.entryAt path).cache)

theorem tracked_of_find? (h : r.entries.find? path = some entry) :
    r.tracked path = (entry.file, entry.cache) := by
  rw [tracked, entryAt_of_find? h]

theorem tracked_of_none (h : r.entries.find? path = none) :
    r.tracked path = (.watching path r.strategy, {}) := by
  rw [tracked, entryAt_of_none h]

theorem tracked_congr (hstrategy : r'.strategy = r.strategy)
    (hfind : r'.entries.find? path = r.entries.find? path) : r'.tracked path = r.tracked path := by
  cases h : r.entries.find? path with
  | some entry => rw [tracked_of_find? h, tracked_of_find? (hfind.trans h)]
  | none => rw [tracked_of_none h, tracked_of_none (hfind.trans h), hstrategy]

theorem tracked_cacheAt : (r.cacheAt path).2.tracked q = r.tracked q := by
  by_cases hq : path = q
  · subst hq
    have hmade : (r.cacheAt path).2.entries.find? path = some (r.entryAt path) := by
      rw [find?_cacheAt, if_pos rfl]
    rw [tracked_of_find? hmade, tracked]
  · exact tracked_congr cacheAt_strategy (by rw [find?_cacheAt, if_neg hq])

theorem tracked_settle {w : Watch WatchedFile A Int F} :
    ((r.cacheAt path).2.settle path entry w).tracked q =
      if path = q then (w.resource.file, w.cache) else r.tracked q := by
  split
  · rename_i hq
    subst hq
    have hfound : ((r.cacheAt path).2.settle path entry w).entries.find? path =
        some (entry.worked w) := by
      rw [find?_settle, if_pos rfl]
    rw [tracked_of_find? hfound]
    rfl
  · rename_i hq
    exact tracked_congr cacheAt_strategy
      (by rw [find?_settle, if_neg hq, find?_cacheAt, if_neg hq])

theorem tracked_leaving {dropped : Option Path} {warnings : List Record} :
    (r.leaving dropped warnings).tracked q =
      if dropped = some q then (.watching q r.strategy, {}) else r.tracked q := by
  split
  · rename_i hq
    exact tracked_of_none (by rw [find?_leaving, if_pos hq])
  · rename_i hq
    exact tracked_congr rfl (by rw [find?_leaving, if_neg hq])

end Registry

end LiveTemplates
