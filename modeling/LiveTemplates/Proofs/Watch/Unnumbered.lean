import LiveTemplates.Proofs.Watch.Lockstep
import LiveTemplates.Proofs.Watch.Straight

/-!
# Caches up to the numbers of their artifacts

The number of an artifact tells how many compiles of other caches came before it, and nothing that
a cache does depends on it.
-/

namespace LiveTemplates

variable {A F M : Type}

def Artifact.unnumbered (a : Artifact A) : Artifact A := { a with serial := 0 }

def Cache.unnumbered (c : Cache A M) : Cache A M :=
  { c with held := c.held.map fun s => { s with artifact := s.artifact.unnumbered } }

def Artifact.Alike (a a' : Artifact A) : Prop := a'.unnumbered = a.unnumbered

/-- Caches over the same file that have compiled the same at the same markers. -/
structure Watch.Alike (w w' : Watch WatchedFile A Int F) : Prop where
  resource : w'.resource = w.resource
  cache : w'.cache.unnumbered = w.cache.unnumbered
  free : w.reloading = false
  free' : w'.reloading = false

theorem Cache.compiles_unnumbered (c : Cache A M) : c.unnumbered.compiles = c.compiles := rfl

theorem Cache.isSome_held_unnumbered (c : Cache A M) :
    c.unnumbered.held.isSome = c.held.isSome := by
  rw [unnumbered, Option.isSome_map]

theorem Snapshot.freshAt_unnumbered [Marking M] (c : Cache A M) (live : M) :
    freshAt (F := F) c.unnumbered.held live =
      (freshAt c.held live).map (Option.map Artifact.unnumbered) := by
  cases hheld : c.held with
  | none => simp [Cache.unnumbered, freshAt, hheld, Except.map]
  | some s =>
    simp only [Cache.unnumbered, freshAt, hheld, Option.map_some]
    cases Marking.older? s.marker live with
    | none => rfl
    | some older => cases older <;> rfl

namespace WatchedFile

variable {compile : Compiler A F} {w w' : Watch WatchedFile A Int F} {live : Int}

theorem source_settled : source.Settled := by
  intro w
  simp only [source, marker]
  cases hmark : w.file.mark with
  | modified =>
    cases hmodified : w.files.modified w.file.path <;> simp [hmark, hmodified]
  | generation g =>
    cases hcontents : w.files.contents w.file.path <;> simp [hmark, hcontents]

theorem freshAt_alike (h : w.Alike w') (live : Int) :
    (Snapshot.freshAt (F := F) w'.cache.held live).map (Option.map Artifact.unnumbered) =
      (Snapshot.freshAt w.cache.held live).map (Option.map Artifact.unnumbered) := by
  rw [← Snapshot.freshAt_unnumbered, ← Snapshot.freshAt_unnumbered, h.cache]

theorem recompiling_alike (h : w.Alike w') :
    InStep Artifact.Alike Watch.Alike (source.recompiling compile live w)
      (source.recompiling compile live w') := by
  have hcompiles : w'.cache.compiles = w.cache.compiles := by
    rw [← Cache.compiles_unnumbered, h.cache, Cache.compiles_unnumbered]
  simp only [Source.recompiling, h.resource]
  cases (source.recompiled compile w.resource : Except (LoadFailure Int F) A) with
  | error e => exact .error h
  | ok value =>
    refine .ok rfl ⟨rfl, ?_, h.free, h.free'⟩
    simp only [Cache.unnumbered, hcompiles, Option.map_some, Artifact.unnumbered]

theorem straight_alike (h : w.Alike w') :
    InStep Artifact.Alike Watch.Alike (source.straight compile w)
      (source.straight compile w') := by
  simp only [Source.straight, h.resource]
  rcases source.marker w.resource with ⟨reason | live, r⟩
  · exact .error ⟨rfl, h.cache, h.free, h.free'⟩
  · have hmoved : Watch.Alike { w with resource := r } { w' with resource := r } :=
      ⟨rfl, h.cache, h.free, h.free'⟩
    have hfresh := freshAt_alike h live
    simp only [Watch.freshOr]
    cases hold : Snapshot.freshAt (F := F) w.cache.held live with
    | error e =>
      obtain ⟨s, -, hincomparable, -⟩ := Snapshot.freshAt_eq_error hold
      cases hincomparable
    | ok fresh =>
      cases hnew : Snapshot.freshAt (F := F) w'.cache.held live with
      | error e =>
        rw [hold, hnew] at hfresh
        cases hfresh
      | ok fresh' =>
        rw [hold, hnew] at hfresh
        cases fresh <;> cases fresh' <;>
          simp only [Except.map, Option.map_some, Option.map_none, reduceCtorEq, Except.ok.injEq,
            Option.some.injEq] at hfresh
        · exact recompiling_alike hmoved
        · exact .ok hfresh hmoved

theorem request_alike (h : w.Alike w') :
    InStep Artifact.Alike Watch.Alike (request compile w) (request compile w') := by
  obtain ⟨log, hserve⟩ := Source.serve_eq_straight compile source_settled h.free
  obtain ⟨log', hserve'⟩ := Source.serve_eq_straight compile source_settled h.free'
  rw [request, request, hserve, hserve']
  have hstraight : InStep Artifact.Alike Watch.Alike (source.straight compile w)
      (source.straight compile w') := straight_alike h
  generalize source.straight compile w = x at hstraight ⊢
  generalize source.straight compile w' = y at hstraight ⊢
  cases hstraight with
  | ok hagree hrelated =>
    exact .ok hagree ⟨hrelated.resource, hrelated.cache, hrelated.free, hrelated.free'⟩
  | error hrelated =>
    exact .error ⟨hrelated.resource, hrelated.cache, hrelated.free, hrelated.free'⟩

theorem isOutdated_alike (h : w.Alike w') :
    InStep Eq Watch.Alike (isOutdated source.access w) (isOutdated source.access w') := by
  rcases hmarker : source.marker w.resource with ⟨reason | live, r⟩
  · have hmarker' : source.marker w'.resource = (.error reason, r) := by rw [h.resource, hmarker]
    rw [Source.isOutdated_of_refusal hmarker, Source.isOutdated_of_refusal hmarker']
    exact .error ⟨rfl, h.cache, h.free, h.free'⟩
  · have hmarker' : source.marker w'.resource = (.ok live, r) := by rw [h.resource, hmarker]
    have hfresh := congrArg (Except.map Option.isNone) (freshAt_alike h live)
    rw [Source.isOutdated_of_marker hmarker, Source.isOutdated_of_marker hmarker']
    have hsame : (Snapshot.freshAt (F := F) w'.cache.held live).map Option.isNone =
        (Snapshot.freshAt w.cache.held live).map Option.isNone := by
      revert hfresh
      cases Snapshot.freshAt (F := F) w.cache.held live <;>
        cases Snapshot.freshAt (F := F) w'.cache.held live <;> simp [Except.map]
    rw [hsame]
    cases (Snapshot.freshAt (F := F) w.cache.held live).map Option.isNone with
    | error e => exact .error ⟨rfl, h.cache, h.free, h.free'⟩
    | ok stale => exact .ok rfl ⟨rfl, h.cache, h.free, h.free'⟩

end WatchedFile

end LiveTemplates
