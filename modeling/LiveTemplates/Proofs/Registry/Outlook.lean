import LiveTemplates.Proofs.Files.Refusals
import LiveTemplates.Proofs.Registry.Matching
import LiveTemplates.Proofs.Registry.Separation
import LiveTemplates.Proofs.Registry.Standing

/-!
# What is to be expected of a template

The marker that a file answers now and what the cache at its path holds tell what the next load
will do. As long as the files stay as they are, this outlook is changed by loads of the template
alone: not by looking at it, and by nothing that is done to others.
-/

namespace LiveTemplates

variable {A F : Type}

def Cache.outdatedAt (c : Cache A Int) (live : Int) : Bool :=
  c.held.all fun s => s.marker < live

theorem Cache.freshAt_eq (c : Cache A Int) (live : Int) :
    Snapshot.freshAt (F := F) c.held live =
      .ok (if c.outdatedAt live then none else c.artifact?) := by
  cases hheld : c.held with
  | none => simp [Snapshot.freshAt, outdatedAt, hheld]
  | some s =>
    by_cases hold : s.marker < live <;> simp [Snapshot.freshAt, outdatedAt, artifact?, hheld, hold]

theorem Cache.freshAt_isNone (c : Cache A Int) (live : Int) :
    (Snapshot.freshAt (F := F) c.held live).map Option.isNone = .ok (c.outdatedAt live) := by
  rw [c.freshAt_eq]
  cases hheld : c.held with
  | none => simp [outdatedAt, hheld, Except.map]
  | some s =>
    by_cases hold : s.marker < live <;> simp [outdatedAt, artifact?, hheld, hold, Except.map]

theorem Cache.held_of_fresh {c : Cache A Int} {live : Int} (h : ¬ c.outdatedAt live) :
    ∃ s, c.held = some s ∧ ¬ s.marker < live := by
  cases hheld : c.held with
  | none => simp [outdatedAt, hheld] at h
  | some s =>
    refine ⟨s, rfl, ?_⟩
    simpa [outdatedAt, hheld] using h

theorem FileSystem.lookup_of_modified {files : FileSystem} {path : Path} {modified : Int}
    (h : files.modified path = .ok modified) : ∃ entry, files.lookup path = .ok entry := by
  unfold FileSystem.modified at h
  split at h
  · cases h
  · split at h
    · cases h
    · exact ⟨_, ‹_›⟩
    · exact ⟨_, ‹_›⟩

namespace WatchedFile

theorem request_unavailable {compile : Compiler A F} {w : Watch WatchedFile A Int F}
    (free : w.reloading = false) {e : Unavailable}
    (h : (request compile w).1 = .error (.unavailable e)) :
    ∃ refusal, e = ⟨w.resource.file.path.text, refusal.reason⟩ ∧
      w.resource.files.Refuses w.resource.file.path refusal := by
  obtain ⟨log, hserve⟩ := Source.serve_eq_straight compile source_settled free
  rw [request, hserve] at h
  obtain ⟨reason, rfl, hreason⟩ := Source.straight_unavailable h
  have hpath := source_marker_path w.resource
  have hfiles := source_marker_files w.resource
  have hidentity : source.identity (source.marker w.resource).2 = w.resource.file.path.text :=
    congrArg Path.text hpath
  rw [hidentity]
  rcases hreason with hmarker | hopen
  · obtain ⟨refusal, rfl, hrefuses⟩ := refuses_of_marker (Prod.ext hmarker rfl)
    exact ⟨refusal, rfl, hrefuses⟩
  · obtain ⟨refusal, rfl, hrefuses⟩ := refuses_of_openStream hopen
    rw [hfiles, hpath] at hrefuses
    exact ⟨refusal, rfl, hrefuses⟩

/-- Where a marker is answered, there is something at the path. -/
theorem lookup_of_marker {w w' : WatchedFile} {live : Int}
    (h : source.marker w = (.ok live, w')) : ∃ entry, w.files.lookup w.file.path = .ok entry := by
  simp only [source, marker] at h
  split at h
  · split at h
    · cases h
    · exact FileSystem.lookup_of_modified ‹_›
  · split at h
    · cases h
    · rename_i bytes hbytes
      obtain ⟨-, id, hlookup, -⟩ := FileSystem.contents_eq_ok.1 hbytes
      exact ⟨_, hlookup⟩

/-- Where a marker is answered, it is told whether there is a file. -/
theorem isFile_of_marker {w w' : WatchedFile} {live : Int}
    (h : source.marker w = (.ok live, w')) : ∃ isFile, w.files.isFile w.file.path = .ok isFile := by
  obtain ⟨entry, hlookup⟩ := lookup_of_marker h
  cases entry <;> simp [FileSystem.isFile, FileSystem.find?, hlookup]

end WatchedFile

namespace Registry

variable {compile : Compiler A F} {files : FileSystem} {r r' r'' : Registry A} {name : Text}
variable {path : Path} {live : Int} {reason : Text} {c : Cache A Int}

def look (files : FileSystem) (r : Registry A) (path : Path) : Except Text Int × WatchedFile :=
  WatchedFile.source.marker ⟨(r.entryAt path).file, files⟩

def outlook (files : FileSystem) (r : Registry A) (path : Path) : Except Text Int × Cache A Int :=
  ((r.look files path).1, (r.entryAt path).cache)

/-- The outlook of a path is the same, and it is held still, or has been found. -/
structure SameOutlook (files : FileSystem) (path : Path) (r r' : Registry A) : Prop where
  outlook : r'.outlook files path = r.outlook files path
  held : r.Holds path → r'.Holds path
  found : r'.Holds path → r.Holds path ∨ files.isFile path = .ok true

namespace SameOutlook

theorem refl (r : Registry A) : SameOutlook files path r r := ⟨rfl, id, .inl⟩

theorem trans (h : SameOutlook files path r r') (h' : SameOutlook files path r' r'') :
    SameOutlook files path r r'' where
  outlook := h'.outlook.trans h.outlook
  held := h'.held ∘ h.held
  found held := (h'.found held).elim h.found .inr

/-- A template that is held or has a file goes on being so. -/
theorem present_iff (h : SameOutlook files path r r') :
    (r'.Holds path ∨ files.isFile path = .ok true) ↔
      (r.Holds path ∨ files.isFile path = .ok true) :=
  ⟨fun present => present.elim h.found .inr, fun present => present.imp_left h.held⟩

theorem of_find? (hstrategy : r'.strategy = r.strategy)
    (h : r'.entries.find? path = r.entries.find? path) : SameOutlook files path r r' := by
  have htracked := tracked_congr hstrategy h
  rw [tracked, tracked, Prod.mk.injEq] at htracked
  have hholds : r'.Holds path ↔ r.Holds path := by rw [Holds, Holds, h]
  refine ⟨?_, hholds.2, fun held => .inl (hholds.1 held)⟩
  rw [Registry.outlook, Registry.outlook, look, look, htracked.1, htracked.2]

end SameOutlook

theorem load_strategy (files : FileSystem) (r : Registry A) (name : Text) :
    (r.load compile files name).2.strategy = r.strategy := by
  cases hpath : r.pathOf name with
  | error e => simp only [load, hpath]
  | ok path =>
    rw [load_eq hpath]
    exact cacheAt_strategy

theorem sameOutlook_load (h : r.pathOf name ≠ .ok path) :
    SameOutlook files path r (r.load compile files name).2 :=
  .of_find? (load_strategy files r name) (find?_load h)

/-- After work that has left a file as a look at it does, the same marker is answered. -/
theorem outlook_settle {entry : CacheEntry A} {w : Watch WatchedFile A Int F}
    (hw : w.resource = (r.look files path).2) :
    ((r.cacheAt path).2.settle path entry w).outlook files path =
      ((r.look files path).1, w.cache) := by
  have hfound : ((r.cacheAt path).2.settle path entry w).entries.find? path =
      some (entry.worked w) := by rw [find?_settle, if_pos rfl]
  have hresource : (⟨w.resource.file, files⟩ : WatchedFile) = (r.look files path).2 := by
    have hfiles : (r.look files path).2.files = files := WatchedFile.source_marker_files _
    rw [hw]
    exact congrArg (WatchedFile.mk (r.look files path).2.file) hfiles.symm
  have hsettled : WatchedFile.source.marker (r.look files path).2 = r.look files path :=
    WatchedFile.source_settled _
  rw [outlook, look, entryAt_of_find? hfound]
  show ((WatchedFile.source.marker ⟨w.resource.file, files⟩).1, w.cache) = _
  rw [hresource, hsettled]

/-- Looking at a template does not change its outlook. -/
theorem WellKept.sameOutlook_staleness (h : r.WellKept) (files : FileSystem) (path : Path)
    (name : Text) : SameOutlook files path r (r.staleness (F := F) files name).2 := by
  have hlooks := h.staleness_looks (F := F) files name
  cases hpath : r.pathOf name with
  | error e =>
    simp only [staleness, find, hpath]
    exact .refl r
  | ok p =>
    by_cases hne : p = path
    · subst hne
      by_cases present : r.Holds p ∨ files.isFile p = .ok true
      · obtain ⟨log, -, hchecked⟩ := checked_snd (F := F) files r p
        rw [staleness_of_present hpath present h.entryAt_path]
        refine ⟨?_, fun held => holds_settle.2 (.inr held), fun _ => present⟩
        dsimp only
        rw [outlook_settle (by rw [hchecked]; rfl), hchecked]
        rfl
      · rw [staleness_of_absent hpath present]
        exact .refl r
    · refine .of_find? hlooks.strategy (h.find?_staleness ?_)
      rw [hpath]
      exact fun heq => hne (Except.ok.inj heq)

section Loading

theorem outlook_eq {outcome : Except Text Int} (h : r.outlook files path = (outcome, c)) :
    r.look files path = (outcome, (r.look files path).2) ∧ (r.entryAt path).cache = c := by
  rw [outlook, Prod.mk.injEq] at h
  exact ⟨Prod.ext h.1 rfl, h.2⟩

/-- Where the path cannot be looked up, no marker is answered. -/
theorem WellKept.look_of_refused (h : r.WellKept) {refusal : Refusal}
    (refused : files.lookup path = .error refusal) :
    ∃ reason, (r.look files path).1 = .error reason := by
  cases hlook : (r.look files path).1 with
  | error reason => exact ⟨reason, rfl⟩
  | ok live =>
    obtain ⟨entry, hlookup⟩ := WatchedFile.lookup_of_marker (Prod.ext hlook rfl)
    rw [h.entryAt_path, refused] at hlookup
    cases hlookup

/-- Where no marker is answered, the next load is told that the file is unavailable. -/
theorem WellKept.served_of_refusal (h : r.WellKept)
    (hlook : (r.look files path).1 = .error reason) :
    (r.served compile files path).1 = .error (.unavailable ⟨path.text, reason⟩) := by
  have hmarker : r.look files path = (.error reason, (r.look files path).2) := Prod.ext hlook rfl
  have hpath : (r.look files path).2.file.path = path :=
    (WatchedFile.source_marker_path _).trans h.entryAt_path
  have hserve : (r.served compile files path).1 =
      .error (WatchedFile.source.unavailable (r.look files path).2 reason) :=
    congrArg Prod.fst (Source.serve_of_refusal hmarker)
  rw [hserve, Source.unavailable]
  simp only [WatchedFile.source, hpath]

/-- A load that is told that a file is unavailable is told so by a refusal at its path. -/
theorem WellKept.served_unavailable (h : r.WellKept) {e : Unavailable}
    (hserved : (r.served compile files path).1 = .error (.unavailable e)) :
    ∃ refusal, e = ⟨path.text, refusal.reason⟩ ∧ files.Refuses path refusal := by
  obtain ⟨refusal, he, hrefuses⟩ := WatchedFile.request_unavailable rfl hserved
  simp only [atWork, h.entryAt_path] at he hrefuses
  exact ⟨refusal, he, hrefuses⟩

variable (compile) in
/-- Where what is held is not outdated, the next load serves it, and does nothing else. -/
theorem served_of_fresh (houtlook : r.outlook files path = (.ok live, c))
    {s : Snapshot A Int} (hheld : c.held = some s) (fresh : ¬ c.outdatedAt live) :
    (r.served compile files path).1 = .ok s.artifact ∧
      .streamAsked ∉ (r.served compile files path).2.events ∧
      .compilerCalled ∉ (r.served compile files path).2.events ∧
      (r.served compile files path).2.resource = (r.look files path).2 ∧
      (r.served compile files path).2.cache = c := by
  obtain ⟨hmarker, hcache⟩ := outlook_eq houtlook
  have hfresh : Snapshot.freshAt (F := F) (r.entryAt path).cache.held live =
      .ok (some s.artifact) := by
    rw [Cache.freshAt_eq, hcache, if_neg fresh, Cache.artifact?, hheld, Option.map_some]
  have hserved : r.served compile files path = _ := Source.serve_of_fresh hmarker hfresh
  rw [hserved]
  exact ⟨rfl, by simp [atWork], by simp [atWork], rfl, hcache⟩

variable (compile) in
/-- Where what is held is outdated, the next load tries to open the file. It compiles what is
there, or it fails and leaves what is held. -/
theorem served_of_stale (houtlook : r.outlook files path = (.ok live, c))
    (stale : c.outdatedAt live) :
    .streamAsked ∈ (r.served compile files path).2.events ∧
      (r.served compile files path).2.resource = (r.look files path).2 ∧
      ((∃ a, (r.served compile files path).1 = .ok a ∧
          (r.served compile files path).2.cache = ⟨some ⟨a, live⟩, c.compiles + 1⟩) ∨
        ∃ e, (r.served compile files path).1 = .error e ∧
          (r.served compile files path).2.cache = c) := by
  obtain ⟨hmarker, hcache⟩ := outlook_eq houtlook
  have hstale : Snapshot.freshAt (F := F) (r.entryAt path).cache.held live = .ok none := by
    rw [Cache.freshAt_eq, hcache, if_pos stale]
  have hfirst : WatchedFile.source.marker (r.atWork (F := F) files (r.entryAt path)).resource =
      (.ok live, (r.look files path).2) := hmarker
  obtain ⟨log, hasked, hserve⟩ :=
    Source.serve_of_stale compile WatchedFile.source_settled rfl hfirst hstale
  have hserved : r.served compile files path = _ := hserve
  rw [hserved]
  simp only [Source.recompiling]
  cases (WatchedFile.source.recompiled compile (r.look files path).2 :
      Except (LoadFailure Int F) A) with
  | error e => exact ⟨by simp [hasked], rfl, .inr ⟨e, rfl, hcache⟩⟩
  | ok value =>
    refine ⟨by simp [hasked], rfl, .inl ⟨_, rfl, ?_⟩⟩
    simp only [atWork, hcache]

variable (compile) in
/-- What is neither held nor a file is unavailable to the next load. -/
theorem served_of_absent (h : r.WellKept)
    (absent : ¬ (r.Holds path ∨ files.isFile path = .ok true)) :
    ∃ e, (r.served compile files path).1 = .error (.unavailable e) := by
  obtain ⟨unheld, hfile⟩ := not_or.1 absent
  have hentry : r.entries.find? path = none := by simpa [Holds] using unheld
  have hcache : (r.entryAt path).cache.held = none := by rw [entryAt_of_none hentry]
  have hserved : (∃ e, (r.served compile files path).1 = .error (.unavailable e)) ∨
      files.isFile (r.entryAt path).file.path = .ok true :=
    WatchedFile.unavailable_or_isFile (w := r.atWork files (r.entryAt path)) hcache rfl
  rw [h.entryAt_path] at hserved
  exact hserved.resolve_right hfile

/-- After a load that has left the file as a look at it does, and succeeded, the cache is held and
the same marker is answered. -/
theorem load_of_ok {a : Artifact A} (hpath : r.pathOf name = .ok path)
    (hserved : (r.served compile files path).1 = .ok a)
    (hresource : (r.served compile files path).2.resource = (r.look files path).2) :
    (r.load compile files name).2.Holds path ∧ (r.load compile files name).2.outlook files path =
      ((r.look files path).1, (r.served compile files path).2.cache) := by
  rw [load_eq hpath, hserved]
  have hsame : SameOutlook files path (r.afterLoad compile files path)
      ((r.afterLoad compile files path).leaving none (warnings (F := F) name (.ok a))) :=
    .of_find? rfl rfl
  exact ⟨hsame.held (holds_settle.2 (.inl rfl)), hsame.outlook.trans (outlook_settle hresource)⟩

/-- A load that fails leaves the cache as it is, held or not. -/
theorem WellKept.cache_load_of_error (h : r.WellKept) {e : LoadFailure Int F}
    (hpath : r.pathOf name = .ok path) (hserved : (r.served compile files path).1 = .error e) :
    ((r.load compile files name).2.entryAt path).cache = (r.entryAt path).cache := by
  have hcache : (r.served compile files path).2.cache = (r.entryAt path).cache :=
    WatchedFile.request_cache_of_error hserved
  rw [load_eq hpath]
  show (((r.afterLoad compile files path).leaving _ _).tracked path).2 = _
  rw [tracked_leaving]
  split
  · rename_i hforgotten
    obtain ⟨-, uncompiled, -⟩ := forgotten?_eq_some hforgotten
    exact (h.entryAt_counted.eq_empty (mt entryAt_held.1 uncompiled)).symm
  · rw [afterLoad, tracked_settle, if_pos rfl]
    exact hcache

end Loading

end Registry

end LiveTemplates
