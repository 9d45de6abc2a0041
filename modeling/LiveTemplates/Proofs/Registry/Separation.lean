import LiveTemplates.Proofs.Registry.Contents
import LiveTemplates.Proofs.Watch.Unnumbered

/-!
# Templates do not interfere

All templates share one registry, and each name that it accepts leads to a path of its own. A step
on one name leaves what is held at the paths of all others. So a template goes the same way in a
run from which the steps on other names are deleted, but for the numbers of its artifacts and of
its cache, which tell how many were made before.
-/

namespace LiveTemplates

variable {A F : Type}

def CacheEntry.unnumbered (entry : CacheEntry A) : CacheEntry A :=
  { entry with number := 0, cache := entry.cache.unnumbered }

theorem CacheEntry.unnumbered_inj {entry entry' : CacheEntry A} :
    entry.unnumbered = entry'.unnumbered ↔
      entry.file = entry'.file ∧ entry.cache.unnumbered = entry'.cache.unnumbered := by
  simp [unnumbered]

namespace Registry

def content (r : Registry A) (path : Path) : Option (CacheEntry A) :=
  (r.entries.find? path).map CacheEntry.unnumbered

structure AlikeAt (path : Path) (r r' : Registry A) : Prop where
  base : r'.base = r.base
  strategy : r'.strategy = r.strategy
  wellKept : r.WellKept
  wellKept' : r'.WellKept
  content : r'.content path = r.content path

variable {compile : Compiler A F} {files : FileSystem} {r r' : Registry A} {name : Text}
variable {path q : Path} {entry entry' : CacheEntry A}

theorem content_congr (h : r'.entries.find? path = r.entries.find? path) :
    r'.content path = r.content path := by
  rw [content, content, h]

/-- What is held under a name, but for numbers. -/
def contentOf (r : Registry A) (name : Text) : Option (CacheEntry A) :=
  match r.pathOf name with
  | .error _ => none
  | .ok path => r.content path

theorem filesAmong_of_base (h : r'.base = r.base) (files : FileSystem) (listed : List Text) :
    r'.filesAmong (F := F) files listed = r.filesAmong files listed := by
  induction listed with
  | nil => rfl
  | cons t rest ih => simp only [filesAmong, h, ih]

theorem names_of_base (h : r'.base = r.base) (files : FileSystem) :
    r'.names (F := F) files = r.names files := by
  simp only [names, h, filesAmong_of_base h]

theorem content_leaving {dropped : Option Path} {warnings : List Record} :
    (r.leaving dropped warnings).content path =
      if dropped = some path then none else r.content path := by
  rw [content, content, find?_leaving]
  split <;> rfl

theorem child_injective (p : Path) {s t : Text} (h : p.child s = p.child t) : s = t := by
  have hnames : p.names ++ [s] = p.names ++ [t] := congrArg Path.names h
  simpa using hnames

/-- Different names lead to different paths. -/
theorem pathOf_injective {name' : Text} (h : r.pathOf name = .ok path)
    (h' : r.pathOf name' = .ok path) : name = name' := by
  unfold pathOf at h h'
  split at h
  · cases h
    split at h'
    · exact (List.append_cancel_right (child_injective r.base (Except.ok.inj h'))).symm
    · cases h'
  · cases h

section Frame

/-- A load leaves what is held at other paths. -/
theorem find?_load (h : r.pathOf name ≠ .ok q) :
    (r.load compile files name).2.entries.find? q = r.entries.find? q := by
  cases hpath : r.pathOf name with
  | error e => simp only [load, hpath]
  | ok path =>
    have hne : path ≠ q := by
      rintro rfl
      exact h hpath
    rw [load_eq hpath, find?_leaving, if_neg, find?_afterLoad, if_neg hne]
    intro hforgotten
    exact hne (forgotten?_eq_some hforgotten).1

theorem find?_find (h : r.pathOf name ≠ .ok q) :
    (r.find (F := F) files name).2.entries.find? q = r.entries.find? q := by
  rcases find_snd (F := F) files r name with hsame | ⟨path, hpath, -, hmade⟩
  · rw [hsame]
  · rw [hmade, find?_cacheAt, if_neg]
    rintro rfl
    exact h hpath

theorem find?_cacheOf (h : r.pathOf name ≠ .ok q) :
    (r.cacheOf (F := F) name).2.entries.find? q = r.entries.find? q := by
  unfold cacheOf
  split
  · rfl
  · rename_i path hpath
    rw [find?_cacheAt, if_neg]
    rintro rfl
    exact h hpath

theorem WellKept.find?_staleness (wellKept : r.WellKept) (h : r.pathOf name ≠ .ok q) :
    (r.staleness (F := F) files name).2.entries.find? q = r.entries.find? q := by
  cases hpath : r.pathOf name with
  | error e => simp only [staleness, find, hpath]
  | ok path =>
    have hne : path ≠ q := by
      rintro rfl
      exact h hpath
    by_cases present : r.Holds path ∨ files.isFile path = .ok true
    · rw [staleness_of_present hpath present wellKept.entryAt_path, find?_settle, if_neg hne,
        find?_cacheAt, if_neg hne]
    · rw [staleness_of_absent hpath present]

end Frame

namespace AlikeAt

theorem entryAt (h : AlikeAt path r r') :
    (r'.entryAt path).unnumbered = (r.entryAt path).unnumbered := by
  have hcontent := h.content
  unfold Registry.content at hcontent
  cases hentry : r.entries.find? path with
  | none =>
    rw [hentry, Option.map_none, Option.map_eq_none_iff] at hcontent
    rw [entryAt_of_none hentry, entryAt_of_none hcontent, h.strategy]
    rfl
  | some entry =>
    rw [hentry, Option.map_some, Option.map_eq_some_iff] at hcontent
    obtain ⟨entry', hentry', hsame⟩ := hcontent
    rw [entryAt_of_find? hentry, entryAt_of_find? hentry', hsame]

theorem holds_iff (h : AlikeAt path r r') : r'.Holds path ↔ r.Holds path := by
  have hcontent := congrArg Option.isSome h.content
  simpa [Registry.content, Holds] using hcontent

theorem hasCompiled_iff (h : AlikeAt path r r') : r'.HasCompiled path ↔ r.HasCompiled path := by
  have hcache := (CacheEntry.unnumbered_inj.1 h.entryAt).2
  rw [← entryAt_held, ← entryAt_held, ← (r.entryAt path).cache.isSome_held_unnumbered, ← hcache,
    Cache.isSome_held_unnumbered]

theorem atWork (h : AlikeAt path r r') (files : FileSystem) :
    Watch.Alike (r.atWork (F := F) files (r.entryAt path))
      (r'.atWork files (r'.entryAt path)) := by
  obtain ⟨hfile, hcache⟩ := CacheEntry.unnumbered_inj.1 h.entryAt
  exact ⟨congrArg (WatchedFile.mk · files) hfile, hcache, rfl, rfl⟩

/-- What work on caches that are alike leaves is alike. -/
theorem content_settle (_ : AlikeAt path r r') {w w' : Watch WatchedFile A Int F}
    (hw : w.Alike w') :
    ((r'.cacheAt path).2.settle path (r'.entryAt path) w').content path =
      ((r.cacheAt path).2.settle path (r.entryAt path) w).content path := by
  rw [Registry.content, Registry.content, find?_settle, find?_settle, if_pos rfl, if_pos rfl,
    Option.map_some, Option.map_some, Option.some.injEq, CacheEntry.unnumbered_inj]
  exact ⟨congrArg WatchedFile.file hw.resource, hw.cache⟩

theorem content_cacheAt (h : AlikeAt path r r') :
    (r'.cacheAt path).2.content path = (r.cacheAt path).2.content path := by
  rw [Registry.content, Registry.content, find?_cacheAt, find?_cacheAt, if_pos rfl, if_pos rfl,
    Option.map_some, Option.map_some, h.entryAt]

theorem load (h : AlikeAt path r r') (compile : Compiler A F) (files : FileSystem)
    (hpath : r.pathOf name = .ok path) :
    (r.load compile files name).1.map Artifact.unnumbered =
        (r'.load compile files name).1.map Artifact.unnumbered ∧
      (r'.load compile files name).2.content path =
        (r.load compile files name).2.content path := by
  have hpath' : r'.pathOf name = .ok path := (pathOf_of_base h.base name).trans hpath
  have hserved : InStep Artifact.Alike Watch.Alike (r.served compile files path)
      (r'.served compile files path) := WatchedFile.request_alike (h.atWork files)
  have hsettled : (r'.afterLoad compile files path).content path =
      (r.afterLoad compile files path).content path := h.content_settle hserved.state
  have hforgotten : r'.forgotten? path (r'.served compile files path).1 =
      r.forgotten? path (r.served compile files path).1 := by
    generalize r.served compile files path = x at hserved
    generalize r'.served compile files path = y at hserved
    cases hserved with
    | ok _ _ => rfl
    | error _ => simp only [forgotten?, h.hasCompiled_iff]
  rw [load_eq hpath, load_eq hpath', content_leaving, content_leaving, hforgotten, hsettled]
  refine ⟨?_, rfl⟩
  generalize r.served compile files path = x at hserved
  generalize r'.served compile files path = y at hserved
  cases hserved with
  | ok hagree _ => exact congrArg Except.ok hagree.symm
  | error _ => rfl

theorem find (h : AlikeAt path r r') (files : FileSystem) (hpath : r.pathOf name = .ok path) :
    (r.find (F := F) files name).1.map (Option.map CacheEntry.unnumbered) =
        (r'.find files name).1.map (Option.map CacheEntry.unnumbered) ∧
      (r'.find (F := F) files name).2.content path =
        (r.find (F := F) files name).2.content path := by
  have hpath' : r'.pathOf name = .ok path := (pathOf_of_base h.base name).trans hpath
  by_cases present : r.Holds path ∨ files.isFile path = .ok true
  · have present' : r'.Holds path ∨ files.isFile path = .ok true :=
      present.imp_left h.holds_iff.2
    rw [find_of_present hpath present, find_of_present hpath' present']
    exact ⟨by simp only [Except.map, Option.map_some, h.entryAt], h.content_cacheAt⟩
  · have absent' : ¬ (r'.Holds path ∨ files.isFile path = .ok true) := by rwa [h.holds_iff]
    rw [find_eq_of_absent hpath present, find_eq_of_absent hpath' absent']
    exact ⟨rfl, h.content⟩

theorem cacheOf (h : AlikeAt path r r') (hpath : r.pathOf name = .ok path) :
    (r.cacheOf (F := F) name).1.map CacheEntry.unnumbered =
        (r'.cacheOf name).1.map CacheEntry.unnumbered ∧
      (r'.cacheOf (F := F) name).2.content path = (r.cacheOf (F := F) name).2.content path := by
  have hpath' : r'.pathOf name = .ok path := (pathOf_of_base h.base name).trans hpath
  simp only [Registry.cacheOf, hpath, hpath', Except.map, cacheAt_fst, h.entryAt,
    h.content_cacheAt, and_self]

theorem staleness (h : AlikeAt path r r') (files : FileSystem)
    (hpath : r.pathOf name = .ok path) :
    (r.staleness (F := F) files name).1 = (r'.staleness files name).1 ∧
      (r'.staleness (F := F) files name).2.content path =
        (r.staleness (F := F) files name).2.content path := by
  have hpath' : r'.pathOf name = .ok path := (pathOf_of_base h.base name).trans hpath
  by_cases present : r.Holds path ∨ files.isFile path = .ok true
  · have present' : r'.Holds path ∨ files.isFile path = .ok true :=
      present.imp_left h.holds_iff.2
    have hchecked : InStep Eq Watch.Alike (r.checked (F := F) files path)
        (r'.checked files path) := WatchedFile.isOutdated_alike (h.atWork files)
    rw [staleness_of_present hpath present h.wellKept.entryAt_path,
      staleness_of_present hpath' present' h.wellKept'.entryAt_path, hchecked.answer]
    exact ⟨rfl, h.content_settle hchecked.state⟩
  · have absent' : ¬ (r'.Holds path ∨ files.isFile path = .ok true) := by rwa [h.holds_iff]
    rw [staleness_eq_of_absent hpath present, staleness_eq_of_absent hpath' absent']
    exact ⟨rfl, h.content⟩

end AlikeAt

end Registry

namespace Site

variable {compile : Compiler A F} {site site' : Site A} {m : Text} {step : Step} {path : Path}

def Answer.unnumbered : Answer A → Answer A
  | .artifact a => .artifact a.unnumbered
  | .cache entry => .cache (entry.map CacheEntry.unnumbered)
  | answer => answer

def Step.concerns (m : Text) (step : Step) : Bool := step.requested?.all (· = m)

structure AlikeFor (m : Text) (site site' : Site A) : Prop where
  files : site'.files = site.files
  base : site'.registry.base = site.registry.base
  strategy : site'.registry.strategy = site.registry.strategy
  wellKept : site.registry.WellKept
  wellKept' : site'.registry.WellKept
  content : site'.registry.contentOf m = site.registry.contentOf m

theorem AlikeFor.at (h : AlikeFor m site site') (hpath : site.registry.pathOf m = .ok path) :
    site.registry.AlikeAt path site'.registry := by
  have hpath' : site'.registry.pathOf m = .ok path :=
    (Registry.pathOf_of_base h.base m).trans hpath
  have hcontent := h.content
  simp only [Registry.contentOf, hpath, hpath'] at hcontent
  exact ⟨h.base, h.strategy, h.wellKept, h.wellKept', hcontent⟩

theorem unnumbered_answer {α : Type} (answer : α → Answer A) {bare : α → α}
    (hbare : ∀ a, (answer a).unnumbered = answer (bare a))
    {x y : Except (RegistryFailure F) α} (h : x.map bare = y.map bare) :
    (x.map answer).map Answer.unnumbered = (y.map answer).map Answer.unnumbered := by
  cases x <;> cases y <;> simp_all [Except.map]

/-- A step on another name leaves what is held under a name. -/
theorem contentOf_run_of_other (h : site.registry.WellKept) (other : ¬ step.concerns m) :
    (site.run compile step).2.registry.contentOf m = site.registry.contentOf m := by
  have hbase := run_base compile step h
  rw [Registry.contentOf, Registry.contentOf, Registry.pathOf_of_base hbase]
  cases hpath : site.registry.pathOf m with
  | error e => rfl
  | ok path =>
    refine Registry.content_congr ?_
    have hother : ∀ name, step.requested? = some name → site.registry.pathOf name ≠ .ok path := by
      rintro name hname hsame
      obtain rfl := Registry.pathOf_injective hsame hpath
      simp [Step.concerns, hname] at other
    cases step with
    | load name => exact Registry.find?_load (hother name rfl)
    | find name => exact Registry.find?_find (hother name rfl)
    | cacheOf name => exact Registry.find?_cacheOf (hother name rfl)
    | staleness name => exact h.find?_staleness (hother name rfl)
    | pathOf name => rw [run_pathOf]
    | names => rfl
    | edit e => rfl

/-- A name that the registry rejects is rejected by every step. -/
theorem run_of_rejected {name : Text} {e : NoSuchTemplate} (hname : step.requested? = some name)
    (h : site.registry.pathOf name = .error e) :
    site.run compile step = (.error (.notFound e), site) := by
  cases step with
  | names => cases hname
  | edit => cases hname
  | load name =>
    cases hname
    simp only [run, answering, Registry.load, h, Except.map]
  | find name =>
    cases hname
    simp only [run, answering, Registry.find, h, Except.map]
  | cacheOf name =>
    cases hname
    simp only [run, answering, Registry.cacheOf, h, Except.map]
  | staleness name =>
    cases hname
    simp only [run, answering, Registry.staleness, Registry.find, h, Except.map]
  | pathOf name =>
    cases hname
    simp only [run, h]

variable (compile)

/-- A step on the name itself is answered alike and leaves the same held. -/
theorem AlikeFor.run_requested (h : AlikeFor m site site')
    (hpath : site.registry.pathOf m = .ok path) (hstep : step.requested? = some m) :
    (site.run compile step).1.map Answer.unnumbered =
        (site'.run compile step).1.map Answer.unnumbered ∧
      (site'.run compile step).2.registry.content path =
        (site.run compile step).2.registry.content path := by
  have hat := h.at hpath
  have hpath' := (Registry.pathOf_of_base h.base m).trans hpath
  obtain ⟨registry, files⟩ := site
  obtain ⟨registry', files'⟩ := site'
  obtain rfl : files' = files := h.files
  cases step with
  | names => cases hstep
  | edit => cases hstep
  | load name =>
    cases hstep
    obtain ⟨hanswer, hcontent⟩ := hat.load compile files' hpath
    exact ⟨unnumbered_answer .artifact (fun _ => rfl) hanswer, hcontent⟩
  | find name =>
    cases hstep
    obtain ⟨hanswer, hcontent⟩ := hat.find (F := F) files' hpath
    exact ⟨unnumbered_answer .cache (fun _ => rfl) hanswer, hcontent⟩
  | cacheOf name =>
    cases hstep
    obtain ⟨hanswer, hcontent⟩ := hat.cacheOf (F := F) hpath
    exact ⟨unnumbered_answer (.cache ∘ some) (fun _ => rfl) hanswer, hcontent⟩
  | staleness name =>
    cases hstep
    obtain ⟨hanswer, hcontent⟩ := hat.staleness (F := F) files' hpath
    refine ⟨?_, hcontent⟩
    simp only [run, answering, hanswer]
  | pathOf name =>
    cases hstep
    rw [run_pathOf, run_pathOf]
    refine ⟨?_, hat.content⟩
    simp only [run, hpath, hpath']

/-- So is a step on no name, and an edit. -/
theorem AlikeFor.run_unnamed (h : AlikeFor m site site') (hstep : step.requested? = none) :
    (site.run compile step).1 = (site'.run compile step).1 ∧
      (site'.run compile step).2.registry = site'.registry ∧
      (site.run compile step).2.registry = site.registry := by
  cases step with
  | names =>
    refine ⟨?_, rfl, rfl⟩
    simp only [run, answering, h.files, Registry.names_of_base h.base]
  | edit e => exact ⟨rfl, rfl, rfl⟩
  | load | find | cacheOf | staleness | pathOf => cases hstep

theorem AlikeFor.run_concerned (h : AlikeFor m site site') (concerned : step.concerns m) :
    (site.run compile step).1.map Answer.unnumbered =
        (site'.run compile step).1.map Answer.unnumbered ∧
      (site'.run compile step).2.registry.contentOf m =
        (site.run compile step).2.registry.contentOf m := by
  cases hstep : step.requested? with
  | none =>
    obtain ⟨hanswer, hsame', hsame⟩ := h.run_unnamed compile hstep
    rw [hanswer, hsame, hsame']
    exact ⟨rfl, h.content⟩
  | some name =>
    obtain rfl : name = m := by simpa [Step.concerns, hstep] using concerned
    cases hpath : site.registry.pathOf name with
    | error e =>
      have hpath' := (Registry.pathOf_of_base h.base name).trans hpath
      rw [run_of_rejected hstep hpath, run_of_rejected hstep hpath']
      exact ⟨rfl, h.content⟩
    | ok path =>
      obtain ⟨hanswer, hcontent⟩ := h.run_requested compile hpath hstep
      have hbase := run_base compile step h.wellKept
      have hbase' := (run_base compile step h.wellKept').trans h.base
      refine ⟨hanswer, ?_⟩
      simp only [Registry.contentOf, Registry.pathOf_of_base hbase, Registry.pathOf_of_base hbase',
        hpath, hcontent]

theorem run_files : (site.run compile step).2.files =
    match step with
    | .edit e => site.files.edit e
    | _ => site.files := by
  cases step with
  | pathOf name => rw [run_pathOf]
  | _ => rfl

theorem AlikeFor.run (h : AlikeFor m site site') (concerned : step.concerns m) :
    AlikeFor m (site.run compile step).2 (site'.run compile step).2 where
  files := by rw [run_files, run_files, h.files]
  base := by rw [run_base compile step h.wellKept, run_base compile step h.wellKept', h.base]
  strategy := by
    rw [run_strategy compile step h.wellKept, run_strategy compile step h.wellKept', h.strategy]
  wellKept := run_wellKept compile step h.wellKept
  wellKept' := run_wellKept compile step h.wellKept'
  content := (h.run_concerned compile concerned).2

theorem AlikeFor.run_other (h : AlikeFor m site site') (other : ¬ step.concerns m) :
    AlikeFor m (site.run compile step).2 site' where
  files := by
    rw [run_files, h.files]
    cases step with
    | edit e => simp [Step.concerns, Step.requested?] at other
    | _ => rfl
  base := h.base.trans (run_base compile step h.wellKept).symm
  strategy := h.strategy.trans (run_strategy compile step h.wellKept).symm
  wellKept := run_wellKept compile step h.wellKept
  wellKept' := h.wellKept'
  content := h.content.trans (contentOf_run_of_other h.wellKept other).symm

theorem AlikeFor.runAll (h : AlikeFor m site site') (steps : List Step) :
    AlikeFor m (site.runAll compile steps)
      (site'.runAll compile (steps.filter (Step.concerns m))) := by
  induction steps generalizing site site' with
  | nil => exact h
  | cons step rest ih =>
    by_cases concerned : step.concerns m
    · rw [List.filter_cons_of_pos concerned]
      exact ih (h.run compile concerned)
    · rw [List.filter_cons_of_neg concerned]
      exact ih (h.run_other compile concerned)

end Site

/-- After any run, with any edits and faults in it, and after the same run without the steps on
other names, every step on a name is answered alike, and the same cache is held under the name: for
the same file with the same mark, with the same value under the same marker and the same number of
compiles, or none at all. -/
theorem templates_do_not_interfere (compile : Compiler A F) (base : Path) (strategy : Strategy)
    (files : FileSystem) (m : Text) (steps : List Site.Step) :
    let start : Site A := ⟨{ base, strategy }, files⟩
    let site := start.runAll compile steps
    let alone := start.runAll compile (steps.filter (Site.Step.concerns m))
    (∀ step, step.concerns m → (site.run compile step).1.map Site.Answer.unnumbered =
      (alone.run compile step).1.map Site.Answer.unnumbered) ∧
    alone.registry.contentOf m = site.registry.contentOf m := by
  intro start site alone
  have hempty : start.registry.WellKept := .empty base strategy
  have hstart : Site.AlikeFor m start start := ⟨rfl, rfl, rfl, hempty, hempty, rfl⟩
  have halike : Site.AlikeFor m site alone := hstart.runAll compile steps
  exact ⟨fun step concerned => (halike.run_concerned compile concerned).1, halike.content⟩

/-- Two templates are written and loaded, and the first is looked at once more. -/
def mixed : List Site.Step :=
  [.edit (.write ⟨.relative, [Text.ofString "a.json"]⟩ [65] 5),
    .edit (.write ⟨.relative, [Text.ofString "b.json"]⟩ [66] 5), .load (Text.ofString "a"),
    .load (Text.ofString "b"), .staleness (Text.ofString "a")]

/-- The artifact of the second template is the second one made, or the first if it is alone. -/
theorem templates_do_not_interfere_mixed :
    let compile : Compiler Bytes Empty := .ok
    let b := Text.ofString "b"
    let path : Path := ⟨.relative, [Text.ofString "b.json"]⟩
    let start : Site Bytes := ⟨{ base := ⟨.relative, []⟩, strategy := .digest }, {}⟩
    let site := start.runAll compile mixed
    let alone := start.runAll compile (mixed.filter (Site.Step.concerns b))
    Site.Step.concerns b (.load b) ∧
      (site.registry.entryAt path).cache.artifact?.map (·.serial) = some 1 ∧
      (alone.registry.entryAt path).cache.artifact?.map (·.serial) = some 0 ∧
      (site.run compile (.load b)).1.map Site.Answer.unnumbered =
        (alone.run compile (.load b)).1.map Site.Answer.unnumbered ∧
      alone.registry.contentOf b = site.registry.contentOf b := by
  intro compile b path start site alone
  have concerned : Site.Step.concerns b (.load b) := by decide
  obtain ⟨hanswer, hcontent⟩ :=
    templates_do_not_interfere compile ⟨.relative, []⟩ .digest {} b mixed
  exact ⟨concerned, by decide +kernel, by decide +kernel, hanswer _ concerned, hcontent⟩

end LiveTemplates
