import LiveTemplates.Proofs.Registry.Faithful
import LiveTemplates.Proofs.Service.Requests
import LiveTemplates.Service.Standard

/-!
# Requests that only observe

Requests for the list of templates and for the status of one are no part of what a service does for
its templates. They may make caches and look at files, but they compile nothing and change nothing
that a cache holds, and a run without them gets the same answers to all of its other steps.
-/

namespace LiveTemplates

namespace FileSystem

def history (files : FileSystem) : List Edit → List FileSystem
  | [] => [files]
  | e :: rest => files :: history (files.edit e) rest

theorem mem_history (files : FileSystem) (edits : List Edit) : files ∈ files.history edits := by
  cases edits <;> simp [history]

def contentsAt (history : List FileSystem) (path : Path) : List Bytes :=
  history.filterMap fun files => (files.contents path).toOption

/-- In none of the file systems a file is kept from being opened, and no two contents of a path have
the same digest. -/
structure Digestible (history : List FileSystem) : Prop where
  openable : ∀ files ∈ history, ∀ path, files.allowed path .openStream = .ok ()
  collisionless : ∀ path, Generation.Collisionless (contentsAt history path)

theorem Digestible.within {history : List FileSystem} (h : Digestible history)
    {files : FileSystem} (hfiles : files ∈ history) : files.Within (contentsAt history) where
  openable := h.openable files hfiles
  occurs path bytes hbytes := by
    rw [contentsAt, List.mem_filterMap]
    exact ⟨files, hfiles, by rw [hbytes]; rfl⟩

def allContents (history : List FileSystem) : List Bytes :=
  [] :: history.flatMap fun files => files.stored.map fun e => e.2.contents

theorem mem_allContents {history : List FileSystem} {files : FileSystem} (hfiles : files ∈ history)
    {path : Path} {bytes : Bytes} (h : files.contents path = .ok bytes) :
    bytes ∈ allContents history := by
  obtain ⟨-, id, -, rfl⟩ := contents_eq_ok.1 h
  rw [storedAt]
  cases hstored : files.stored.find? id with
  | none => exact List.mem_cons_self
  | some stored =>
    refine List.mem_cons_of_mem _ (List.mem_flatMap.2 ⟨files, hfiles, ?_⟩)
    exact List.mem_map_of_mem (Keyed.mem_of_find? hstored)

/-- Without any faults it is enough that all contents have different digests. -/
theorem Digestible.of_stored {history : List FileSystem}
    (unfaulted : ∀ files ∈ history, files.faults = [])
    (collisionless : Generation.Collisionless (allContents history)) : Digestible history where
  openable files hfiles path := by
    rw [allowed, unfaulted files hfiles]
    rfl
  collisionless path := by
    have hmem : ∀ bytes ∈ contentsAt history path, bytes ∈ allContents history := by
      intro bytes hbytes
      obtain ⟨files, hfiles, hcontents⟩ := List.mem_filterMap.1 hbytes
      cases hread : files.contents path with
      | error refusal => simp [hread, Except.toOption] at hcontents
      | ok bytes' =>
        obtain rfl : bytes' = bytes := by simpa [hread, Except.toOption] using hcontents
        exact mem_allContents hfiles hread
    intro a ha b hb
    exact collisionless a (hmem a ha) b (hmem b hb)

end FileSystem

namespace Service

def Step.observes (host : Host) (step : Step) : Bool :=
  match step.route? host with
  | some .list | some (.status _) => true
  | _ => false

/-- The answers to the steps of a run, but for those that only observe. -/
def answers (host : Host) (site : Site Root) :
    List Step → List (Except (ServiceFailure Excess) (Option Response))
  | [] => []
  | step :: rest =>
    if step.observes host then answers host (run host site step).2 rest
    else (run host site step).1 :: answers host (run host site step).2 rest

def edits (steps : List Step) : List FileSystem.Edit :=
  steps.filterMap fun
    | .edit e => some e
    | .request _ _ => none

variable {host : Host} {site site' : Site Root} {step : Step} {steps steps' : List Step}

/-- A step that only observes checks a template for staleness at most. -/
theorem run_observing (h : site.registry.WellKept) (observes : step.observes host) :
    (run host site step).2.files = site.files ∧ ((run host site step).2.registry = site.registry ∨
      ∃ name, (run host site step).2.registry =
        (site.registry.staleness (F := Excess) site.files name).2) := by
  unfold Step.observes at observes
  split at observes
  · rename_i hroute
    rw [run_list hroute]
    exact ⟨rfl, .inl rfl⟩
  · rename_i name hroute
    rw [run_status hroute, showStatus_snd h]
    exact ⟨rfl, .inr ⟨name, rfl⟩⟩
  · cases observes

/-- A step that does not only observe is an edit, is answered without the registry, or loads a
template. -/
theorem cases_of_not_observes (h : ¬ step.observes host) :
    (∃ e, step = .edit e) ∨ (∃ outcome, ∀ site, run host site step = (outcome, site)) ∨
      ∃ name, step.route? host = some (.template name) := by
  cases step with
  | edit e => exact .inl ⟨e, rfl⟩
  | request method path =>
    cases hroute : Step.route? host (.request method path) with
    | none => exact .inr (.inl (run_unrouted hroute))
    | some route =>
      cases route with
      | template name => exact .inr (.inr ⟨name, rfl⟩)
      | list => simp [Step.observes, hroute] at h
      | status name => simp [Step.observes, hroute] at h

section Runs

/-- Two sites get the same answers in a run, if observing steps of the first keep them related, and
all others are answered alike and keep them related as well. -/
theorem answers_filter (related : List Step → Site Root → Site Root → Prop)
    (hobserve : ∀ {step rest site site'}, related (step :: rest) site site' → step.observes host →
      related rest (run host site step).2 site')
    (hstep : ∀ {step rest site site'}, related (step :: rest) site site' → ¬ step.observes host →
      (run host site step).1 = (run host site' step).1 ∧
        related rest (run host site step).2 (run host site' step).2)
    (h : related steps site site') :
    answers host site steps =
      answers host site' (steps.filter fun step => !step.observes host) := by
  induction steps generalizing site site' with
  | nil => rfl
  | cons step rest ih =>
    by_cases observes : step.observes host
    · rw [answers, if_pos observes, List.filter_cons_of_neg (by simp [observes])]
      exact ih (hobserve h observes)
    · obtain ⟨hanswer, hrelated⟩ := hstep h observes
      rw [answers, if_neg observes, List.filter_cons_of_pos (by simp [observes]), answers,
        if_neg observes, hanswer, ih hrelated]

structure AlikeTimed (site site' : Site Root) : Prop where
  files : site'.files = site.files
  wellKept : site.registry.WellKept
  modified : site.registry.strategy = .modified
  standing : Registry.SameStanding site.registry site'.registry

theorem AlikeTimed.observe (h : AlikeTimed site site') (observes : step.observes host) :
    AlikeTimed (run host site step).2 site' := by
  obtain ⟨hfiles, hregistry⟩ := run_observing h.wellKept observes
  refine ⟨h.files.trans hfiles.symm, run_wellKept h.wellKept step,
    (run_strategy h.wellKept step).trans h.modified, ?_⟩
  rcases hregistry with hsame | ⟨name, hsame⟩
  · rw [hsame]
    exact h.standing
  · rw [hsame]
    exact h.standing.left (h.wellKept.staleness_standing h.modified site.files name)

theorem AlikeTimed.answer (h : AlikeTimed site site') (loads : ¬ step.observes host) :
    (run host site step).1 = (run host site' step).1 ∧
      AlikeTimed (run host site step).2 (run host site' step).2 := by
  rcases cases_of_not_observes loads with ⟨e, rfl⟩ | ⟨outcome, hrun⟩ | ⟨name, hroute⟩
  · exact ⟨rfl, congrArg (FileSystem.edit e) h.files, h.wellKept, h.modified, h.standing⟩
  · rw [hrun, hrun]
    exact ⟨rfl, h⟩
  · obtain ⟨hanswer, hstanding⟩ := h.standing.load (Root.compiler host.room) site.files name
    have hwellKept : (run host site step).2.registry.WellKept := run_wellKept h.wellKept step
    have hstrategy : (run host site step).2.registry.strategy = _ :=
      run_strategy h.wellKept step
    rw [run_template hroute] at hwellKept hstrategy
    rw [run_template hroute, run_template hroute, h.files, hanswer]
    exact ⟨rfl, rfl, hwellKept, hstrategy.trans h.modified, hstanding⟩

/-- What holds of all file systems in the rest of a run holds of those after its first step. -/
theorem history_after {P : FileSystem → Prop} {rest : List Step}
    (h : ∀ files ∈ site.files.history (edits (step :: rest)), P files) :
    ∀ files ∈ (run host site step).2.files.history (edits rest), P files := by
  cases step with
  | request method path => exact h
  | edit e => exact fun files hfiles => h files (List.mem_cons_of_mem _ hfiles)

structure Digested (host : Host) (occurring : Path → List Bytes) (steps : List Step)
    (site : Site Root) : Prop where
  wellKept : site.registry.WellKept
  digest : site.registry.strategy = .digest
  faithful : site.registry.Faithful (Root.compiler host.room) occurring
  within : ∀ files ∈ site.files.history (edits steps), files.Within occurring

section Digests

variable {occurring : Path → List Bytes} {rest : List Step}

theorem Digested.now (h : Digested host occurring steps site) : site.files.Within occurring :=
  h.within site.files (site.files.mem_history _)

theorem Digested.run (h : Digested host occurring (step :: rest) site) :
    Digested host occurring rest (run host site step).2 := by
  refine ⟨run_wellKept h.wellKept step, (run_strategy h.wellKept step).trans h.digest, ?_,
    history_after h.within⟩
  by_cases observes : step.observes host
  · rcases (run_observing h.wellKept observes).2 with hsame | ⟨name, hsame⟩
    · rw [hsame]
      exact h.faithful
    · rw [hsame]
      exact h.faithful.staleness h.wellKept site.files name
  · rcases cases_of_not_observes observes with ⟨e, rfl⟩ | ⟨outcome, hrun⟩ | ⟨name, hroute⟩
    · exact h.faithful
    · rw [hrun]
      exact h.faithful
    · rw [run_template hroute]
      exact h.faithful.load h.wellKept h.digest h.now name

structure AlikeDigested (host : Host) (occurring : Path → List Bytes)
    (steps : List Step) (site site' : Site Root) : Prop where
  files : site'.files = site.files
  base : site'.registry.base = site.registry.base
  left : Digested host occurring steps site
  right : Digested host occurring steps site'

theorem AlikeDigested.observe (h : AlikeDigested host occurring (step :: rest) site site')
    (observes : step.observes host) :
    AlikeDigested host occurring rest (Service.run host site step).2 site' := by
  have hfiles := (run_observing h.left.wellKept observes).1
  have hwithin := h.left.run.within
  rw [hfiles, ← h.files] at hwithin
  exact ⟨h.files.trans hfiles.symm, h.base.trans (run_base h.left.wellKept step).symm, h.left.run,
    ⟨h.right.wellKept, h.right.digest, h.right.faithful, hwithin⟩⟩

theorem AlikeDigested.answer (collisionless : ∀ path, Generation.Collisionless (occurring path))
    (h : AlikeDigested host occurring (step :: rest) site site') (loads : ¬ step.observes host) :
    (Service.run host site step).1 = (Service.run host site' step).1 ∧
      AlikeDigested host occurring rest (Service.run host site step).2
        (Service.run host site' step).2 := by
  have hbase : (Service.run host site' step).2.registry.base =
      (Service.run host site step).2.registry.base := by
    rw [run_base h.right.wellKept, run_base h.left.wellKept, h.base]
  rcases cases_of_not_observes loads with ⟨e, rfl⟩ | ⟨outcome, hrun⟩ | ⟨name, hroute⟩
  · exact ⟨rfl, congrArg (FileSystem.edit e) h.files, hbase, h.left.run, h.right.run⟩
  · refine ⟨by rw [hrun, hrun], ?_, hbase, h.left.run, h.right.run⟩
    rw [hrun, hrun, h.files]
  · refine ⟨?_, ?_, hbase, h.left.run, h.right.run⟩
    · -- Both answers tell what the compiler makes of the present contents.
      have hvalue := h.left.faithful.load_value h.left.wellKept h.left.digest h.left.now
        collisionless name
      have hvalue' := h.right.faithful.load_value h.right.wellKept h.right.digest h.right.now
        collisionless name
      rw [run_template hroute, run_template hroute, hvalue, hvalue',
        Registry.pathOf_of_base h.base name, h.files]
    · rw [run_template hroute, run_template hroute, h.files]

end Digests

theorem answers_filter_of_modified (settings : Settings) (modified : settings.strategy = .modified)
    (files : FileSystem) (steps : List Step) :
    answers host ⟨start host settings, files⟩ steps =
      answers host ⟨start host settings, files⟩
        (steps.filter fun step => !step.observes host) := by
  have hstart : AlikeTimed ⟨start host settings, files⟩ ⟨start host settings, files⟩ :=
    ⟨rfl, start_wellKept host settings, modified, .refl _⟩
  exact answers_filter (fun _ => AlikeTimed) (fun h => h.observe) (fun h => h.answer) hstart

theorem answers_filter_of_digest (settings : Settings) (digest : settings.strategy = .digest)
    (files : FileSystem) (steps : List Step)
    (digestible : FileSystem.Digestible (files.history (edits steps))) :
    answers host ⟨start host settings, files⟩ steps =
      answers host ⟨start host settings, files⟩
        (steps.filter fun step => !step.observes host) := by
  let occurring := FileSystem.contentsAt (files.history (edits steps))
  have hdigested : Digested host occurring steps ⟨start host settings, files⟩ :=
    ⟨start_wellKept host settings, digest, .empty _ _, fun _ hfiles => digestible.within hfiles⟩
  exact answers_filter (AlikeDigested host occurring) (fun h => h.observe)
    (fun h => h.answer digestible.collisionless) ⟨rfl, rfl, hdigested, hdigested⟩

theorem edits_filter (host : Host) (steps : List Step) :
    edits (steps.filter fun step => !step.observes host) = edits steps := by
  induction steps with
  | nil => rfl
  | cons step rest ih =>
    cases step with
    | edit e =>
      rw [List.filter_cons_of_pos rfl]
      exact congrArg (e :: ·) ih
    | request method path =>
      by_cases observes : (Step.request method path).observes host
      · rw [List.filter_cons_of_neg (by simp [observes])]
        exact ih
      · rw [List.filter_cons_of_pos (by simp [observes])]
        exact ih

end Runs

/-- Requests for the list of templates and for a status change the answer to no other request, in
any run from the start of a service: under modification times with any faults, and under digests if
no file that can be read is kept from being opened and no two contents of a file have one digest.
None of them compiles anything or changes what a cache holds. -/
theorem observers_change_no_answer (host : Host) (settings : Settings) (files : FileSystem) :
    let start : Site Root := ⟨start host settings, files⟩
    let others := List.filter fun step : Step => !step.observes host
    (∀ steps steps' : List Step, others steps = others steps' →
      (settings.strategy = .digest → FileSystem.Digestible (files.history (edits steps))) →
      answers host start steps = answers host start steps') ∧
    ∀ steps step, step.observes host →
      (runAll host start steps).registry.Looks
        (run host (runAll host start steps) step).2.registry := by
  intro start others
  constructor
  · intro steps steps' same digestible
    dsimp only [others] at same
    cases hstrategy : settings.strategy with
    | modified =>
      rw [answers_filter_of_modified settings hstrategy, same,
        ← answers_filter_of_modified settings hstrategy]
    | digest =>
      have hedits : edits steps' = edits steps := by
        rw [← edits_filter host steps', ← same, edits_filter]
      have hdigestible := digestible hstrategy
      rw [answers_filter_of_digest settings hstrategy files steps hdigestible, same,
        ← answers_filter_of_digest settings hstrategy files steps' (by rwa [hedits])]
  · intro steps step observes
    have hsite : (runAll host start steps).registry.WellKept :=
      runAll_wellKept (start_wellKept host settings) steps
    rcases (run_observing hsite observes).2 with hsame | ⟨name, hsame⟩
    · rw [hsame]
      exact .refl _
    · rw [hsame]
      exact hsite.staleness_looks _ name

def getT (rest : String) : Step :=
  .request (Text.ofString "GET") (Text.ofString "/api/templates/t" ++ Text.ofString rest)

/-- A status is asked for while an edit is there that is taken back afterwards. -/
def glimpsed : List Step :=
  [.edit (.write WatchedFile.template [123, 125] 5), getT "",
    .edit (.write WatchedFile.template [91, 93] 5), getT "/status",
    .edit (.write WatchedFile.template [123, 125] 5), getT ""]

/-- The template is compiled twice, but only once if nobody asks for its status in between. -/
theorem observers_change_no_answer_glimpsed :
    let host := Host.standard
    let start : Site Root := ⟨Service.start host ⟨⟨.relative, []⟩, .digest⟩, {}⟩
    let unobserved := glimpsed.filter fun step => !step.observes host
    let template := WatchedFile.template
    FileSystem.Digestible (({} : FileSystem).history (edits glimpsed)) ∧
      answers host start glimpsed = answers host start unobserved ∧
      ((runAll host start glimpsed).registry.entryAt template).cache.compiles = 2 ∧
      ((runAll host start unobserved).registry.entryAt template).cache.compiles = 1 := by
  intro host start unobserved template
  have digestible : FileSystem.Digestible (({} : FileSystem).history (edits glimpsed)) := by
    refine .of_stored (by decide +kernel) ?_
    unfold Generation.Collisionless
    decide +kernel
  obtain ⟨hanswers, -⟩ := observers_change_no_answer host ⟨⟨.relative, []⟩, .digest⟩ {}
  refine ⟨digestible, ?_, ?_, ?_⟩
  · exact hanswers glimpsed unobserved (by simp [unobserved]) fun _ => digestible
  · decide +kernel
  · decide +kernel

end Service

end LiveTemplates
