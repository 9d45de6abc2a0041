import LiveTemplates.Proofs.Registry.Contents
import LiveTemplates.Service.Run

/-!
# What requests do to a registry

A request for a template loads it, and one for its status checks whether it is stale; all others
leave the registry alone. So a run on a service does to its registry what a run on a registry does.
-/

namespace LiveTemplates

namespace Service

def Step.route? (host : Host) : Step → Option Route
  | .request method path =>
    match host.receive method path with
    | .route route => some route
    | .answered _ => none
  | .edit _ => none

def Step.onSite (host : Host) : Step → Site.Step
  | .edit e => .edit e
  | .request method path =>
    match host.receive method path with
    | .route (.template name) => .load name
    | .route (.status name) => .staleness name
    | _ => .names

/-- The response to what a load gives, whose serial number it does not show. -/
def render (host : Host) :
    Except (RegistryFailure Excess) Root → Except (ServiceFailure Excess) Response
  | .ok root => respond host 200 root.outline
  | .error (.notFound e) => detail host 404 e.message
  | .error (.load (.unavailable e)) => detail host 404 e.message
  | .error (.load (.invalid e)) => detail host 422 e.message
  | .error e => .error (.registry e)

variable {F : Type} {host : Host} {files : FileSystem} {r : Registry Root} {name : Text}
variable {site site' : Site Root} {step : Step}

theorem showTemplate_eq : showTemplate host files r name =
    (render host ((r.load (Root.compiler host.room) files name).1.map (·.value)),
      (r.load (Root.compiler host.room) files name).2) := by
  unfold showTemplate
  split <;> simp_all [render, Except.map]

theorem listNames_snd : (listNames (F := F) host files r).2 = r := by
  unfold listNames
  split <;> rfl

/-- A request for a status checks whether the template is stale. -/
theorem showStatus_snd (h : r.WellKept) :
    (showStatus (F := F) host files r name).2 = (r.staleness (F := F) files name).2 := by
  cases hpath : r.pathOf name with
  | error e => simp only [showStatus, Registry.staleness, Registry.find, hpath]
  | ok path =>
    by_cases present : r.Holds path ∨ files.isFile path = .ok true
    · have hentry : (r.entryAt path).file.path = path := h.entryAt_path
      simp only [showStatus, Registry.staleness, hpath, Registry.find_of_present hpath present,
        hentry]
      rcases (r.cacheAt path).2.onCache (F := F) files path (r.entryAt path)
        (isOutdated WatchedFile.source.access) with ⟨e | stale, r'⟩
      · cases e <;> rfl
      · rfl
    · rw [Registry.staleness_of_absent hpath present]
      simp only [showStatus, hpath, Registry.find_eq_of_absent hpath present]
      cases files.isFile path <;> rfl

theorem request_of_route {route : Route} (h : step.route? host = some route) :
    ∃ method path, step = .request method path ∧ host.receive method path = .route route := by
  cases step with
  | edit e => cases h
  | request method path =>
    simp only [Step.route?] at h
    split at h
    · rename_i route' hreceive
      cases h
      exact ⟨method, path, rfl, hreceive⟩
    · cases h

theorem run_template (h : step.route? host = some (.template name)) : run host site step =
    ((render host ((site.registry.load (Root.compiler host.room) site.files name).1.map
        (·.value))).map some,
      { site with registry :=
          (site.registry.load (Root.compiler host.room) site.files name).2 }) := by
  obtain ⟨method, path, rfl, hreceive⟩ := request_of_route h
  simp only [run, answer, hreceive, showTemplate_eq]

theorem run_status (h : step.route? host = some (.status name)) : run host site step =
    ((showStatus host site.files site.registry name).1.map some,
      { site with registry :=
          (showStatus (F := Excess) host site.files site.registry name).2 }) := by
  obtain ⟨method, path, rfl, hreceive⟩ := request_of_route h
  simp only [run, answer, hreceive]

theorem run_list (h : step.route? host = some .list) : (run host site step).2 = site := by
  obtain ⟨method, path, rfl, hreceive⟩ := request_of_route h
  simp only [run, answer, hreceive, listNames_snd]

/-- A request that is not routed to the registry is answered without it. -/
theorem run_unrouted {method path : Text} (h : Step.route? host (.request method path) = none) :
    ∃ outcome, ∀ site : Site Root, run host site (.request method path) = (outcome, site) := by
  simp only [Step.route?] at h
  split at h
  · cases h
  · rename_i response hreceive
    exact ⟨_, fun site => by simp only [run, answer, hreceive]; rfl⟩

/-- A step of a service does to its registry and files what a step on the registry does. -/
theorem run_onSite (h : site.registry.WellKept) (step : Step) :
    (run host site step).2 = (site.run (Root.compiler host.room) (step.onSite host)).2 := by
  cases step with
  | edit e => rfl
  | request method path =>
    cases hreceive : host.receive method path with
    | answered response =>
      simp only [run, answer, hreceive, Step.onSite]
      rfl
    | route route =>
      cases route with
      | list =>
        simp only [run, answer, hreceive, listNames_snd, Step.onSite]
        rfl
      | template name =>
        simp only [run, answer, hreceive, showTemplate_eq, Step.onSite]
        rfl
      | status name =>
        simp only [run, answer, hreceive, showStatus_snd h, Step.onSite]
        rfl

theorem start_wellKept (host : Host) (settings : Settings) : (start host settings).WellKept :=
  .empty _ _

section Kept

variable (h : site.registry.WellKept)
include h

theorem run_wellKept (step : Step) : (run host site step).2.registry.WellKept := by
  rw [run_onSite h]
  exact Site.run_wellKept (Root.compiler host.room) (step.onSite host) h

theorem run_base (step : Step) : (run host site step).2.registry.base = site.registry.base := by
  rw [run_onSite h]
  exact Site.run_base (Root.compiler host.room) (step.onSite host) h

theorem run_strategy (step : Step) :
    (run host site step).2.registry.strategy = site.registry.strategy := by
  rw [run_onSite h]
  exact Site.run_strategy (Root.compiler host.room) (step.onSite host) h

theorem runAll_onSite (steps : List Step) :
    runAll host site steps =
      site.runAll (Root.compiler host.room) (steps.map (Step.onSite host)) := by
  induction steps generalizing site with
  | nil => rfl
  | cons step rest ih =>
    rw [runAll_cons, ih (run_wellKept h step), run_onSite h, List.map_cons, Site.runAll_cons]

theorem runAll_wellKept (steps : List Step) : (runAll host site steps).registry.WellKept := by
  rw [runAll_onSite h]
  exact Site.runAll_wellKept (Root.compiler host.room) h (steps.map (Step.onSite host))

theorem runAll_base (steps : List Step) :
    (runAll host site steps).registry.base = site.registry.base := by
  induction steps generalizing site with
  | nil => rfl
  | cons step rest ih => rw [runAll_cons, ih (run_wellKept h step), run_base h]

end Kept

end Service

end LiveTemplates
