import LiveTemplates.Registry.Run
import LiveTemplates.Service.Basic

/-!
# Runs on a service

A run is a sequence of requests to a service and of edits of its file system.
-/

namespace LiveTemplates

namespace Service

inductive Step where
  | request (method path : Text)
  | edit (e : FileSystem.Edit)

variable (host : Host)

/-- The response to a request, and nothing for an edit. -/
def run (site : Site Root) :
    Step → Except (ServiceFailure Excess) (Option Response) × Site Root
  | .request method path =>
    let (outcome, registry) := answer host site.files site.registry method path
    (outcome.map some, { site with registry })
  | .edit e => (.ok none, { site with files := site.files.edit e })

/-- The state after some steps, whatever they answer. -/
def runAll (site : Site Root) (steps : List Step) : Site Root :=
  steps.foldl (fun site step => (run host site step).2) site

@[simp] theorem runAll_nil (site : Site Root) : runAll host site [] = site := rfl

@[simp] theorem runAll_cons (site : Site Root) (step : Step) (rest : List Step) :
    runAll host site (step :: rest) = runAll host (run host site step).2 rest := rfl

end Service

end LiveTemplates
