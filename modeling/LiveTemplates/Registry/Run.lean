import LiveTemplates.Registry.Basic

/-!
# Runs on a registry

A run is a sequence of steps on a registry and of edits of its file system.
-/

namespace LiveTemplates

/-- A registry with the file system it looks at. -/
structure Site (A : Type) where
  registry : Registry A
  files : FileSystem

namespace Site

inductive Step where
  | load (name : Text)
  | find (name : Text)
  | cacheOf (name : Text)
  | staleness (name : Text)
  | pathOf (name : Text)
  | names
  | edit (e : FileSystem.Edit)

inductive Answer (A : Type) where
  | artifact (a : Artifact A)
  | cache (entry : Option (CacheEntry A))
  | stale (b : Option Bool)
  | path (p : Path)
  | names (ns : List Text)
  | done

variable {A F : Type}

def answering {α : Type} (site : Site A) (answer : α → Answer A)
    (step : Except (RegistryFailure F) α × Registry A) :
    Except (RegistryFailure F) (Answer A) × Site A :=
  (step.1.map answer, { site with registry := step.2 })

def run (compile : Compiler A F) (site : Site A) :
    Step → Except (RegistryFailure F) (Answer A) × Site A
  | .load name => site.answering .artifact (site.registry.load compile site.files name)
  | .find name => site.answering .cache (site.registry.find site.files name)
  | .cacheOf name => site.answering (.cache ∘ some) (site.registry.cacheOf name)
  | .staleness name => site.answering .stale (site.registry.staleness site.files name)
  | .pathOf name =>
    match site.registry.pathOf name with
    | .error e => (.error (.notFound e), site)
    | .ok path => (.ok (.path path), site)
  | .names => site.answering .names (site.registry.names site.files, site.registry)
  | .edit e => (.ok .done, { site with files := site.files.edit e })

/-- The state after some steps, whatever they answer. -/
def runAll (compile : Compiler A F) (site : Site A) (steps : List Step) : Site A :=
  steps.foldl (fun site step => (site.run compile step).2) site

@[simp] theorem runAll_nil (compile : Compiler A F) (site : Site A) :
    site.runAll compile [] = site := rfl

@[simp] theorem runAll_cons (compile : Compiler A F) (site : Site A) (step : Step)
    (rest : List Step) :
    site.runAll compile (step :: rest) = (site.run compile step).2.runAll compile rest := rfl

end Site

end LiveTemplates
