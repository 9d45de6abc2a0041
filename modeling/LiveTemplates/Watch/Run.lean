import LiveTemplates.Watch.Source

/-!
# Runs on one cache

A run is a sequence of steps on a cache and its resource. Steps may also take place while a
request compiles, after its compiler is called and before it reads the stream.
-/

namespace LiveTemplates

/-- A step of a run, where `E` is the type of changes to the resource. -/
inductive Step (E : Type) where
  | request
  | staleness
  | marker
  | contents
  | identity
  | description
  | change (e : E)
  /-- A request during whose compilation other steps take place. -/
  | requestDuring (steps : List (Step E))
deriving Inhabited

inductive Answer (A M : Type) where
  | artifact (a : Artifact A)
  | stale (b : Bool)
  | marker (m : M)
  | contents (bytes : Bytes)
  | text (t : Text)
  | done

/-- A kind of resource with the compiler of its contents. -/
structure Bench (R A M F S E : Type) where
  access : Access R A M F S
  identity : R → Text
  change : E → R → R
  compilation : Compilation R A M F S

variable {R A M F S E : Type}

/-- Resources that a source describes, with a compiler of what their streams hold. -/
def Source.bench (source : Source R M S) (change : E → R → R) (compile : Compiler A F) :
    Bench R A M F S E :=
  ⟨source.access, source.identity, change, compile.reading source.access.read⟩

def readContents (access : Access R A M F S) (w : Watch R A M F) :
    Except (LoadFailure M F) Bytes × Watch R A M F :=
  andThen (access.openStream (w.note .streamAsked)) fun stream w =>
    let w := w.note .streamRead
    (access.read stream w, w.note .streamClosed)

def answering {α : Type} (answer : α → Answer A M)
    (step : Except (LoadFailure M F) α × Watch R A M F) :
    Except (LoadFailure M F) (Answer A M) × Watch R A M F :=
  (step.1.map answer, step.2)

variable [Marking M]

mutual

def Step.run (bench : Bench R A M F S E) (w : Watch R A M F) :
    Step E → Except (LoadFailure M F) (Answer A M) × Watch R A M F
  | .request => answering .artifact (serve bench.access bench.compilation w)
  | .staleness => answering .stale (isOutdated bench.access w)
  | .marker => answering .marker (liveMarker bench.access w)
  | .contents => answering .contents (readContents bench.access w)
  | .identity => (.ok (.text (bench.identity w.resource)), w)
  | .description => (.ok (.text (w.cache.description (bench.identity w.resource))), w)
  | .change e => (.ok .done, { w with resource := bench.change e w.resource })
  | .requestDuring steps =>
    answering .artifact
      (serve bench.access (bench.compilation.after fun w => Step.runAll bench w steps) w)

/-- The state after some steps, whatever they answer. -/
def Step.runAll (bench : Bench R A M F S E) (w : Watch R A M F) : List (Step E) → Watch R A M F
  | [] => w
  | step :: rest => Step.runAll bench (Step.run bench w step).2 rest

end

end LiveTemplates
