import LiveTemplates.Utf8
import LiveTemplates.Watch.Error
import LiveTemplates.Watch.Marker

/-!
# Caches that follow a resource

A cache holds the artifact compiled last together with the marker that the resource answered
before its stream was opened. A request is a hit if the held marker is not older than the live
one. A miss takes the lock, reads the marker once more, and reloads only if the held artifact is
still stale; a failure anywhere leaves what is held in place.
-/

namespace LiveTemplates

/-- A compiled value with its number among the successful compiles. -/
structure Artifact (A : Type) where
  serial : Nat
  value : A

structure Snapshot (A M : Type) where
  artifact : Artifact A
  marker : M

structure Cache (A M : Type) where
  held : Option (Snapshot A M) := none
  compiles : Nat := 0

/-- Why a compiler gives no value: the contents are invalid, or another failure of its own. -/
inductive CompileFailure (F : Type) where
  | invalid (e : InvalidContents)
  | other (f : F)

abbrev Compiler (A F : Type) := Bytes → Except (CompileFailure F) A

/-- Why a request gives no artifact. -/
inductive LoadFailure (M F : Type) where
  | unavailable (e : Unavailable)
  | invalid (e : InvalidContents)
  | incomparable (held live : M)
  /-- The opened stream failed while it was read. -/
  | unreadable (reason : Text)
  | other (f : F)
  /-- The caller waits for a reload that waits for the caller. -/
  | deadlock

def CompileFailure.toLoad {M F : Type} : CompileFailure F → LoadFailure M F
  | .invalid e => .invalid e
  | .other f => .other f

def incomparableMessage {M : Type} [Marking M] (held live : M) : Text :=
  Text.ofString "'<' not supported between instances of '" ++ Marking.kind held ++
    Text.ofString "' and '" ++ Marking.kind live ++ Text.ofString "'"

def unreadableMessage (reason : Text) : Text := Text.ofString "[Errno 5] " ++ reason

/-- What happens while a cache is at work. -/
inductive Event (A M F : Type) where
  | markerAsked
  | markerAnswered (m : M)
  | streamAsked
  | compilerCalled
  | streamRead
  | compiled (artifact : Artifact A)
  | streamClosed
  | held (snapshot : Snapshot A M)
  /-- Another caller's request ended, with the serial of its artifact or a failure. -/
  | otherServed (outcome : Except (LoadFailure M F) Nat)

/-- A cache at work: its resource, what it holds, whether a reload is under way, the number of
successful compiles so far, and the events so far. -/
structure Watch (R A M F : Type) where
  resource : R
  cache : Cache A M := {}
  reloading : Bool := false
  compiled : Nat := 0
  events : List (Event A M F) := []

/-- How a cache reaches its resource; `S` is the type of opened streams. -/
structure Access (R A M F S : Type) where
  marker : Watch R A M F → Except (LoadFailure M F) M × Watch R A M F
  openStream : Watch R A M F → Except (LoadFailure M F) S × Watch R A M F
  read : S → Watch R A M F → Except (LoadFailure M F) Bytes

/-- What a compiler makes of an opened stream, from its call to its end. The surroundings may
change while it works. -/
abbrev Compilation (R A M F S : Type) :=
  S → Watch R A M F → Except (LoadFailure M F) A × Watch R A M F

/-- Goes on with the answer of a step unless it failed. -/
def andThen {ε α β σ : Type} (step : Except ε α × σ) (next : α → σ → Except ε β × σ) :
    Except ε β × σ :=
  match step with
  | (.ok a, s) => next a s
  | (.error e, s) => (.error e, s)

@[simp] theorem andThen_ok {ε α β σ : Type} (a : α) (s : σ) (next : α → σ → Except ε β × σ) :
    andThen (.ok a, s) next = next a s := rfl

@[simp] theorem andThen_error {ε α β σ : Type} (e : ε) (s : σ) (next : α → σ → Except ε β × σ) :
    andThen (.error e, s) next = (.error e, s) := rfl

section Requests

variable {R A M F S : Type} [Marking M]

/-- The held artifact if it is as fresh as the live marker. -/
def Snapshot.freshAt (held : Option (Snapshot A M)) (live : M) :
    Except (LoadFailure M F) (Option (Artifact A)) :=
  match held with
  | none => .ok none
  | some snapshot =>
    match Marking.older? snapshot.marker live with
    | none => .error (.incomparable snapshot.marker live)
    | some true => .ok none
    | some false => .ok (some snapshot.artifact)

namespace Watch

def note (w : Watch R A M F) (e : Event A M F) : Watch R A M F :=
  { w with events := w.events ++ [e] }

/-- Runs a step that no other reload may overlap. -/
def exclusively {α : Type} (w : Watch R A M F)
    (step : Watch R A M F → Except (LoadFailure M F) α × Watch R A M F) :
    Except (LoadFailure M F) α × Watch R A M F :=
  if w.reloading then (.error .deadlock, w)
  else
    let (outcome, w) := step { w with reloading := true }
    (outcome, { w with reloading := false })

/-- The held artifact if it is fresh at the live marker, else what `reload` gives. -/
def freshOr (w : Watch R A M F) (live : M)
    (reload : Watch R A M F → Except (LoadFailure M F) (Artifact A) × Watch R A M F) :
    Except (LoadFailure M F) (Artifact A) × Watch R A M F :=
  match Snapshot.freshAt w.cache.held live with
  | .error e => (.error e, w)
  | .ok (some artifact) => (.ok artifact, w)
  | .ok none => reload w

def register (w : Watch R A M F) (value : A) : Artifact A × Watch R A M F :=
  (⟨w.compiled, value⟩, { w with compiled := w.compiled + 1 })

def hold (w : Watch R A M F) (snapshot : Snapshot A M) : Watch R A M F :=
  { w.note (.held snapshot) with cache := ⟨some snapshot, w.cache.compiles + 1⟩ }

end Watch

/-- Reads a stream to its end, then compiles what it held. -/
def Compiler.reading (compile : Compiler A F)
    (read : S → Watch R A M F → Except (LoadFailure M F) Bytes) : Compilation R A M F S :=
  fun stream w =>
    let w := w.note .streamRead
    match read stream w with
    | .error e => (.error e, w)
    | .ok contents => ((compile contents).mapError CompileFailure.toLoad, w)

/-- A compilation that lets the surroundings change before it does anything. -/
def Compilation.after (compilation : Compilation R A M F S)
    (during : Watch R A M F → Watch R A M F) : Compilation R A M F S :=
  fun stream w => compilation stream (during w)

variable (access : Access R A M F S) (compilation : Compilation R A M F S)

def liveMarker (w : Watch R A M F) : Except (LoadFailure M F) M × Watch R A M F :=
  andThen (access.marker (w.note .markerAsked)) fun live w =>
    (.ok live, w.note (.markerAnswered live))

/-- Compiles an opened stream and numbers the value. -/
def compileStream (stream : S) (w : Watch R A M F) :
    Except (LoadFailure M F) (Artifact A) × Watch R A M F :=
  andThen (compilation stream (w.note .compilerCalled)) fun value w =>
    let (artifact, w) := w.register value
    (.ok artifact, w.note (.compiled artifact))

/-- Compiles the present contents and holds the artifact with the marker read before. An opened
stream is closed in any case. -/
def reload (marker : M) (w : Watch R A M F) :
    Except (LoadFailure M F) (Artifact A) × Watch R A M F :=
  andThen (access.openStream (w.note .streamAsked)) fun stream w =>
    let (outcome, w) := compileStream compilation stream w
    andThen (outcome, w.note .streamClosed) fun artifact w =>
      (.ok artifact, w.hold ⟨artifact, marker⟩)

/-- Reads the marker once more and reloads if the held artifact is stale. -/
def reloadIfStale (w : Watch R A M F) : Except (LoadFailure M F) (Artifact A) × Watch R A M F :=
  andThen (liveMarker access w) fun live w => w.freshOr live (reload access compilation live)

/-- A request: serves an artifact at least as fresh as the resource is at present. -/
def serve (w : Watch R A M F) : Except (LoadFailure M F) (Artifact A) × Watch R A M F :=
  andThen (liveMarker access w) fun live w =>
    w.freshOr live fun w => w.exclusively (reloadIfStale access compilation)

/-- Whether the next request would compile. What is held is looked at before the marker is
read. -/
def isOutdated (w : Watch R A M F) : Except (LoadFailure M F) Bool × Watch R A M F :=
  andThen (liveMarker access w) fun live w' =>
    match Snapshot.freshAt w.cache.held live with
    | .error e => (.error e, w')
    | .ok fresh => (.ok fresh.isNone, w')

end Requests

namespace Cache

variable {A M : Type}

def marker? (c : Cache A M) : Option M := c.held.map (·.marker)

def artifact? (c : Cache A M) : Option (Artifact A) := c.held.map (·.artifact)

/-- A cache as it is named in diagnostics. -/
def description [Marking M] (c : Cache A M) (identity : Text) : Text :=
  Text.ofString "WatchedArtifactCache(identity=" ++ identity.quoted ++ Text.ofString ", marker=" ++
    (match c.marker? with
      | none => Text.ofString "None"
      | some m => Marking.text m) ++ Text.ofString ")"

end Cache

end LiveTemplates
