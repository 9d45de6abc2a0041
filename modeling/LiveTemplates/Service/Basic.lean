import LiveTemplates.Registry.Basic
import LiveTemplates.Service.Host
import LiveTemplates.Service.Settings
import LiveTemplates.Template.Compile

/-!
# The template service

The service answers requests for the list of templates, for a template as it is compiled from its
present contents, and for the status of a template, which is reported without compiling it. A
template that cannot be read is not found, and one that does not compile is unprocessable.
-/

namespace LiveTemplates

inductive ServiceFailure (F : Type) where
  | registry (e : RegistryFailure F)
  | unsent (u : Unsent)

/-- Compiles templates with room for so many containers in each other. -/
def Root.compiler (room : Nat) : Compiler Root Excess := fun contents =>
  match Root.ofBytes contents (some room) with
  | .ok root => .ok root
  | .error (.rejected r) => .error (.invalid ⟨r.message, none⟩)
  | .error (.exceeded e) => .error (.other e)

namespace Service

variable {F : Type}

def field (name : String) (value : Json) : Text × Json := (Text.ofString name, value)

variable (host : Host)

def respond (status : Nat) (body : Json) : Except (ServiceFailure F) Response :=
  (host.send status body).mapError .unsent

def detail (status : Nat) (message : Text) : Except (ServiceFailure F) Response :=
  respond host status (.object [field "detail" (.text message)])

def listNames (files : FileSystem) (r : Registry Root) :
    Except (ServiceFailure F) Response × Registry Root :=
  match r.names (F := F) files with
  | .error e => (.error (.registry e), r)
  | .ok names =>
    (respond host 200 (.object [field "templates" (.array (names.map Json.text))]), r)

def showTemplate (files : FileSystem) (r : Registry Root) (name : Text) :
    Except (ServiceFailure Excess) Response × Registry Root :=
  match r.load (Root.compiler host.room) files name with
  | (.ok artifact, r) => (respond host 200 artifact.value.outline, r)
  | (.error (.notFound e), r) => (detail host 404 e.message, r)
  | (.error (.load (.unavailable e)), r) => (detail host 404 e.message, r)
  | (.error (.load (.invalid e)), r) => (detail host 422 e.message, r)
  | (.error e, r) => (.error (.registry e), r)

/-- What is known about a template without compiling it. -/
structure Status where
  name : Text
  identity : Text
  available : Bool
  compiled : Bool
  stale : Bool
  marker : Option Int
  compiles : Nat
deriving DecidableEq

def Status.body (s : Status) : Json :=
  .object [field "name" (.text s.name), field "identity" (.text s.identity),
    field "available" (.bool s.available), field "compiled" (.bool s.compiled),
    field "stale" (.bool s.stale),
    field "marker" (match s.marker with
      | none => .null
      | some m => .int m),
    field "compile_count" (.int s.compiles)]

/-- The status of a template whose file is missing, which is not watched for that. -/
def Status.missing (name : Text) (path : Path) : Status :=
  ⟨name, path.text, false, false, true, none, 0⟩

def Status.ofEntry (name : Text) (path : Path) (cache : Cache Root Int)
    (stale available : Bool) : Status :=
  ⟨name, path.text, available, cache.held.isSome, stale, cache.marker?, cache.compiles⟩

def showStatus (files : FileSystem) (r : Registry Root) (name : Text) :
    Except (ServiceFailure F) Response × Registry Root :=
  match r.pathOf name with
  | .error e => (detail host 404 e.message, r)
  | .ok path =>
    match r.find (F := F) files name with
    | (.error e, r) => (.error (.registry e), r)
    | (.ok none, r) => (respond host 200 (Status.missing name path).body, r)
    | (.ok (some entry), r) =>
      match r.onCache (F := F) files path entry (isOutdated WatchedFile.source.access) with
      | (.ok stale, r) =>
        (respond host 200 (Status.ofEntry name path entry.cache stale true).body, r)
      | (.error (.unavailable _), r) =>
        (respond host 200 (Status.ofEntry name path entry.cache true false).body, r)
      | (.error e, r) => (.error (.registry (.load e)), r)

def answer (files : FileSystem) (r : Registry Root) (method path : Text) :
    Except (ServiceFailure Excess) Response × Registry Root :=
  match host.receive method path with
  | .answered response => (.ok response, r)
  | .route .list => listNames host files r
  | .route (.template name) => showTemplate host files r name
  | .route (.status name) => showStatus host files r name

def start (settings : Settings) : Registry Root :=
  { base := host.home.join settings.base, strategy := settings.strategy }

end Service

end LiveTemplates
