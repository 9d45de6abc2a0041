import LiveTemplates.Json.Basic
import LiveTemplates.Registry.Basic

/-!
# Settings

The settings of a service are an object with sections. The section `templates` may give the base
directory and the strategy by which changes are marked, the section `runtime` the number of
workers. What is missing has a default, but a section that is present has to be an object.
-/

namespace LiveTemplates

structure Settings where
  base : Path
  strategy : Strategy
deriving DecidableEq

inductive StartFailure where
  /-- A section is a value of another kind. -/
  | notSection (kind : Text)
  /-- The base directory is a value of another kind. -/
  | notPath (kind : Text)
  | unknownStrategy (shown : Text)
  /-- The strategy is given by a value that can be no name. -/
  | notStrategy (kind : Text)
  | noWorkers
  | notWorkers (kind : Text)
deriving DecidableEq

def unknownStrategyMessage (shown : Text) : Text :=
  Text.ofString "unknown marker strategy " ++ shown ++
    Text.ofString " (expected one of ['digest', 'mtime'])"

namespace StartFailure

def message : StartFailure → Text
  | .notSection kind =>
    Text.ofString "'" ++ kind ++ Text.ofString "' object has no attribute 'get'"
  | .notPath kind =>
    Text.ofString "expected str, bytes or os.PathLike object, not " ++ kind
  | .unknownStrategy shown => unknownStrategyMessage shown
  | .notStrategy kind => Text.ofString "unhashable type: '" ++ kind ++ Text.ofString "'"
  | .noWorkers => "max_workers must be greater than 0"
  | .notWorkers kind =>
    Text.ofString "'<=' not supported between instances of '" ++ kind ++ Text.ofString "' and 'int'"

end StartFailure

namespace Scalar

def kind : Scalar → Text
  | .null => "NoneType"
  | .bool _ => "bool"
  | .number (.int _) => "int"
  | .number (.float _) => "float"
  | .text _ => "str"

def shown : Scalar → Text
  | .null => "None"
  | .bool true => "True"
  | .bool false => "False"
  | .number n => n.text
  | .text t => t.quoted

end Scalar

def Json.kind : Json → Text
  | .scalar s => s.kind
  | .array _ => "list"
  | .object _ => "dict"

namespace Settings

/-- The members of a section; a missing one is empty. -/
def sectionOf (name : String) (members : Keyed Text Json) :
    Except StartFailure (Keyed Text Json) :=
  match members.find? (Text.ofString name) with
  | none => .ok []
  | some (.object inner) => .ok inner
  | some other => .error (.notSection other.kind)

def baseOf (members : Keyed Text Json) : Except StartFailure Path :=
  match members.find? (Text.ofString "base_path") with
  | none => .ok (Path.parse (Text.ofString "templates"))
  | some (.scalar (.text t)) => .ok (Path.parse t)
  | some other => .error (.notPath other.kind)

def strategyOf (members : Keyed Text Json) : Except StartFailure Strategy :=
  match members.find? (Text.ofString "marker") with
  | none => .ok .modified
  | some (.scalar (.text name)) =>
    match Strategy.ofName? name with
    | some strategy => .ok strategy
    | none => .error (.unknownStrategy name.quoted)
  | some (.scalar s) => .error (.unknownStrategy s.shown)
  | some other => .error (.notStrategy other.kind)

/-- Checks the number of workers, for which nothing at all leaves the choice to the service. -/
def checkWorkers (members : Keyed Text Json) : Except StartFailure Unit :=
  match members.find? (Text.ofString "thread_pool_workers") with
  | none => .ok ()
  | some (.scalar .null) => .ok ()
  | some (.scalar s) =>
    match s with
    | .number n => if (Number.int 0).less n then .ok () else .error .noWorkers
    | .bool true => .ok ()
    | .bool false => .error .noWorkers
    | other => .error (.notWorkers other.kind)
  | some other => .error (.notWorkers other.kind)

def ofJson : Json → Except StartFailure Settings
  | .object members => do
    let templates ← sectionOf "templates" members
    let base ← baseOf templates
    let strategy ← strategyOf templates
    let runtime ← sectionOf "runtime" members
    checkWorkers runtime
    return ⟨base, strategy⟩
  | other => .error (.notSection other.kind)

end Settings

end LiveTemplates
