import LiveTemplates.Text.Basic

/-!
# Routes

The service answers under `/api/templates`: the list of names there, a template under its name,
and the status of a template below that. A name is one or more code points other than a slash.
-/

namespace LiveTemplates

inductive Route where
  | list
  | template (name : Text)
  | status (name : Text)
deriving DecidableEq

namespace Route

def root : Text := Text.ofString "/api/templates"

def statusSuffix : Text := Text.ofString "/status"

def isName (t : Text) : Bool := t ≠ [] && !t.contains (.char '/')

/-- The path of the requests that a route is for. -/
def path : Route → Text
  | .list => root
  | .template name => root ++ Text.ofString "/" ++ name
  | .status name => root ++ Text.ofString "/" ++ name ++ statusSuffix

end Route

end LiveTemplates
