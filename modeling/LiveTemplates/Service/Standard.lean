import LiveTemplates.Json.Parts
import LiveTemplates.Service.Host

/-!
# The standard host

The host that the service comes with matches paths as a whole, where one newline at the end is
passed over if a route does not take it for its name. It serves pages on the service as well, whose
contents are left out here. It leaves out members whose names begin with `_sa`, which are marks of
a storage, and the rest of what it sends has to be strict JSON in UTF-8.
-/

namespace LiveTemplates

namespace Route

def withoutNewline (path : Text) : Text :=
  if path.getLast? = some (.char '\n') then path.dropLast else path

/-- The part of a text between a beginning and an end. -/
def between? (front back : Text) (t : Text) : Option Text :=
  if front.isPrefixOf t && back.isSuffixOf t && front.length + back.length ≤ t.length then
    some ((t.drop front.length).take (t.length - front.length - back.length))
  else none

def named? (front back path : Text) : Option Text :=
  (between? front back path).bind fun name => if isName name then some name else none

def ofPath? (path : Text) : Option Route :=
  let front := root ++ Text.ofString "/"
  if path = root ∨ withoutNewline path = root then some .list
  else
    match named? front [] path with
    | some name => some (.template name)
    | none =>
      ([path, withoutNewline path].findSome? (named? front statusSuffix)).map .status

end Route

namespace Host

/-- The paths of the pages on the service. -/
def pages : List Text :=
  ["/openapi.json", "/docs", "/docs/oauth2-redirect", "/redoc"].map Text.ofString

def isPage (path : Text) : Bool := path ∈ pages || Route.withoutNewline path ∈ pages

/-- The path without its slashes at the end, where that is another path and leads somewhere. -/
def redirected? (path : Text) : Option Text :=
  let bare := (path.reverse.dropWhile (· = .char '/')).reverse
  if bare ≠ path ∧ ((Route.ofPath? bare).isSome ∨ isPage bare) then some bare else none

def detailed (status : Nat) (message : String) : Response :=
  ⟨status, some (.object [(Text.ofString "detail", .text (Text.ofString message))])⟩

def receiveStandard (method path : Text) : Receipt :=
  match Route.ofPath? path with
  | some route =>
    if method = Text.ofString "GET" then .route route
    else .answered (detailed 405 "Method Not Allowed")
  | none =>
    if isPage path then
      if method = Text.ofString "GET" ∨ method = Text.ofString "HEAD" then .answered ⟨200, none⟩
      else .answered (detailed 405 "Method Not Allowed")
    else
      match redirected? path with
      | some _ => .answered ⟨307, none⟩
      | none => .answered (detailed 404 "Not Found")

def isStorageMark (name : Text) : Bool := (Text.ofString "_sa").isPrefixOf name

def sendStandard (status : Nat) (body : Json) : Except Unsent Response :=
  let shown := body.withoutNames isStorageMark
  if shown.anyScalar Scalar.isInfinite then .error .infiniteNumber
  else if shown.anyScalar Scalar.hasLone then .error .loneSurrogate
  else .ok ⟨status, some shown⟩

/-- The host in the working directory. An interpreter with room for 1000 calls in each other needs
two for every container of a tree, besides those that lead to the compiler. -/
def standard : Host where
  home := ⟨.relative, []⟩
  room := 496
  receive := receiveStandard
  setAside := isStorageMark
  send := sendStandard

end Host

end LiveTemplates
