import LiveTemplates.Files.Path
import LiveTemplates.Json.Basic
import LiveTemplates.Service.Route

/-!
# Hosts

A service runs in a host, which is no part of it. The interpreter of the host has a stack. Its
library takes all requests, hands those that have a route on to the service, answers the others by
itself, and sends what the service answers.
-/

namespace LiveTemplates

structure Response where
  status : Nat
  body : Option Json

/-- Why an answer is not sent. -/
inductive Unsent where
  | infiniteNumber
  | loneSurrogate

inductive Receipt where
  | route (route : Route)
  | answered (response : Response)

structure Host where
  /-- The directory of the program, from which relative paths in its settings lead on. -/
  home : Path
  /-- How many containers in each other the stack has room for when a tree is built. That showing a
  tree takes room as well is left out. -/
  room : Nat
  receive (method path : Text) : Receipt
  /-- The names of members that are left out of what is sent. -/
  setAside (name : Text) : Bool
  send (status : Nat) (body : Json) : Except Unsent Response

end LiveTemplates
