import LiveTemplates.Proofs.Service.Hosts
import LiveTemplates.Proofs.Service.Requests

/-!
# Routes of templates

Every name that a registry accepts has a request for its template, and one for its status.
-/

namespace LiveTemplates

theorem isName_of_isTemplateName {name : Text} (h : isTemplateName name) : Route.isName name := by
  simp only [isTemplateName, Bool.and_eq_true, Bool.not_eq_true', List.any_eq_false] at h
  obtain ⟨⟨⟨hne, -⟩, -⟩, hall⟩ := h
  have hslash : CodePoint.char '/' ∉ name := fun hmem => by simpa using hall _ hmem
  simpa [Route.isName, hslash] using hne

namespace Service

def Step.get (route : Route) : Step := .request (Text.ofString "GET") route.path

def Step.ofTemplate (name : Text) : Step := .get (.template name)

def Step.ofStatus (name : Text) : Step := .get (.status name)

variable {host : Host} {name : Text}

theorem route?_get (sound : host.Sound) {route : Route} (named : route.Named) :
    (Step.get route).route? host = some route := by
  simp only [Step.get, Step.route?, sound.routes route named]

theorem route?_ofTemplate (sound : host.Sound) (h : isTemplateName name) :
    (Step.ofTemplate name).route? host = some (.template name) :=
  route?_get sound (isName_of_isTemplateName h)

theorem route?_ofStatus (sound : host.Sound) (h : isTemplateName name) :
    (Step.ofStatus name).route? host = some (.status name) :=
  route?_get sound (isName_of_isTemplateName h)

end Service

end LiveTemplates
