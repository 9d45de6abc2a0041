import LiveTemplates.Proofs.Template.Strictness
import LiveTemplates.Service.Standard

/-!
# Sound hosts

What a service relies on in the library of its host: a path that a route was declared for leads
there, and a body is sent without what is set aside, unless that is no strict JSON. The standard
host does so.
-/

namespace LiveTemplates

namespace Route

/-- The name that a route is for, if any, can stand in a path. -/
def Named : Route → Bool
  | .list => true
  | .template name | .status name => isName name

theorem between?_append (front name back : Text) :
    between? front back (front ++ name ++ back) = some name := by
  have hfront : front.isPrefixOf (front ++ name ++ back) := by simp
  have hback : back.isSuffixOf (front ++ name ++ back) :=
    List.isSuffixOf_iff_suffix.2 (List.suffix_append (front ++ name) back)
  have hlength : front.length + back.length ≤ (front ++ name ++ back).length := by
    simp only [List.length_append]
    omega
  have hname : ((front ++ name ++ back).drop front.length).take
      ((front ++ name ++ back).length - front.length - back.length) = name := by
    have hcount : (front ++ name ++ back).length - front.length - back.length = name.length := by
      simp only [List.length_append]
      omega
    rw [hcount, List.append_assoc, List.drop_left, List.take_left]
  simp only [between?, hfront, hback, hlength, hname, Bool.and_self, decide_true, ↓reduceIte]

theorem named?_append (front back : Text) {name : Text} (h : isName name) :
    named? front back (front ++ name ++ back) = some name := by
  simp only [named?, between?_append, Option.bind_some, h, ↓reduceIte]

theorem named?_of_slash (front : Text) {name : Text} (h : name.contains (.char '/')) :
    named? front [] (front ++ name) = none := by
  have hbetween : between? front [] (front ++ name) = some name := by
    simpa using between?_append front name []
  simp [named?, hbetween, isName, show CodePoint.char '/' ∈ name by simpa using h]

/-- A path that goes on behind the root is not that of the list. -/
theorem withoutNewline_ne_root {rest : Text} (h : rest.length ≠ 0) :
    root ++ Text.ofString "/" ++ rest ≠ root ∧
      withoutNewline (root ++ Text.ofString "/" ++ rest) ≠ root := by
  have hslash : (Text.ofString "/").length = 1 := rfl
  refine ⟨fun heq => ?_, fun heq => ?_⟩
  · have := congrArg List.length heq
    simp only [List.length_append, hslash] at this
    omega
  · have := congrArg List.length heq
    unfold withoutNewline at this
    split at this <;> simp only [List.length_append, List.length_dropLast, hslash] at this <;> omega

theorem ofPath?_path {route : Route} (named : route.Named) :
    ofPath? route.path = some route := by
  cases route with
  | list => rfl
  | template name =>
    have hlength : name.length ≠ 0 := by
      simp only [Named, isName, Bool.and_eq_true, decide_eq_true_eq] at named
      simpa using named.1
    obtain ⟨hroot, hroot'⟩ := withoutNewline_ne_root hlength
    have hnamed : named? (root ++ Text.ofString "/") [] (root ++ Text.ofString "/" ++ name) =
        some name := by
      simpa using named?_append (root ++ Text.ofString "/") [] named
    simp only [path, ofPath?, hroot, hroot', hnamed, or_self, ↓reduceIte]
  | status name =>
    have hlength : (name ++ statusSuffix).length ≠ 0 := by
      have : statusSuffix.length = 7 := rfl
      simp [this]
    obtain ⟨hroot, hroot'⟩ := withoutNewline_ne_root hlength
    have hslash : named? (root ++ Text.ofString "/") []
        (root ++ Text.ofString "/" ++ (name ++ statusSuffix)) = none :=
      named?_of_slash _ (by
        have : statusSuffix.contains (.char '/') := by decide
        simp_all)
    have hnamed := named?_append (root ++ Text.ofString "/") statusSuffix named
    rw [← List.append_assoc] at hroot hroot' hslash
    simp only [path, ofPath?, hroot, hroot', hslash, hnamed, or_self, ↓reduceIte,
      List.findSome?_cons, Option.map_some]

end Route

def Service.memberNames : List String :=
  ["detail", "templates", "name", "identity", "available", "compiled", "stale", "marker",
    "compile_count"]

namespace Host

structure Sound (host : Host) : Prop where
  routes (route : Route) (named : route.Named) :
    host.receive (Text.ofString "GET") route.path = .route route
  keeps : ∀ name ∈ Service.memberNames, host.setAside (Text.ofString name) = false
  sends (status : Nat) (body : Json) (strict : (body.withoutNames host.setAside).Strict) :
    host.send status body = .ok ⟨status, some (body.withoutNames host.setAside)⟩
  infinite (status : Nat) (body : Json)
    (h : (body.withoutNames host.setAside).anyScalar Scalar.isInfinite = true) :
    host.send status body = .error .infiniteNumber
  /-- Infinite numbers are found first. -/
  lone (status : Nat) (body : Json)
    (finite : (body.withoutNames host.setAside).anyScalar Scalar.isInfinite = false)
    (h : (body.withoutNames host.setAside).anyScalar Scalar.hasLone = true) :
    host.send status body = .error .loneSurrogate

theorem standard_sound : standard.Sound where
  routes route named := by
    show receiveStandard _ _ = _
    rw [receiveStandard, Route.ofPath?_path named]
    exact if_pos rfl
  keeps := by decide
  sends status body strict := by
    show sendStandard status body = _
    have finite := Bool.eq_false_iff.1 strict.finite
    have encodable := Bool.eq_false_iff.1 strict.encodable
    exact (if_neg finite).trans (if_neg encodable)
  infinite _ _ h := if_pos h
  lone _ _ finite h := (if_neg (Bool.eq_false_iff.1 finite)).trans (if_pos h)

end Host

end LiveTemplates
