import LiveTemplates.Template.Build

/-!
# Taking the building of trees apart

A tree is built from the trees of the parts of its value. What is built succeeds if its parts do,
and fails as the first of them that fails.
-/

namespace LiveTemplates

def Role.opener : Role → Text
  | .property => [.char '$', .char '\x7b']
  | .filter => [.char '$', .char '$', .char '\x7b']

theorem Role.opened?_opener (role : Role) (rest : Text) :
    opened? (role.opener ++ rest) = some (role, rest) := by
  cases role <;> rfl

theorem Role.opened?_eq_some_iff {t rest : Text} {role : Role} :
    opened? t = some (role, rest) ↔ t = role.opener ++ rest := by
  constructor
  · intro h
    unfold opened? at h
    split at h
    · cases h
      rfl
    · cases h
      rfl
    · cases h
  · rintro rfl
    exact opened?_opener role rest

theorem Role.opened?_eq_none_iff {t : Text} : opened? t = none ↔ ∀ role, ¬ opener role <+: t := by
  constructor
  · rintro h role ⟨rest, rfl⟩
    rw [opened?_opener] at h
    cases h
  · intro h
    rcases hopened : opened? t with - | ⟨role, rest⟩
    · rfl
    · exact absurd ⟨rest, (opened?_eq_some_iff.1 hopened).symm⟩ (h role)

namespace Node

variable {key : Option Text} {members : Keyed Text Json} {special : List Text} {r : Rejection}

theorem ofText_opener (key : Option Text) (role : Role) (rest : Text) :
    ofText key (role.opener ++ rest) =
      if rest.getLast? = some (.char '\x7d') then
        if Text.trim rest.dropLast = [] then .error (.emptyExpression key)
        else if .char '\x7d' ∈ Text.trim rest.dropLast then
          .error (.strayBrace (role.opener ++ rest) key)
        else .ok (.dynamic key role (Text.trim rest.dropLast))
      else .error (.unterminatedExpression (role.opener ++ rest) key) := by
  simp only [ofText, Role.opened?_opener]

theorem ofText_closed (key : Option Text) (role : Role) (inside : Text) :
    ofText key (role.opener ++ inside ++ [.char '\x7d']) =
      if Text.trim inside = [] then .error (.emptyExpression key)
      else if .char '\x7d' ∈ Text.trim inside then
        .error (.strayBrace (role.opener ++ inside ++ [.char '\x7d']) key)
      else .ok (.dynamic key role (Text.trim inside)) := by
  rw [List.append_assoc, ofText_opener]
  simp

theorem ofText_static {t : Text} (h : Role.opened? t = none) :
    ofText key t = .ok (.static key (.text t)) := by
  simp only [ofText, h]

theorem ofJson_array_eq_ok_iff {items : List Json} {node : Node} :
    ofJson key (.array items) = .ok node ↔
      ∃ children, ofItems items = .ok children ∧ .iterating key children = node := by
  rw [ofJson]
  cases ofItems items <;> simp

theorem ofJson_array_eq_error_iff {items : List Json} :
    ofJson key (.array items) = .error r ↔ ofItems items = .error r := by
  rw [ofJson]
  cases ofItems items <;> simp

theorem ofJson_object_eq_ok_iff {node : Node} :
    ofJson key (.object members) = .ok node ↔
      ∃ source children, sourceOf members = .ok source ∧
        ofMembers [sourceName] members = .ok children ∧ .composite key source children = node := by
  rw [ofJson]
  cases sourceOf members with
  | error r => simp
  | ok source => cases ofMembers [sourceName] members <;> simp

theorem ofJson_object_eq_error_iff :
    ofJson key (.object members) = .error r ↔
      sourceOf members = .error r ∨
        (∃ source, sourceOf members = .ok source) ∧ ofMembers [sourceName] members = .error r := by
  rw [ofJson]
  cases sourceOf members with
  | error r => simp
  | ok source => cases ofMembers [sourceName] members <;> simp

theorem ofItems_cons_eq_ok_iff {item : Json} {rest : List Json} {nodes : List Node} :
    ofItems (item :: rest) = .ok nodes ↔
      ∃ node others, ofJson none item = .ok node ∧ ofItems rest = .ok others ∧
        node :: others = nodes := by
  rw [ofItems]
  cases ofJson none item with
  | error r => simp
  | ok node => cases ofItems rest <;> simp

theorem ofItems_cons_eq_error_iff {item : Json} {rest : List Json} :
    ofItems (item :: rest) = .error r ↔
      ofJson none item = .error r ∨
        (∃ node, ofJson none item = .ok node) ∧ ofItems rest = .error r := by
  rw [ofItems]
  cases ofJson none item with
  | error r => simp
  | ok node => cases ofItems rest <;> simp

section Members

variable {name : Text} {value : Json} {rest : List (Text × Json)}

theorem ofMembers_cons_special (h : name ∈ special) :
    ofMembers special ((name, value) :: rest) = ofMembers special rest := by
  rw [ofMembers, if_pos h]

theorem ofMembers_cons_eq_ok_iff (h : name ∉ special) {nodes : List Node} :
    ofMembers special ((name, value) :: rest) = .ok nodes ↔
      ∃ node others, ofJson (some name) value = .ok node ∧ ofMembers special rest = .ok others ∧
        node :: others = nodes := by
  rw [ofMembers, if_neg h]
  cases ofJson (some name) value with
  | error r => simp
  | ok node => cases ofMembers special rest <;> simp

theorem ofMembers_cons_eq_error_iff (h : name ∉ special) :
    ofMembers special ((name, value) :: rest) = .error r ↔
      ofJson (some name) value = .error r ∨
        (∃ node, ofJson (some name) value = .ok node) ∧ ofMembers special rest = .error r := by
  rw [ofMembers, if_neg h]
  cases ofJson (some name) value with
  | error r => simp
  | ok node => cases ofMembers special rest <;> simp

end Members

end Node

namespace Root

variable {members : Keyed Text Json}

theorem ofJson_object_eq_ok_iff {root : Root} :
    ofJson (.object members) = .ok root ↔
      ∃ source children, Node.sourceOf members = .ok source ∧
        Node.ofMembers [contextName, sourceName] members = .ok children ∧
        ⟨((members.find? contextName).getD .null).freeze, source, children⟩ = root := by
  rw [ofJson]
  cases Node.sourceOf members with
  | error r => simp
  | ok source => cases Node.ofMembers [contextName, sourceName] members <;> simp

theorem ofJson_object_eq_error_iff {r : Rejection} :
    ofJson (.object members) = .error r ↔
      Node.sourceOf members = .error r ∨
        (∃ source, Node.sourceOf members = .ok source) ∧
          Node.ofMembers [contextName, sourceName] members = .error r := by
  rw [ofJson]
  cases Node.sourceOf members with
  | error r => simp
  | ok source => cases Node.ofMembers [contextName, sourceName] members <;> simp

end Root

end LiveTemplates
