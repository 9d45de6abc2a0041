import Mathlib.Data.List.Basic
import Mathlib.Tactic.Tauto
import LiveTemplates.Proofs.Template.Building
import LiveTemplates.Proofs.Writing.Grammar

/-!
# Violations of the template grammar

A value is a template if it is an object, no text in it is malformed, and every source is a text
that is not blank; only the context of the root may hold anything. Building a tree goes through
the places of the value in their order, where the source of an object comes before all its other
members, and fails at the first place that violates the grammar.
-/

namespace LiveTemplates

/-- The text opens an expression and does not complete it: what follows the opener has to end in a
brace, and what is inside has to be more than blanks, without another closing brace. -/
def Text.Malformed (t : Text) : Prop :=
  ∃ (role : Role) (rest : Text), t = role.opener ++ rest ∧
    ¬ ∃ inside, rest = inside ++ [.char '\x7d'] ∧ Text.trim inside ≠ [] ∧
      .char '\x7d' ∉ Text.trim inside

inductive Check where
  | root (v : Json)
  | source (v : Json)
  | text (key : Option Text) (t : Text)

namespace Check

inductive Violates : Check → Rejection → Prop where
  | root {v : Json} (h : ∀ members, v ≠ .object members) : Violates (.root v) .rootNotObject
  | source {v : Json} (h : ∀ t : Text, v = .text t → t.isBlank = true) :
    Violates (.source v) .blankSource
  | unterminated {key : Option Text} {role : Role} {rest : Text}
    (h : rest.getLast? ≠ some (.char '\x7d')) :
    Violates (.text key (role.opener ++ rest)) (.unterminatedExpression (role.opener ++ rest) key)
  | empty {key : Option Text} {role : Role} {inside : Text} (h : Text.trim inside = []) :
    Violates (.text key (role.opener ++ inside ++ [.char '\x7d'])) (.emptyExpression key)
  | stray {key : Option Text} {role : Role} {inside : Text} (h : Text.trim inside ≠ [])
    (brace : .char '\x7d' ∈ Text.trim inside) :
    Violates (.text key (role.opener ++ inside ++ [.char '\x7d']))
      (.strayBrace (role.opener ++ inside ++ [.char '\x7d']) key)

def Passes (c : Check) : Prop := ∀ r, ¬ c.Violates r

end Check

section Places

def sourceChecks (members : Keyed Text Json) : List Check :=
  (members.find? sourceName).toList.map .source

mutual

/-- The places of a value from the first to the last, with the source of each object in front. -/
def Json.checks (key : Option Text) : Json → List Check
  | .scalar (.text t) => [.text key t]
  | .scalar _ => []
  | .array items => Json.itemChecks items
  | .object members => sourceChecks members ++ Json.memberChecks [sourceName] members

def Json.itemChecks : List Json → List Check
  | [] => []
  | item :: rest => Json.checks none item ++ Json.itemChecks rest

def Json.memberChecks (special : List Text) : List (Text × Json) → List Check
  | [] => []
  | (name, value) :: rest =>
    (if name ∈ special then [] else Json.checks (some name) value) ++
      Json.memberChecks special rest

end

def Root.checks : Json → List Check
  | .object members =>
    .root (.object members) :: sourceChecks members ++
      Json.memberChecks [contextName, sourceName] members
  | v => [.root v]

end Places

/-- Of these places, the first one that violates the grammar gives the reason `r`. -/
def FirstViolation (checks : List Check) (r : Rejection) : Prop :=
  ∃ passed c later, checks = passed ++ c :: later ∧ (∀ p ∈ passed, p.Passes) ∧ c.Violates r

section Order

variable {c : Check} {a b cs : List Check} {r : Rejection}

@[simp] theorem firstViolation_nil : ¬ FirstViolation [] r := by
  rintro ⟨passed, c, later, h, -⟩
  simp at h

theorem firstViolation_cons :
    FirstViolation (c :: cs) r ↔ c.Violates r ∨ c.Passes ∧ FirstViolation cs r := by
  constructor
  · rintro ⟨passed, c', later, h, hpassed, hviolates⟩
    cases passed with
    | nil =>
      cases h
      exact .inl hviolates
    | cons p passed =>
      cases h
      obtain ⟨hp, hpassed⟩ := List.forall_mem_cons.1 hpassed
      exact .inr ⟨hp, passed, c', later, rfl, hpassed, hviolates⟩
  · rintro (h | ⟨hc, passed, c', later, rfl, hpassed, hviolates⟩)
    · exact ⟨[], c, cs, rfl, by simp, h⟩
    · exact ⟨c :: passed, c', later, rfl, List.forall_mem_cons.2 ⟨hc, hpassed⟩, hviolates⟩

theorem firstViolation_append :
    FirstViolation (a ++ b) r ↔
      FirstViolation a r ∨ (∀ c ∈ a, c.Passes) ∧ FirstViolation b r := by
  induction a with
  | nil => simp
  | cons c a ih =>
    rw [List.cons_append, firstViolation_cons, firstViolation_cons, ih, List.forall_mem_cons]
    tauto

theorem exists_firstViolation_iff :
    (∃ r, FirstViolation cs r) ↔ ¬ ∀ c ∈ cs, c.Passes := by
  induction cs with
  | nil => simp
  | cons c cs ih =>
    rw [List.forall_mem_cons, not_and_or, ← ih]
    simp only [firstViolation_cons, exists_or, exists_and_left, Check.Passes, not_forall, not_not]
    by_cases h : ∃ r, c.Violates r
    · simp [h]
    · simp_all

end Order

def Reports {α : Type} (checks : List Check) (step : Except Rejection α) : Prop :=
  ∀ r, step = .error r ↔ FirstViolation checks r

theorem Reports.exists_ok_iff {α : Type} {checks : List Check} {step : Except Rejection α}
    (h : Reports checks step) : (∃ a, step = .ok a) ↔ ∀ c ∈ checks, c.Passes := by
  rw [← not_iff_not, ← exists_firstViolation_iff]
  cases step with
  | error r => simpa using ⟨r, (h r).1 rfl⟩
  | ok a => simpa using fun r hr => nomatch (h r).2 hr

namespace Node

variable {key : Option Text} {r : Rejection}

theorem ofText_eq_error_iff {t : Text} :
    ofText key t = .error r ↔ (Check.text key t).Violates r := by
  constructor
  · intro h
    rcases hopened : Role.opened? t with - | ⟨role, rest⟩
    · rw [ofText_static hopened] at h
      cases h
    · obtain rfl := Role.opened?_eq_some_iff.1 hopened
      rw [ofText_opener] at h
      split at h
      · rename_i hlast
        obtain ⟨inside, rfl⟩ : ∃ inside, rest = inside ++ [.char '\x7d'] :=
          ⟨_, (List.dropLast_append_getLast? _ hlast).symm⟩
        rw [List.dropLast_concat] at h
        rw [← List.append_assoc] at h ⊢
        split at h
        · cases h
          exact .empty ‹_›
        · split at h
          · cases h
            exact .stray ‹_› ‹_›
          · cases h
      · cases h
        exact .unterminated ‹_›
  · intro h
    cases h with
    | unterminated h => rw [ofText_opener, if_neg h]
    | empty h => rw [ofText_closed, if_pos h]
    | stray h brace => rw [ofText_closed, if_neg h, if_pos brace]

theorem reports_ofText (key : Option Text) (t : Text) :
    Reports [.text key t] (ofText key t) := by
  intro r
  rw [ofText_eq_error_iff, firstViolation_cons]
  simp

theorem reports_sourceOf (members : Keyed Text Json) :
    Reports (sourceChecks members) (sourceOf members) := by
  intro r
  unfold sourceOf sourceChecks
  cases hfind : members.find? sourceName with
  | none => simp
  | some v =>
    simp only [Option.toList_some, List.map_cons, List.map_nil, firstViolation_cons,
      firstViolation_nil, and_false, or_false]
    constructor
    · intro h
      split at h
      · cases h
      · rename_i source heq
        cases heq
        split at h
        · rename_i hblank
          cases h
          exact .source fun t ht => by cases ht; exact hblank
        · cases h
      · rename_i hother heq
        cases heq
        cases h
        exact .source fun t ht => (hother t ht).elim
    · rintro ⟨⟩
      rename_i h
      split
      · simp_all
      · rename_i source heq
        cases heq
        rw [if_pos (h source rfl)]
      · rfl

mutual

/-- Building a tree fails with the first violation of the places of the value. -/
theorem reports_ofJson (key : Option Text) : (v : Json) → Reports (v.checks key) (ofJson key v)
  | .scalar (.text t) => reports_ofText key t
  | .scalar .null | .scalar (.bool _) | .scalar (.number _) => fun r => by
    simp [ofJson, Json.checks]
  | .array items => fun r => by
    rw [ofJson_array_eq_error_iff, Json.checks]
    exact reports_ofItems items r
  | .object members => fun r => by
    rw [ofJson_object_eq_error_iff, Json.checks, firstViolation_append,
      (reports_sourceOf members).exists_ok_iff, reports_sourceOf members r,
      reports_ofMembers [sourceName] members r]

theorem reports_ofItems : (items : List Json) → Reports (Json.itemChecks items) (ofItems items)
  | [] => fun r => by simp [ofItems, Json.itemChecks]
  | item :: rest => fun r => by
    rw [ofItems_cons_eq_error_iff, Json.itemChecks, firstViolation_append,
      (reports_ofJson none item).exists_ok_iff, reports_ofJson none item r, reports_ofItems rest r]

theorem reports_ofMembers (special : List Text) : (members : List (Text × Json)) →
    Reports (Json.memberChecks special members) (ofMembers special members)
  | [] => fun r => by simp [ofMembers, Json.memberChecks]
  | (name, value) :: rest => fun r => by
    rw [Json.memberChecks]
    by_cases h : name ∈ special
    · rw [ofMembers_cons_special h, if_pos h, List.nil_append]
      exact reports_ofMembers special rest r
    · rw [ofMembers_cons_eq_error_iff h, if_neg h, firstViolation_append,
        (reports_ofJson (some name) value).exists_ok_iff, reports_ofJson (some name) value r,
        reports_ofMembers special rest r]

end

end Node

theorem Root.reports_ofJson (v : Json) : Reports (Root.checks v) (Root.ofJson v) := by
  intro r
  cases v with
  | object members =>
    have hroot : (Check.root (.object members)).Passes := by
      rintro r ⟨h⟩
      exact h members rfl
    have hnot : ¬ (Check.root (.object members)).Violates r := hroot r
    rw [Root.ofJson_object_eq_error_iff, (Node.reports_sourceOf members).exists_ok_iff,
      Node.reports_sourceOf members r, Node.reports_ofMembers _ members r, Root.checks,
      List.cons_append, firstViolation_cons, firstViolation_append]
    simp [hnot, hroot]
  | scalar | array =>
    simp only [Root.ofJson, Root.checks, firstViolation_cons, firstViolation_nil, and_false,
      or_false, Except.error.injEq]
    constructor
    · rintro rfl
      exact .root (by simp)
    · rintro ⟨⟩
      rfl

end LiveTemplates
