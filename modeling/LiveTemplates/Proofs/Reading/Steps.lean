import LiveTemplates.Json.Reader

/-!
# The steps of a reader

At a lexeme a reader goes on in one of the ways listed here, by the kind of the lexeme, or it stops
for what the lexeme is. It goes on into another container only if its nesting, the number of those
that have begun and not ended, is below the limit.
-/

namespace LiveTemplates

namespace Json

def Container.opener : Container → Token
  | .array => .openArray
  | .object => .openObject

namespace Reader

def nesting : Reader → Nat
  | .nextValue outer => outer.length
  | .firstItem outer => outer.length + 1
  | .nextName _ _ outer => outer.length + 1
  | .nextColon _ _ outer => outer.length + 1
  | .ended _ outer => outer.length

inductive Begins (outer : List Frame) : Token → Reader → Prop
  | atom (s : Scalar) : Begins outer (.atom s) (.ended (.scalar s) outer)
  | text (t : Text) : Begins outer (.text t) (.ended (.text t) outer)
  | openArray (shallow : outer.length < nestingLimit) :
    Begins outer .openArray (.firstItem outer)
  | openObject (shallow : outer.length < nestingLimit) :
    Begins outer .openObject (.nextName [] true outer)

inductive Advances : Reader → Token → Reader → Prop
  | value {outer : List Frame} {t : Token} {r : Reader} (h : Begins outer t r) :
    Advances (.nextValue outer) t r
  | emptyArray (outer : List Frame) :
    Advances (.firstItem outer) .closeArray (.ended (.array []) outer)
  | item {outer : List Frame} {t : Token} {r : Reader} (h : Begins (.item [] :: outer) t r) :
    Advances (.firstItem outer) t r
  | name (before : Members) (mayEnd : Bool) (outer : List Frame) (t : Text) :
    Advances (.nextName before mayEnd outer) (.text t) (.nextColon before t outer)
  | endObject (before : Members) (outer : List Frame) :
    Advances (.nextName before true outer) .closeObject (.ended (.object before.reverse) outer)
  | colon (before : Members) (name : Text) (outer : List Frame) :
    Advances (.nextColon before name outer) .colon (.nextValue (.member before name :: outer))
  | nextItem (v : Json) (before : List Json) (outer : List Frame) :
    Advances (.ended v (.item before :: outer)) .comma (.nextValue (.item (v :: before) :: outer))
  | lastItem (v : Json) (before : List Json) (outer : List Frame) :
    Advances (.ended v (.item before :: outer)) .closeArray
      (.ended (.array (v :: before).reverse) outer)
  | nextMember (v : Json) (before : Members) (name : Text) (outer : List Frame) :
    Advances (.ended v (.member before name :: outer)) .comma
      (.nextName ((name, v) :: before) false outer)
  | lastMember (v : Json) (before : Members) (name : Text) (outer : List Frame) :
    Advances (.ended v (.member before name :: outer)) .closeObject
      (.ended (.object ((name, v) :: before).reverse) outer)

inductive StopsAt (r : Reader) (l : Lexeme) : Stop → Prop
  | unexpected (fault : Fault) : StopsAt r l (.flaw ⟨fault, l.left⟩)
  | flawed {flaw : Flaw} (h : l.token = .flawed flaw) : StopsAt r l (.flaw flaw)
  | constant {c : Constant} (h : l.token = .constant c) : StopsAt r l (.constant c)
  | longInteger {digits : Nat} (h : l.token = .longInteger digits) :
    StopsAt r l (.longInteger digits)
  | tooDeep {container : Container} (h : l.token = container.opener)
    (deep : nestingLimit ≤ r.nesting) : StopsAt r l (.tooDeep container)

variable {r r' : Reader} {l : Lexeme} {stop : Stop}

theorem begins_of_beginValue {outer : List Frame} (h : beginValue outer l = .ok r) :
    Begins outer l.token r := by
  unfold beginValue at h
  split at h
  · rename_i s htoken
    cases h
    exact htoken ▸ .atom s
  · rename_i t htoken
    cases h
    exact htoken ▸ .text t
  · rename_i htoken
    split at h <;> cases h
    exact htoken ▸ .openArray ‹_›
  · rename_i htoken
    split at h <;> cases h
    exact htoken ▸ .openObject ‹_›
  all_goals cases h

theorem advances_of_advance (h : r.advance l = .ok r') : Advances r l.token r' := by
  cases r with
  | nextValue outer => exact .value (begins_of_beginValue h)
  | firstItem outer =>
    simp only [advance] at h
    split at h
    · rename_i htoken
      cases h
      exact htoken ▸ .emptyArray outer
    · exact .item (begins_of_beginValue h)
  | nextName before mayEnd outer =>
    simp only [advance] at h
    split at h
    · rename_i t htoken
      cases h
      exact htoken ▸ .name before mayEnd outer t
    · cases h
    · rename_i htoken
      split at h
      · rename_i hend
        cases h
        exact hend ▸ htoken ▸ .endObject before outer
      · cases h
    · cases h
  | nextColon before name outer =>
    simp only [advance] at h
    split at h
    · rename_i htoken
      cases h
      exact htoken ▸ .colon before name outer
    · cases h
  | ended v outer =>
    match outer with
    | [] => cases h
    | .item before :: outer =>
      simp only [advance] at h
      split at h
      · rename_i htoken
        cases h
        exact htoken ▸ .nextItem v before outer
      · rename_i htoken
        cases h
        exact htoken ▸ .lastItem v before outer
      · cases h
    | .member before name :: outer =>
      simp only [advance] at h
      split at h
      · rename_i htoken
        cases h
        exact htoken ▸ .nextMember v before name outer
      · rename_i htoken
        cases h
        exact htoken ▸ .lastMember v before name outer
      · cases h

theorem stopsAt_of_beginValue {outer : List Frame} (hdepth : outer.length = r.nesting)
    (h : beginValue outer l = .error stop) : StopsAt r l stop := by
  unfold beginValue at h
  split at h
  · cases h
  · cases h
  · split at h <;> cases h
    exact .tooDeep ‹_› (hdepth ▸ Nat.not_lt.1 ‹_›)
  · split at h <;> cases h
    exact .tooDeep ‹_› (hdepth ▸ Nat.not_lt.1 ‹_›)
  · cases h
    exact .constant ‹_›
  · cases h
    exact .longInteger ‹_›
  · cases h
    exact .flawed ‹_›
  · cases h
    exact .unexpected _

theorem stopsAt_of_advance (h : r.advance l = .error stop) : StopsAt r l stop := by
  cases r with
  | nextValue outer => exact stopsAt_of_beginValue rfl h
  | firstItem outer =>
    simp only [advance] at h
    split at h
    · cases h
    · exact stopsAt_of_beginValue rfl h
  | nextName before mayEnd outer =>
    simp only [advance] at h
    split at h
    · cases h
    · cases h
      exact .flawed ‹_›
    · split at h <;> cases h
      exact .unexpected _
    · cases h
      exact .unexpected _
  | nextColon before name outer =>
    simp only [advance] at h
    split at h <;> cases h
    exact .unexpected _
  | ended v outer =>
    match outer with
    | [] =>
      cases h
      exact .unexpected _
    | .item before :: outer =>
      simp only [advance] at h
      split at h <;> cases h
      exact .unexpected _
    | .member before name :: outer =>
      simp only [advance] at h
      split at h <;> cases h
      exact .unexpected _

theorem finish_eq_error (h : r.finish = .error stop) : ∃ fault, stop = .flaw ⟨fault, 0⟩ := by
  unfold finish at h
  split at h
  · cases h
  all_goals
    cases h
    exact ⟨_, rfl⟩

end Reader

end Json

end LiveTemplates
