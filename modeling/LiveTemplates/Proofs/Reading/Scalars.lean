import LiveTemplates.Proofs.Reading.Steps
import LiveTemplates.Proofs.Template.Scalars

/-!
# The scalars of what is read

A reader keeps the scalars of all the lexemes that it goes over, so a value that is read has just
those of the lexemes of its document, the names of members among them. Of members with one name only
the last one is left in the end, so some of the scalars can be lost, but none come in.
-/

namespace LiveTemplates

namespace Json

variable {p : Scalar → Bool}

section Readers

def Token.tells (p : Scalar → Bool) : Token → Bool
  | .text t => p (.text t)
  | .atom s => p s
  | _ => false

def Frame.tells (p : Scalar → Bool) : Frame → Bool
  | .item before => anyScalarItems p before
  | .member before name => anyScalarMembers p before || p (.text name)

def Reader.tells (p : Scalar → Bool) : Reader → Bool
  | .nextValue outer => outer.any (Frame.tells p)
  | .firstItem outer => outer.any (Frame.tells p)
  | .nextName before _ outer => anyScalarMembers p before || outer.any (Frame.tells p)
  | .nextColon before name outer =>
    anyScalarMembers p before || p (.text name) || outer.any (Frame.tells p)
  | .ended v outer => v.anyScalar p || outer.any (Frame.tells p)

theorem anyScalarItems_reverse (items : List Json) :
    anyScalarItems p items.reverse = anyScalarItems p items := by
  simp only [anyScalarItems_eq_any, List.any_reverse]

theorem anyScalarMembers_reverse (members : List (Text × Json)) :
    anyScalarMembers p members.reverse = anyScalarMembers p members := by
  simp only [anyScalarMembers_eq_any, List.any_reverse]

namespace Reader

variable {r r' : Reader}

theorem Begins.tells {outer : List Frame} {t : Token} (h : Begins outer t r) :
    r.tells p = (outer.any (Frame.tells p) || t.tells p) := by
  cases h with
  | atom s => rw [Reader.tells, Token.tells, anyScalar, Bool.or_comm]
  | text t => rw [Reader.tells, Token.tells, anyScalar, Bool.or_comm]
  | openArray => simp [Reader.tells, Token.tells]
  | openObject => simp [Reader.tells, Token.tells, anyScalarMembers]

/-- A reader keeps what a token tells, and what it has kept before. -/
theorem Advances.tells {t : Token} (h : Advances r t r') :
    r'.tells p = (r.tells p || t.tells p) := by
  cases h with
  | value h => exact h.tells
  | emptyArray outer => simp [Reader.tells, Token.tells, anyScalar, anyScalarItems]
  | item h =>
    rw [h.tells]
    simp [Reader.tells, Frame.tells, anyScalarItems]
  | name before mayEnd outer t =>
    simp only [Reader.tells, Token.tells]
    ac_rfl
  | endObject before outer =>
    simp only [Reader.tells, Token.tells, anyScalar, anyScalarMembers_reverse, Bool.or_false]
  | colon before name outer => simp [Reader.tells, Frame.tells, Token.tells]
  | nextItem v before outer =>
    simp [Reader.tells, Frame.tells, Token.tells, anyScalarItems, Bool.or_assoc]
  | lastItem v before outer =>
    simp [Reader.tells, Frame.tells, Token.tells, anyScalar, anyScalarItems_reverse,
      anyScalarItems, Bool.or_assoc, -List.reverse_cons]
  | nextMember v before name outer =>
    simp only [Reader.tells, Frame.tells, Token.tells, anyScalarMembers, List.any_cons,
      Bool.or_false]
    ac_rfl
  | lastMember v before name outer =>
    simp only [Reader.tells, Frame.tells, Token.tells, anyScalar, anyScalarMembers_reverse,
      anyScalarMembers, List.any_cons, Bool.or_false]
    ac_rfl

theorem anyScalar_of_finish {v : Json} (h : r.finish = .ok v) : v.anyScalar p = r.tells p := by
  unfold finish at h
  split at h
  · cases h
    simp [tells]
  all_goals cases h

theorem anyScalar_of_run {ls : List Lexeme} {v : Json} (h : r.run ls = .ok v) :
    v.anyScalar p = (r.tells p || ls.any fun l => l.token.tells p) := by
  induction ls generalizing r with
  | nil => rw [anyScalar_of_finish h, List.any_nil, Bool.or_false]
  | cons l ls ih =>
    rw [run] at h
    cases hadvance : r.advance l with
    | error stop =>
      rw [hadvance] at h
      cases h
    | ok r' =>
      rw [hadvance] at h
      rw [ih h, (advances_of_advance hadvance).tells, List.any_cons, Bool.or_assoc]

end Reader

/-- A value that is read has the scalars of the lexemes of its document. -/
theorem anyScalar_of_ofDocument {document : List Char} {v : Json}
    (h : Json.ofDocument document = .ok v) :
    v.anyScalar p = (lexemes document).any fun l => l.token.tells p := by
  unfold Json.ofDocument at h
  split at h
  · cases h
  · exact (Reader.anyScalar_of_run h).trans (Bool.false_or _)

end Readers

section Repeats

theorem mem_put {members : Keyed Text Json} {name : Text} {value : Json} {m : Text × Json}
    (h : m ∈ members.put name value) : m = (name, value) ∨ m ∈ members := by
  induction members with
  | nil => exact .inl (List.mem_singleton.1 h)
  | cons e rest ih =>
    rw [Keyed.put] at h
    split at h
    · exact (List.mem_cons.1 h).imp_right (List.mem_cons_of_mem e)
    · rcases List.mem_cons.1 h with rfl | hrest
      · exact .inr List.mem_cons_self
      · exact (ih hrest).imp_right (List.mem_cons_of_mem e)

/-- What is left of members with repeated names are some of them. -/
theorem mem_of_mem_lastOfEach {members : Keyed Text Json} {m : Text × Json}
    (h : m ∈ lastOfEach members) : m ∈ members := by
  have hfold : ∀ (ms kept : Keyed Text Json),
      m ∈ ms.foldl (fun kept e => kept.put e.1 e.2) kept → m ∈ kept ∨ m ∈ ms := by
    intro ms
    induction ms with
    | nil => exact fun kept hmem => .inl hmem
    | cons e rest ih =>
      intro kept hmem
      rcases ih _ hmem with hput | hrest
      · rcases mem_put hput with rfl | hkept
        · exact .inr List.mem_cons_self
        · exact .inl hkept
      · exact .inr (List.mem_cons_of_mem e hrest)
  exact (hfold members [] h).resolve_left List.not_mem_nil

mutual

theorem noRepeats_distinct : (v : Json) → v.distinct.NoRepeats
  | .scalar _ => trivial
  | .array items => noItemRepeats_distinctItems items
  | .object members => by
    refine ⟨nodup_keys_lastOfEach _, noMemberRepeats_iff.2 fun name value hmem => ?_⟩
    exact noRepeats_of_mem_distinctMembers members name value (mem_of_mem_lastOfEach hmem)

theorem noItemRepeats_distinctItems : (items : List Json) → NoItemRepeats (distinctItems items)
  | [] => trivial
  | item :: rest => ⟨noRepeats_distinct item, noItemRepeats_distinctItems rest⟩

theorem noRepeats_of_mem_distinctMembers : (members : List (Text × Json)) →
    ∀ name value, (name, value) ∈ distinctMembers members → value.NoRepeats
  | [], _, _, hmem => by cases hmem
  | (name', value') :: rest, name, value, hmem => by
    rcases List.mem_cons.1 hmem with heq | hrest
    · cases heq
      exact noRepeats_distinct value'
    · exact noRepeats_of_mem_distinctMembers rest name value hrest

end

mutual

theorem anyScalar_of_distinct : (v : Json) → v.distinct.anyScalar p = true → v.anyScalar p = true
  | .scalar _, h => h
  | .array items, h => anyScalarItems_of_distinctItems items h
  | .object members, h => by
    rw [distinct, anyScalar, anyScalarMembers_eq_any, List.any_eq_true] at h
    obtain ⟨m, hm, htells⟩ := h
    refine anyScalarMembers_of_distinctMembers members ?_
    rw [anyScalarMembers_eq_any, List.any_eq_true]
    exact ⟨m, mem_of_mem_lastOfEach hm, htells⟩

theorem anyScalarItems_of_distinctItems : (items : List Json) →
    anyScalarItems p (distinctItems items) = true → anyScalarItems p items = true
  | [], h => h
  | item :: rest, h => by
    rw [distinctItems, anyScalarItems, Bool.or_eq_true] at h
    rw [anyScalarItems, Bool.or_eq_true]
    exact h.imp (anyScalar_of_distinct item) (anyScalarItems_of_distinctItems rest)

theorem anyScalarMembers_of_distinctMembers : (members : List (Text × Json)) →
    anyScalarMembers p (distinctMembers members) = true → anyScalarMembers p members = true
  | [], h => h
  | (name, value) :: rest, h => by
    rw [distinctMembers, anyScalarMembers, Bool.or_eq_true, Bool.or_eq_true] at h
    rw [anyScalarMembers, Bool.or_eq_true, Bool.or_eq_true]
    exact h.imp (.imp_right (anyScalar_of_distinct value))
      (anyScalarMembers_of_distinctMembers rest)

end

end Repeats

end Json

end LiveTemplates
