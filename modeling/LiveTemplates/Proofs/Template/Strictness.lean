import LiveTemplates.Proofs.Reading.Origins
import LiveTemplates.Proofs.Template.Outcomes

/-!
# Which templates are strict

A value is strict if it holds neither an infinite number nor a lone surrogate. A template is as
strict as the value that its contents are read as, so it is strict unless the contents hold a
decimal beyond all finite numbers or escape a surrogate.
-/

namespace LiveTemplates

namespace Json

structure Strict (v : Json) : Prop where
  finite : v.anyScalar Scalar.isInfinite = false
  encodable : v.anyScalar Scalar.hasLone = false

theorem strict_congr {v v' : Json}
    (h : ∀ p : Scalar → Bool, Scalar.Partwise p → v'.anyScalar p = v.anyScalar p) :
    v'.Strict ↔ v.Strict := by
  have hfinite := h _ Scalar.partwise_isInfinite
  have hencodable := h _ Scalar.partwise_hasLone
  exact ⟨fun ⟨f, e⟩ => ⟨hfinite ▸ f, hencodable ▸ e⟩,
    fun ⟨f, e⟩ => ⟨hfinite.trans f, hencodable.trans e⟩⟩

section Names

variable {p : Scalar → Bool} {q : Text → Bool}

mutual

theorem anyScalar_of_withoutNames : (v : Json) →
    (v.withoutNames q).anyScalar p = true → v.anyScalar p = true
  | .scalar _, h => h
  | .array items, h => anyScalarItems_of_withoutNames items h
  | .object members, h => anyScalarMembers_of_withoutNames members h

theorem anyScalarItems_of_withoutNames : (items : List Json) →
    anyScalarItems p (itemsWithoutNames q items) = true → anyScalarItems p items = true
  | [], h => h
  | item :: rest, h => by
    rw [itemsWithoutNames, anyScalarItems, Bool.or_eq_true] at h
    rw [anyScalarItems, Bool.or_eq_true]
    exact h.imp (anyScalar_of_withoutNames item) (anyScalarItems_of_withoutNames rest)

theorem anyScalarMembers_of_withoutNames : (members : List (Text × Json)) →
    anyScalarMembers p (membersWithoutNames q members) = true → anyScalarMembers p members = true
  | [], h => h
  | (name, value) :: rest, h => by
    rw [anyScalarMembers, Bool.or_eq_true, Bool.or_eq_true]
    rw [membersWithoutNames] at h
    split at h
    · exact .inr (anyScalarMembers_of_withoutNames rest h)
    · rw [anyScalarMembers, Bool.or_eq_true, Bool.or_eq_true] at h
      exact h.imp (.imp_right (anyScalar_of_withoutNames value))
        (anyScalarMembers_of_withoutNames rest)

end

/-- A strict value stays strict without some of its members. -/
theorem Strict.withoutNames {v : Json} (h : v.Strict) : (v.withoutNames q).Strict where
  finite := Bool.eq_false_iff.2 fun hp =>
    Bool.eq_false_iff.1 h.finite (anyScalar_of_withoutNames v hp)
  encodable :=
    Bool.eq_false_iff.2 fun hp => Bool.eq_false_iff.1 h.encodable (anyScalar_of_withoutNames v hp)

end Names

theorem not_strict_iff {v : Json} : ¬ v.Strict ↔
    v.anyScalar Scalar.isInfinite = true ∨ v.anyScalar Scalar.hasLone = true := by
  constructor
  · intro h
    by_contra hnot
    rw [not_or, Bool.not_eq_true, Bool.not_eq_true] at hnot
    exact h ⟨hnot.1, hnot.2⟩
  · rintro (hp | hp) ⟨finite, encodable⟩
    · exact Bool.eq_false_iff.1 finite hp
    · exact Bool.eq_false_iff.1 encodable hp

end Json

namespace Root

variable {contents : Bytes} {stripped : List Char} {v : Json} {root : Root}

/-- What contents are read as: a document, given without its comments, and its value as it is
written, with repeated names. -/
def ReadAs (contents : Bytes) (stripped : List Char) (v : Json) : Prop :=
  ∃ document, Utf8.decodeDocument contents = .ok document ∧
    Comments.strip document = .ok stripped ∧ Json.ofDocument stripped = .ok v

theorem ofBytes_eq_ok_iff_readAs : ofBytes contents = .ok root ↔
    ∃ stripped v, ReadAs contents stripped v ∧ Root.ofJson v.distinct = .ok root := by
  rw [ofBytes_eq_ok_iff]
  constructor
  · rintro ⟨document, hdecode, hdocument⟩
    obtain ⟨stripped, v, hstrip, hread, hbuild⟩ := ofDocument_eq_ok_iff.1 hdocument
    exact ⟨stripped, v, ⟨document, hdecode, hstrip, hread⟩, hbuild⟩
  · rintro ⟨stripped, v, ⟨document, hdecode, hstrip, hread⟩, hbuild⟩
    exact ⟨document, hdecode, ofDocument_eq_ok_iff.2 ⟨stripped, v, hstrip, hread, hbuild⟩⟩

/-- What is left of a value that is read is strict unless its document overflows or escapes. -/
theorem ReadAs.overflows_or_escapes (h : ReadAs contents stripped v)
    (unstrict : ¬ v.distinct.Strict) :
    Json.Overflows stripped ∨ Json.EscapesSurrogate stripped := by
  obtain ⟨document, -, -, hread⟩ := h
  have hlexeme : ∀ p : Scalar → Bool, v.distinct.anyScalar p = true →
      ∃ l ∈ Json.lexemes stripped, l.token.tells p = true := by
    intro p hp
    have hv := Json.anyScalar_of_distinct v hp
    rwa [Json.anyScalar_of_ofDocument hread, List.any_eq_true] at hv
  refine (Json.not_strict_iff.1 unstrict).imp (fun hp => ?_) fun hp => ?_
  · obtain ⟨l, hl, htells⟩ := hlexeme _ hp
    exact Json.overflows_of_mem hl htells
  · obtain ⟨l, hl, htells⟩ := hlexeme _ hp
    exact Json.escapesSurrogate_of_mem hl htells

/-- A tree shows a strict value if it was built from one, and only then. -/
theorem strict_outline_iff (hbuild : Root.ofJson v.distinct = .ok root) :
    root.outline.Strict ↔ v.distinct.Strict :=
  Json.strict_congr fun _ hp => anyScalar_outline hp (Json.noRepeats_distinct v) hbuild

end Root

end LiveTemplates
