import LiveTemplates.Proofs.Template.Violation
import LiveTemplates.Template.Compile

/-!
# The outcomes of compiling

Contents are decoded, stripped of their comments, read and built into a tree, one after the other.
They compile if all of this succeeds, and otherwise fail for the first of it that does not.
-/

namespace LiveTemplates

namespace Root

variable {contents : Bytes} {document : List Char} {root : Root} {failure : TemplateFailure}

theorem ofDocument_eq_ok_iff : ofDocument document = .ok root ↔
    ∃ stripped v, Comments.strip document = .ok stripped ∧ Json.ofDocument stripped = .ok v ∧
      Root.ofJson v.distinct = .ok root := by
  rw [ofDocument_unlimited]
  cases hstrip : Comments.strip document with
  | error comment => simp
  | ok stripped =>
    cases hread : Json.ofDocument stripped with
    | error stop => simp [hread]
    | ok v => cases hbuild : Root.ofJson v.distinct <;> simp [hread, hbuild]

inductive Fails (document : List Char) : TemplateFailure → Prop
  | comment {comment : Comments.Unterminated} (h : Comments.strip document = .error comment) :
    Fails document
      (.rejected (.unterminatedComment (Position.before document comment.opened).line))
  | stop {stripped : List Char} {stop : Json.Stop} (h : Comments.strip document = .ok stripped)
    (read : Json.ofDocument stripped = .error stop) :
    Fails document (.ofStop stripped stop)
  | value {stripped : List Char} {v : Json} {c : Check} {r : Rejection}
    (h : Comments.strip document = .ok stripped) (read : Json.ofDocument stripped = .ok v)
    (build : Root.ofJson v.distinct = .error r) (violates : c.Violates r) :
    Fails document (.rejected r)

theorem ofDocument_eq_error_iff :
    ofDocument document = .error failure ↔ Fails document failure := by
  constructor
  · intro h
    rw [ofDocument_unlimited] at h
    split at h
    · cases h
      exact .comment ‹_›
    rename_i stripped hstrip
    split at h
    · cases h
      exact .stop hstrip ‹_›
    rename_i v hread
    split at h
    · rename_i r hbuild
      cases h
      obtain ⟨-, c, -, -, -, hviolates⟩ := (Root.reports_ofJson v.distinct r).1 hbuild
      exact .value hstrip hread hbuild hviolates
    · cases h
  · intro h
    rw [ofDocument_unlimited]
    cases h with
    | comment h => rw [h]
    | stop h read =>
      rw [h]
      dsimp only
      rw [read]
    | value h read build =>
      rw [h]
      dsimp only
      rw [read]
      dsimp only
      rw [build]

theorem ofBytes_of_decode (h : Utf8.decodeDocument contents = .ok document) :
    ofBytes contents = ofDocument document := by
  rw [ofBytes, h]

theorem ofBytes_eq_ok_iff : ofBytes contents = .ok root ↔
    ∃ document, Utf8.decodeDocument contents = .ok document ∧ ofDocument document = .ok root := by
  unfold ofBytes
  cases Utf8.decodeDocument contents <;> simp

end Root

end LiveTemplates
