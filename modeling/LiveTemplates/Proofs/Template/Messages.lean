import LiveTemplates.Proofs.Files.Refusals
import LiveTemplates.Template.Compile
import LiveTemplates.Watch.Error

/-!
# What rejections say

A quoted text has no lone surrogates, since none of them is printable. So whatever a document holds,
what is told about it is a valid text.
-/

namespace LiveTemplates

theorem CodePoint.hasLone_quoted (quote : Char) (p : CodePoint) :
    Text.hasLone (p.quoted quote) = false := by
  unfold quoted
  split
  · rename_i h
    rcases h with rfl | rfl <;> rfl
  repeat
    split
    · rfl
  split
  · rename_i hprintable
    cases p with
    | char c => rfl
    | lone offset => rw [isPrintable_lone] at hprintable; cases hprintable
  split
  · simp
  split <;> simp

@[simp] theorem Text.hasLone_quoted (t : Text) : t.quoted.hasLone = false := by
  have hbody : hasLone (t.flatMap (CodePoint.quoted t.quoteFor)) = false := by
    rw [hasLone, List.any_flatMap, List.any_eq_false]
    intro p _
    rw [← hasLone, CodePoint.hasLone_quoted]
    exact Bool.false_ne_true
  have hquote : hasLone [.char t.quoteFor] = false := rfl
  calc t.quoted.hasLone
    _ = hasLone ([.char t.quoteFor] ++ t.flatMap (CodePoint.quoted t.quoteFor) ++
        [.char t.quoteFor]) := rfl
    _ = false := by rw [hasLone_append, hasLone_append, hbody, hquote]; rfl

@[simp] theorem Utf8.Malformed.hasLone_message (m : Malformed) : m.message.hasLone = false := by
  unfold message
  dsimp only
  split <;> simp

@[simp] theorem Rejection.hasLone_quotedKey (key : Option Text) :
    (quotedKey key).hasLone = false := by
  cases key with
  | none => rfl
  | some key => exact key.hasLone_quoted

theorem Rejection.hasLone_message (r : Rejection) : r.message.hasLone = false := by
  cases r <;> simp [message]

end LiveTemplates
