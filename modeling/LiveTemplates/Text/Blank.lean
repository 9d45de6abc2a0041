import LiveTemplates.Text.Basic

/-!
# Blank code points

The blank code points are the white space and separator characters of Unicode together with the
four information separators; the trimmed text has none at either end.
-/

namespace LiveTemplates

def CodePoint.isBlank (p : CodePoint) : Bool :=
  let n := p.value
  (0x09 ≤ n && n ≤ 0x0D) || (0x1C ≤ n && n ≤ 0x20) || n == 0x85 || n == 0xA0 || n == 0x1680 ||
    (0x2000 ≤ n && n ≤ 0x200A) || n == 0x2028 || n == 0x2029 || n == 0x202F || n == 0x205F ||
    n == 0x3000

namespace Text

def isBlank (t : Text) : Bool := t.all CodePoint.isBlank

/-- The text without its trailing blank code points. -/
def trimEnd : Text → Text
  | [] => []
  | p :: t =>
    match trimEnd t with
    | [] => if p.isBlank then [] else [p]
    | q :: r => p :: q :: r

/-- The text without the blank code points at both ends. -/
def trim (t : Text) : Text := trimEnd (t.dropWhile CodePoint.isBlank)

/-- A text is its trimmed end with blank code points behind. -/
theorem exists_eq_trimEnd_append (t : Text) :
    ∃ b : Text, t = trimEnd t ++ b ∧ b.isBlank = true := by
  induction t with
  | nil => exact ⟨[], rfl, rfl⟩
  | cons p t ih =>
    obtain ⟨b, hb, hblank⟩ := ih
    cases h : trimEnd t with
    | nil =>
      rw [h, List.nil_append] at hb
      subst hb
      cases hp : p.isBlank with
      | true =>
        refine ⟨p :: t, by simp [trimEnd, h, hp], ?_⟩
        rw [isBlank, List.all_cons, hp, Bool.true_and]
        exact hblank
      | false => exact ⟨t, by simp [trimEnd, h, hp], hblank⟩
    | cons q r =>
      refine ⟨b, ?_, hblank⟩
      rw [trimEnd, h]
      simpa [h] using hb

theorem isBlank_getLast_trimEnd (t : Text) (p : CodePoint) (h : (trimEnd t).getLast? = some p) :
    p.isBlank = false := by
  induction t with
  | nil => simp [trimEnd] at h
  | cons q t ih =>
    rw [trimEnd] at h
    cases ht : trimEnd t with
    | nil =>
      cases hq : q.isBlank with
      | true => simp [ht, hq] at h
      | false =>
        simp [ht, hq] at h
        exact h ▸ hq
    | cons a r =>
      apply ih
      rw [ht] at h ⊢
      simpa using h

theorem trimEnd_eq_self {t : Text} (h : ∀ p, t.getLast? = some p → p.isBlank = false) :
    trimEnd t = t := by
  induction t with
  | nil => rfl
  | cons p t ih =>
    cases t with
    | nil => simp [trimEnd, h p rfl]
    | cons q r =>
      have hrest : trimEnd (q :: r) = q :: r := ih fun x hx => h x (by simpa using hx)
      rw [trimEnd, hrest]

/-- A text that has been trimmed has no blank code point at either end. -/
@[simp] theorem trim_trim (t : Text) : trim (trim t) = trim t := by
  have hlast : trimEnd (trim t) = trim t :=
    trimEnd_eq_self fun p hp => isBlank_getLast_trimEnd _ p hp
  have hfirst : (trim t).dropWhile CodePoint.isBlank = trim t := by
    cases h : t.dropWhile CodePoint.isBlank with
    | nil => simp [trim, h, trimEnd]
    | cons p r =>
      have hp : p.isBlank = false := by
        simpa [h] using List.head?_dropWhile_not CodePoint.isBlank t
      rw [trim, h, trimEnd]
      cases trimEnd r <;> simp [hp]
  rw [trim, hfirst, hlast]

end Text

end LiveTemplates
