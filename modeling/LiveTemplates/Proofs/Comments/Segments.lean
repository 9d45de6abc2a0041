import LiveTemplates.Proofs.Writing.Stripping

/-!
# Documents as sequences of segments

A document is read from left to right as string literals, comments and single other characters.
Stripping keeps literals and other characters as they are, drops line comments, and leaves of a
block comment a space and the newlines of its body. Every document can be read like this up to its
end, or else up to the opener of a block comment that has no end.
-/

namespace LiveTemplates

namespace Comments

inductive Segment (α : Type) where
  /-- A character outside of literals and comments. -/
  | other (c : α)
  /-- A string literal, told by what follows its opening quote, up to the closing one if any. -/
  | literal (s : List α)
  | line (body : List α)
  | block (body : List α)
deriving DecidableEq

variable {α : Type} [Glyph α]

def Segment.written : Segment α → List α
  | .other c => [c]
  | .literal s => glyph '"' :: s
  | .line body => glyph '/' :: glyph '/' :: body
  | .block body => glyph '/' :: glyph '*' :: body ++ [glyph '*', glyph '/']

def written (segments : List (Segment α)) : List α := segments.flatMap Segment.written

@[simp] theorem written_nil : written ([] : List (Segment α)) = [] := rfl

@[simp] theorem written_cons (s : Segment α) (segments : List (Segment α)) :
    written (s :: segments) = s.written ++ written segments := rfl

@[simp] theorem written_append (a b : List (Segment α)) :
    written (a ++ b) = written a ++ written b := List.flatMap_append

inductive Inside : List α → Prop
  | nil : Inside []
  | plain {c : α} {s : List α} (quote : c ≠ glyph '"') (backslash : c ≠ glyph '\\')
    (rest : Inside s) : Inside (c :: s)
  | escaped {c : α} {s : List α} (rest : Inside s) : Inside (glyph '\\' :: c :: s)

/-- What follows the quote of a literal that has no closing one. A backslash may come last. -/
def Unclosed (s : List α) : Prop := Inside s ∨ ∃ t, Inside t ∧ s = t ++ [glyph '\\']

def OpensComment (s : List α) : Prop := [glyph '/', glyph '/'] <+: s ∨ [glyph '/', glyph '*'] <+: s

def EndsLine (s : List α) : Prop := ∀ c ∈ s.head?, c = glyph '\n'

/-- Segments one after the other, each as it has to be read in view of what follows, where `rest`
follows the last one. -/
inductive Reading (rest : List α) : List (Segment α) → Prop
  | nil : Reading rest []
  | other {c : α} {segments : List (Segment α)} (quote : c ≠ glyph '"')
    (opener : ¬ OpensComment (c :: (written segments ++ rest))) (later : Reading rest segments) :
    Reading rest (.other c :: segments)
  | literal {s : List α} {segments : List (Segment α)} (inside : Inside s)
    (later : Reading rest segments) : Reading rest (.literal (s ++ [glyph '"']) :: segments)
  | unclosed {s : List α} (inside : Unclosed s) (last : rest = []) : Reading rest [.literal s]
  | line {body : List α} {segments : List (Segment α)} (newline : glyph '\n' ∉ body)
    (ends : EndsLine (written segments ++ rest)) (later : Reading rest segments) :
    Reading rest (.line body :: segments)
  | block {body : List α} {segments : List (Segment α)}
    (closer : ¬ [glyph '*', glyph '/'] <:+: body) (later : Reading rest segments) :
    Reading rest (.block body :: segments)

variable {rest : List α} {segments : List (Segment α)}

theorem Reading.newline_notMem (h : Reading rest segments) {body : List α}
    (hbody : .line body ∈ segments) : glyph '\n' ∉ body := by
  induction h with
  | nil => cases hbody
  | other _ _ _ ih => exact ih (by simpa using hbody)
  | literal _ _ ih => exact ih (by simpa using hbody)
  | unclosed _ _ => simp at hbody
  | block _ _ ih => exact ih (by simpa using hbody)
  | line newline _ _ ih =>
    rcases List.mem_cons.1 hbody with hsame | hlater
    · cases hsame
      exact newline
    · exact ih hlater

section Stripping

variable [DecidableEq α]

def Segment.stripped : Segment α → List α
  | .other c => [c]
  | .literal s => glyph '"' :: s
  | .line _ => []
  | .block body => glyph ' ' :: newlines body

def stripped (segments : List (Segment α)) : List α := segments.flatMap Segment.stripped

@[simp] theorem stripped_nil : stripped ([] : List (Segment α)) = [] := rfl

@[simp] theorem stripped_cons (s : Segment α) (segments : List (Segment α)) :
    stripped (s :: segments) = s.stripped ++ stripped segments := rfl

@[simp] theorem stripped_append (a b : List (Segment α)) :
    stripped (a ++ b) = stripped a ++ stripped b := List.flatMap_append

theorem stripFrom_other {c : α} {s : List α} (quote : c ≠ glyph '"')
    (opener : ¬ OpensComment (c :: s)) :
    stripFrom .code (c :: s) = keep [c] (stripFrom .code s) := by
  refine stripFrom_cons ?_
  rw [step, if_neg quote, if_neg, if_neg]
  · rintro ⟨rfl, hstar⟩
    obtain ⟨s', rfl⟩ := List.head?_eq_some_iff.1 hstar
    exact opener (.inr (List.prefix_append [glyph '/', glyph '*'] s'))
  · rintro ⟨rfl, hslash⟩
    obtain ⟨s', rfl⟩ := List.head?_eq_some_iff.1 hslash
    exact opener (.inl (List.prefix_append [glyph '/', glyph '/'] s'))

theorem strips_inside {s : List α} (h : Inside s) : Strips .literal s s .literal := by
  induction h with
  | nil => exact .nil .literal
  | plain quote backslash _ ih => exact (strips_literal quote backslash).cons ih
  | escaped _ ih => exact (strips_escape _).append ih

theorem stripFrom_unclosed {s : List α} (h : Unclosed s) : stripFrom .literal s = .ok s := by
  rcases h with h | ⟨t, h, rfl⟩
  · exact (strips_inside h).whole rfl
  · exact ((strips_inside h).append strips_backslash).whole rfl

theorem stripFrom_line {body s : List α} (newline : glyph '\n' ∉ body) (ends : EndsLine s) :
    stripFrom .line (body ++ s) = stripFrom .code s := by
  cases s with
  | nil =>
    rw [List.append_nil, stripFrom_line_end newline]
    rfl
  | cons c s =>
    obtain rfl : c = glyph '\n' := ends c rfl
    have hline := strips_line newline s
    rw [List.append_assoc, List.singleton_append] at hline
    rw [hline, stripFrom_other (by simp) (by simp [OpensComment])]

theorem stripFrom_reading (h : Reading rest segments) :
    stripFrom .code (written segments ++ rest) =
      keep (stripped segments) (stripFrom .code rest) := by
  induction h with
  | nil => exact Strips.nil .code rest
  | other quote opener _ ih =>
    rw [written_cons, List.append_assoc, Segment.written, List.singleton_append,
      stripFrom_other quote opener, ih, keep_keep, stripped_cons, Segment.stripped]
  | literal inside _ ih =>
    have hliteral :=
      (strips_opening_quote.append (strips_inside inside)).append strips_closing_quote
    rw [written_cons, List.append_assoc, stripped_cons, ← keep_keep, ← ih]
    exact hliteral _
  | @unclosed s inside last =>
    subst last
    have hopened := strips_opening_quote s
    rw [stripFrom_unclosed inside] at hopened
    have hwritten : written [.literal s] ++ [] = [glyph '"'] ++ s := by simp [Segment.written]
    have hstripped : stripped [.literal s] = [glyph '"'] ++ s := by simp [Segment.stripped]
    rw [hwritten, hopened, hstripped, keep_atEnd rfl]
    rfl
  | line newline ends _ ih =>
    rw [written_cons, List.append_assoc, stripped_cons, Segment.stripped, List.nil_append, ← ih]
    exact (stripFrom_line_opener _).trans (stripFrom_line newline ends)
  | block closer _ ih =>
    rw [written_cons, List.append_assoc, stripped_cons, ← keep_keep, ← ih]
    exact strips_block_comment closer _

theorem stripFrom_block_end {body : List α} (h : ¬ [glyph '*', glyph '/'] <:+: body)
    (opened : Nat) : stripFrom (.block opened) body = .error ⟨opened⟩ := by
  induction body with
  | nil => rfl
  | cons c body ih =>
    have hopen : ¬ [glyph '*', glyph '/'] <+: c :: body := fun hbegins => h hbegins.isInfix
    have hbody : ¬ [glyph '*', glyph '/'] <:+: body := fun hin =>
      h (hin.trans (List.suffix_cons c body).isInfix)
    rw [stripFrom_block hopen, ih hbody]
    rfl

theorem strip_written_reading (h : Reading [] segments) :
    strip (written segments) = .ok (stripped segments) := by
  have hstrip := stripFrom_reading h
  rwa [List.append_nil, keep_atEnd rfl] at hstrip

theorem strip_unended {body : List α} (h : Reading (glyph '/' :: glyph '*' :: body) segments)
    (closer : ¬ [glyph '*', glyph '/'] <:+: body) :
    strip (written segments ++ glyph '/' :: glyph '*' :: body) = .error ⟨body.length + 2⟩ := by
  rw [strip, stripFrom_reading h, stripFrom_block_opener, stripFrom_block_end closer]
  rfl

end Stripping

section Existence

def EndsLiteral (s : List α) : Prop :=
  (∃ t after, Inside t ∧ s = t ++ glyph '"' :: after) ∨ Unclosed s

theorem EndsLiteral.append {s : List α} (h : EndsLiteral s) (front : List α)
    (hfront : ∀ t, Inside t → Inside (front ++ t)) : EndsLiteral (front ++ s) := by
  rcases h with ⟨t, after, ht, rfl⟩ | ht | ⟨t, ht, rfl⟩
  · exact .inl ⟨front ++ t, after, hfront t ht, by rw [List.append_assoc]⟩
  · exact .inr (.inl (hfront s ht))
  · exact .inr (.inr ⟨front ++ t, hfront t ht, by rw [List.append_assoc]⟩)

theorem endsLiteral (s : List α) : EndsLiteral s := by
  match s with
  | [] => exact .inr (.inl .nil)
  | c :: s =>
    by_cases quote : c = glyph '"'
    · exact .inl ⟨[], s, .nil, by rw [quote]; rfl⟩
    by_cases backslash : c = glyph '\\'
    · subst backslash
      match s with
      | [] => exact .inr (.inr ⟨[], .nil, rfl⟩)
      | d :: s => exact (endsLiteral s).append [glyph '\\', d] fun t ht => .escaped ht
    · exact (endsLiteral s).append [c] fun t ht => .plain quote backslash ht

/-- A block comment ends at the first closer, if there is any. -/
theorem exists_closer (s : List α) : ¬ [glyph '*', glyph '/'] <:+: s ∨
    ∃ body after, ¬ [glyph '*', glyph '/'] <:+: body ∧
      s = body ++ glyph '*' :: glyph '/' :: after := by
  induction s with
  | nil => exact .inl (by simp)
  | cons c s ih =>
    by_cases here : [glyph '*', glyph '/'] <+: c :: s
    · obtain ⟨after, hafter⟩ := here
      exact .inr ⟨[], after, by simp, hafter.symm⟩
    rcases ih with hnone | ⟨body, after, hbody, rfl⟩
    · exact .inl fun hin => (List.infix_cons_iff.1 hin).elim here hnone
    · refine .inr ⟨c :: body, after, fun hin => ?_, rfl⟩
      rcases List.infix_cons_iff.1 hin with hbegins | hbody'
      · exact here (hbegins.trans (List.prefix_append (c :: body) _))
      · exact hbody hbody'

/-- What no reading goes past: the end of a document, or a block comment without an end. -/
def Unreadable (rest : List α) : Prop :=
  rest = [] ∨ ∃ body, ¬ [glyph '*', glyph '/'] <:+: body ∧ rest = glyph '/' :: glyph '*' :: body

def Readable (document : List α) : Prop :=
  ∃ (segments : List (Segment α)) (rest : List α),
    Reading rest segments ∧ Unreadable rest ∧ document = written segments ++ rest

theorem readable_nil : Readable ([] : List α) := ⟨[], [], .nil, .inl rfl, rfl⟩

theorem Readable.cons {s : Segment α} {after : List α} (h : Readable after)
    (hs : ∀ segments rest, Reading rest segments → after = written segments ++ rest →
      Reading rest (s :: segments)) : Readable (s.written ++ after) := by
  obtain ⟨segments, rest, hreading, hrest, rfl⟩ := h
  exact ⟨s :: segments, rest, hs segments rest hreading rfl, hrest,
    by rw [written_cons, List.append_assoc]⟩

variable [DecidableEq α]

theorem endsLine_dropWhile (s : List α) : EndsLine (s.dropWhile (· ≠ glyph '\n')) := by
  intro c hc
  have hhead := List.head?_dropWhile_not (· ≠ glyph '\n') s
  rw [Option.mem_def.1 hc] at hhead
  simpa using hhead

theorem newline_notMem_takeWhile (s : List α) : glyph '\n' ∉ s.takeWhile (· ≠ glyph '\n') := by
  intro h
  simpa using List.all_eq_true.1 List.all_takeWhile _ h

theorem readable (document : List α) : Readable document := by
  induction hlength : document.length using Nat.strongRecOn generalizing document with
  | _ n ih =>
    have shorter : ∀ after : List α, after.length < document.length → Readable after :=
      fun after hafter => ih after.length (hlength ▸ hafter) after rfl
    match document with
    | [] => exact readable_nil
    | c :: s =>
      by_cases quote : c = glyph '"'
      · subst quote
        rcases endsLiteral s with ⟨t, after, ht, rfl⟩ | ht
        · have hafter : Readable after := shorter after (by simp; omega)
          have hcons := hafter.cons (s := .literal (t ++ [glyph '"'])) fun segments rest h _ =>
            .literal ht h
          simpa [Segment.written] using hcons
        · exact ⟨[.literal s], [], .unclosed ht rfl, .inl rfl, by simp [Segment.written]⟩
      by_cases opener : OpensComment (c :: s)
      · rcases opener with ⟨s', hs'⟩ | ⟨s', hs'⟩ <;> rw [← hs'] at shorter ⊢
        · have hsplit : s'.takeWhile (· ≠ glyph '\n') ++ s'.dropWhile (· ≠ glyph '\n') = s' :=
            List.takeWhile_append_dropWhile
          have hafter : Readable (s'.dropWhile (· ≠ glyph '\n')) := by
            refine shorter _ ?_
            have := (List.dropWhile_sublist (· ≠ glyph '\n') (l := s')).length_le
            simp only [List.length_append, List.length_cons]
            omega
          have hcons := hafter.cons (s := .line (s'.takeWhile (· ≠ glyph '\n')))
            fun segments rest h hends =>
              .line (newline_notMem_takeWhile s') (hends ▸ endsLine_dropWhile s') h
          rw [Segment.written, List.cons_append, List.cons_append, hsplit] at hcons
          exact hcons
        · rcases exists_closer s' with hnone | ⟨body, after, hbody, rfl⟩
          · exact ⟨[], _, .nil, .inr ⟨s', hnone, rfl⟩, rfl⟩
          · have hafter : Readable after := shorter after (by simp; omega)
            have hcons := hafter.cons (s := .block body) fun segments rest h _ => .block hbody h
            simpa [Segment.written] using hcons
      · have hafter : Readable s := shorter s (by simp)
        exact hafter.cons (s := .other c) fun segments rest h hs => .other quote (hs ▸ opener) h

end Existence

section Literals

variable {s t u v : List α}

/-- Of a literal that has begun, what is left up to the closing quote is inside as well. -/
theorem Inside.split (hu : Inside u) (hs : Inside s) (h : u ++ v = s ++ glyph '"' :: t) :
    ∃ w, Inside w ∧ s = u ++ w ∧ v = w ++ glyph '"' :: t := by
  induction hu generalizing s with
  | nil => exact ⟨s, hs, rfl, h⟩
  | plain quote backslash _ ih =>
    cases hs with
    | nil => exact absurd (List.cons.inj h).1 quote
    | plain _ _ hs =>
      obtain ⟨rfl, hrest⟩ := List.cons.inj h
      obtain ⟨w, hw, rfl, rfl⟩ := ih hs hrest
      exact ⟨w, hw, rfl, rfl⟩
    | escaped _ => exact absurd (List.cons.inj h).1 backslash
  | escaped _ ih =>
    cases hs with
    | nil => exact absurd (List.cons.inj h).1 (by simp)
    | plain _ backslash _ => exact absurd (List.cons.inj h).1.symm backslash
    | escaped hs =>
      obtain ⟨rfl, hrest⟩ := List.cons.inj (List.cons.inj h).2
      obtain ⟨w, hw, rfl, rfl⟩ := ih hs hrest
      exact ⟨w, hw, rfl, rfl⟩

theorem not_inside_quote (s : List α) : ¬ Inside (glyph '"' :: s) := by
  intro h
  generalize hquote : (glyph '"' : α) = c at h
  cases h with
  | plain quote => exact quote hquote.symm
  | escaped => simp at hquote

theorem Inside.closed_unique (hu : Inside u) (hs : Inside s)
    (h : u ++ glyph '"' :: v = s ++ glyph '"' :: t) : u = s ∧ v = t := by
  obtain ⟨w, hw, rfl, hrest⟩ := hu.split hs h
  cases w with
  | nil => exact ⟨(List.append_nil u).symm, (List.cons.inj hrest).2⟩
  | cons c w =>
    obtain ⟨rfl, -⟩ := List.cons.inj hrest
    exact absurd hw (not_inside_quote w)

theorem Inside.not_unclosed (hs : Inside s) : ¬ Unclosed (s ++ glyph '"' :: t) := by
  rintro (h | ⟨u, hu, h⟩)
  · obtain ⟨w, -, -, hrest⟩ := h.split hs (List.append_nil _)
    simp at hrest
  · obtain ⟨w, -, -, hrest⟩ := hu.split hs h.symm
    cases w with
    | nil => exact absurd (List.cons.inj hrest).1 (by simp)
    | cons c w => simp at hrest

end Literals

section Uniqueness

theorem line_body_of_le {body body' s s' : List α} (newline : glyph '\n' ∉ body')
    (ends : EndsLine s) (h : body ++ s = body' ++ s') (hle : body.length ≤ body'.length) :
    body = body' := by
  obtain ⟨w, rfl⟩ : body <+: body' := List.prefix_of_prefix_length_le
    (List.prefix_append body s) (h ▸ List.prefix_append body' s') hle
  cases w with
  | nil => exact (List.append_nil body).symm
  | cons c w =>
    rw [List.append_assoc, List.append_cancel_left_eq] at h
    have hnewline : c = glyph '\n' := ends c (by rw [h]; rfl)
    exact absurd (by simp [hnewline]) newline

/-- A line comment goes on to the end of its line. -/
theorem line_unique {body body' s s' : List α} (newline : glyph '\n' ∉ body)
    (newline' : glyph '\n' ∉ body') (ends : EndsLine s) (ends' : EndsLine s')
    (h : body ++ s = body' ++ s') : body = body' ∧ s = s' := by
  have hbody : body = body' := by
    rcases Nat.le_total body.length body'.length with hle | hle
    · exact line_body_of_le newline' ends h hle
    · exact (line_body_of_le newline ends' h.symm hle).symm
  subst hbody
  exact ⟨rfl, List.append_cancel_left h⟩

theorem block_body_of_le {body body' s s' : List α}
    (closer : ¬ [glyph '*', glyph '/'] <:+: body')
    (h : body ++ glyph '*' :: glyph '/' :: s = body' ++ glyph '*' :: glyph '/' :: s')
    (hle : body.length ≤ body'.length) : body = body' := by
  obtain ⟨w, rfl⟩ : body <+: body' := List.prefix_of_prefix_length_le
    (List.prefix_append body _) (h ▸ List.prefix_append body' _) hle
  rw [List.append_assoc, List.append_cancel_left_eq] at h
  match w with
  | [] => exact (List.append_nil body).symm
  | [c] =>
    obtain ⟨-, hslash⟩ := List.cons.inj h
    exact absurd (List.cons.inj hslash).1 (by simp)
  | c :: d :: w =>
    obtain ⟨rfl, hslash⟩ := List.cons.inj h
    obtain ⟨rfl, -⟩ := List.cons.inj hslash
    exact absurd ⟨body, w, by simp⟩ closer

/-- A block comment goes on to its first closer. -/
theorem block_unique {body body' s s' : List α} (closer : ¬ [glyph '*', glyph '/'] <:+: body)
    (closer' : ¬ [glyph '*', glyph '/'] <:+: body')
    (h : body ++ glyph '*' :: glyph '/' :: s = body' ++ glyph '*' :: glyph '/' :: s') :
    body = body' ∧ s = s' := by
  have hbody : body = body' := by
    rcases Nat.le_total body.length body'.length with hle | hle
    · exact block_body_of_le closer' h hle
    · exact (block_body_of_le closer h.symm hle).symm
  subst hbody
  obtain ⟨-, hslash⟩ := List.cons.inj (List.append_cancel_left h)
  exact ⟨rfl, (List.cons.inj hslash).2⟩

theorem Segment.written_ne_nil (s : Segment α) : s.written ≠ [] := by
  cases s <;> simp [written]

theorem opensComment_line (body : List α) (segments : List (Segment α)) :
    OpensComment (written (.line body :: segments)) := .inl ⟨body ++ written segments, rfl⟩

theorem opensComment_block (body : List α) (segments : List (Segment α)) :
    OpensComment (written (.block body :: segments)) :=
  .inr ⟨body ++ [glyph '*', glyph '/'] ++ written segments, rfl⟩

theorem written_cons_ne_nil (s : Segment α) (l : List (Segment α)) : written (s :: l) ≠ [] :=
  fun h => s.written_ne_nil (List.append_eq_nil_iff.1 h).1

/-- No comment begins at a character that stands by itself. -/
theorem written_other_ne {c : α} {l l' : List (Segment α)}
    (opener : ¬ OpensComment (c :: (written l ++ []))) (opens : OpensComment (written l')) :
    written (.other c :: l) ≠ written l' := by
  intro h
  have hsame : c :: written l = written l' := h
  rw [List.append_nil] at opener
  exact opener (hsame ▸ opens)

theorem written_unclosed_ne {s t : List α} {l : List (Segment α)} (unclosed : Unclosed s)
    (inside : Inside t) : written [.literal s] ≠ written (.literal (t ++ [glyph '"']) :: l) := by
  intro h
  have hsame : s = t ++ glyph '"' :: written l := by simpa [Segment.written] using h
  exact inside.not_unclosed (hsame ▸ unclosed)

/-- A document is read in one way. -/
theorem Reading.unique {a b : List (Segment α)} (ha : Reading [] a) (hb : Reading [] b)
    (h : written a = written b) : a = b := by
  induction ha generalizing b with
  | nil =>
    cases hb with
    | nil => rfl
    | _ => exact absurd h.symm (written_cons_ne_nil _ _)
  | other quote opener _ ih =>
    cases hb with
    | nil => exact absurd h (written_cons_ne_nil _ _)
    | other _ _ hb =>
      obtain ⟨rfl, hrest⟩ := List.cons.inj h
      rw [ih hb hrest]
    | literal _ _ => exact absurd (List.cons.inj h).1 quote
    | unclosed _ _ => exact absurd (List.cons.inj h).1 quote
    | line _ _ _ => exact absurd h (written_other_ne opener (opensComment_line _ _))
    | block _ _ => exact absurd h (written_other_ne opener (opensComment_block _ _))
  | literal inside _ ih =>
    cases hb with
    | nil => exact absurd h (written_cons_ne_nil _ _)
    | other quote _ _ => exact absurd (List.cons.inj h).1.symm quote
    | literal inside' hb =>
      obtain ⟨rfl, hrest⟩ := inside.closed_unique inside' (by simpa [Segment.written] using h)
      rw [ih hb hrest]
    | unclosed unclosed _ => exact absurd h.symm (written_unclosed_ne unclosed inside)
    | line _ _ _ => exact absurd (List.cons.inj h).1 (by simp)
    | block _ _ => exact absurd (List.cons.inj h).1 (by simp)
  | unclosed unclosed _ =>
    cases hb with
    | nil => exact absurd h (written_cons_ne_nil _ _)
    | other quote _ _ => exact absurd (List.cons.inj h).1.symm quote
    | literal inside _ => exact absurd h (written_unclosed_ne unclosed inside)
    | unclosed _ _ => simpa [Segment.written] using h
    | line _ _ _ => exact absurd (List.cons.inj h).1 (by simp)
    | block _ _ => exact absurd (List.cons.inj h).1 (by simp)
  | line newline ends _ ih =>
    rw [List.append_nil] at ends
    cases hb with
    | nil => exact absurd h (written_cons_ne_nil _ _)
    | other _ opener _ => exact absurd h.symm (written_other_ne opener (opensComment_line _ _))
    | literal _ _ => exact absurd (List.cons.inj h).1 (by simp)
    | unclosed _ _ => exact absurd (List.cons.inj h).1 (by simp)
    | line newline' ends' hb =>
      rw [List.append_nil] at ends'
      obtain ⟨rfl, hrest⟩ := line_unique newline newline' ends ends'
        (by simpa [Segment.written] using h)
      rw [ih hb hrest]
    | block _ _ => exact absurd (List.cons.inj (List.cons.inj h).2).1 (by simp)
  | block closer _ ih =>
    cases hb with
    | nil => exact absurd h (written_cons_ne_nil _ _)
    | other _ opener _ => exact absurd h.symm (written_other_ne opener (opensComment_block _ _))
    | literal _ _ => exact absurd (List.cons.inj h).1 (by simp)
    | unclosed _ _ => exact absurd (List.cons.inj h).1 (by simp)
    | line _ _ _ => exact absurd (List.cons.inj (List.cons.inj h).2).1 (by simp)
    | block closer' hb =>
      obtain ⟨rfl, hrest⟩ := block_unique closer closer' (by simpa [Segment.written] using h)
      rw [ih hb hrest]

end Uniqueness

section Results

variable [DecidableEq α]

/-- What stripping gives is what it leaves of the segments of a reading to the end. -/
theorem strip_eq_ok_iff {document t : List α} : strip document = .ok t ↔
    ∃ segments, Reading [] segments ∧ written segments = document ∧ stripped segments = t := by
  constructor
  · intro h
    obtain ⟨segments, rest, hreading, rfl | ⟨body, hbody, rfl⟩, rfl⟩ := readable document
    · rw [List.append_nil, strip_written_reading hreading] at h
      exact ⟨segments, hreading, (List.append_nil _).symm, Except.ok.inj h⟩
    · rw [strip_unended hreading hbody] at h
      cases h
  · rintro ⟨segments, hreading, rfl, rfl⟩
    exact strip_written_reading hreading

/-- It fails where a reading comes to a block comment that has no end. -/
theorem strip_eq_error_iff {document : List α} {comment : Unterminated} :
    strip document = .error comment ↔ ∃ segments body, ¬ [glyph '*', glyph '/'] <:+: body ∧
      Reading (glyph '/' :: glyph '*' :: body) segments ∧
      document = written segments ++ glyph '/' :: glyph '*' :: body ∧
      comment = ⟨body.length + 2⟩ := by
  constructor
  · intro h
    obtain ⟨segments, rest, hreading, rfl | ⟨body, hbody, rfl⟩, rfl⟩ := readable document
    · rw [List.append_nil, strip_written_reading hreading] at h
      cases h
    · rw [strip_unended hreading hbody] at h
      exact ⟨segments, body, hbody, hreading, rfl, (Except.error.inj h).symm⟩
  · rintro ⟨segments, body, hbody, hreading, rfl, rfl⟩
    exact strip_unended hreading hbody

end Results

end Comments

end LiveTemplates
