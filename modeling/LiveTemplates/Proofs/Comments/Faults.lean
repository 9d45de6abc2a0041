import LiveTemplates.Proofs.Comments.Lexemes
import LiveTemplates.Proofs.Template.Outcomes

/-!
# Lines and columns of syntax faults

A syntax fault is found in what stripping leaves of a document, at a character that was kept or at
the end. Since what is kept stays on its line, the line of the fault is that of the character in the
document itself. Its column is that in the document only if no comment stands before it on the line:
every comment there makes it smaller.
-/

namespace LiveTemplates

open Comments

namespace Comments

variable {α : Type} [DecidableEq α] [Glyph α]

/-- A place in the document and in its stripped text, with `left` characters of the latter behind:
a character that was kept, or the end. Before it stand the pieces `pre`. -/
inductive Located (segments : List (Segment α)) : Nat → List (Piece α) → Prop
  | atKept {pre : List (Piece α)} {c : α} {post : List (Piece α)}
    (h : pieces segments = pre ++ .kept c :: post) :
    Located segments (results (.kept c :: post)).length pre
  | atEnd : Located segments 0 (pieces segments)

theorem KeptAt.located {segments : List (Segment Char)} {left : Nat} (h : KeptAt segments left) :
    ∃ pre, Located segments left pre := by
  obtain ⟨pre, c, post, hpieces, rfl⟩ := h
  exact ⟨pre, .atKept hpieces⟩

variable {segments : List (Segment α)} {left : Nat} {pre : List (Piece α)}

namespace Located

/-- The place is told in the stripped text by what precedes it there. -/
theorem position_eq (h : Located segments left pre) :
    Position.before (stripped segments) left = Position.start.after (results pre) := by
  cases h with
  | atEnd => rw [Position.before, Nat.sub_zero, List.take_length, results_pieces]
  | atKept h => rw [← results_pieces, h, results_append, Position.before_append]

theorem balanced {rest : List α} (hreading : Reading rest segments)
    (h : Located segments left pre) : Balanced pre := by
  cases h with
  | atEnd => exact Balanced.readable fun _ => hreading.newline_notMem
  | atKept h => exact hreading.balanced h

end Located

/-- A flaw of a stripped text is found at a character that was kept, or at the end. -/
theorem exists_located_of_flaw {segments : List (Segment Char)}
    (hreading : Reading [] segments) {flaw : Json.Flaw}
    (h : Json.ofDocument (stripped segments) = .error (.flaw flaw)) :
    ∃ pre, Located segments flaw.left pre := by
  rcases Json.ofDocument_eq_error h with ⟨hmark, hflaw⟩ | ⟨fault, hflaw⟩ | ⟨l, hl, _, hstops⟩
  · -- A byte order mark is no blank, so a lexeme begins with it.
    cases hflaw
    obtain ⟨rest, hrest⟩ : ∃ rest, stripped segments = Json.byteOrderMark :: rest :=
      List.head?_eq_some_iff.1 hmark
    obtain ⟨token, after, hlexemes, -, -⟩ :=
      Json.lexemesFrom_bare (c := Json.byteOrderMark) (by decide) rest
    have hmem : ⟨token, rest.length + 1⟩ ∈ Json.lexemesFrom 0 (stripped segments) := by
      rw [hrest, hlexemes]
      exact List.mem_cons_self
    rw [hrest]
    exact (lexemeAt_of_mem_lexemes hreading hmem).begins.located
  · cases hflaw
    exact ⟨_, .atEnd⟩
  · have hlexeme := lexemeAt_of_mem_lexemes hreading hl
    cases hstops with
    | unexpected fault => exact hlexeme.begins.located
    | flawed htoken => exact (hlexeme.flawed _ htoken).located

structure KeepsLines (document stripped : List α) (ps : List (Piece α)) : Prop where
  sources_eq : sources ps = document
  results_eq : results ps = stripped
  newlines_eq : stripped.count (glyph '\n') = document.count (glyph '\n')
  line_eq : ∀ pre c post, ps = pre ++ .kept c :: post →
    (Position.start.after (results pre)).line = (Position.start.after (sources pre)).line
  added : ∀ c, .added c ∈ ps → c = glyph ' ' ∨ c = glyph '\n'

theorem added_blank {c : α} (h : .added c ∈ pieces segments) :
    c = glyph ' ' ∨ c = glyph '\n' := by
  obtain ⟨s, -, hc⟩ := List.mem_flatMap.1 h
  cases s with
  | other | literal | line => simp [Segment.pieces] at hc
  | block body =>
    simp only [Segment.pieces, List.mem_cons, List.mem_append, List.mem_flatMap, reduceCtorEq,
      List.not_mem_nil, or_false, false_or, Piece.added.injEq] at hc
    refine hc.imp_right ?_
    rintro ⟨d, -, hd⟩
    unfold bodyPieces at hd
    split at hd <;> simp_all

theorem Reading.keepsLines (h : Reading [] segments) :
    KeepsLines (written segments) (stripped segments) (pieces segments) where
  sources_eq := sources_pieces segments
  results_eq := results_pieces segments
  newlines_eq := by
    have hline := (Balanced.readable fun _ => h.newline_notMem).line
    rw [sources_pieces, results_pieces, Position.line_after, Position.line_after] at hline
    omega
  line_eq _ _ _ hpieces := (h.balanced hpieces).line.symm
  added _ := added_blank

end Comments

namespace Root

variable {contents : Bytes} {document : List Char} {position : Position} {fault : Json.Fault}

theorem ofBytes_eq_syntaxFault (hdecode : Utf8.decodeDocument contents = .ok document)
    (h : Root.ofBytes contents = .error (.rejected (.syntaxFault position fault))) :
    ∃ stripped flaw, strip document = .ok stripped ∧
      Json.ofDocument stripped = .error (.flaw flaw) ∧ flaw.fault = fault ∧
      position = Position.before stripped flaw.left := by
  rw [ofBytes_of_decode hdecode, ofDocument_eq_error_iff] at h
  generalize hfailure : TemplateFailure.rejected (.syntaxFault position fault) = failure at h
  cases h with
  | comment => cases hfailure
  | @stop stripped stop hstrip hread =>
    cases stop with
    | flaw flaw =>
      cases hfailure
      exact ⟨stripped, flaw, hstrip, hread, rfl, rfl⟩
    | constant | longInteger | tooDeep => cases hfailure
  | value _ _ _ hviolates =>
    cases hfailure
    cases hviolates

theorem ofBytes_eq_unterminatedComment_iff {line : Nat}
    (hdecode : Utf8.decodeDocument contents = .ok document) :
    Root.ofBytes contents = .error (.rejected (.unterminatedComment line)) ↔
      ∃ comment, strip document = .error comment ∧
        line = (Position.before document comment.opened).line := by
  rw [ofBytes_of_decode hdecode, ofDocument_eq_error_iff]
  constructor
  · intro h
    generalize hfailure : TemplateFailure.rejected (.unterminatedComment line) = failure at h
    cases h with
    | comment hstrip =>
      cases hfailure
      exact ⟨_, hstrip, rfl⟩
    | @stop _ stop => cases stop <;> cases hfailure
    | value _ _ _ hviolates =>
      cases hfailure
      cases hviolates
  · rintro ⟨comment, hstrip, rfl⟩
    exact .comment hstrip

/-- Where a syntax fault stands in a document and in its stripped text. -/
theorem exists_located_of_syntaxFault (hdecode : Utf8.decodeDocument contents = .ok document)
    (h : Root.ofBytes contents = .error (.rejected (.syntaxFault position fault))) :
    ∃ segments flaw pre, Reading [] segments ∧ written segments = document ∧
      Json.ofDocument (stripped segments) = .error (.flaw flaw) ∧ flaw.fault = fault ∧
      Located segments flaw.left pre ∧ position = Position.start.after (results pre) := by
  obtain ⟨stripped, flaw, hstrip, hread, hfault, hposition⟩ := ofBytes_eq_syntaxFault hdecode h
  obtain ⟨segments, hreading, hwritten, rfl⟩ := strip_eq_ok_iff.1 hstrip
  obtain ⟨pre, hlocated⟩ := exists_located_of_flaw hreading hread
  exact ⟨segments, flaw, pre, hreading, hwritten, hread, hfault, hlocated,
    hposition.trans hlocated.position_eq⟩

/-- Stripping keeps the number of newlines, and every character that it keeps on its line. Hence a
syntax fault is told on the line of the character at which the reader stopped, or on the last line
if it stopped at the end. A block comment is told to have no end where an opener outside of literals
and comments is followed by no closer, on the line of this opener. -/
theorem syntax_faults_name_lines :
    (∀ (α : Type) [DecidableEq α] [Glyph α] (document stripped : List α),
      strip document = .ok stripped →
      ∃ segments, Reading [] segments ∧ written segments = document ∧
        (∀ other, Reading [] other → written other = document → other = segments) ∧
        KeepsLines document stripped (pieces segments)) ∧
    ∀ contents document, Utf8.decodeDocument contents = .ok document →
      (∀ position fault,
        Root.ofBytes contents = .error (.rejected (.syntaxFault position fault)) →
        ∃ segments flaw pre, Reading [] segments ∧ written segments = document ∧
          Json.ofDocument (stripped segments) = .error (.flaw flaw) ∧ flaw.fault = fault ∧
          Located segments flaw.left pre ∧
          position.line = (Position.start.after (sources pre)).line) ∧
      ∀ line, Root.ofBytes contents = .error (.rejected (.unterminatedComment line)) ↔
        ∃ segments body, Reading ('/' :: '*' :: body) segments ∧
          document = written segments ++ '/' :: '*' :: body ∧ ¬ ['*', '/'] <:+: body ∧
          line = (Position.start.after (written segments)).line := by
  refine ⟨?_, fun contents document hdecode => ⟨?_, ?_⟩⟩
  · intro α _ _ document stripped hstrip
    obtain ⟨segments, hreading, rfl, rfl⟩ := strip_eq_ok_iff.1 hstrip
    exact ⟨segments, hreading, rfl, fun other hother heq => hother.unique hreading heq,
      hreading.keepsLines⟩
  · intro position fault h
    obtain ⟨segments, flaw, pre, hreading, hwritten, hread, hfault, hlocated, rfl⟩ :=
      exists_located_of_syntaxFault hdecode h
    exact ⟨segments, flaw, pre, hreading, hwritten, hread, hfault, hlocated,
      (hlocated.balanced hreading).line.symm⟩
  · intro line
    have hline : ∀ (segments : List (Segment Char)) (body : List Char),
        (Position.before (written segments ++ glyph '/' :: glyph '*' :: body)
          (body.length + 2)).line = (Position.start.after (written segments)).line :=
      fun segments body => congrArg Position.line (Position.before_append (written segments) _)
    rw [ofBytes_eq_unterminatedComment_iff hdecode]
    constructor
    · rintro ⟨comment, hstrip, rfl⟩
      obtain ⟨segments, body, hbody, hreading, rfl, rfl⟩ := strip_eq_error_iff.1 hstrip
      exact ⟨segments, body, hreading, rfl, hbody, hline segments body⟩
    · rintro ⟨segments, body, hreading, rfl, hbody, rfl⟩
      exact ⟨_, strip_eq_error_iff.2 ⟨segments, body, hbody, hreading, rfl, rfl⟩,
        (hline segments body).symm⟩

theorem syntax_faults_name_lines_behind :
    let document := "/*\n*/ x".toList
    let contents := Utf8.encode document
    Utf8.decodeDocument contents = .ok document ∧ strip document = .ok " \n x".toList ∧
      Root.ofBytes contents = .error (.rejected (.syntaxFault ⟨2, 2⟩ .valueExpected)) ∧
      (∃ segments, written segments = document ∧
        KeepsLines document " \n x".toList (pieces segments)) ∧
      ∃ segments, ∃ flaw : Json.Flaw, ∃ pre, written segments = document ∧
        Located segments flaw.left pre ∧
        (Position.start.after (sources pre)).line = 2 := by
  intro document contents
  have hdecode : Utf8.decodeDocument contents = .ok document := by decide
  have hstrip : strip document = .ok " \n x".toList := by decide
  have hfault : Root.ofBytes contents =
      .error (.rejected (.syntaxFault ⟨2, 2⟩ .valueExpected)) := rfl
  obtain ⟨hlines, hfaults⟩ := syntax_faults_name_lines
  obtain ⟨segments, -, hwritten, -, hkeeps⟩ := hlines Char document _ hstrip
  refine ⟨hdecode, hstrip, hfault, ⟨segments, hwritten, hkeeps⟩, ?_⟩
  obtain ⟨hline, -⟩ := hfaults contents document hdecode
  obtain ⟨segments, flaw, pre, -, hwritten, -, -, hlocated, heq⟩ := hline _ _ hfault
  exact ⟨segments, flaw, pre, hwritten, hlocated, heq.symm⟩

/-- The column of a syntax fault is less than that of its character by what stripping has taken
from the line before it: it is the same where no comment stands there, and only there. -/
theorem syntax_fault_columns (hdecode : Utf8.decodeDocument contents = .ok document)
    (h : Root.ofBytes contents = .error (.rejected (.syntaxFault position fault))) :
    ∃ segments flaw pre, Reading [] segments ∧ written segments = document ∧
      Json.ofDocument (stripped segments) = .error (.flaw flaw) ∧ flaw.fault = fault ∧
      Located segments flaw.left pre ∧
      position.column + lost pre = (Position.start.after (sources pre)).column + gained pre ∧
      (position.column = (Position.start.after (sources pre)).column ↔
        ∀ c, .dropped c ∉ onLine pre) := by
  obtain ⟨segments, flaw, pre, hreading, hwritten, hread, hfault, hlocated, rfl⟩ :=
    exists_located_of_syntaxFault hdecode h
  obtain ⟨-, hcolumn, hgained⟩ := hlocated.balanced hreading
  refine ⟨segments, flaw, pre, hreading, hwritten, hread, hfault, hlocated, hcolumn.symm, ?_⟩
  rw [← lost_eq_zero_iff]
  omega

theorem syntax_fault_columns_behind :
    let document := "/* c */ x".toList
    let contents := Utf8.encode document
    Utf8.decodeDocument contents = .ok document ∧
      Root.ofBytes contents = .error (.rejected (.syntaxFault ⟨1, 3⟩ .valueExpected)) ∧
      ∃ segments, ∃ flaw : Json.Flaw, ∃ pre, written segments = document ∧
        Located segments flaw.left pre ∧
        3 + lost pre = (Position.start.after (sources pre)).column + gained pre := by
  intro document contents
  have hdecode : Utf8.decodeDocument contents = .ok document := by decide
  have hfault : Root.ofBytes contents =
      .error (.rejected (.syntaxFault ⟨1, 3⟩ .valueExpected)) := rfl
  obtain ⟨segments, flaw, pre, -, hwritten, -, -, hlocated, hcolumn, -⟩ :=
    syntax_fault_columns hdecode hfault
  exact ⟨hdecode, hfault, segments, flaw, pre, hwritten, hlocated, hcolumn⟩

/-- A fault in column 9, behind a comment on its line, is told to be in column 3. -/
theorem column_differs_behind_comment :
    let document := "/* c */ x".toList
    let segments := [.block " c ".toList, .other ' ', .other 'x']
    let flaw : Json.Flaw := ⟨.valueExpected, 1⟩
    Root.ofBytes (Utf8.encode document) =
        .error (.rejected (.syntaxFault ⟨1, 3⟩ .valueExpected)) ∧
      Reading [] segments ∧ written segments = document ∧
      Json.ofDocument (stripped segments) = .error (.flaw flaw) ∧
      ∃ pre, pieces segments = pre ++ [.kept 'x'] ∧ Located segments flaw.left pre ∧
        Position.start.after (sources pre) = ⟨1, 9⟩ := by
  intro document segments flaw
  have hreading : Reading [] segments := by
    refine .block (by decide) (.other (by decide) ?_ (.other (by decide) ?_ .nil))
    all_goals simp [OpensComment]
  refine ⟨rfl, hreading, rfl, rfl, (pieces segments).dropLast, rfl, ?_, by decide⟩
  have hlast : pieces segments = (pieces segments).dropLast ++ .kept 'x' :: [] := rfl
  exact .atKept hlast

end Root

end LiveTemplates
