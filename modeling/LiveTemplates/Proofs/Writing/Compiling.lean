import LiveTemplates.Proofs.Writing.Reading
import LiveTemplates.Proofs.Writing.Stripping
import LiveTemplates.Template.Compile
import LiveTemplates.Utf8.Lemmas

/-!
# Templates by value

What a template is compiled to depends on the value of its document only. However the value is
written, stripping the comments and reading what is left gives it back, so the tree, or the reason
for which there is none, is the one that the value gives.
-/

namespace LiveTemplates

namespace Utf8

/-- A document that begins with a character of ASCII is decoded with a byte order mark and
without. -/
theorem decodeDocument_encode {document : List Char} {contents : Bytes}
    (hhead : ∃ c rest, document = c :: rest ∧ c.toNat < 0x80)
    (h : contents = encode document ∨ contents = byteOrderMark ++ encode document) :
    decodeDocument contents = .ok document := by
  rcases h with rfl | rfl
  · obtain ⟨c, rest, rfl, hc⟩ := hhead
    have hfirst : encode (c :: rest) = .ofNat c.toNat :: encode rest := by
      rw [encode, List.flatMap_cons, encodeChar, if_pos hc]
      rfl
    have hmark : ¬ byteOrderMark.isPrefixOf (encode (c :: rest)) = true := by
      rw [List.isPrefixOf_iff_prefix, hfirst, byteOrderMark, List.cons_prefix_cons]
      rintro ⟨heq, -⟩
      have hvalue := congrArg UInt8.toNat heq
      rw [toNat_ofNat_of_lt (by omega)] at hvalue
      have hmarked : (0xEF : UInt8).toNat = 0xEF := rfl
      omega
    rw [decodeDocument, if_neg hmark]
    exact decode_encode _
  · have hmark : byteOrderMark.isPrefixOf (byteOrderMark ++ encode document) = true :=
      List.isPrefixOf_iff_prefix.2 (List.prefix_append _ _)
    rw [decodeDocument, if_pos hmark, List.drop_left]
    exact decode_encode document

end Utf8

namespace Root

/-- The outcome of compiling a document is given by the value alone that is written there: by any
mix of the ways to write its tokens, with any blanks and comments around them, and with a byte
order mark or without. -/
theorem ofBytes_writtenAs {v : Json} {contents : Bytes} (h : v.WrittenAs contents)
    (noRepeats : v.NoRepeats) (shallow : v.depth ≤ 130) :
    Root.ofBytes contents = (Root.ofJson v).mapError .rejected := by
  obtain ⟨document, hwritten, hcontents⟩ := h
  have hgap : ∀ g, Json.Gap g → ∀ c ∈ g.head?, c.toNat < 0x80 := by
    intro g hg c hc
    cases hg with
    | nil => cases hc
    | blank h =>
      cases hc
      exact Json.toNat_of_mem_blanks h
    | block | line =>
      cases hc
      decide
  have hhead := hwritten.head (Json.tokens_ne_nil v) hgap
  obtain ⟨stripped, hstrip, hblank⟩ := Comments.strip_written hwritten
  have hread := Json.ofDocument_written hblank (Nat.le_trans shallow (by decide))
  rw [ofBytes, Utf8.decodeDocument_encode hhead hcontents]
  dsimp only
  rw [ofDocument_unlimited, hstrip]
  dsimp only
  rw [hread]
  dsimp only
  rw [Json.distinct_eq_self noRepeats]
  cases Root.ofJson v <;> rfl

/-- A document with a name that looks like a comment, and with comments that look like texts. -/
def commented : Bytes :=
  Utf8.byteOrderMark ++
    Utf8.encode "\x7b/*\"*/\"\\u002F*\\\"\" : [null,-1//\"\n]\x7d//\x7b".toList

theorem ofBytes_writtenAs_commented :
    let v : Json := .object [("/*\"", .array [.null, .int (-1)])]
    v.WrittenAs commented ∧ v.NoRepeats ∧ v.depth ≤ 130 ∧
      Root.ofBytes commented = .ok ⟨.null, none, [.iterating (some "/*\"")
        [.static none .null, .static none (.number (.int (-1)))]]⟩ := by
  intro v
  have hopen : Json.WrittenToken .openObject ['\x7b'] := .mark (by decide)
  have hcomment : Json.Gap ('/' :: '*' :: ['"'] ++ '*' :: '/' :: []) := .block (by decide) .nil
  have hname : Json.WrittenText "/*\"" ("\\u002F".toList ++ (['*'] ++ (['\\', '"'] ++ []))) := by
    refine .cons (.unit ?_) (.cons (.plain ?_ ?_ ?_) (.cons (.short ?_) .nil))
    · exact ⟨0, 0, 2, 15, '0', '0', '2', 'F', rfl, rfl, .inl rfl, .inl rfl, .inl rfl, .inr rfl⟩
    all_goals decide
  have hspace : Json.Gap [' '] := .blank (by decide) .nil
  have hcolon : Json.WrittenToken .colon [':'] := .mark (by decide)
  have hitems : Json.WrittenToken .openArray ['['] := .mark (by decide)
  have hcomma : Json.WrittenToken .comma [','] := .mark (by decide)
  have hline : Json.Gap ('/' :: '/' :: ['"'] ++ '\n' :: []) := .line (by decide) .nil
  have hend : Json.WrittenToken .closeArray [']'] := .mark (by decide)
  have hclose : Json.WrittenToken .closeObject ['\x7d'] := .mark (by decide)
  have hlast : Json.LastGap ([] ++ '/' :: '/' :: ['\x7b']) := .line .nil (by decide)
  have hwritten : v.WrittenAs commented := by
    refine ⟨_, .cons .nil hopen <| .cons hcomment (.text hname) <| .cons hspace hcolon <|
      .cons hspace hitems <| .cons .nil .null <| .cons .nil hcomma <|
      .cons .nil (.negative 1 (by decide)) <| .cons hline hend <| .cons .nil hclose <| .nil hlast,
      .inr rfl⟩
  have noRepeats : v.NoRepeats := by
    simp [v, Json.NoRepeats, Json.NoMemberRepeats, Json.NoItemRepeats, Keyed.keys]
  have shallow : v.depth ≤ 130 := by decide
  exact ⟨hwritten, noRepeats, shallow, ofBytes_writtenAs hwritten noRepeats shallow⟩

end Root

end LiveTemplates
