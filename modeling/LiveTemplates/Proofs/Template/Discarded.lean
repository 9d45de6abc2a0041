import LiveTemplates.Proofs.Template.Issued
import LiveTemplates.Proofs.Writing.Respelling

/-!
# Values that are discarded

Where names repeat in a document, it compiles to what it would if each object had its last value of
a name at the place of the first one, and nothing else of that name. So values that are discarded
are neither reported nor built. They are read all the same: a document with a token in it that no
value has is refused, wherever the token stands.
-/

namespace LiveTemplates

namespace Json

variable {t : Token} {stop : Stop}

namespace Reader

/-- Where a reader takes a scalar, it stops at a token that begins no value. -/
theorem advance_of_stop (h : ∀ outer left, beginValue outer ⟨t, left⟩ = .error stop)
    (notClose : t ≠ .closeArray) {r r' : Reader} {left : Nat}
    (hadvance : r.advance ⟨.atom .null, left⟩ = .ok r') (left' : Nat) :
    r.advance ⟨t, left'⟩ = .error stop := by
  cases r with
  | nextValue outer => exact h outer left'
  | firstItem outer => exact (if_neg notClose).trans (h _ left')
  | nextName | nextColon => cases hadvance
  | ended v outer =>
    match outer with
    | [] | .item _ :: _ | .member _ _ :: _ => cases hadvance

theorem run_of_stop (h : ∀ outer left, beginValue outer ⟨t, left⟩ = .error stop)
    (notClose : t ≠ .closeArray) {before rest : List Lexeme} {left : Nat} {r : Reader} {v : Json}
    (hrun : r.run (before ++ ⟨.atom .null, left⟩ :: rest) = .ok v) (after : List Lexeme) :
    r.run (before ++ ⟨t, left⟩ :: after) = .error stop := by
  induction before generalizing r with
  | nil =>
    rw [List.nil_append, run] at hrun
    cases hadvance : r.advance ⟨.atom .null, left⟩ with
    | error stop' =>
      rw [hadvance] at hrun
      cases hrun
    | ok r' => rw [List.nil_append, run, advance_of_stop h notClose hadvance]
  | cons l before ih =>
    rw [List.cons_append, run] at hrun ⊢
    cases hadvance : r.advance l with
    | error stop' =>
      rw [hadvance] at hrun
      cases hrun
    | ok r' =>
      rw [hadvance] at hrun
      exact ih hrun

end Reader

theorem lexemes_byteOrderMark (rest : List Char) :
    ∃ ls, lexemes (byteOrderMark :: rest) = ⟨.other, rest.length + 1⟩ :: ls := by
  have htoken : tokenAt byteOrderMark rest = (.other, rest) := by
    simp [tokenAt, byteOrderMark, words, numeral?, wholePart?]
  refine ⟨lexemesFrom 0 rest, ?_⟩
  rw [lexemes, lexemesFrom, if_neg (by decide), htoken]
  simp

theorem ofDocument_of_stop (h : ∀ outer left, Reader.beginValue outer ⟨t, left⟩ = .error stop)
    (notClose : t ≠ .closeArray) (notOther : t ≠ .other) {document : List Char}
    {before after rest : List Lexeme} {left : Nat} {v : Json}
    (hlexemes : lexemes document = before ++ ⟨t, left⟩ :: after)
    (hrun : Reader.start.run (before ++ ⟨.atom .null, left⟩ :: rest) = .ok v) :
    Json.ofDocument document = .error stop := by
  have hmark : document.head? ≠ some byteOrderMark := by
    intro hhead
    obtain ⟨document, rfl⟩ := List.head?_eq_some_iff.1 hhead
    obtain ⟨ls, hls⟩ := lexemes_byteOrderMark document
    rw [hls] at hlexemes
    cases before with
    | nil =>
      cases hlexemes
      exact notOther rfl
    | cons l before =>
      cases hlexemes
      cases hrun
  rw [Json.ofDocument, if_neg hmark, hlexemes]
  exact Reader.run_of_stop h notClose hrun after

end Json

namespace Root

variable {contents : Bytes}

theorem nodup_keys_of_ofBytes {root : Root} (h : ofBytes contents = .ok root) :
    (root.children.map Node.key).Nodup ∧ ∀ key source children,
      root.Holds (.composite key source children) → (children.map Node.key).Nodup := by
  obtain ⟨stripped, v, -, hbuild⟩ := ofBytes_eq_ok_iff_readAs.1 h
  have noRepeats := Json.noRepeats_distinct v
  cases hobject : v.distinct with
  | scalar | array =>
    rw [hobject] at hbuild
    cases hbuild
  | object members =>
    rw [hobject] at hbuild noRepeats
    obtain ⟨source, children, hsource, hchildren, hroot⟩ := ofJson_object_eq_ok_iff.1 hbuild
    refine ⟨?_, fun key source children hholds => ?_⟩
    · rw [← hroot]
      exact (Node.onePerMember_of_ofMembers noRepeats hchildren).nodup
    · obtain ⟨w, hcomes⟩ := hholds.exists_comes noRepeats hbuild
      cases hcomes.sound noRepeats hbuild with
      | composite _ hchildren => exact hchildren.nodup

/-- Up to a token the contents can be read, and with a null there they could be read on. -/
def Reaches (contents : Bytes) (t : Json.Token) : Prop :=
  ∃ document stripped before left after rest v, Utf8.decodeDocument contents = .ok document ∧
    Comments.strip document = .ok stripped ∧
    Json.lexemes stripped = before ++ ⟨t, left⟩ :: after ∧
    Json.Reader.start.run (before ++ ⟨.atom .null, left⟩ :: rest) = .ok v

/-- The tokens that no value has, with the failure for which contents are refused that have them. -/
inductive Refuses : Json.Token → TemplateFailure → Prop
  | constant (c : Json.Constant) : Refuses (.constant c) (.rejected (.constant c))
  | longInteger (n : Nat) : Refuses (.longInteger n) (.exceeded (.integerDigits n))

theorem Reaches.ofBytes_eq {t : Json.Token} {failure : TemplateFailure} (h : Reaches contents t)
    (refused : Refuses t failure) : ofBytes contents = .error failure := by
  obtain ⟨document, stripped, before, left, after, rest, v, hdecode, hstrip, hlexemes, hrun⟩ := h
  rw [ofBytes_of_decode hdecode, ofDocument_eq_error_iff]
  cases refused with
  | constant c =>
    have hread : Json.ofDocument stripped = .error (.constant c) :=
      Json.ofDocument_of_stop (fun _ _ => rfl) (by simp) (by simp) hlexemes hrun
    exact .stop hstrip hread
  | longInteger n =>
    have hread : Json.ofDocument stripped = .error (.longInteger n) :=
      Json.ofDocument_of_stop (fun _ _ => rfl) (by simp) (by simp) hlexemes hrun
    exact .stop hstrip hread

/-- Where contents are read as a value, what they compile to is told by what is kept of it, and so
it is for a document of just that, which there always is. The first violation in what is kept is
reported. Nothing depends on a value that is discarded, and no two children of a node that came from
an object have one name. But constants that are no part of JSON, and integers with too many digits,
are refused wherever a value has to stand, also in a value that would be discarded. -/
theorem last_values_are_compiled :
    (∀ v : Json, ∃! w, v.Reduces w) ∧
    (∀ {contents stripped v w}, ReadAs contents stripped v → v.Reduces w →
      (∃ contents' stripped', ReadAs contents' stripped' w) ∧
      (∀ {contents' stripped'}, ReadAs contents' stripped' w →
        ofBytes contents' = ofBytes contents) ∧
      ((∃ root, ofBytes contents = .ok root) ↔
        ∃ members, w = .object members ∧ TemplateMembers members) ∧
      ∀ failure, ofBytes contents = .error failure ↔
        ∃ r, failure = .rejected r ∧ FirstViolation (Root.checks w) r) ∧
    (∀ {contents contents' stripped stripped' v v'}, ReadAs contents stripped v →
      ReadAs contents' stripped' v' → v.Differs v' → ofBytes contents' = ofBytes contents) ∧
    (∀ {contents root}, ofBytes contents = .ok root → (root.children.map Node.key).Nodup ∧
      ∀ key source children, root.Holds (.composite key source children) →
        (children.map Node.key).Nodup) ∧
    ∀ {contents t failure}, Reaches contents t → Refuses t failure →
      ofBytes contents = .error failure := by
  refine ⟨fun v => ?_, ?_, ?_, nodup_keys_of_ofBytes, Reaches.ofBytes_eq⟩
  · exact ⟨v.distinct, Json.reduces_iff.2 rfl, fun w h => Json.reduces_iff.1 h⟩
  · intro contents stripped v w h hreduces
    obtain rfl := Json.reduces_iff.1 hreduces
    refine ⟨h.exists_distinct, fun h' => h.ofBytes_congr h' ?_, h.compiles_iff,
      fun _ => h.fails_iff⟩
    exact Json.distinct_eq_self (Json.noRepeats_distinct v)
  · exact fun h h' hdiffers => h.ofBytes_congr h' hdiffers.distinct_eq.symm

/-- A malformed text that is discarded. -/
def overruled : List Char := "\x7b\"a\": \"$\x7b\", \"b\": 1, \"a\": [2]\x7d".toList

def overlooked : List Char := "\x7b\"a\": 0, \"b\": 1, \"a\": [2]\x7d".toList

def settled : List Char := "\x7b\"a\": [2], \"b\": 1\x7d".toList

/-- The malformed text comes last. -/
def relapsed : List Char := "\x7b\"a\": [2], \"a\": \"$\x7b\"\x7d".toList

def unreadable : List Char := "\x7b\"a\": NaN, \"a\": [2]\x7d".toList

theorem last_values_are_compiled_overruled :
    ofBytes (Utf8.encode settled) = ofBytes (Utf8.encode overruled) ∧
    ofBytes (Utf8.encode overlooked) = ofBytes (Utf8.encode overruled) ∧
    (∃ root, ofBytes (Utf8.encode overruled) = .ok root ∧ (root.children.map Node.key).Nodup) ∧
    (∃ r, ofBytes (Utf8.encode relapsed) = .error (.rejected r) ∧
      FirstViolation (Root.checks (.object [("a", .text "$\x7b")])) r) ∧
    ofBytes (Utf8.encode unreadable) = .error (.rejected (.constant .nan)) := by
  have hoverruled : ReadAs (Utf8.encode overruled) overruled
      (.object [("a", .text "$\x7b"), ("b", .int 1), ("a", .array [.int 2])]) :=
    readAs_encode ⟨_, _, rfl, by decide⟩ (by decide +kernel) rfl
  have hoverlooked : ReadAs (Utf8.encode overlooked) overlooked
      (.object [("a", .int 0), ("b", .int 1), ("a", .array [.int 2])]) :=
    readAs_encode ⟨_, _, rfl, by decide⟩ (by decide +kernel) rfl
  have hsettled : ReadAs (Utf8.encode settled) settled
      (.object [("a", .array [.int 2]), ("b", .int 1)]) :=
    readAs_encode ⟨_, _, rfl, by decide⟩ (by decide +kernel) rfl
  have hrelapsed : ReadAs (Utf8.encode relapsed) relapsed
      (.object [("a", .array [.int 2]), ("a", .text "$\x7b")]) :=
    readAs_encode ⟨_, _, rfl, by decide⟩ (by decide +kernel) rfl
  have hunreadable : Reaches (Utf8.encode unreadable) (.constant .nan) :=
    ⟨unreadable, unreadable, [⟨.openObject, 20⟩, ⟨.text "a", 19⟩, ⟨.colon, 16⟩], 14,
      [⟨.comma, 11⟩, ⟨.text "a", 9⟩, ⟨.colon, 6⟩, ⟨.openArray, 4⟩, ⟨.atom (.number (.int 2)), 3⟩,
        ⟨.closeArray, 2⟩, ⟨.closeObject, 1⟩], [⟨.closeObject, 11⟩], .object [("a", .null)],
      Utf8.decodeDocument_encode ⟨_, _, rfl, by decide⟩ (.inl rfl), rfl, rfl, rfl⟩
  obtain ⟨-, hkept, hdiscarded, hnodup, hrefused⟩ := last_values_are_compiled
  refine ⟨?_, ?_, ?_, ?_, hrefused hunreadable (.constant .nan)⟩
  · obtain ⟨-, hsame, -⟩ := hkept hoverruled (Json.reduces_iff.2 rfl)
    exact hsame hsettled
  · refine hdiscarded hoverruled hoverlooked ?_
    exact @Json.Differs.discarded [] [("b", .int 1), ("a", .array [.int 2])] "a" _ _ (by decide)
  · obtain ⟨root, hroot⟩ : ∃ root, ofBytes (Utf8.encode overruled) = .ok root :=
      ⟨_, hoverruled.ofBytes_eq⟩
    exact ⟨root, hroot, (hnodup hroot).1⟩
  · obtain ⟨-, -, -, hfails⟩ := hkept hrelapsed (Json.reduces_iff.2 rfl)
    obtain ⟨r, heq, hfirst⟩ := (hfails _).1 hrelapsed.ofBytes_eq
    exact ⟨r, hrelapsed.ofBytes_eq.trans (congrArg Except.error heq), hfirst⟩

end Root

end LiveTemplates
