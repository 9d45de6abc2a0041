import LiveTemplates.Json.Reader
import LiveTemplates.Proofs.Writing.Scanning

/-!
# Reading the tokens of a value

A reader that has to read a value goes over its tokens and has then read that value, whatever
containers it is in, as long as all of them together do not nest too deep. Since nothing repeats a
name, the value is the one that a template is built from.
-/

namespace LiveTemplates

theorem Keyed.put_of_not_mem {K V : Type} [DecidableEq K] {m : Keyed K V} {k : K}
    (h : k ∉ m.keys) (v : V) : m.put k v = m ++ [(k, v)] := by
  induction m with
  | nil => rfl
  | cons e rest ih =>
    obtain ⟨k', v'⟩ := e
    have hcons : k ∉ k' :: keys rest := h
    rw [List.mem_cons, not_or] at hcons
    rw [put, if_neg (Ne.symm hcons.1), ih hcons.2, List.cons_append]

namespace Json

section Repeats

/-- Where no name repeats, the last member of each name is its only one. -/
theorem lastOfEach_of_nodup {members : Keyed Text Json} (h : members.keys.Nodup) :
    lastOfEach members = members := by
  have hfold : ∀ (ms kept : Keyed Text Json), (Keyed.keys (kept ++ ms)).Nodup →
      ms.foldl (fun kept m => kept.put m.1 m.2) kept = kept ++ ms := by
    intro ms
    induction ms with
    | nil => exact fun kept _ => (List.append_nil kept).symm
    | cons m ms ih =>
      intro kept hkept
      have hnew : m.1 ∉ Keyed.keys kept := by
        intro hmem
        simp only [Keyed.keys, List.map_append, List.map_cons] at hkept hmem
        exact (List.nodup_append.1 hkept).2.2 _ hmem _ List.mem_cons_self rfl
      have hlater : (Keyed.keys ((kept ++ [m]) ++ ms)).Nodup := by simpa using hkept
      rw [List.foldl_cons, Keyed.put_of_not_mem hnew, ih _ hlater, List.append_assoc,
        List.singleton_append]
  exact hfold members [] h

mutual

theorem distinct_eq_self {v : Json} (h : v.NoRepeats) : v.distinct = v := by
  cases v with
  | scalar s => rfl
  | array items => rw [distinct, distinctItems_eq_self h]
  | object members =>
    obtain ⟨hnames, hvalues⟩ : (Keyed.keys members).Nodup ∧ NoMemberRepeats members := h
    rw [distinct, distinctMembers_eq_self hvalues, lastOfEach_of_nodup hnames]

theorem distinctItems_eq_self {items : List Json} (h : NoItemRepeats items) :
    distinctItems items = items := by
  cases items with
  | nil => rfl
  | cons item rest => rw [distinctItems, distinct_eq_self h.1, distinctItems_eq_self h.2]

theorem distinctMembers_eq_self {members : List (Text × Json)} (h : NoMemberRepeats members) :
    distinctMembers members = members := by
  match members with
  | [] => rfl
  | (name, value) :: rest =>
    rw [distinctMembers, distinct_eq_self h.1, distinctMembers_eq_self h.2]

end

end Repeats

section Apart

theorem apart_cons {t : Token} {ts : List Token} (ht : t.IsMark ∨ ∀ t' ∈ ts.head?, t'.IsMark)
    (h : Apart ts) : Apart (t :: ts) :=
  List.isChain_cons.2 ⟨fun t' ht' => ht.imp_right fun hall => hall t' ht', h⟩

theorem isMark_of_mem {t : Token} (h : t ∈ marks.map Prod.fst) : t.IsMark := by
  obtain ⟨⟨t, c⟩, hmem, rfl⟩ := List.mem_map.1 h
  exact ⟨c, hmem⟩

mutual

/-- The tokens of a value keep apart, and go on so where a mark comes next. -/
theorem apart_tokens (v : Json) {ts : List Token} (h : Apart ts)
    (hmark : ∀ t ∈ ts.head?, t.IsMark) : Apart (v.tokens ++ ts) := by
  match v with
  | .scalar s => exact apart_cons (.inr hmark) h
  | .array items =>
    have hclose : Token.closeArray.IsMark := isMark_of_mem (by decide)
    have hopen : Token.openArray.IsMark := isMark_of_mem (by decide)
    have hitems := apart_itemTokens items (apart_cons (.inl hclose) h) (by simpa using hclose)
    simpa [tokens] using apart_cons (.inl hopen) hitems
  | .object members =>
    have hclose : Token.closeObject.IsMark := isMark_of_mem (by decide)
    have hopen : Token.openObject.IsMark := isMark_of_mem (by decide)
    have hmembers := apart_memberTokens members (apart_cons (.inl hclose) h) (by simpa using hclose)
    simpa [tokens] using apart_cons (.inl hopen) hmembers

theorem apart_itemTokens (items : List Json) {ts : List Token} (h : Apart ts)
    (hmark : ∀ t ∈ ts.head?, t.IsMark) : Apart (itemTokens items ++ ts) := by
  match items with
  | [] => exact h
  | [item] => exact apart_tokens item h hmark
  | item :: next :: rest =>
    have hcomma : Token.comma.IsMark := isMark_of_mem (by decide)
    have hrest := apart_cons (.inl hcomma) (apart_itemTokens (next :: rest) h hmark)
    simpa [itemTokens] using apart_tokens item hrest (by simpa using hcomma)

theorem apart_memberTokens (members : List (Text × Json)) {ts : List Token} (h : Apart ts)
    (hmark : ∀ t ∈ ts.head?, t.IsMark) : Apart (memberTokens members ++ ts) := by
  have hcolon : Token.colon.IsMark := isMark_of_mem (by decide)
  have hcomma : Token.comma.IsMark := isMark_of_mem (by decide)
  have hname : ∀ (name : Text) {rest : List Token}, Apart rest →
      Apart (.text name :: .colon :: rest) := fun _ _ hrest =>
    apart_cons (.inr (by simpa using hcolon)) (apart_cons (.inl hcolon) hrest)
  match members with
  | [] => exact h
  | [(name, value)] => exact hname name (apart_tokens value h hmark)
  | (name, value) :: next :: rest =>
    have hrest := apart_cons (.inl hcomma) (apart_memberTokens (next :: rest) h hmark)
    simpa [memberTokens] using hname name (apart_tokens value hrest (by simpa using hcomma))

end

end Apart

section Readers

namespace Reader

/-- A reader goes over some tokens, wherever they stand, and becomes another one. -/
def Reads (r : Reader) (ts : List Token) (r' : Reader) : Prop :=
  ∀ ls rest, ls.map Lexeme.token = ts → r.run (ls ++ rest) = r'.run rest

theorem Reads.append {r r' r'' : Reader} {ts ts' : List Token} (h : r.Reads ts r')
    (h' : r'.Reads ts' r'') : r.Reads (ts ++ ts') r'' := by
  intro ls rest hls
  obtain ⟨ls₁, ls₂, rfl, h₁, h₂⟩ := List.map_eq_append_iff.1 hls
  rw [List.append_assoc, h ls₁ _ h₁, h' ls₂ rest h₂]

theorem reads_one {r r' : Reader} {t : Token} (h : ∀ left, r.advance ⟨t, left⟩ = .ok r') :
    r.Reads [t] r' := by
  intro ls rest hls
  obtain ⟨⟨t, left⟩, ls', rfl, rfl, hls'⟩ := List.map_eq_cons_iff.1 hls
  obtain rfl := List.map_eq_nil_iff.1 hls'
  rw [List.singleton_append, run, h left]

theorem Reads.cons {r r' r'' : Reader} {t : Token} {ts : List Token}
    (h : ∀ left, r.advance ⟨t, left⟩ = .ok r') (h' : r'.Reads ts r'') : r.Reads (t :: ts) r'' :=
  (reads_one h).append h'

/-- An array that does not end at once goes on with a value. -/
theorem reads_firstItem {outer : List Frame} {t : Token} {ts : List Token} {r : Reader}
    (ht : t ≠ .closeArray) (h : (nextValue (.item [] :: outer)).Reads (t :: ts) r) :
    (firstItem outer).Reads (t :: ts) r := by
  intro ls rest hls
  obtain ⟨l, ls', rfl, rfl, -⟩ := List.map_eq_cons_iff.1 hls
  have hadvance : (firstItem outer).advance l = (nextValue (.item [] :: outer)).advance l :=
    if_neg ht
  rw [← h _ rest hls, List.cons_append, run, run, hadvance]

theorem beginValue_scalar (s : Scalar) (outer : List Frame) (left : Nat) :
    beginValue outer ⟨.ofScalar s, left⟩ = .ok (.ended (.scalar s) outer) := by
  cases s <;> rfl

theorem tokens_eq_cons (v : Json) : ∃ t ts, v.tokens = t :: ts ∧ t ≠ .closeArray := by
  match v with
  | .scalar s => exact ⟨_, [], rfl, by cases s <;> simp [Token.ofScalar]⟩
  | .array items => exact ⟨_, _, rfl, by simp⟩
  | .object members => exact ⟨_, _, rfl, by simp⟩

/-- The tokens of items begin with the first token of the first one. -/
theorem itemTokens_eq_cons (item : Json) (items : List Json) :
    ∃ t ts, itemTokens (item :: items) = t :: ts ∧ t ≠ .closeArray := by
  obtain ⟨t, ts, hts, ht⟩ := tokens_eq_cons item
  cases items with
  | nil => exact ⟨t, ts, hts, ht⟩
  | cons next rest => exact ⟨t, _, by rw [itemTokens, hts, List.cons_append], ht⟩

-- By recursion on the value: `outer` grows by a frame where the depth of what is to be read goes
-- down by one, so that both together stay within the limit.
mutual

/-- Where a value has to come, a reader goes over the tokens of one and has read it. -/
theorem reads_tokens (v : Json) (outer : List Frame) (h : outer.length + v.depth ≤ nestingLimit) :
    (nextValue outer).Reads v.tokens (.ended v outer) := by
  match v with
  | .scalar s => exact reads_one (beginValue_scalar s outer)
  | .array items =>
    rw [depth] at h
    have hopen : ∀ left, (nextValue outer).advance ⟨.openArray, left⟩ = .ok (.firstItem outer) :=
      fun _ => if_pos (by omega)
    match items with
    | [] => exact .cons hopen (reads_one fun _ => rfl)
    | item :: rest =>
      obtain ⟨t, ts, hts, ht⟩ := itemTokens_eq_cons item rest
      have hitems := reads_itemTokens (item :: rest) (by simp) [] outer (by omega)
      rw [hts] at hitems
      rw [tokens, hts]
      exact .cons hopen (reads_firstItem ht hitems)
  | .object members =>
    rw [depth] at h
    have hopen : ∀ left,
        (nextValue outer).advance ⟨.openObject, left⟩ = .ok (.nextName [] true outer) :=
      fun _ => if_pos (by omega)
    match members with
    | [] => exact .cons hopen (reads_one fun _ => rfl)
    | m :: rest =>
      rw [tokens]
      exact .cons hopen (reads_memberTokens (m :: rest) (by simp) [] true outer (by omega))

/-- Items of an array, up to its end. -/
theorem reads_itemTokens (items : List Json) (nonempty : items ≠ []) (before : List Json)
    (outer : List Frame) (h : outer.length + 1 + itemsDepth items ≤ nestingLimit) :
    (nextValue (.item before :: outer)).Reads (itemTokens items ++ [.closeArray])
      (.ended (.array (before.reverse ++ items)) outer) := by
  match items with
  | [] => exact absurd rfl nonempty
  | item :: items =>
    rw [itemsDepth] at h
    have hitem : (nextValue (.item before :: outer)).Reads item.tokens _ :=
      reads_tokens item _ (by simp only [List.length_cons]; omega)
    match items with
    | [] =>
      rw [← List.reverse_cons]
      exact hitem.append (reads_one fun _ => rfl)
    | next :: rest =>
      have hrest := reads_itemTokens (next :: rest) (by simp) (item :: before) outer (by omega)
      rw [List.reverse_cons, List.append_assoc] at hrest
      rw [itemTokens, List.append_assoc]
      exact hitem.append (.cons (fun _ => rfl) hrest)

/-- Members of an object, up to its end. -/
theorem reads_memberTokens (members : Members) (nonempty : members ≠ []) (before : Members)
    (mayEnd : Bool) (outer : List Frame)
    (h : outer.length + 1 + membersDepth members ≤ nestingLimit) :
    (nextName before mayEnd outer).Reads (memberTokens members ++ [.closeObject])
      (.ended (.object (before.reverse ++ members)) outer) := by
  match members with
  | [] => exact absurd rfl nonempty
  | (name, value) :: members =>
    rw [membersDepth] at h
    have hvalue : (nextValue (.member before name :: outer)).Reads value.tokens _ :=
      reads_tokens value _ (by simp only [List.length_cons]; omega)
    have hmember : (nextName before mayEnd outer).Reads (.text name :: .colon :: value.tokens)
        (.ended value (.member before name :: outer)) :=
      .cons (fun _ => rfl) (.cons (fun _ => rfl) hvalue)
    match members with
    | [] =>
      rw [← List.reverse_cons]
      exact hmember.append (reads_one fun _ => rfl)
    | next :: rest =>
      have hrest := reads_memberTokens (next :: rest) (by simp) ((name, value) :: before) false
        outer (by omega)
      rw [List.reverse_cons, List.append_assoc] at hrest
      rw [memberTokens, List.append_assoc]
      exact hmember.append (.cons (fun _ => rfl) hrest)

end

end Reader

end Readers

section Documents

theorem toNat_of_mem_blanks {c : Char} (h : c ∈ blanks) : c.toNat < 0x80 := by
  have hall : ∀ c ∈ blanks, c.toNat < 0x80 := by simp [blanks]
  exact hall c h

/-- Unless a gap begins with another character, a document begins with one of ASCII. -/
theorem Written.head {gap lastGap : List Char → Prop} {ts : List Token} {document : List Char}
    (h : Written gap lastGap ts document) (nonempty : ts ≠ [])
    (hgap : ∀ g, gap g → ∀ c ∈ g.head?, c.toNat < 0x80) :
    ∃ c rest, document = c :: rest ∧ c.toNat < 0x80 := by
  cases h with
  | nil => exact absurd rfl nonempty
  | @cons t ts g s s' h token =>
    cases g with
    | nil =>
      obtain ⟨c, s, rfl, -, hc⟩ := token.head
      exact ⟨c, s ++ s', rfl, hc⟩
    | cons c g => exact ⟨c, g ++ s ++ s', rfl, hgap _ h c rfl⟩

theorem tokens_ne_nil (v : Json) : v.tokens ≠ [] := by
  cases v <;> simp [tokens]

/-- A document without comments is read back as the value that it was written from. -/
theorem ofDocument_written {v : Json} {document : List Char}
    (h : Written Blank Blank v.tokens document) (shallow : v.depth ≤ nestingLimit) :
    Json.ofDocument document = .ok v := by
  have hgap : ∀ g, Blank g → ∀ c ∈ g.head?, c.toNat < 0x80 := fun _ hg _ hc =>
    toNat_of_mem_blanks (hg _ (List.mem_of_mem_head? hc))
  obtain ⟨c, rest, hdocument, hc⟩ := h.head (tokens_ne_nil v) hgap
  have hmark : document.head? ≠ some byteOrderMark := by
    rw [hdocument, List.head?_cons, ne_eq, Option.some.injEq]
    rintro rfl
    exact absurd hc (by decide)
  have hapart : Apart (v.tokens ++ []) := apart_tokens v List.isChain_nil (by simp)
  rw [List.append_nil] at hapart
  have hread := Reader.reads_tokens v [] (by simpa using shallow) (lexemes document) []
    (lexemes_written h hapart)
  rw [List.append_nil] at hread
  rw [Json.ofDocument, if_neg hmark, Reader.start, hread]
  rfl

end Documents

end Json

end LiveTemplates
