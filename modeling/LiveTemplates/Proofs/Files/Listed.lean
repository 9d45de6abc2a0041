import LiveTemplates.Proofs.Files.Decoding
import LiveTemplates.Proofs.Files.Refusals

/-!
# Texts under which files are listed

The text under which octets are listed is written back as just these octets, so two files of a
directory are listed under two texts. All texts without lone surrogates are such texts; some of the
others name a file that is listed under another text.
-/

namespace LiveTemplates

namespace Text

def Listable (t : Text) : Prop := ∃ bytes, t.octets = .ok bytes ∧ ofOctets bytes = t

theorem octetsFrom_ofChars (position : Nat) (cs : List Char) :
    octetsFrom position (ofChars cs) = .ok (Utf8.encode cs) := by
  induction cs generalizing position with
  | nil => rfl
  | cons c cs ih =>
    have hrest : octetsFrom (position + 1) (ofChars cs) = .ok (Utf8.encode cs) := ih _
    show (octetsFrom (position + 1) (ofChars cs)).map (Utf8.encodeChar c ++ ·) = _
    rw [hrest]
    rfl

theorem octetsFrom_strayOctet (position : Nat) {b : UInt8} (h : 0x80 ≤ b.toNat) (rest : Text) :
    octetsFrom position (strayOctet b :: rest) =
      (octetsFrom (position + 1) rest).map (b :: ·) := by
  have hb := b.toNat_lt
  have hoctet : UInt8.ofNat (0x400 + b.toNat - 0x400) = b := by
    rw [Nat.add_sub_cancel_left, UInt8.ofNat_toNat]
  rw [strayOctet, octetsFrom, if_pos ⟨by dsimp only; omega, by dsimp only; omega⟩]
  dsimp only
  rw [hoctet]

section LeadingChar

variable {bytes rest : Bytes} {c : Char} {count : Nat} {b : UInt8}

/-- A leading character is what its octets encode. -/
theorem eq_append_of_leadingChar? (h : leadingChar? bytes = some (c, count)) :
    0 < count ∧ bytes = Utf8.encodeChar c ++ bytes.drop count := by
  obtain ⟨k, hk, hfound⟩ := List.exists_of_findSome?_eq_some h
  have hpos : 0 < k := by
    simp only [List.mem_cons, List.not_mem_nil, or_false] at hk
    omega
  split at hfound
  · rename_i c' hdecode
    cases hfound
    have hencode := Utf8.encode_of_decode hdecode
    rw [Utf8.encode, List.flatMap_cons, List.flatMap_nil, List.append_nil] at hencode
    refine ⟨hpos, ?_⟩
    rw [hencode, List.take_append_drop]
  · cases hfound

/-- An octet below `0x80` is a character. -/
theorem leadingChar?_isSome (h : b.toNat < 0x80) (rest : Bytes) :
    (leadingChar? (b :: rest)).isSome := by
  have hdecode : Utf8.decode ((b :: rest).take 1) = .ok [Char.ofNat b.toNat] := by
    have hb : b < 0x80 := UInt8.lt_iff_toNat_lt.2 h
    rw [List.take_succ_cons, List.take_zero, Utf8.decode, Utf8.decodeFrom, if_pos hb]
    rfl
  rw [leadingChar?, List.findSome?_cons, hdecode]
  rfl

/-- No proper beginning of the octets of a character is read as a character. -/
theorem decode_take_encodeChar (h : count < (Utf8.encodeChar c).length) (c' : Char) :
    Utf8.decode ((Utf8.encodeChar c ++ rest).take count) ≠ .ok [c'] := by
  intro hdecode
  rw [List.take_append_of_le_length (Nat.le_of_lt h)] at hdecode
  have hbegin := Utf8.encode_of_decode hdecode
  rw [Utf8.encode, List.flatMap_cons, List.flatMap_nil, List.append_nil] at hbegin
  have hwhole : Utf8.decode (Utf8.encodeChar c) = .ok [c] := by
    simpa [Utf8.encode] using Utf8.decode_encode [c]
  have hsplit : Utf8.encodeChar c = Utf8.encodeChar c' ++ (Utf8.encodeChar c).drop count := by
    rw [hbegin, List.take_append_drop]
  obtain ⟨n, hrest⟩ :=
    Utf8.decodeFrom_encodeChar 0 c' ((Utf8.encodeChar c).drop count)
  rw [← hsplit, ← Utf8.decode, hwhole] at hrest
  cases hdrop : Utf8.decodeFrom n none ((Utf8.encodeChar c).drop count) with
  | error e =>
    rw [hdrop] at hrest
    cases hrest
  | ok cs =>
    rw [hdrop] at hrest
    cases hrest
    have hnil : [] = (Utf8.encodeChar c).drop count := Utf8.encode_of_decodeFrom (by simp) hdrop
    exact absurd (List.drop_eq_nil_iff.1 hnil.symm) (Nat.not_le.2 h)

def charOfFirst? (bytes : Bytes) (count : Nat) : Option (Char × Nat) :=
  match Utf8.decode (bytes.take count) with
  | .ok [c] => some (c, count)
  | _ => none

theorem leadingChar?_eq (bytes : Bytes) :
    leadingChar? bytes = [1, 2, 3, 4].findSome? (charOfFirst? bytes) := rfl

theorem length_encodeChar (c : Char) :
    (Utf8.encodeChar c).length = 1 ∨ (Utf8.encodeChar c).length = 2 ∨
      (Utf8.encodeChar c).length = 3 ∨ (Utf8.encodeChar c).length = 4 := by
  simp only [Utf8.encodeChar]
  split
  · simp
  · split
    · simp
    · split <;> simp

theorem leadingChar?_encodeChar (c : Char) (rest : Bytes) :
    leadingChar? (Utf8.encodeChar c ++ rest) = some (c, (Utf8.encodeChar c).length) := by
  have hbefore : ∀ count < (Utf8.encodeChar c).length,
      charOfFirst? (Utf8.encodeChar c ++ rest) count = none := by
    intro count hcount
    unfold charOfFirst?
    split
    · rename_i c' hdecode
      exact (decode_take_encodeChar hcount c' hdecode).elim
    · rfl
  have hwhole : charOfFirst? (Utf8.encodeChar c ++ rest) (Utf8.encodeChar c).length =
      some (c, (Utf8.encodeChar c).length) := by
    have hdecode : Utf8.decode (Utf8.encodeChar c) = .ok [c] := by
      simpa [Utf8.encode] using Utf8.decode_encode [c]
    rw [charOfFirst?, List.take_left, hdecode]
  rw [leadingChar?_eq]
  rcases length_encodeChar c with h | h | h | h <;> rw [h] at hbefore hwhole ⊢ <;>
    simp [hbefore, hwhole]

end LeadingChar

theorem ofOctetsAfter_eq (count : Nat) (bytes : Bytes) :
    ofOctetsAfter count bytes = ofOctets (bytes.drop count) := by
  induction bytes generalizing count with
  | nil => cases count <;> rfl
  | cons b rest ih =>
    cases count with
    | zero => rfl
    | succ count => exact ih count

/-- Octets are listed as the character that they begin with, or as a stray octet. -/
theorem ofOctets_cons (b : UInt8) (rest : Bytes) :
    (∃ c bytes, b :: rest = Utf8.encodeChar c ++ bytes ∧ bytes.length ≤ rest.length ∧
      ofOctets (b :: rest) = .char c :: ofOctets bytes) ∨
    (0x80 ≤ b.toNat ∧ ofOctets (b :: rest) = strayOctet b :: ofOctets rest) := by
  rw [ofOctets, ofOctetsAfter]
  cases hleading : leadingChar? (b :: rest) with
  | none =>
    refine .inr ⟨Nat.not_lt.1 fun hb => ?_, rfl⟩
    have hsome := leadingChar?_isSome hb rest
    rw [hleading] at hsome
    cases hsome
  | some found =>
    obtain ⟨c, count⟩ := found
    obtain ⟨hpos, heq⟩ := eq_append_of_leadingChar? hleading
    obtain ⟨k, rfl⟩ := Nat.exists_eq_succ_of_ne_zero (Nat.ne_of_gt hpos)
    refine .inl ⟨c, rest.drop k, heq, ?_, ?_⟩
    · rw [List.length_drop]
      exact Nat.sub_le _ _
    · dsimp only
      rw [Nat.succ_sub_one, ofOctetsAfter_eq]

/-- The text under which octets are listed is written as these octets. -/
theorem octetsFrom_ofOctets (position : Nat) (bytes : Bytes) :
    octetsFrom position (ofOctets bytes) = .ok bytes := by
  -- A character takes several octets, so the induction is on how many there are.
  induction hlength : bytes.length using Nat.strong_induction_on generalizing position bytes with
  | _ n ih =>
    cases bytes with
    | nil => rfl
    | cons b rest =>
      subst hlength
      rcases ofOctets_cons b rest with ⟨c, bytes, heq, hshorter, hlisted⟩ | ⟨hb, hlisted⟩
      · have hrest := ih bytes.length (Nat.lt_succ_of_le hshorter) (position + 1) bytes rfl
        rw [hlisted, octetsFrom, hrest, heq]
        rfl
      · have hrest := ih rest.length (Nat.lt_succ_self _) (position + 1) rest rfl
        rw [hlisted, octetsFrom_strayOctet position hb, hrest]
        rfl

theorem octets_ofOctets (bytes : Bytes) : (ofOctets bytes).octets = .ok bytes :=
  octetsFrom_ofOctets 0 bytes

theorem ofOctets_injective : Function.Injective ofOctets := by
  intro bytes bytes' h
  have hoctets := congrArg octets h
  rwa [octets_ofOctets, octets_ofOctets, Except.ok.injEq] at hoctets

theorem listable_ofOctets (bytes : Bytes) : (ofOctets bytes).Listable :=
  ⟨bytes, octets_ofOctets bytes, rfl⟩

theorem ofOctets_encode (cs : List Char) : ofOctets (Utf8.encode cs) = ofChars cs := by
  induction cs with
  | nil => rfl
  | cons c cs ih =>
    have hleading := leadingChar?_encodeChar c (Utf8.encode cs)
    rw [Utf8.encode, List.flatMap_cons, ← Utf8.encode]
    cases hbytes : Utf8.encodeChar c with
    | nil =>
      have hlength := length_encodeChar c
      rw [hbytes] at hlength
      simp at hlength
    | cons b more =>
      rw [hbytes] at hleading
      rw [List.cons_append] at hleading ⊢
      rw [ofOctets, ofOctetsAfter, hleading]
      dsimp only
      rw [List.length_cons, Nat.add_sub_cancel, ofOctetsAfter_eq, List.drop_left, ih]
      rfl

/-- A text without lone surrogates is the one under which its octets are listed. -/
theorem listable_of_not_hasLone {t : Text} (h : ¬ t.hasLone) : t.Listable := by
  obtain ⟨cs, rfl⟩ : ∃ cs, t = ofChars cs := by
    induction t with
    | nil => exact ⟨[], rfl⟩
    | cons p rest ih =>
      simp only [hasLone, List.any_cons, Bool.or_eq_true, not_or] at h
      obtain ⟨cs, rfl⟩ := ih h.2
      cases p with
      | char c => exact ⟨c :: cs, rfl⟩
      | lone offset => exact (h.1 rfl).elim
  exact ⟨_, octetsFrom_ofChars 0 cs, ofOctets_encode cs⟩

end Text

end LiveTemplates
