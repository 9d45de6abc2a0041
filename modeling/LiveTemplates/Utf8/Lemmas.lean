import LiveTemplates.Utf8

/-!
# Decoding what was encoded

The sequence of octets that encodes a character is read back as that character, whatever follows
it. Hence decoding takes back what encoding writes.
-/

namespace LiveTemplates

namespace Utf8

theorem toNat_ofNat_of_lt {n : Nat} (h : n < 256) : (UInt8.ofNat n).toNat = n := by
  rw [UInt8.toNat_ofNat']
  exact Nat.mod_eq_of_lt h

/-- A leading octet of one of the longer forms begins a sequence. -/
theorem decodeFrom_lead (position n : Nat) (rest : Bytes) (s : Begun) (h : 0x80 ≤ n) (hn : n < 256)
    (hs : begin? position (.ofNat n) = some s) :
    decodeFrom position none (.ofNat n :: rest) = decodeFrom (position + 1) (some s) rest := by
  have h' : ¬ UInt8.ofNat n < 0x80 := by
    rw [UInt8.lt_iff_toNat_lt, toNat_ofNat_of_lt hn]
    exact Nat.not_lt.2 h
  rw [decodeFrom, if_neg h', hs]

/-- The next octet of a sequence is within the bounds that are set for it. -/
structure Begun.Takes (s : Begun) (n : Nat) : Prop where
  low : s.lowest.toNat ≤ 0x80 + n
  high : 0x80 + n ≤ s.highest.toNat

theorem Begun.Takes.bounds {s : Begun} {n : Nat} (h : s.Takes n) (hn : n < 64) :
    s.lowest ≤ UInt8.ofNat (0x80 + n) ∧ UInt8.ofNat (0x80 + n) ≤ s.highest := by
  rw [UInt8.le_iff_toNat_le, UInt8.le_iff_toNat_le, toNat_ofNat_of_lt (by omega)]
  exact ⟨h.low, h.high⟩

/-- The last octet of a sequence ends its character. -/
theorem decodeFrom_last (position n : Nat) (rest : Bytes) (s : Begun) (hn : n < 64)
    (hm : s.missing = 1) (h : s.Takes n) :
    decodeFrom position (some s) (.ofNat (0x80 + n) :: rest) =
      (decodeFrom (position + 1) none rest).map (Char.ofNat (s.value * 64 + n) :: ·) := by
  have hv : (UInt8.ofNat (0x80 + n)).toNat = 0x80 + n := toNat_ofNat_of_lt (by omega)
  rw [decodeFrom, if_pos (h.bounds hn), if_pos (by omega), Begun.next, hv]
  simp

/-- An inner octet of a sequence goes on with its character. -/
theorem decodeFrom_inner (position n : Nat) (rest : Bytes) (s : Begun) (hn : n < 64)
    (hm : 1 < s.missing) (h : s.Takes n) :
    decodeFrom position (some s) (.ofNat (0x80 + n) :: rest) =
      decodeFrom (position + 1)
        (some ⟨s.start, s.octets ++ [.ofNat (0x80 + n)], s.value * 64 + n, s.missing - 1, 0x80,
          0xBF⟩) rest := by
  have hv : (UInt8.ofNat (0x80 + n)).toNat = 0x80 + n := toNat_ofNat_of_lt (by omega)
  rw [decodeFrom, if_pos (h.bounds hn), if_neg (by omega), Begun.next, hv]
  simp

theorem begin?_two (position n : Nat) (hlow : 2 ≤ n) (hhigh : n < 32) :
    begin? position (.ofNat (0xC0 + n)) =
      some ⟨position, [.ofNat (0xC0 + n)], n, 1, 0x80, 0xBF⟩ := by
  have hv : (UInt8.ofNat (0xC0 + n)).toNat = 0xC0 + n := toNat_ofNat_of_lt (by omega)
  rw [begin?, if_neg, if_pos, hv]
  · simp
  · rw [UInt8.lt_iff_toNat_lt, hv]
    exact Nat.add_lt_add_left hhigh 0xC0
  · rw [UInt8.lt_iff_toNat_lt, hv]
    exact Nat.not_lt.2 (Nat.add_le_add_left hlow 0xC0)

theorem begin?_three (position n : Nat) (h : n < 16) :
    begin? position (.ofNat (0xE0 + n)) =
      some ⟨position, [.ofNat (0xE0 + n)], n, 2, if n = 0 then 0xA0 else 0x80,
        if n = 13 then 0x9F else 0xBF⟩ := by
  have hv : (UInt8.ofNat (0xE0 + n)).toNat = 0xE0 + n := toNat_ofNat_of_lt (by omega)
  have h0 : UInt8.ofNat (0xE0 + n) = 0xE0 ↔ n = 0 := by
    rw [← UInt8.toNat_inj, hv]
    exact Nat.add_eq_left
  have h13 : UInt8.ofNat (0xE0 + n) = 0xED ↔ n = 13 := by
    rw [← UInt8.toNat_inj, hv]
    show 0xE0 + n = 0xED ↔ n = 13
    omega
  rw [begin?, if_neg, if_neg, if_pos, hv]
  · simp only [h0, h13, Nat.add_sub_cancel_left]
  · rw [UInt8.lt_iff_toNat_lt, hv]
    exact Nat.add_lt_add_left h 0xE0
  · rw [UInt8.lt_iff_toNat_lt, hv]
    exact Nat.not_lt.2 (Nat.le_add_right 0xE0 n)
  · rw [UInt8.lt_iff_toNat_lt, hv]
    exact Nat.not_lt.2 (Nat.le_trans (by decide : 0xC2 ≤ 0xE0) (Nat.le_add_right 0xE0 n))

theorem begin?_four (position n : Nat) (h : n < 5) :
    begin? position (.ofNat (0xF0 + n)) =
      some ⟨position, [.ofNat (0xF0 + n)], n, 3, if n = 0 then 0x90 else 0x80,
        if n = 4 then 0x8F else 0xBF⟩ := by
  have hv : (UInt8.ofNat (0xF0 + n)).toNat = 0xF0 + n := toNat_ofNat_of_lt (by omega)
  have h0 : UInt8.ofNat (0xF0 + n) = 0xF0 ↔ n = 0 := by
    rw [← UInt8.toNat_inj, hv]
    exact Nat.add_eq_left
  have h4 : UInt8.ofNat (0xF0 + n) = 0xF4 ↔ n = 4 := by
    rw [← UInt8.toNat_inj, hv]
    show 0xF0 + n = 0xF4 ↔ n = 4
    omega
  rw [begin?, if_neg, if_neg, if_neg, if_pos, hv]
  · simp only [h0, h4, Nat.add_sub_cancel_left]
  · rw [UInt8.lt_iff_toNat_lt, hv]
    exact Nat.add_lt_add_left h 0xF0
  · rw [UInt8.lt_iff_toNat_lt, hv]
    exact Nat.not_lt.2 (Nat.le_add_right 0xF0 n)
  · rw [UInt8.lt_iff_toNat_lt, hv]
    exact Nat.not_lt.2 (Nat.le_trans (by decide : 0xE0 ≤ 0xF0) (Nat.le_add_right 0xF0 n))
  · rw [UInt8.lt_iff_toNat_lt, hv]
    exact Nat.not_lt.2 (Nat.le_trans (by decide : 0xC2 ≤ 0xF0) (Nat.le_add_right 0xF0 n))

section Lengths

variable (position : Nat) {a b c d : Nat} (rest : Bytes)

theorem le_lastOctet (hb : b < 64) : 0x80 + b ≤ (0xBF : UInt8).toNat :=
  Nat.add_le_add_left (Nat.le_of_lt_succ hb) 0x80

/-- The bounds of a second octet are the usual ones, unless there is a reason for others. -/
theorem takes_second {p q : Prop} [Decidable p] [Decidable q] {low high : UInt8} {s : Begun}
    (hlow : s.lowest = if p then low else 0x80) (hhigh : s.highest = if q then high else 0xBF)
    (hb : b < 64) (hp : p → low.toNat ≤ 0x80 + b) (hq : q → 0x80 + b ≤ high.toNat) :
    s.Takes b := by
  constructor
  · rw [hlow]
    split
    · exact hp ‹p›
    · exact Nat.le_add_right 0x80 b
  · rw [hhigh]
    split
    · exact hq ‹q›
    · exact le_lastOctet hb

theorem decodeFrom_one (ha : a < 0x80) : decodeFrom position none (.ofNat a :: rest) =
    (decodeFrom (position + 1) none rest).map (Char.ofNat a :: ·) := by
  have hv : (UInt8.ofNat a).toNat = a := toNat_ofNat_of_lt (by omega)
  have hone : UInt8.ofNat a < 0x80 := by
    rw [UInt8.lt_iff_toNat_lt, hv]
    exact ha
  rw [decodeFrom, if_pos hone, hv]

theorem decodeFrom_two (hlow : 2 ≤ a) (hhigh : a < 32) (hb : b < 64) :
    decodeFrom position none (.ofNat (0xC0 + a) :: .ofNat (0x80 + b) :: rest) =
      (decodeFrom (position + 2) none rest).map (Char.ofNat (a * 64 + b) :: ·) :=
  calc
    _ = _ := decodeFrom_lead position _ _ _ (by omega) (by omega) (begin?_two position a hlow hhigh)
    _ = _ := decodeFrom_last _ b rest _ hb rfl ⟨Nat.le_add_right 0x80 b, le_lastOctet hb⟩

/-- The second octet keeps the sequence from being too long and from being a surrogate. -/
theorem decodeFrom_three (ha : a < 16) (hb : b < 64) (hc : c < 64) (hlow : a = 0 → 32 ≤ b)
    (hhigh : a = 13 → b < 32) :
    decodeFrom position none
        (.ofNat (0xE0 + a) :: .ofNat (0x80 + b) :: .ofNat (0x80 + c) :: rest) =
      (decodeFrom (position + 3) none rest).map (Char.ofNat ((a * 64 + b) * 64 + c) :: ·) :=
  calc
    _ = _ := decodeFrom_lead position _ _ _ (by omega) (by omega) (begin?_three position a ha)
    _ = _ := decodeFrom_inner _ b _ _ hb (Nat.lt_succ_self 1)
      (takes_second rfl rfl hb (fun h => Nat.add_le_add_left (hlow h) 0x80)
        fun h => Nat.add_le_add_left (Nat.le_of_lt_succ (hhigh h)) 0x80)
    _ = _ := decodeFrom_last _ c rest _ hc rfl ⟨Nat.le_add_right 0x80 c, le_lastOctet hc⟩

/-- The second octet keeps the sequence from being too long and from being beyond all characters. -/
theorem decodeFrom_four (ha : a < 5) (hb : b < 64) (hc : c < 64) (hd : d < 64)
    (hlow : a = 0 → 16 ≤ b) (hhigh : a = 4 → b < 16) :
    decodeFrom position none (.ofNat (0xF0 + a) :: .ofNat (0x80 + b) :: .ofNat (0x80 + c) ::
        .ofNat (0x80 + d) :: rest) =
      (decodeFrom (position + 4) none rest).map
        (Char.ofNat (((a * 64 + b) * 64 + c) * 64 + d) :: ·) :=
  calc
    _ = _ := decodeFrom_lead position _ _ _ (by omega) (by omega) (begin?_four position a ha)
    _ = _ := decodeFrom_inner _ b _ _ hb (by decide : 1 < 3)
      (takes_second rfl rfl hb (fun h => Nat.add_le_add_left (hlow h) 0x80)
        fun h => Nat.add_le_add_left (Nat.le_of_lt_succ (hhigh h)) 0x80)
    _ = _ := decodeFrom_inner _ c _ _ hc (Nat.lt_succ_self 1)
      ⟨Nat.le_add_right 0x80 c, le_lastOctet hc⟩
    _ = _ := decodeFrom_last _ d rest _ hd rfl ⟨Nat.le_add_right 0x80 d, le_lastOctet hd⟩

end Lengths

/-- Reading the octets of a character gives the character and goes on behind them. -/
theorem decodeFrom_encodeChar (position : Nat) (c : Char) (rest : Bytes) :
    ∃ n, decodeFrom position none (encodeChar c ++ rest) =
      (decodeFrom n none rest).map (c :: ·) := by
  have hc : c.toNat < 0xD800 ∨ (0xDFFF < c.toNat ∧ c.toNat < 0x110000) := c.valid
  have hchar : ∀ m : Nat, m = c.toNat → Char.ofNat m = c := by
    rintro m rfl
    exact Char.ofNat_toNat c
  rw [encodeChar]
  by_cases hone : c.toNat < 0x80
  · rw [if_pos hone]
    exact ⟨_, by rw [List.singleton_append, decodeFrom_one position rest hone, hchar _ rfl]⟩
  by_cases htwo : c.toNat < 0x800
  · rw [if_neg hone, if_pos htwo]
    refine ⟨position + 2, (decodeFrom_two position rest (by omega) (by omega) (by omega)).trans ?_⟩
    rw [hchar _ (by omega)]
  by_cases hthree : c.toNat < 0x10000
  · rw [if_neg hone, if_neg htwo, if_pos hthree]
    refine ⟨position + 3, (decodeFrom_three position rest (by omega) (by omega) (by omega)
      (by omega) (by omega)).trans ?_⟩
    rw [hchar _ (by omega)]
  · rw [if_neg hone, if_neg htwo, if_neg hthree]
    refine ⟨position + 4, (decodeFrom_four position rest (by omega) (by omega) (by omega) (by omega)
      (by omega) (by omega)).trans ?_⟩
    rw [hchar _ (by omega)]

theorem decodeFrom_encode (position : Nat) (cs : List Char) :
    decodeFrom position none (encode cs) = .ok cs := by
  induction cs generalizing position with
  | nil => rfl
  | cons c cs ih =>
    obtain ⟨n, hn⟩ := decodeFrom_encodeChar position c (encode cs)
    rw [encode, List.flatMap_cons, ← encode, hn, ih]
    rfl

theorem decode_encode (cs : List Char) : decode (encode cs) = .ok cs :=
  decodeFrom_encode 0 cs

end Utf8

end LiveTemplates
