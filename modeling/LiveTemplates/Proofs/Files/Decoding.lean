import LiveTemplates.Utf8.Lemmas

/-!
# Encoding what was decoded

A sequence that has begun can only go on to octets by which a character is written. Hence encoding
takes back what decoding reads, and no two sequences of octets are read as the same characters.
-/

namespace LiveTemplates

section Results

variable {ε α β : Type} {x : Except ε α} {f : α → β}

theorem map_eq_ok {b : β} : x.map f = .ok b ↔ ∃ a, x = .ok a ∧ f a = b := by
  cases x <;> simp [Except.map]

theorem map_eq_error {e : ε} : x.map f = .error e ↔ x = .error e := by
  cases x <;> simp [Except.map]

end Results

namespace Utf8

inductive Begun.Writes : Begun → Prop
  | last {s : Begun} : s.missing ≤ 1 → (∀ b, s.lowest ≤ b → b ≤ s.highest →
      encodeChar (Char.ofNat (s.next b).value) = s.octets ++ [b]) → s.Writes
  | inner {s : Begun} : 1 < s.missing → (∀ b, s.lowest ≤ b → b ≤ s.highest → (s.next b).Writes) →
      s.Writes

theorem encodeChar_ofNat {n : Nat} (h : n.isValidChar) :
    encodeChar (Char.ofNat n) =
      if n < 0x80 then [.ofNat n]
      else if n < 0x800 then [.ofNat (0xC0 + n / 64), .ofNat (0x80 + n % 64)]
      else if n < 0x10000 then
        [.ofNat (0xE0 + n / 4096), .ofNat (0x80 + n / 64 % 64), .ofNat (0x80 + n % 64)]
      else
        [.ofNat (0xF0 + n / 262144), .ofNat (0x80 + n / 4096 % 64), .ofNat (0x80 + n / 64 % 64),
          .ofNat (0x80 + n % 64)] := by
  have hn : (Char.ofNat n).toNat = n := by
    rw [Char.ofNat, dif_pos h]
    rfl
  rw [encodeChar, hn]

theorem ofNat_eq_of_toNat {b : UInt8} {n : Nat} (h : n = b.toNat) : UInt8.ofNat n = b := by
  rw [h, UInt8.ofNat_toNat]

theorem writes_last {s : Begun} (hm : s.missing ≤ 1) (hlow : s.lowest = 0x80)
    (hhigh : s.highest = 0xBF)
    (h : ∀ k, k < 64 →
      encodeChar (Char.ofNat (s.value * 64 + k)) = s.octets ++ [.ofNat (0x80 + k)]) :
    s.Writes := by
  refine .last hm fun b hb hb' => ?_
  rw [hlow, UInt8.le_iff_toNat_le] at hb
  rw [hhigh, UInt8.le_iff_toNat_le] at hb'
  have hk := h (b.toNat - 0x80) (by simp at hb hb'; omega)
  rwa [ofNat_eq_of_toNat (b := b) (by simp at hb; omega)] at hk

theorem writes_two {position : Nat} {b : UInt8} (hlow : 0xC2 ≤ b.toNat) (hhigh : b.toNat < 0xE0) :
    Begun.Writes ⟨position, [b], b.toNat - 0xC0, 1, 0x80, 0xBF⟩ := by
  refine writes_last (Nat.le_refl 1) rfl rfl fun k hk => ?_
  dsimp only
  rw [encodeChar_ofNat (.inl (by omega)), if_neg (by omega), if_pos (by omega),
    ofNat_eq_of_toNat (b := b) (by omega)]
  simp only [List.cons_append, List.nil_append, List.cons.injEq, and_true, true_and]
  congr 1
  omega

/-- The octet after a leading one, where the bounds are narrower for two leading octets. -/
theorem bounds_of_narrowed {b c : UInt8} {lead lead' low high : UInt8}
    (hc : (if b = lead then low else 0x80) ≤ c) (hc' : c ≤ (if b = lead' then high else 0xBF))
    (hlow : 0x80 ≤ low.toNat) (hhigh : high.toNat ≤ 0xBF) :
    0x80 ≤ c.toNat ∧ c.toNat ≤ 0xBF ∧ (b.toNat = lead.toNat → low.toNat ≤ c.toNat) ∧
      (b.toNat = lead'.toNat → c.toNat ≤ high.toNat) := by
  rw [UInt8.le_iff_toNat_le] at hc hc'
  refine ⟨?_, ?_, fun hb => ?_, fun hb => ?_⟩
  · split at hc
    · exact Nat.le_trans hlow hc
    · exact hc
  · split at hc'
    · exact Nat.le_trans hc' hhigh
    · exact hc'
  · rwa [if_pos (UInt8.toNat_inj.1 hb)] at hc
  · rwa [if_pos (UInt8.toNat_inj.1 hb)] at hc'

theorem writes_three {position : Nat} {b : UInt8} (hlow : 0xE0 ≤ b.toNat) (hhigh : b.toNat < 0xF0) :
    Begun.Writes ⟨position, [b], b.toNat - 0xE0, 2, if b = 0xE0 then 0xA0 else 0x80,
      if b = 0xED then 0x9F else 0xBF⟩ := by
  refine .inner (Nat.lt_succ_self 1) fun c hc hc' => writes_last (Nat.le_refl 1) rfl rfl
    fun k hk => ?_
  obtain ⟨hc₁, hc₂, hfirst, hsurrogate⟩ := bounds_of_narrowed hc hc' (by decide) (by decide)
  have hfirst : b.toNat = 0xE0 → 0xA0 ≤ c.toNat := hfirst
  have hsurrogate : b.toNat = 0xED → c.toNat ≤ 0x9F := hsurrogate
  dsimp only [Begun.next]
  have hvalid : (((b.toNat - 0xE0) * 64 + (c.toNat - 0x80)) * 64 + k).isValidChar := by
    unfold Nat.isValidChar
    omega
  rw [encodeChar_ofNat hvalid, if_neg (by omega), if_neg (by omega), if_pos (by omega),
    ofNat_eq_of_toNat (b := b) (by omega), ofNat_eq_of_toNat (b := c) (by omega)]
  simp only [List.cons_append, List.nil_append, List.cons.injEq, and_true, true_and]
  congr 1
  omega

theorem writes_four {position : Nat} {b : UInt8} (hlow : 0xF0 ≤ b.toNat) (hhigh : b.toNat < 0xF5) :
    Begun.Writes ⟨position, [b], b.toNat - 0xF0, 3, if b = 0xF0 then 0x90 else 0x80,
      if b = 0xF4 then 0x8F else 0xBF⟩ := by
  refine .inner (by decide : 1 < 3) fun c hc hc' => .inner (Nat.lt_succ_self 1) fun d hd hd' =>
    writes_last (Nat.le_refl 1) rfl rfl fun k hk => ?_
  obtain ⟨hc₁, hc₂, hfirst, hlast⟩ := bounds_of_narrowed hc hc' (by decide) (by decide)
  have hfirst : b.toNat = 0xF0 → 0x90 ≤ c.toNat := hfirst
  have hlast : b.toNat = 0xF4 → c.toNat ≤ 0x8F := hlast
  have hd₁ : 0x80 ≤ d.toNat := hd
  have hd₂ : d.toNat ≤ 0xBF := hd'
  dsimp only [Begun.next]
  have hvalid : ((((b.toNat - 0xF0) * 64 + (c.toNat - 0x80)) * 64 + (d.toNat - 0x80)) * 64 +
      k).isValidChar := by
    unfold Nat.isValidChar
    omega
  rw [encodeChar_ofNat hvalid, if_neg (by omega), if_neg (by omega), if_neg (by omega),
    ofNat_eq_of_toNat (b := b) (by omega), ofNat_eq_of_toNat (b := c) (by omega),
    ofNat_eq_of_toNat (b := d) (by omega)]
  simp only [List.cons_append, List.nil_append, List.cons.injEq, and_true, true_and]
  congr 1
  omega

theorem begin?_writes {position : Nat} {b : UInt8} {s : Begun} (h : begin? position b = some s) :
    s.octets = [b] ∧ s.Writes := by
  unfold begin? at h
  simp only [UInt8.lt_iff_toNat_lt] at h
  split at h
  · cases h
  rename_i h₂
  have h₂ : 0xC2 ≤ b.toNat := Nat.not_lt.1 h₂
  split at h
  · cases h
    exact ⟨rfl, writes_two h₂ ‹_›⟩
  rename_i h₃
  split at h
  · cases h
    exact ⟨rfl, writes_three (Nat.not_lt.1 h₃) ‹_›⟩
  rename_i h₄
  split at h
  · cases h
    exact ⟨rfl, writes_four (Nat.not_lt.1 h₄) ‹_›⟩
  · cases h

/-- What was decoded encodes to the octets that were read. -/
theorem encode_of_decodeFrom {bytes : Bytes} {position : Nat} {state : Option Begun}
    {cs : List Char} (hwrites : ∀ s, state = some s → s.Writes)
    (h : decodeFrom position state bytes = .ok cs) :
    encode cs = state.elim [] Begun.octets ++ bytes := by
  -- The octets of a sequence that has begun wait in its state until its character is written.
  induction bytes generalizing position state cs with
  | nil =>
    cases state with
    | none => cases h; rfl
    | some s => cases h
  | cons b rest ih =>
    cases state with
    | none =>
      rw [decodeFrom] at h
      split at h
      · rename_i hb
        rw [UInt8.lt_iff_toNat_lt] at hb
        have hb : b.toNat < 0x80 := hb
        obtain ⟨cs', hrest, rfl⟩ := map_eq_ok.1 h
        rw [encode, List.flatMap_cons, ← encode, ih (by simp) hrest,
          encodeChar_ofNat (.inl (by omega)), if_pos hb, UInt8.ofNat_toNat]
        rfl
      · split at h
        · cases h
        · rename_i s hs
          obtain ⟨hoctets, hwrites⟩ := begin?_writes hs
          rw [ih (fun s' hs' => Option.some.inj hs' ▸ hwrites) h, Option.elim_some, hoctets]
          rfl
    | some s =>
      rw [decodeFrom] at h
      split at h
      · rename_i hb
        split at h
        · rename_i hm
          obtain ⟨cs', hrest, rfl⟩ := map_eq_ok.1 h
          cases hwrites s rfl with
          | last _ hlast =>
            rw [encode, List.flatMap_cons, ← encode, ih (by simp) hrest, hlast b hb.1 hb.2]
            simp
          | inner hinner => omega
        · rename_i hm
          cases hwrites s rfl with
          | last hlast => omega
          | inner _ hinner =>
            rw [ih (fun s' hs' => Option.some.inj hs' ▸ hinner b hb.1 hb.2) h]
            simp [Begun.next]
      · cases h

theorem encode_of_decode {bytes : Bytes} {cs : List Char} (h : decode bytes = .ok cs) :
    encode cs = bytes :=
  encode_of_decodeFrom (by simp) h

end Utf8

end LiveTemplates
