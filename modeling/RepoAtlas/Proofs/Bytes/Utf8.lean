import RepoAtlas.Bytes.Utf8
import Mathlib.Data.List.Basic
import Mathlib.Tactic.SplitIfs

/-!
# The bytes of a text

The bytes that encode a text are those of its characters, one after the other. They
say these characters and no fault, so that the text is decoded from them again
(`Utf8.decode?_encode`).
-/

namespace RepoAtlas.Utf8

/-! ### Bytes of characters -/

/-- The bytes of a text are those of its characters. -/
theorem encode_eq (s : String) : encode s = s.toList.flatMap String.utf8EncodeChar := rfl

theorem encode_append (s t : String) : encode (s ++ t) = encode s ++ encode t := by
  rw [encode_eq, encode_eq, encode_eq, String.toList_append, List.flatMap_append]

theorem encode_singleton (c : Char) : encode (String.singleton c) = String.utf8EncodeChar c := by
  rw [encode_eq, String.toList_singleton, List.flatMap_singleton]

/-- Characters have numbers below 0x110000. -/
theorem toNat_lt (c : Char) : c.val.toNat < 0x110000 := by
  rcases c.valid with h | h
  · exact Nat.lt_trans h (by decide)
  · exact h.2

/-! ### Numbers of bytes -/

theorem size_append (cs ds : List Char) : size (cs ++ ds) = size cs + size ds := by
  induction cs with
  | nil => exact (Nat.zero_add _).symm
  | cons c cs ih => rw [List.cons_append, size, ih, size, Nat.add_assoc]

theorem size_replicate (n : Nat) (c : Char) : size (List.replicate n c) = n * c.utf8Size := by
  induction n with
  | zero => exact (Nat.zero_mul _).symm
  | succ n ih => rw [List.replicate_succ, size, ih, Nat.succ_mul, Nat.add_comm]

/-! ### Characters from bytes -/

variable {b c d e lo hi : UInt8} {rest : Bytes}

theorem within_iff : within lo hi b = true ↔ lo.toNat ≤ b.toNat ∧ b.toNat ≤ hi.toNat := by
  simp [within, UInt8.le_iff_toNat_le]

theorem lead?_of_two (hb : 0xC2 ≤ b.toNat ∧ b.toNat ≤ 0xDF) :
    lead? b = some ((0x80, 0xBF), 0) := by
  rw [lead?, if_pos]
  exact within_iff.2 hb

/-- A first byte of three tells the range of the second, which has no surrogates in it. -/
theorem exists_lead?_of_three (hb : 0xE0 ≤ b.toNat ∧ b.toNat ≤ 0xEF)
    (hc : 0x80 ≤ c.toNat ∧ c.toNat ≤ 0xBF) (hlow : b.toNat = 0xE0 → 0xA0 ≤ c.toNat)
    (hsurrogate : b.toNat = 0xED → c.toNat ≤ 0x9F) :
    ∃ lo hi, lead? b = some ((lo, hi), 1) ∧ within lo hi c = true := by
  simp only [lead?, within_iff, ← UInt8.toNat_inj, UInt8.reduceToNat]
  split_ifs <;> simp <;> omega

/-- A first byte of four tells the range of the second, which ends with that of
    characters. -/
theorem exists_lead?_of_four (hb : 0xF0 ≤ b.toNat ∧ b.toNat ≤ 0xF4)
    (hc : 0x80 ≤ c.toNat ∧ c.toNat ≤ 0xBF) (hlow : b.toNat = 0xF0 → 0x90 ≤ c.toNat)
    (hhigh : b.toNat = 0xF4 → c.toNat ≤ 0x8F) :
    ∃ lo hi, lead? b = some ((lo, hi), 2) ∧ within lo hi c = true := by
  simp only [lead?, within_iff, ← UInt8.toNat_inj, UInt8.reduceToNat]
  split_ifs <;> simp <;> omega

theorem decode_one (hb : b < 0x80) :
    decode (b :: rest) = some (Char.ofNat b.toNat) :: decode rest := by
  rw [decode.eq_def]
  simp [hb]

theorem decode_two (hb : ¬b < 0x80) (hlead : lead? b = some ((lo, hi), 0))
    (hc : within lo hi c = true) :
    decode (b :: c :: rest) = some (Char.ofNat (high b * 64 + low c)) :: decode rest := by
  rw [decode.eq_def]
  simp [hb, hlead, hc]

theorem decode_three (hb : ¬b < 0x80) (hlead : lead? b = some ((lo, hi), 1))
    (hc : within lo hi c = true) (hd : isTail d = true) :
    decode (b :: c :: d :: rest) =
      some (Char.ofNat ((high b * 64 + low c) * 64 + low d)) :: decode rest := by
  rw [decode.eq_def]
  simp [hb, hlead, hc, hd]

theorem decode_four (hb : ¬b < 0x80) (hlead : lead? b = some ((lo, hi), 2))
    (hc : within lo hi c = true) (hd : isTail d = true) (he : isTail e = true) :
    decode (b :: c :: d :: e :: rest) =
      some (Char.ofNat (((high b * 64 + low c) * 64 + low d) * 64 + low e)) :: decode rest := by
  rw [decode.eq_def]
  simp [hb, hlead, hc, hd, he]

/-- What a first byte gives of the number, by how many bytes follow. -/
theorem high_eq (b : UInt8) :
    high b = if b.toNat < 0xE0 then b.toNat % 32 else if b.toNat < 0xF0 then b.toNat % 16
      else b.toNat % 8 := by
  simp [high, UInt8.lt_iff_toNat_lt]

/-- The bytes of a character say it, whatever follows them. -/
theorem decode_utf8EncodeChar_append (c : Char) (rest : Bytes) :
    decode (String.utf8EncodeChar c ++ rest) = some c :: decode rest := by
  have hvalid : c.val.toNat < 0xD800 ∨ 0xDFFF < c.val.toNat ∧ c.val.toNat < 0x110000 := c.valid
  have hc : Char.ofNat c.val.toNat = c := Char.ofNat_toNat c
  rw [String.utf8EncodeChar]
  generalize c.val.toNat = v at hvalid hc
  -- The first byte has a mark above its payload, and so has every further one.
  have hbyte {n : Nat} (hn : n < 256) : (UInt8.ofNat n).toNat = n := UInt8.toNat_ofNat_of_lt hn
  have hnot {b : UInt8} (hb : 128 ≤ b.toNat) : ¬b < 0x80 := by
    rw [UInt8.lt_iff_toNat_lt]
    exact Nat.not_lt_of_le hb
  have htail (n : Nat) : (UInt8.ofNat (n % 64 + 128)).toNat = n % 64 + 128 := hbyte (by omega)
  have hrange (n : Nat) : 0x80 ≤ (UInt8.ofNat (n % 64 + 128)).toNat ∧
      (UInt8.ofNat (n % 64 + 128)).toNat ≤ 0xBF := by
    rw [htail]
    omega
  have hisTail (n : Nat) : isTail (UInt8.ofNat (n % 64 + 128)) = true := within_iff.2 (hrange n)
  split_ifs with h₁ h₂ h₃
  · have hb := hbyte (show v < 256 by omega)
    rw [List.singleton_append, decode_one, hb, hc]
    rw [UInt8.lt_iff_toNat_lt, hb]
    exact Nat.lt_succ_of_le h₁
  · have hb := hbyte (show v / 64 % 32 + 192 < 256 by omega)
    rw [List.cons_append, List.singleton_append, decode_two (hnot (by omega))
      (lead?_of_two (by omega)) (hisTail v), low, high_eq, htail, hb]
    rw [← hc]
    congr 3
    split_ifs <;> omega
  · have hb := hbyte (show v / 4096 % 16 + 224 < 256 by omega)
    obtain ⟨lo, hi, hlead, hwithin⟩ := exists_lead?_of_three (by rw [hb]; omega) (hrange (v / 64))
      (by rw [hb, htail]; omega) (by rw [hb, htail]; omega)
    rw [List.cons_append, List.cons_append, List.singleton_append, decode_three (hnot (by omega))
      hlead hwithin (hisTail v), low, low, high_eq, htail, htail, hb]
    rw [← hc]
    congr 3
    split_ifs <;> omega
  · have hb := hbyte (show v / 262144 % 8 + 240 < 256 by omega)
    obtain ⟨lo, hi, hlead, hwithin⟩ := exists_lead?_of_four (by rw [hb]; omega)
      (hrange (v / 4096)) (by rw [hb, htail]; omega) (by rw [hb, htail]; omega)
    rw [List.cons_append, List.cons_append, List.cons_append, List.singleton_append,
      decode_four (hnot (by omega)) hlead hwithin (hisTail (v / 64)) (hisTail v), low, low, low,
      high_eq, htail, htail, htail, hb]
    rw [← hc]
    congr 3
    split_ifs <;> omega

/-! ### Texts from bytes -/

/-- The bytes of a text are decoded to its characters. -/
theorem decode_encode (s : String) : decode (encode s) = s.toList.map some := by
  rw [encode_eq]
  induction s.toList with
  | nil => rfl
  | cons c cs ih => rw [List.flatMap_cons, decode_utf8EncodeChar_append, ih, List.map_cons]

/-- Where nothing is missing, all is there. -/
theorem allSome_map_some {α : Type} (l : List α) : allSome (l.map some) = some l := by
  induction l with
  | nil => rfl
  | cons a l ih => rw [List.map_cons, allSome, ih, Option.map_some]

/-- A text is decoded from the bytes that encode it. -/
theorem decode?_encode (s : String) : decode? (encode s) = some s := by
  rw [decode?, decode_encode, allSome_map_some, Option.map_some, String.ofList_toList]

/-- Different texts have different bytes. -/
theorem encode_injective {s t : String} (h : encode s = encode t) : s = t := by
  have hdecode := decode?_encode s
  rw [h, decode?_encode] at hdecode
  exact (Option.some_inj.1 hdecode).symm

end RepoAtlas.Utf8
