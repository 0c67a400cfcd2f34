import RepoAtlas.Proofs.Bytes.Utf8

/-!
# Bytes that say a text

A text is decoded from no bytes but those that encode it (`decode?_eq_some_iff`), so
bytes say no text exactly if they encode none.

The first thing that bytes say is a fault, or a character that they begin with
(`decode_cases`): the ranges of the second byte, set by the first, leave out what is
written with fewer bytes and what is no character (`lead?_cases`).
-/

namespace RepoAtlas.Utf8

variable {b c d e lo hi : UInt8} {rest : Bytes} {more : Nat}

/-! ### The bytes of a number -/

theorem val_ofNat {n : Nat} (h : n.isValidChar) : (Char.ofNat n).val.toNat = n := by
  rw [Char.ofNat, dif_pos h]
  exact UInt32.toNat_ofNatLT

theorem ofNat_eq {n : Nat} (h : n = b.toNat) : UInt8.ofNat n = b := by
  rw [h, UInt8.ofNat_toNat]

/-- The first two bytes of a character of two bytes or more, by the number of those behind. -/
theorem lead?_cases (hlead : lead? b = some ((lo, hi), more)) (hc : within lo hi c = true) :
    (0x80 ≤ c.toNat ∧ c.toNat ≤ 0xBF) ∧
      (more = 0 ∧ 0xC2 ≤ b.toNat ∧ b.toNat ≤ 0xDF ∨
        more = 1 ∧ 0xE0 ≤ b.toNat ∧ b.toNat ≤ 0xEF ∧ (b.toNat = 0xE0 → 0xA0 ≤ c.toNat) ∧
            (b.toNat = 0xED → c.toNat ≤ 0x9F) ∨
        more = 2 ∧ 0xF0 ≤ b.toNat ∧ b.toNat ≤ 0xF4 ∧ (b.toNat = 0xF0 → 0x90 ≤ c.toNat) ∧
            (b.toNat = 0xF4 → c.toNat ≤ 0x8F)) := by
  rw [within_iff] at hc
  simp only [lead?, within_iff, ← UInt8.toNat_inj, UInt8.reduceToNat] at hlead
  split_ifs at hlead <;> cases hlead <;> simp only [UInt8.reduceToNat] at hc <;> omega

theorem isTail_iff : isTail d = true ↔ 0x80 ≤ d.toNat ∧ d.toNat ≤ 0xBF := within_iff

/-! ### What bytes encode -/

theorem utf8EncodeChar_one (hb : b < 0x80) :
    String.utf8EncodeChar (Char.ofNat b.toNat) = [b] := by
  have hlt : b.toNat < 0x80 := UInt8.lt_iff_toNat_lt.1 hb
  rw [String.utf8EncodeChar, val_ofNat (.inl (by omega)), if_pos (by omega), UInt8.ofNat_toNat]

theorem utf8EncodeChar_two (hlead : lead? b = some ((lo, hi), 0)) (hc : within lo hi c = true) :
    String.utf8EncodeChar (Char.ofNat (high b * 64 + low c)) = [b, c] := by
  obtain ⟨⟨hc₁, hc₂⟩, hb⟩ := lead?_cases hlead hc
  have hhigh : high b = b.toNat % 32 := by
    rw [high_eq, if_pos (by omega)]
  rw [String.utf8EncodeChar, hhigh, low, val_ofNat (.inl (by omega)), if_neg (by omega),
    if_pos (by omega)]
  simp only [List.cons.injEq, and_true]
  exact ⟨ofNat_eq (by omega), ofNat_eq (by omega)⟩

theorem utf8EncodeChar_three (hlead : lead? b = some ((lo, hi), 1)) (hc : within lo hi c = true)
    (hd : isTail d = true) :
    String.utf8EncodeChar (Char.ofNat ((high b * 64 + low c) * 64 + low d)) = [b, c, d] := by
  obtain ⟨⟨hc₁, hc₂⟩, hb⟩ := lead?_cases hlead hc
  obtain ⟨hd₁, hd₂⟩ := isTail_iff.1 hd
  have hhigh : high b = b.toNat % 16 := by
    rw [high_eq, if_neg (by omega), if_pos (by omega)]
  have hvalid : ((b.toNat % 16 * 64 + c.toNat % 64) * 64 + d.toNat % 64).isValidChar := by
    by_cases hlow : b.toNat < 0xED ∨ b.toNat = 0xED
    · exact .inl (by omega)
    · exact .inr (by omega)
  rw [String.utf8EncodeChar, hhigh, low, low, val_ofNat hvalid, if_neg (by omega),
    if_neg (by omega), if_pos (by omega)]
  simp only [List.cons.injEq, and_true]
  exact ⟨ofNat_eq (by omega), ofNat_eq (by omega), ofNat_eq (by omega)⟩

theorem utf8EncodeChar_four (hlead : lead? b = some ((lo, hi), 2)) (hc : within lo hi c = true)
    (hd : isTail d = true) (he : isTail e = true) :
    String.utf8EncodeChar (Char.ofNat (((high b * 64 + low c) * 64 + low d) * 64 + low e)) =
      [b, c, d, e] := by
  obtain ⟨⟨hc₁, hc₂⟩, hb⟩ := lead?_cases hlead hc
  obtain ⟨hd₁, hd₂⟩ := isTail_iff.1 hd
  obtain ⟨he₁, he₂⟩ := isTail_iff.1 he
  have hhigh : high b = b.toNat % 8 := by
    rw [high_eq, if_neg (by omega), if_neg (by omega)]
  have hvalid : (((b.toNat % 8 * 64 + c.toNat % 64) * 64 + d.toNat % 64) * 64 +
      e.toNat % 64).isValidChar := .inr (by omega)
  rw [String.utf8EncodeChar, hhigh, low, low, low, val_ofNat hvalid, if_neg (by omega),
    if_neg (by omega), if_neg (by omega)]
  simp only [List.cons.injEq, and_true]
  exact ⟨ofNat_eq (by omega), ofNat_eq (by omega), ofNat_eq (by omega), ofNat_eq (by omega)⟩

/-- Bytes say a fault first, or a character that they begin with. -/
theorem decode_cases (b : UInt8) (rest : Bytes) :
    (decode (b :: rest)).head? = some none ∨
      ∃ c others, b :: rest = String.utf8EncodeChar c ++ others := by
  by_cases hb : b < 0x80
  · exact .inr ⟨_, rest, by rw [utf8EncodeChar_one hb, List.singleton_append]⟩
  rw [decode.eq_def]
  rcases hlead : lead? b with _ | ⟨⟨lo, hi⟩, more⟩
  · exact .inl (by simp [hb, hlead])
  rcases rest with _ | ⟨c, rest⟩
  · exact .inl (by simp [hb, hlead])
  by_cases hc : within lo hi c = true
  swap
  · exact .inl (by simp [hb, hlead, hc])
  -- From here on the character is read, or a byte at its end is missing or none of a tail.
  obtain ⟨-, ⟨rfl, -⟩ | ⟨rfl, -⟩ | ⟨rfl, -⟩⟩ := lead?_cases hlead hc
  · exact .inr ⟨_, rest, by rw [utf8EncodeChar_two hlead hc]; rfl⟩
  all_goals
    rcases rest with _ | ⟨d, rest⟩
    · exact .inl (by simp [hb, hlead, hc])
    by_cases hd : isTail d = true
    swap
    · exact .inl (by simp [hb, hlead, hc, hd])
  · exact .inr ⟨_, rest, by rw [utf8EncodeChar_three hlead hc hd]; rfl⟩
  · rcases rest with _ | ⟨e, rest⟩
    · exact .inl (by simp [hb, hlead, hc, hd])
    by_cases he : isTail e = true
    · exact .inr ⟨_, rest, by rw [utf8EncodeChar_four hlead hc hd he]; rfl⟩
    · exact .inl (by simp [hb, hlead, hc, hd, he])

/-- Only no bytes give no characters. -/
theorem eq_nil_of_decode {bytes : Bytes} (h : decode bytes = []) : bytes = [] := by
  rcases bytes with _ | ⟨b, rest⟩
  · rfl
  · rcases decode_cases b rest with hfault | ⟨c, others, hothers⟩
    · rw [h] at hfault
      cases hfault
    · rw [hothers, decode_utf8EncodeChar_append] at h
      cases h

/-- Bytes that say a character first begin with it. -/
theorem exists_append_of_decode {bytes : Bytes} {c : Char} {said : List (Option Char)}
    (h : decode bytes = some c :: said) :
    ∃ others, bytes = String.utf8EncodeChar c ++ others ∧ decode others = said := by
  rcases bytes with _ | ⟨b, rest⟩
  · rw [decode] at h
    cases h
  · rcases decode_cases b rest with hfault | ⟨d, others, hothers⟩
    · rw [h] at hfault
      cases hfault
    · rw [hothers, decode_utf8EncodeChar_append, List.cons.injEq, Option.some.injEq] at h
      exact ⟨others, h.1 ▸ hothers, h.2⟩

/-- Bytes that say characters alone are those of the characters. -/
theorem eq_of_decode {bytes : Bytes} {cs : List Char} (h : decode bytes = cs.map some) :
    bytes = cs.flatMap String.utf8EncodeChar := by
  induction cs generalizing bytes with
  | nil => exact eq_nil_of_decode h
  | cons c cs ih =>
    obtain ⟨others, rfl, hothers⟩ := exists_append_of_decode h
    rw [ih hothers, List.flatMap_cons]

/-- All values are there if none is missing. -/
theorem allSome_eq_some_iff {α : Type} {l : List (Option α)} {values : List α} :
    allSome l = some values ↔ l = values.map some := by
  constructor
  · intro h
    fun_induction allSome l generalizing values with
    | case1 =>
      cases h
      rfl
    | case2 a rest ih =>
      obtain ⟨others, hothers, rfl⟩ := Option.map_eq_some_iff.1 h
      rw [ih hothers, List.map_cons]
    | case3 rest => cases h
  · rintro rfl
    exact allSome_map_some values

/-- A text is decoded from the bytes that encode it, and from no others. -/
theorem decode?_eq_some_iff {bytes : Bytes} {s : String} :
    decode? bytes = some s ↔ bytes = encode s := by
  constructor
  · intro h
    obtain ⟨cs, hcs, rfl⟩ := Option.map_eq_some_iff.1 h
    rw [eq_of_decode (allSome_eq_some_iff.1 hcs), encode_eq, String.toList_ofList]
  · rintro rfl
    exact decode?_encode s

/-- Bytes that are not decoded are those of no text. -/
theorem decode?_eq_none_iff {bytes : Bytes} : decode? bytes = none ↔ ∀ s, bytes ≠ encode s := by
  rw [Option.eq_none_iff_forall_ne_some]
  exact forall_congr' fun s => not_congr decode?_eq_some_iff

end RepoAtlas.Utf8
