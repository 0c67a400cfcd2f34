import RepoAtlas.Proofs.Bytes.Decoding
import Mathlib.Data.List.Infix

/-!
# Cuts between characters

A byte follows another of its character exactly if it is one of a tail, so that the
bytes of a text can be cut behind its fronts and nowhere else
(`isBoundary_encode_iff`). A character has four bytes at most. So a cut is found
among any four places in a row: the search from a limit backwards comes to the
longest front within the limit, with three bytes less at the most
(`boundaryWithin?_encode`), and that front is what the cut leaves (`front?_encode`).
-/

namespace RepoAtlas.Utf8

variable {c : Char} {front back cs : List Char} {bytes : Bytes} {b : UInt8} {k m n : Nat}

/-! ### The bytes of a character in a text -/

theorem length_bytes (cs : List Char) :
    (cs.flatMap String.utf8EncodeChar).length = size cs := by
  induction cs with
  | nil => rfl
  | cons c cs ih =>
    rw [List.flatMap_cons, List.length_append, String.length_utf8EncodeChar, ih, size]

/-- The bytes of the characters of a text are counted as those of the text. -/
theorem size_toList (s : String) : size s.toList = s.utf8ByteSize := by
  rw [← length_bytes, ← List.size_toByteArray, ← String.size_toByteArray,
    ← String.utf8Encode_toList]
  rfl

/-- The bytes of a character behind its first are those of a tail, and the first is not. -/
theorem isTail_iff_of_getElem? (h : (String.utf8EncodeChar c)[k]? = some b) :
    isTail b = true ↔ k ≠ 0 := by
  have hlt : c.val.toNat < 0x110000 := toNat_lt c
  have hbyte {n : Nat} (hn : n < 256) : (UInt8.ofNat n).toNat = n := UInt8.toNat_ofNat_of_lt hn
  rw [String.utf8EncodeChar] at h
  rw [isTail_iff]
  generalize c.val.toNat = v at h hlt
  -- One case for each number of bytes, and in it one for each byte.
  split_ifs at h <;>
    rcases k with _ | _ | _ | _ | k <;>
    simp only [List.getElem?_cons_zero, List.getElem?_cons_succ, List.getElem?_nil,
      Option.some.injEq, reduceCtorEq] at h <;>
    subst h <;>
    rw [hbyte (by omega)] <;>
    omega

/-- A byte of a text, by the character that it is one of. -/
theorem getElem?_flatMap (hk : k < c.utf8Size) :
    ((front ++ c :: back).flatMap String.utf8EncodeChar)[size front + k]? =
      (String.utf8EncodeChar c)[k]? := by
  rw [List.flatMap_append, List.flatMap_cons, ← length_bytes,
    List.getElem?_append_right (Nat.le_add_right ..), Nat.add_sub_cancel_left,
    List.getElem?_append_left (by rwa [String.length_utf8EncodeChar])]

/-- A place in a text is at its end or at a byte of a character. -/
theorem exists_split (h : n < size cs) :
    ∃ front c back, cs = front ++ c :: back ∧ ∃ k < c.utf8Size, n = size front + k := by
  induction cs generalizing n with
  | nil => exact absurd h (Nat.not_lt_zero n)
  | cons c cs ih =>
    by_cases hc : n < c.utf8Size
    · exact ⟨[], c, cs, rfl, n, hc, (Nat.zero_add n).symm⟩
    · rw [size] at h
      obtain ⟨front, d, back, rfl, k, hk, heq⟩ := ih (n := n - c.utf8Size) (by omega)
      exact ⟨c :: front, d, back, rfl, k, hk, by rw [size]; omega⟩

theorem isBoundary_inside (hk : k < c.utf8Size) :
    isBoundary ((front ++ c :: back).flatMap String.utf8EncodeChar) (size front + k) = true ↔
      k = 0 := by
  have hlength : size front + k ≠ size (front ++ c :: back) := by
    rw [size_append, size]
    omega
  obtain ⟨b, hb⟩ : ∃ b, (String.utf8EncodeChar c)[k]? = some b :=
    ⟨_, List.getElem?_eq_getElem (by rwa [String.length_utf8EncodeChar])⟩
  have htail := isTail_iff_of_getElem? hb
  rw [isBoundary, getElem?_flatMap hk, hb, length_bytes]
  simp only [hlength, decide_false, Bool.or_false, Option.any_some, Bool.or_eq_true,
    decide_eq_true_eq, Bool.not_eq_true', Bool.eq_false_iff, ne_eq, htail, not_not]
  omega

/-! ### Cuts of a text -/

/-- The bytes of a text can be cut behind its fronts, and nowhere else. -/
theorem isBoundary_encode_iff {s : String} :
    isBoundary (encode s) n = true ↔ ∃ front, front <+: s.toList ∧ size front = n := by
  rw [encode_eq]
  constructor
  · intro h
    by_cases hn : n < size s.toList
    · obtain ⟨front, c, back, hs, k, hk, rfl⟩ := exists_split hn
      rw [hs, isBoundary_inside hk] at h
      subst h
      exact ⟨front, ⟨c :: back, hs.symm⟩, rfl⟩
    · have hnone : (s.toList.flatMap String.utf8EncodeChar)[n]? = none := by
        rw [List.getElem?_eq_none_iff, length_bytes]
        exact Nat.le_of_not_lt hn
      rw [isBoundary, hnone, length_bytes] at h
      simp only [Option.any_none, Bool.or_false, Bool.or_eq_true, decide_eq_true_eq] at h
      rcases h with rfl | rfl
      · exact ⟨[], List.nil_prefix, rfl⟩
      · exact ⟨s.toList, List.prefix_refl _, rfl⟩
  · rintro ⟨front, ⟨back, hs⟩, rfl⟩
    rw [← hs]
    cases back with
    | nil =>
      rw [List.append_nil, isBoundary, length_bytes]
      simp
    | cons c back =>
      exact (isBoundary_inside c.utf8Size_pos).2 rfl

/-- What is in front of a cut behind a front of the text is that front. -/
theorem front?_encode {s : String} (h : front <+: s.toList) :
    front? (encode s) (size front) = some (String.ofList front) := by
  obtain ⟨back, hs⟩ := h
  have htake : (encode s).take (size front) = encode (String.ofList front) := by
    rw [encode_eq, encode_eq, String.toList_ofList, ← hs, List.flatMap_append, ← length_bytes,
      List.take_left]
  rw [front?, if_pos (isBoundary_encode_iff.2 ⟨front, ⟨back, hs⟩, rfl⟩), htake, decode?_encode]

/-! ### The search for a cut -/

/-- The search comes to the last cut within the limit. -/
theorem boundaryWithin?_eq_some (hm : isBoundary bytes m = true) (hmn : m ≤ n)
    (hlast : ∀ k, m < k → k ≤ n → isBoundary bytes k = false) :
    boundaryWithin? bytes n = some m := by
  induction n with
  | zero =>
    obtain rfl : m = 0 := Nat.le_zero.1 hmn
    rw [boundaryWithin?, if_pos hm]
  | succ n ih =>
    rw [boundaryWithin?]
    by_cases heq : m = n + 1
    · rw [← heq, if_pos hm]
    · rw [if_neg (by rw [hlast (n + 1) (by omega) le_rfl]; exact Bool.false_ne_true)]
      exact ih (by omega) fun k hk hkn => hlast k hk (by omega)

/-- Whether characters are the longest front of others within so many bytes. -/
structure IsLongestFront (limit : Nat) (cs front : List Char) : Prop where
  isPrefix : front <+: cs
  within : size front ≤ limit
  longest : ∀ other, other <+: cs → size other ≤ limit → other <+: front

theorem size_mono (h : front <+: cs) : size front ≤ size cs := by
  obtain ⟨back, rfl⟩ := h
  rw [size_append]
  exact Nat.le_add_right ..

/-- The front up to the character at a place is the longest within the place. -/
theorem isLongestFront_append (hk : k < c.utf8Size) :
    IsLongestFront (size front + k) (front ++ c :: back) front where
  isPrefix := List.prefix_append ..
  within := Nat.le_add_right ..
  longest other hother hsize := by
    have hnext : front ++ [c] <+: front ++ c :: back := ⟨back, by simp⟩
    rcases List.prefix_or_prefix_of_prefix hother hnext with h | h
    · refine (List.prefix_concat_iff.1 h).resolve_left ?_
      rintro rfl
      simp only [size_append, size] at hsize
      omega
    · have hle := size_mono h
      simp only [size_append, size] at hle
      omega

/-- Searched from a limit within a text, the last cut is behind the longest front, and
    not further from the limit than three bytes. -/
theorem boundaryWithin?_encode {s : String} {limit : Nat} (h : limit < size s.toList) :
    ∃ front, IsLongestFront limit s.toList front ∧ limit ≤ size front + 3 ∧
      boundaryWithin? (encode s) limit = some (size front) := by
  obtain ⟨front, c, back, hs, k, hk, rfl⟩ := exists_split h
  have hlongest : IsLongestFront (size front + k) s.toList front := by
    rw [hs]
    exact isLongestFront_append hk
  have hfour := c.utf8Size_le_four
  refine ⟨front, hlongest, by omega, boundaryWithin?_eq_some
    (isBoundary_encode_iff.2 ⟨front, hlongest.isPrefix, rfl⟩) hlongest.within ?_⟩
  intro j hj hjk
  rw [Bool.eq_false_iff]
  intro hcut
  obtain ⟨other, hother, rfl⟩ := isBoundary_encode_iff.1 hcut
  exact absurd (size_mono (hlongest.longest other hother hjk)) (Nat.not_le_of_lt hj)

/-- Of a character that begins within the limit and ends behind it no byte is taken. -/
example : boundaryWithin? (encode "aaa😀") 5 = some 3 := by decide +kernel

end RepoAtlas.Utf8
