import RepoAtlas.Bytes.Sha256
import Mathlib.Data.List.Flatten

/-!
# Digests of files

What a file is read in makes no difference to its digest: behind every read the state
is that of all bytes up to there (`Sha256.absorbReads_map_ok`), because only those bytes
of the buffer count that the read has put there.

A digest is written in 64 hexadecimal digits (`Sha256.length_hex`, `Sha256.mem_hexDigits`),
eight for each of its words, and from the digits the words are known
(`Sha256.hex_injective`). So no digest is taken for the one of a file that cannot be read.
-/

namespace RepoAtlas.Sha256

/-! ### Reading a file -/

variable {ε : Type} {s : State} {b : Buffer} {p : Piece} {pieces : List Piece}

/-- Of the buffer, what was just read is at the front. -/
theorem take_fill (b : Buffer) (p : Piece) : (b.fill p).bytes.take p.bytes.length = p.bytes :=
  List.take_left

theorem absorbReads_cons (hp : p.bytes ≠ []) (reads : List (Except ε Piece)) :
    s.absorbReads b (.ok p :: reads) = (s.absorb p.bytes).absorbReads (b.fill p) reads := by
  rw [State.absorbReads, if_neg (mt List.length_eq_zero_iff.1 hp), take_fill]

/-- Reads that all give something are taken in one after the other. -/
theorem absorbReads_map_ok (hpieces : ∀ p ∈ pieces, p.bytes ≠ []) :
    s.absorbReads b (pieces.map (.ok (ε := ε))) =
      .ok ((pieces.map (·.bytes)).foldl State.absorb s) := by
  induction pieces generalizing s b with
  | nil => rfl
  | cons p pieces ih =>
    rw [List.forall_mem_cons] at hpieces
    rw [List.map_cons, absorbReads_cons hpieces.1, ih hpieces.2]
    rfl

/-- Bytes that come in pieces are taken in like all of them at once. -/
theorem hashPieces_eq (pieces : List Bytes) : hashPieces pieces = hash pieces.flatten := by
  rw [hashPieces, hash, State.absorb, List.foldl_flatten]
  rfl

/-- The digest of a file is that of its bytes, whatever pieces they are read in. -/
theorem hashFile_map_ok (hpieces : ∀ p ∈ pieces, p.bytes ≠ []) :
    hashFile (.ok (pieces.map (.ok (ε := ε)))) = hash (pieces.flatMap (·.bytes)) := by
  have hreads : State.initial.absorbReads .zeros (pieces.map (.ok (ε := ε))) =
      .ok ((pieces.map (·.bytes)).foldl State.absorb .initial) := absorbReads_map_ok hpieces
  rw [List.flatMap, ← hashPieces_eq, hashFile]
  simp only [Except.bind, hreads]
  rfl

/-! ### Reads that fill the buffer -/

/-- Reads that fill the buffer give the whole file, and each gives something. -/
theorem fullReads_eq (bytes : Bytes) :
    (fullReads bytes).flatMap (·.bytes) = bytes ∧ ∀ p ∈ fullReads bytes, p.bytes ≠ [] := by
  induction bytes using fullReads.induct with
  | case1 => simp [fullReads]
  | case2 bytes h ih =>
    rw [fullReads, if_neg h, List.flatMap_cons, ih.1, List.forall_mem_cons]
    exact ⟨List.take_append_drop .., by simpa [bufferSize] using h, ih.2⟩

/-! ### The digits of a digest -/

/-- The digits that a digest is written in. -/
def hexDigits : List Char := "0123456789abcdef".toList

theorem hexDigit_mem {n : Nat} (h : n < 16) : hexDigit n ∈ hexDigits :=
  (by decide : ∀ n < 16, hexDigit n ∈ hexDigits) n h

theorem hexDigit_inj {m n : Nat} (hm : m < 16) (hn : n < 16) (h : hexDigit m = hexDigit n) :
    m = n :=
  (by decide : ∀ m < 16, ∀ n < 16, hexDigit m = hexDigit n → m = n) m hm n hn h

theorem length_hexWord (w : UInt32) : (hexWord w).length = 8 := rfl

/-- A word is known from its digits. -/
theorem hexWord_injective : Function.Injective hexWord := by
  intro v w h
  -- What is above a digit and the digit itself tell what is from there on.
  have hstep {shift : Nat}
      (hdigit : hexDigit (v.toNat >>> shift % 16) = hexDigit (w.toNat >>> shift % 16))
      (habove : v.toNat >>> (shift + 4) = w.toNat >>> (shift + 4)) :
      v.toNat >>> shift = w.toNat >>> shift := by
    have hlow := hexDigit_inj (Nat.mod_lt _ (by decide)) (Nat.mod_lt _ (by decide)) hdigit
    rw [Nat.shiftRight_add, Nat.shiftRight_add, Nat.shiftRight_eq_div_pow _ 4,
      Nat.shiftRight_eq_div_pow _ 4] at habove
    omega
  have habove : v.toNat >>> 32 = w.toNat >>> 32 := by
    rw [Nat.shiftRight_eq_zero _ _ v.toNat_lt, Nat.shiftRight_eq_zero _ _ w.toNat_lt]
  simp only [hexWord, List.map_cons, List.map_nil, List.cons.injEq, and_true] at h
  obtain ⟨h₁, h₂, h₃, h₄, h₅, h₆, h₇, h₈⟩ := h
  exact UInt32.toNat_inj.1
    (hstep h₈ (hstep h₇ (hstep h₆ (hstep h₅ (hstep h₄ (hstep h₃ (hstep h₂ (hstep h₁ habove))))))))

/-- The words of a digest, in order. -/
def Chain.toList (s : Chain) : List UInt32 := [s.a, s.b, s.c, s.d, s.e, s.f, s.g, s.h]

theorem Chain.toList_injective : Function.Injective Chain.toList := by
  rintro ⟨⟩ ⟨⟩ h
  simpa [Chain.toList] using h

/-- What is written in parts of one length is known from what is written. -/
theorem flatMap_injective {α β : Type} {f : α → List β} {n : Nat} (hlength : ∀ a, (f a).length = n)
    (hf : Function.Injective f) {l l' : List α} (hl : l.length = l'.length)
    (h : l.flatMap f = l'.flatMap f) : l = l' := by
  induction l generalizing l' with
  | nil => exact (List.length_eq_zero_iff.1 hl.symm).symm
  | cons a l ih =>
    cases l' with
    | nil => cases hl
    | cons a' l' =>
      rw [List.flatMap_cons, List.flatMap_cons] at h
      obtain ⟨hfirst, hothers⟩ := List.append_inj h ((hlength a).trans (hlength a').symm)
      rw [hf hfirst, ih (Nat.succ.inj hl) hothers]

theorem toList_hex (s : Chain) : s.hex.toList = s.toList.flatMap hexWord := by
  rw [Chain.hex, String.toList_ofList, Chain.toList]

/-- A digest is known from its text. -/
theorem hex_injective : Function.Injective Chain.hex := by
  intro s s' h
  have hdigits := congrArg String.toList h
  rw [toList_hex, toList_hex] at hdigits
  exact Chain.toList_injective (flatMap_injective length_hexWord hexWord_injective rfl hdigits)

/-- A digest has 64 digits. -/
theorem length_hex (s : Chain) : s.hex.length = 64 := by
  rw [← String.length_toList, toList_hex]
  rfl

theorem mem_hexDigits {s : Chain} {c : Char} (hc : c ∈ s.hex.toList) : c ∈ hexDigits := by
  rw [toList_hex] at hc
  obtain ⟨w, -, hc⟩ := List.mem_flatMap.1 hc
  obtain ⟨shift, -, rfl⟩ := List.mem_map.1 hc
  exact hexDigit_mem (Nat.mod_lt _ (by decide))

/-! ### Files and bytes -/

/-- The digest of a file is that of its bytes, whatever pieces it is read in. It has 64
    hexadecimal digits, so it is not what stands for a file that cannot be read, and
    only one digest has these digits. -/
theorem hashFile_eq_hash {content : Bytes} {pieces : List Piece}
    (hcontent : pieces.flatMap (·.bytes) = content) (hpieces : ∀ p ∈ pieces, p.bytes ≠ []) :
    hashFile (.ok (pieces.map (.ok (ε := ε)))) = hash content ∧
      (hash content).length = 64 ∧ (∀ c ∈ (hash content).toList, c ∈ hexDigits) ∧
        hash content ≠ unhashable ∧ ∀ s s' : Chain, s.hex = s'.hex → s = s' := by
  have hlength : (hash content).length = 64 := length_hex _
  refine ⟨hcontent ▸ hashFile_map_ok hpieces, hlength, fun c => mem_hexDigits, ?_, hex_injective⟩
  intro h
  rw [h] at hlength
  cases hlength

/-- Three bytes that two reads give, and more bytes than two buffers hold. -/
theorem hashFile_eq_hash_split :
    let pieces : List Piece := [⟨[0x61], by decide⟩, ⟨[0x62, 0x63], by decide⟩]
    let content : Bytes := List.replicate 20000 0x61
    (pieces.flatMap (·.bytes) = [0x61, 0x62, 0x63] ∧ (∀ p ∈ pieces, p.bytes ≠ []) ∧
      hashFile (.ok (pieces.map (.ok (ε := Empty)))) =
        "ba7816bf8f01cfea414140de5dae2223b00361a396177a9cb410ff61f20015ad") ∧
      (fullReads content).flatMap (·.bytes) = content ∧
        (∀ p ∈ fullReads content, p.bytes ≠ []) ∧
          hashFile (.ok ((fullReads content).map (.ok (ε := Empty)))) = hash content := by
  intro pieces content
  have hbytes : pieces.flatMap (·.bytes) = [0x61, 0x62, 0x63] := rfl
  have hpieces : ∀ p ∈ pieces, p.bytes ≠ [] := by simp [pieces]
  have hhash : hash [0x61, 0x62, 0x63] =
      "ba7816bf8f01cfea414140de5dae2223b00361a396177a9cb410ff61f20015ad" := by decide +kernel
  obtain ⟨hcontent, hreads⟩ := fullReads_eq content
  exact ⟨⟨hbytes, hpieces, (hashFile_eq_hash hbytes hpieces).1.trans hhash⟩, hcontent, hreads,
    (hashFile_eq_hash hcontent hreads).1⟩

end RepoAtlas.Sha256
