import Mathlib.Algebra.GroupWithZero.Nat
import Mathlib.Data.List.Flatten

/-!
# `Yaldabaoth.Lib.Utf8Text`: texts that are cut at byte offsets

A text is a list of characters, and `asBytes` its UTF-8 encoding. `splitAt`
and `sliceStr` cut a text at byte offsets and fail inside a character. The
bytes of an ASCII character are in no other character, so a search for such
a byte can be followed character by character (`ascii`, `apart`).
-/

set_option autoImplicit false

namespace Utf8Text

/-- The byte of an ASCII character. -/
def byte (c : Char) : UInt8 := UInt8.ofNat c.toNat

def asBytes (text : List Char) : List UInt8 := text.flatMap String.utf8EncodeChar

def lenUtf8 (text : List Char) : Nat := (text.map Char.utf8Size).sum

/-- The text before a byte offset and the text behind it; the offset has to
be the boundary of a character. -/
def splitAt : List Char → Nat → Option (List Char × List Char)
  | text, 0 => some ([], text)
  | [], _ + 1 => none
  | c :: rest, n + 1 =>
      if n + 1 < c.utf8Size then none
      else (splitAt rest (n + 1 - c.utf8Size)).map fun cut => (c :: cut.1, cut.2)

def sliceFrom (text : List Char) (start : Nat) : Option (List Char) :=
  (splitAt text start).map Prod.snd

def sliceStr (text : List Char) (start stop : Nat) : Option (List Char) :=
  (splitAt text stop).bind fun cut => sliceFrom cut.1 start

/-! ### Sizes -/

@[simp] theorem asBytes_nil : asBytes [] = [] := rfl

@[simp] theorem asBytes_cons (c : Char) (text : List Char) :
    asBytes (c :: text) = String.utf8EncodeChar c ++ asBytes text := rfl

@[simp] theorem asBytes_append (text rest : List Char) :
    asBytes (text ++ rest) = asBytes text ++ asBytes rest := List.flatMap_append

@[simp] theorem lenUtf8_nil : lenUtf8 [] = 0 := rfl

@[simp] theorem lenUtf8_cons (c : Char) (text : List Char) :
    lenUtf8 (c :: text) = c.utf8Size + lenUtf8 text := by
  rw [lenUtf8, List.map_cons, List.sum_cons]
  rfl

@[simp] theorem lenUtf8_append (text rest : List Char) :
    lenUtf8 (text ++ rest) = lenUtf8 text + lenUtf8 rest := by
  rw [lenUtf8, List.map_append, List.sum_append]
  rfl

@[simp] theorem length_asBytes (text : List Char) : (asBytes text).length = lenUtf8 text := by
  induction text with
  | nil => rfl
  | cons c text ih => rw [asBytes_cons, List.length_append, ih, lenUtf8_cons, String.length_utf8EncodeChar]

theorem asBytes_drop (text rest : List Char) :
    (asBytes (text ++ rest)).drop (lenUtf8 text) = asBytes rest := by
  rw [asBytes_append, ← length_asBytes, List.drop_left]

/-! ### Cuts -/

theorem splitAt_lenUtf8 (text rest : List Char) :
    splitAt (text ++ rest) (lenUtf8 text) = some (text, rest) := by
  induction text with
  | nil => cases rest <;> rfl
  | cons c text ih =>
      obtain ⟨n, hn⟩ : ∃ n, c.utf8Size + lenUtf8 text = n + 1 :=
        Nat.exists_eq_succ_of_ne_zero (by have := c.utf8Size_pos; omega)
      rw [List.cons_append, lenUtf8_cons, hn, splitAt, if_neg (by omega), ← hn,
        Nat.add_sub_cancel_left, ih]
      rfl

theorem sliceFrom_lenUtf8 (text rest : List Char) :
    sliceFrom (text ++ rest) (lenUtf8 text) = some rest := by
  rw [sliceFrom, splitAt_lenUtf8]
  rfl

theorem sliceStr_lenUtf8 (front text rest : List Char) :
    sliceStr (front ++ text ++ rest) (lenUtf8 front) (lenUtf8 front + lenUtf8 text) = some text := by
  rw [sliceStr, ← lenUtf8_append, splitAt_lenUtf8]
  exact sliceFrom_lenUtf8 front text

/-! ### ASCII bytes -/

/-- An ASCII character is one byte. -/
theorem ascii {c : Char} (h : c.toNat < 128) : String.utf8EncodeChar c = [byte c] := by
  have hsize : c.utf8Size = 1 := by
    rw [Char.utf8Size_eq_one_iff, UInt32.le_iff_toNat_le]
    exact Nat.le_of_lt_succ h
  rw [String.utf8EncodeChar_eq_singleton hsize]
  rfl

theorem utf8Size_ascii {c : Char} (h : c.toNat < 128) : c.utf8Size = 1 := by
  rw [← String.length_utf8EncodeChar, ascii h]
  rfl

/-- The bytes of any other character have their highest bit set. -/
theorem high {c : Char} (h : 128 ≤ c.toNat) : ∀ b ∈ String.utf8EncodeChar c, 128 ≤ b.toNat := by
  have hbyte (n : Nat) (hn : n < 256) (hhigh : 128 ≤ n) : 128 ≤ (UInt8.ofNat n).toNat := by
    rw [UInt8.toNat_ofNat', Nat.mod_eq_of_lt hn]
    exact hhigh
  have hc : c.val.toNat = c.toNat := rfl
  intro b hb
  unfold String.utf8EncodeChar at hb
  dsimp only at hb
  split at hb
  · omega
  split at hb
  · simp only [List.mem_cons, List.not_mem_nil, or_false] at hb
    rcases hb with rfl | rfl <;> exact hbyte _ (by omega) (by omega)
  split at hb
  · simp only [List.mem_cons, List.not_mem_nil, or_false] at hb
    rcases hb with rfl | rfl | rfl <;> exact hbyte _ (by omega) (by omega)
  · simp only [List.mem_cons, List.not_mem_nil, or_false] at hb
    rcases hb with rfl | rfl | rfl | rfl <;> exact hbyte _ (by omega) (by omega)

theorem byte_low {t : Char} (ht : t.toNat < 128) : (byte t).toNat < 128 := by
  rw [byte, UInt8.toNat_ofNat', Nat.mod_eq_of_lt (by omega)]
  exact ht

/-- The byte of an ASCII character is no byte of a character that is none. -/
theorem apart {c t : Char} (h : 128 ≤ c.toNat) (ht : t.toNat < 128) :
    ∀ b ∈ String.utf8EncodeChar c, b ≠ byte t := by
  intro b hb heq
  have hhigh := high h b hb
  have hlow := byte_low ht
  rw [heq] at hhigh
  omega

theorem byte_inj {c t : Char} (hc : c.toNat < 128) (ht : t.toNat < 128) :
    byte c = byte t ↔ c = t := by
  constructor
  · intro h
    have hnat := congrArg UInt8.toNat h
    rw [byte, byte, UInt8.toNat_ofNat', UInt8.toNat_ofNat', Nat.mod_eq_of_lt (by omega),
      Nat.mod_eq_of_lt (by omega)] at hnat
    exact Char.toNat_inj.1 hnat
  · rintro rfl
    rfl

/-- The first byte of a character. -/
def firstByte (c : Char) : UInt8 := (String.utf8EncodeChar c).headD 0

/-- The first byte tells an ASCII character from all others. -/
theorem firstByte_eq {c t : Char} (ht : t.toNat < 128) : firstByte c = byte t ↔ c = t := by
  rcases Nat.lt_or_ge c.toNat 128 with hc | hc
  · rw [firstByte, ascii hc]
    exact byte_inj hc ht
  · constructor
    · intro h
      have hmem : firstByte c ∈ String.utf8EncodeChar c := by
        rw [firstByte]
        cases hbytes : String.utf8EncodeChar c with
        | nil => exact absurd hbytes String.utf8EncodeChar_ne_nil
        | cons b bs => exact List.mem_cons_self
      exact absurd h (apart hc ht _ hmem)
    · rintro rfl
      omega

/-- Behind its first byte a character has high bytes only. -/
theorem encode_cons (c : Char) : ∃ bs, String.utf8EncodeChar c = firstByte c :: bs ∧
    (∀ b ∈ bs, 128 ≤ b.toNat) ∧ c.utf8Size = bs.length + 1 ∧ (c.toNat < 128 → bs = []) := by
  cases hbytes : String.utf8EncodeChar c with
  | nil => exact absurd hbytes String.utf8EncodeChar_ne_nil
  | cons b bs =>
      have hlen := String.length_utf8EncodeChar c
      rw [hbytes, List.length_cons] at hlen
      refine ⟨bs, by rw [firstByte, hbytes]; rfl, ?_, hlen.symm, ?_⟩
      · intro b' hb'
        rcases Nat.lt_or_ge c.toNat 128 with hc | hc
        · rw [ascii hc] at hbytes
          cases hbytes
          exact absurd hb' List.not_mem_nil
        · exact high hc b' (by rw [hbytes]; exact List.mem_cons_of_mem _ hb')
      · intro hc
        rw [ascii hc] at hbytes
        cases hbytes
        rfl

theorem firstByte_ascii {c : Char} (hc : c.toNat < 128) : firstByte c = byte c := by
  rw [firstByte, ascii hc]
  rfl

theorem firstByte_high {c : Char} (hc : 128 ≤ c.toNat) : 128 ≤ (firstByte c).toNat := by
  obtain ⟨bs, hbytes, -⟩ := encode_cons c
  exact high hc _ (by rw [hbytes]; exact List.mem_cons_self)

/-- The bytes of an ASCII character and of the text behind it. -/
theorem asBytes_ascii {c : Char} (hc : c.toNat < 128) (rest : List Char) :
    asBytes (c :: rest) = firstByte c :: asBytes rest := by
  obtain ⟨bs, hbytes, -, -, hnone⟩ := encode_cons c
  rw [asBytes_cons, hbytes, hnone hc]
  rfl

theorem head?_asBytes (text : List Char) : (asBytes text).head? = text.head?.map firstByte := by
  cases text with
  | nil => rfl
  | cons c text =>
      obtain ⟨bs, hbytes, -⟩ := encode_cons c
      rw [asBytes_cons, hbytes]
      rfl

theorem lenUtf8_of_ascii {text : List Char} (h : ∀ c ∈ text, c.toNat < 128) :
    lenUtf8 text = text.length := by
  induction text with
  | nil => rfl
  | cons c text ih =>
      rw [lenUtf8_cons, utf8Size_ascii (h c List.mem_cons_self),
        ih fun c hc => h c (List.mem_cons_of_mem _ hc), List.length_cons, Nat.add_comm]

/-- A test of bytes that only ASCII characters pass takes whole characters. -/
theorem takeWhile_asBytes {p : UInt8 → Bool} {q : Char → Bool}
    (hfirst : ∀ c, p (firstByte c) = q c) (hascii : ∀ c, q c = true → c.toNat < 128)
    (text : List Char) : (asBytes text).takeWhile p = asBytes (text.takeWhile q) := by
  induction text with
  | nil => rfl
  | cons c text ih =>
      cases hc : q c with
      | true =>
          rw [asBytes_ascii (hascii c hc), List.takeWhile_cons, List.takeWhile_cons, hfirst, hc,
            if_pos rfl, if_pos rfl, ih, asBytes_ascii (hascii c hc)]
      | false =>
          obtain ⟨bs, hbytes, -⟩ := encode_cons c
          rw [asBytes_cons, hbytes, List.cons_append, List.takeWhile_cons, List.takeWhile_cons,
            hfirst, hc, if_neg (by decide), if_neg (by decide)]
          rfl

end Utf8Text
