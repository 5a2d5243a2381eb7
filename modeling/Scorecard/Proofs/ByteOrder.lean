import Mathlib.Tactic.SplitIfs

/-!
# The order of names by their bytes

Names are in the order of their code points. This is the order of their bytes in UTF-8: the first
byte of a character grows with its code point, and it tells how many bytes follow, which hold the
rest of the code point in base 64 (`utf8EncodeChar_append_lt`). Main statement: `bytes_lt_iff`.
-/

namespace Scorecard.Text

/-- The bytes of a text in UTF-8. -/
def bytes (s : String) : List UInt8 :=
  s.toUTF8.data.toList

theorem bytes_eq_flatMap (s : String) : bytes s = s.toList.flatMap String.utf8EncodeChar := by
  have h : s.toUTF8 = s.toList.utf8Encode := by
    rw [String.toUTF8_eq_toByteArray, ← String.toByteArray_ofList, String.ofList_toList]
  rw [bytes, h, List.utf8Encode, List.data_toByteArray]

/-! ## The bytes of a character -/

/-- The first byte of a code point. -/
def leadByte (v : Nat) : Nat :=
  if v ≤ 127 then v
  else if v ≤ 2047 then v / 64 + 192
  else if v ≤ 65535 then v / 64 / 64 + 224
  else v / 64 / 64 / 64 + 240

/-- How many bytes follow the first one. -/
def followers (v : Nat) : Nat :=
  if v ≤ 127 then 0 else if v ≤ 2047 then 1 else if v ≤ 65535 then 2 else 3

/-- The last digits of a number in base 64 as bytes. -/
def digitBytes : Nat → Nat → List UInt8
  | 0, _ => []
  | count + 1, v => digitBytes count (v / 64) ++ [UInt8.ofNat (v % 64 + 128)]

/-- What is left of a number without its last digits in base 64. -/
def dropDigits : Nat → Nat → Nat
  | 0, v => v
  | count + 1, v => dropDigits count (v / 64)

theorem toNat_lt (c : Char) : c.toNat < 0x110000 := by
  have hvalid : c.val.toNat.isValidChar := c.valid
  unfold Nat.isValidChar at hvalid
  show c.val.toNat < 0x110000
  omega

theorem utf8EncodeChar_eq (c : Char) :
    String.utf8EncodeChar c =
      UInt8.ofNat (leadByte c.toNat) :: digitBytes (followers c.toNat) c.toNat := by
  have hc := toNat_lt c
  unfold String.utf8EncodeChar leadByte followers
  simp only [show c.val.toNat = c.toNat from rfl]
  generalize c.toNat = v at hc ⊢
  split_ifs
  · rfl
  · rw [show v / 64 % 32 = v / 64 by omega]
    rfl
  · rw [show v / 4096 % 16 = v / 64 / 64 by omega]
    rfl
  · rw [show v / 262144 % 8 = v / 64 / 64 / 64 by omega,
      show v / 4096 % 64 = v / 64 / 64 % 64 by omega]
    rfl

theorem leadByte_le {v w : Nat} (hvw : v < w) (hw : w < 0x110000) :
    leadByte v ≤ leadByte w ∧ leadByte w < 256 := by
  unfold leadByte
  split_ifs <;> omega

/-- Code points with the same first byte differ only in the digits that follow it. -/
theorem followers_eq {v w : Nat} (hvw : v < w) (h : leadByte v = leadByte w) :
    followers v = followers w ∧ dropDigits (followers v) v = dropDigits (followers v) w := by
  unfold leadByte at h
  unfold followers
  split_ifs at h ⊢ <;> simp only [true_and, dropDigits] <;> omega

theorem ofNat_lt_ofNat {m n : Nat} (hmn : m < n) (hn : n < 256) :
    UInt8.ofNat m < UInt8.ofNat n := by
  rw [UInt8.lt_iff_toNat_lt, UInt8.toNat_ofNat', UInt8.toNat_ofNat']
  omega

theorem digitBytes_append_lt {count v w : Nat} (hvw : v < w)
    (h : dropDigits count v = dropDigits count w) (s t : List UInt8) :
    digitBytes count v ++ s < digitBytes count w ++ t := by
  induction count generalizing v w s t with
  | zero =>
    have h : v = w := h
    omega
  | succ count ih =>
    rw [digitBytes, digitBytes, List.append_assoc, List.append_assoc]
    by_cases hdigits : v / 64 < w / 64
    · exact ih hdigits h _ _
    · rw [show v / 64 = w / 64 by omega]
      refine List.append_left_lt (List.cons_lt_cons_iff.2 (.inl ?_))
      exact ofNat_lt_ofNat (by omega) (by omega)

/-- Smaller characters have smaller bytes, whatever stands behind them. -/
theorem utf8EncodeChar_append_lt {c d : Char} (h : c < d) (s t : List UInt8) :
    String.utf8EncodeChar c ++ s < String.utf8EncodeChar d ++ t := by
  have hcd : c.toNat < d.toNat := h
  obtain ⟨hle, hbound⟩ := leadByte_le hcd (toNat_lt d)
  rw [utf8EncodeChar_eq, utf8EncodeChar_eq, List.cons_append, List.cons_append,
    List.cons_lt_cons_iff]
  rcases Nat.lt_or_eq_of_le hle with hlt | heq
  · exact .inl (ofNat_lt_ofNat hlt hbound)
  · obtain ⟨hfollowers, hdigits⟩ := followers_eq hcd heq
    rw [← hfollowers]
    exact .inr ⟨congrArg UInt8.ofNat heq, digitBytes_append_lt hcd hdigits s t⟩

/-! ## The bytes of a text -/

theorem flatMap_utf8EncodeChar_lt {s t : List Char} (h : s < t) :
    s.flatMap String.utf8EncodeChar < t.flatMap String.utf8EncodeChar := by
  induction s generalizing t with
  | nil =>
    cases t with
    | nil => exact absurd h (List.lt_irrefl _)
    | cons d t =>
      rw [List.flatMap_nil, List.flatMap_cons, utf8EncodeChar_eq]
      exact List.nil_lt_cons _ _
  | cons c s ih =>
    cases t with
    | nil => exact absurd h (List.not_lt_nil _)
    | cons d t =>
      rw [List.flatMap_cons, List.flatMap_cons]
      rcases List.cons_lt_cons_iff.1 h with hlt | ⟨rfl, hlt⟩
      · exact utf8EncodeChar_append_lt hlt _ _
      · exact List.append_left_lt (ih hlt)

theorem bytes_lt_bytes {s t : String} (h : s < t) : bytes s < bytes t := by
  rw [bytes_eq_flatMap, bytes_eq_flatMap]
  exact flatMap_utf8EncodeChar_lt h

/-- Texts are in the order of their bytes. -/
theorem bytes_lt_iff {s t : String} : bytes s < bytes t ↔ s < t := by
  refine ⟨fun h => ?_, bytes_lt_bytes⟩
  by_cases hst : s < t
  · exact hst
  by_cases hts : t < s
  · exact absurd (bytes_lt_bytes hts) (List.lt_asymm h)
  · have heq : s = t := String.le_antisymm (String.not_lt.1 hts) (String.not_lt.1 hst)
    rw [heq] at h
    exact absurd h (List.lt_irrefl _)

end Scorecard.Text
