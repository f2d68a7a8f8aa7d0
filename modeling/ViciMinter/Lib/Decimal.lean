import Mathlib.Algebra.Ring.Nat
import Mathlib.Data.List.Basic

/-!
# Decimal numbers in bytes

The bytes of a text, and of a number that is written in decimal. The number can be read
back from its bytes and whatever follows them, if that does not begin with a digit.
-/

namespace Decimal

/-- The bytes of a text. -/
def bytes (text : String) : List UInt8 := text.toUTF8.data.toList

def isDigit (b : UInt8) : Bool := decide (48 ≤ b.toNat ∧ b.toNat ≤ 57)

/-- The number that digits stand for. -/
def number (l : List UInt8) : Nat := l.foldl (fun n b => 10 * n + (b.toNat - 48)) 0

theorem bytes_append (s t : String) : bytes (s ++ t) = bytes s ++ bytes t := by
  simp [bytes, String.toByteArray_append]

theorem bytes_inj {s t : String} (h : bytes s = bytes t) : s = t := by
  refine String.toByteArray_inj.mp (ByteArray.ext (Array.toList_inj.mp ?_))
  exact h

theorem digit_val {c : Char} (h : c.isDigit = true) : 48 ≤ c.toNat ∧ c.toNat ≤ 57 := by
  simp only [Char.isDigit, Bool.and_eq_true, decide_eq_true_eq] at h
  exact ⟨UInt32.le_iff_toNat_le.mp h.1, UInt32.le_iff_toNat_le.mp h.2⟩

theorem toNat_digit {c : Char} (h : c.isDigit = true) : c.val.toUInt8.toNat = c.toNat := by
  have hle := digit_val h
  rw [UInt32.toNat_toUInt8]
  exact Nat.mod_eq_of_lt (by unfold Char.toNat at hle; omega)

theorem bytes_toString (n : Nat) :
    bytes (toString n) = (Nat.toDigits 10 n).map fun c => c.val.toUInt8 := by
  have hone : ∀ c ∈ Nat.toDigits 10 n, String.utf8EncodeChar c = [c.val.toUInt8] := by
    intro c hc
    have hle := digit_val (Nat.isDigit_of_mem_toDigits (by decide) (by decide) hc)
    refine String.utf8EncodeChar_eq_singleton (Char.utf8Size_eq_one_iff.mpr ?_)
    refine UInt32.le_iff_toNat_le.mpr ?_
    have hval : c.toNat = c.val.toNat := rfl
    have hascii : (127 : UInt32).toNat = 127 := rfl
    omega
  rw [bytes, Nat.toString_eq_ofList_toDigits, String.toUTF8_eq_toByteArray,
    String.toByteArray_ofList, List.utf8Encode, List.data_toByteArray, List.toList_toArray]
  generalize Nat.toDigits 10 n = digits at hone
  induction digits with
  | nil => rfl
  | cons c digits ih =>
    rw [List.flatMap_cons, hone c List.mem_cons_self, List.map_cons,
      ih fun d hd => hone d (List.mem_cons_of_mem c hd)]
    rfl

theorem isDigit_of_mem {n : Nat} {b : UInt8} (h : b ∈ bytes (toString n)) : isDigit b = true := by
  rw [bytes_toString] at h
  obtain ⟨c, hc, rfl⟩ := List.mem_map.mp h
  have hdigit := Nat.isDigit_of_mem_toDigits (by decide) (by decide) hc
  exact decide_eq_true ((toNat_digit hdigit).symm ▸ digit_val hdigit)

theorem number_bytes (n : Nat) : number (bytes (toString n)) = n := by
  have hval : ∀ (digits : List Char), (∀ c ∈ digits, c.isDigit = true) → ∀ m,
      (digits.map fun c => c.val.toUInt8).foldl (fun n b => 10 * n + (b.toNat - 48)) m =
        Nat.ofDigitChars 10 digits m := by
    intro digits
    induction digits with
    | nil => exact fun _ _ => rfl
    | cons c digits ih =>
      intro hdigits m
      rw [List.map_cons, List.foldl_cons, Nat.ofDigitChars_cons,
        toNat_digit (hdigits c List.mem_cons_self)]
      exact ih (fun d hd => hdigits d (List.mem_cons_of_mem c hd)) _
  have hdigits := fun c hc => Nat.isDigit_of_mem_toDigits (b := 10) (n := n) (c := c) (by decide)
    (by decide) hc
  rw [number, bytes_toString, hval _ hdigits, Nat.ofDigitChars_ten_toDigits]

theorem length_bytes_le {n k : Nat} (hk : 0 < k) (h : n < 10 ^ k) :
    (bytes (toString n)).length ≤ k := by
  rw [bytes_toString, List.length_map]
  exact (Nat.length_toDigits_le_iff (by decide) hk).mpr h

/-- The digits end where something else begins. -/
theorem digits_before (n : Nat) (rest : List UInt8)
    (hrest : ∀ b ∈ rest.head?, isDigit b = false) :
    (bytes (toString n) ++ rest).takeWhile isDigit = bytes (toString n) ∧
    (bytes (toString n) ++ rest).dropWhile isDigit = rest := by
  have hdigits : ∀ b ∈ bytes (toString n), isDigit b = true := fun b hb => isDigit_of_mem hb
  rw [List.takeWhile_append_of_pos hdigits, List.dropWhile_append_of_pos hdigits]
  cases rest with
  | nil => simp
  | cons b rest =>
    have hb := hrest b rfl
    simp [hb]

end Decimal
