import Mathlib.Data.List.Basic
import Mathlib.Data.List.Induction

/-!
# Numerals

What a text of digits stands for in a base. A text that is read in two bases
stands for the smaller number in the smaller one, and for less if it has a second
digit that counts (`value_lt`).
-/

namespace Numeral

/-- `'0'` is 0, `'9'` is 9. -/
def digit (c : Char) : Nat := c.toNat - '0'.toNat

def value (base : Nat) (text : List Char) : Nat :=
  text.foldl (fun n c => n * base + digit c) 0

@[simp] theorem value_nil (base : Nat) : value base [] = 0 := rfl

@[simp] theorem value_concat (base : Nat) (text : List Char) (c : Char) :
    value base (text ++ [c]) = value base text * base + digit c := by
  simp only [value, List.foldl_append, List.foldl_cons, List.foldl_nil]

theorem digit_lt_ten {c : Char} (h : c.isDigit = true) : digit c < 10 := by
  simp only [Char.isDigit, Bool.and_eq_true, decide_eq_true_eq] at h
  have hle : c.toNat ≤ '9'.toNat := UInt32.le_iff_toNat_le.mp h.2
  have hnine : '9'.toNat = '0'.toNat + 9 := rfl
  unfold digit
  omega

variable {base base' : Nat} {text : List Char}

theorem value_mono (h : base ≤ base') (text : List Char) : value base text ≤ value base' text := by
  induction text using List.reverseRecOn with
  | nil => exact Nat.le_refl _
  | append_singleton text c ih =>
    rw [value_concat, value_concat]
    have hmul := Nat.mul_le_mul ih h
    omega

/-- Below the base a text has one digit that counts. -/
theorem value_of_lt (h : value base' text < base) (hle : base ≤ base') :
    value base text = value base' text ∧ ∀ c ∈ text, digit c < base := by
  induction text using List.reverseRecOn with
  | nil => exact ⟨rfl, by simp⟩
  | append_singleton text c ih =>
    rw [value_concat] at h
    -- the digits before the last one stand for zero
    have hzero : value base' text = 0 := by
      by_contra hne
      have hmul := Nat.mul_le_mul (Nat.pos_of_ne_zero hne) hle
      omega
    rw [hzero, Nat.zero_mul, Nat.zero_add] at h
    obtain ⟨hval, hdigits⟩ := ih (by omega)
    refine ⟨by rw [value_concat, value_concat, hval, hzero, Nat.zero_mul, Nat.zero_mul], ?_⟩
    intro d hd
    rcases List.mem_append.mp hd with hd | hd
    · exact hdigits d hd
    · rw [List.mem_singleton.mp hd]
      exact h

/-- A number that does not fit one digit is written for less in a smaller base. -/
theorem value_lt (hbase : 0 < base) (hlt : base < base') (hdigits : ∀ c ∈ text, digit c < base)
    (h : base ≤ value base' text) : value base text < value base' text := by
  rcases text.eq_nil_or_concat' with rfl | ⟨text, c, rfl⟩
  · rw [value_nil] at h
    omega
  · rw [value_concat] at h ⊢
    rw [value_concat]
    have hc := hdigits c (by simp)
    have hpos : 0 < value base' text := by
      by_contra hzero
      rw [Nat.eq_zero_of_not_pos hzero] at h
      omega
    have hmul : value base text * base < value base' text * base' := calc
      value base text * base ≤ value base' text * base :=
        Nat.mul_le_mul_right base (value_mono (Nat.le_of_lt hlt) text)
      _ < value base' text * base' := Nat.mul_lt_mul_of_pos_left hlt hpos
    omega

end Numeral
