import Mathlib.Algebra.Group.Nat.Defs
import Mathlib.Data.Nat.Basic

/-!
# Paged byte memory

A memory of whole pages that can grow up to a limit. Accesses outside it, and
growth beyond the limit, fail. What was written can be read back
(`Mem.read_write`), and a write is not seen elsewhere (`Mem.read_elsewhere`).

`leBytes k n` are the `k` low bytes of `n`, the lowest first.
-/

namespace Paged

structure Mem (page : Nat) where
  pages : Nat
  byte : Nat → UInt8

namespace Mem

variable {page : Nat}

def size (m : Mem page) : Nat := m.pages * page

/-- `n` more pages of zeros. -/
def grow (limit : Nat) (m : Mem page) (n : Nat) : Option (Mem page) :=
  if m.pages + n ≤ limit then
    some { pages := m.pages + n, byte := fun a => if a < m.size then m.byte a else 0 }
  else none

def read (m : Mem page) (offset n : Nat) : Option (List UInt8) :=
  if offset + n ≤ m.size then some ((List.range n).map fun i => m.byte (offset + i)) else none

def write (m : Mem page) (offset : Nat) (data : List UInt8) : Option (Mem page) :=
  if offset + data.length ≤ m.size then
    some { m with byte := fun a =>
      if offset ≤ a then data.getD (a - offset) (m.byte a) else m.byte a }
  else none

variable {m m' : Mem page} {offset : Nat} {data : List UInt8}

theorem write_fits (h : offset + data.length ≤ m.size) : ∃ m', m.write offset data = some m' :=
  ⟨_, if_pos h⟩

theorem write_pages (h : m.write offset data = some m') : m'.pages = m.pages := by
  unfold write at h
  split at h <;> cases h
  rfl

theorem write_size (h : m.write offset data = some m') : m'.size = m.size := by
  rw [size, write_pages h, size]

theorem write_le (h : m.write offset data = some m') : offset + data.length ≤ m.size := by
  unfold write at h
  split at h
  · assumption
  · cases h

theorem read_le {n : Nat} (h : m.read offset n = some data) : offset + n ≤ m.size := by
  unfold read at h
  split at h
  · assumption
  · cases h

theorem write_byte (h : m.write offset data = some m') (a : Nat) : m'.byte a =
    if offset ≤ a then data.getD (a - offset) (m.byte a) else m.byte a := by
  unfold write at h
  split at h <;> cases h
  rfl

theorem read_write (h : m.write offset data = some m') :
    m'.read offset data.length = some data := by
  unfold read
  rw [write_size h, if_pos (write_le h), Option.some.injEq]
  refine List.ext_getElem (by simp) fun i hi hi' => ?_
  simp [write_byte h, hi']

theorem read_elsewhere (h : m.write offset data = some m') {offset' n : Nat}
    (hd : offset' + n ≤ offset ∨ offset + data.length ≤ offset') :
    m'.read offset' n = m.read offset' n := by
  have hbyte : ∀ i ∈ List.range n, m'.byte (offset' + i) = m.byte (offset' + i) := by
    intro i hi
    rw [List.mem_range] at hi
    rw [write_byte h]
    split
    · rw [List.getD_eq_getElem?_getD, List.getElem?_eq_none (by omega), Option.getD_none]
    · rfl
  rw [read, read, write_size h, List.map_congr_left hbyte]

theorem grow_pages {limit n : Nat} (h : m.grow limit n = some m') : m'.pages = m.pages + n := by
  unfold grow at h
  split at h <;> cases h
  rfl

theorem grow_fits {limit n : Nat} (h : m.pages + n ≤ limit) : ∃ m', m.grow limit n = some m' :=
  ⟨_, if_pos h⟩

end Mem

/-! ## Little-endian numbers -/

def leBytes : Nat → Nat → List UInt8
  | 0, _ => []
  | k + 1, n => UInt8.ofNat n :: leBytes k (n / 256)

def ofLe : List UInt8 → Nat
  | [] => 0
  | b :: l => b.toNat + 256 * ofLe l

@[simp] theorem leBytes_length (k n : Nat) : (leBytes k n).length = k := by
  induction k generalizing n with
  | zero => rfl
  | succ k ih => rw [leBytes, List.length_cons, ih]

theorem ofLe_leBytes {k n : Nat} (h : n < 256 ^ k) : ofLe (leBytes k n) = n := by
  induction k generalizing n with
  | zero => rw [Nat.lt_one_iff.mp h]; rfl
  | succ k ih =>
    have hn : n / 256 < 256 ^ k := Nat.div_lt_of_lt_mul (by rwa [Nat.pow_succ'] at h)
    unfold leBytes ofLe
    rw [ih hn, UInt8.toNat_ofNat']
    exact Nat.mod_add_div n 256

end Paged
