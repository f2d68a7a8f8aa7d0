import ViciMinter.Lib.Paged
import ViciMinter.World

/-!
# The saved state

`save_state` and `try_restore_state` of `state.rs` over the stable memory, which
keeps a length in four little-endian bytes and the encoded state behind it.
`usize` has 32 bits in the canister, so the bound on what can be read is computed
in `UInt32` and wraps.

Candid is outside of the repository: a `Candid` is any pair of an encoder and a
decoder, and `Candid.Inverse` is what is assumed of it. `none` is a trap.
-/

namespace ViciMinter

open Paged

/-! ## The stable memory -/

/-- A `Vec<u8>` in the memory of a 32-bit canister. -/
structure Bytes where
  data : List UInt8
  small : data.length < UInt32.size

structure Candid where
  /-- Nothing if encoding traps. -/
  encodeOne : State → Option Bytes
  decodeOne : List UInt8 → Option State

/-- Decoding inverts encoding. -/
def Candid.Inverse (candid : Candid) : Prop :=
  ∀ s bytes, candid.encodeOne s = some bytes → candid.decodeOne bytes.data = some s

abbrev StableMemory := Mem 65536

/-- `u64::div_ceil`. -/
def divCeil (a b : Nat) : Nat := if a % b > 0 then a / b + 1 else a / b

/-- The memory may grow up to `limit` pages. -/
def growTo (limit : Nat) (m : StableMemory) (neededPages : Nat) : Option StableMemory :=
  let currentPages := m.pages
  if neededPages > currentPages then m.grow limit (neededPages - currentPages) else some m

def saveState (candid : Candid) (limit : Nat) (m : StableMemory) (state : State) :
    Option StableMemory := do
  let bytes ← candid.encodeOne state
  let len := UInt32.ofNat bytes.data.length
  let total := len.toNat + 4
  let m ← growTo limit m (divCeil total 65536)
  let m ← m.write 0 (leBytes 4 len.toNat)
  m.write 4 bytes.data

/-- The state afterwards, and whether it was restored. -/
def tryRestoreState (candid : Candid) (m : StableMemory) (state : State) :
    Option (State × Bool) :=
  let size := m.pages
  if size = 0 then some (state, false)
  else do
    let lenBytes ← m.read 0 4
    let len := UInt32.ofNat (ofLe lenBytes)
    if len = 0 then some (state, false)
    else
      let maxReadable := UInt32.ofNat size * 65536 - 4
      if len > maxReadable then some (state, false)
      else do
        let bytes ← m.read 4 len.toNat
        match candid.decodeOne bytes with
        | some state => some (state, true)
        | none => some (state, false)

/-! ## What is saved -/

/-- The memory holds `bytes` behind their length. -/
structure Stored (m : StableMemory) (bytes : Bytes) : Prop where
  length : m.read 0 4 = some (leBytes 4 bytes.data.length)
  data : m.read 4 bytes.data.length = some bytes.data

theorem Bytes.toNat_length (bytes : Bytes) :
    (UInt32.ofNat bytes.data.length).toNat = bytes.data.length :=
  UInt32.toNat_ofNat_of_lt' bytes.small

theorem Bytes.length_eq_zero (bytes : Bytes) :
    UInt32.ofNat bytes.data.length = 0 ↔ bytes.data = [] := by
  rw [← UInt32.toNat_inj, bytes.toNat_length, ← List.length_eq_zero_iff]
  rfl

/-- After both writes the memory holds the bytes. -/
theorem stored_of_write {m m₁ m₂ : StableMemory} {bytes : Bytes}
    (h₁ : m.write 0 (leBytes 4 bytes.data.length) = some m₁)
    (h₂ : m₁.write 4 bytes.data = some m₂) : Stored m₂ bytes where
  length := by
    rw [Mem.read_elsewhere h₂ (.inl (Nat.le_refl 4))]
    simpa using Mem.read_write h₁
  data := Mem.read_write h₂

theorem saveState_eq {candid : Candid} {limit : Nat} {m : StableMemory} {s : State}
    {bytes : Bytes} (he : candid.encodeOne s = some bytes) : saveState candid limit m s =
      (growTo limit m (divCeil (bytes.data.length + 4) 65536)).bind fun m =>
        (m.write 0 (leBytes 4 bytes.data.length)).bind fun m => m.write 4 bytes.data := by
  unfold saveState
  rw [he]
  show (growTo limit m (divCeil ((UInt32.ofNat bytes.data.length).toNat + 4) 65536)).bind _ = _
  rw [bytes.toNat_length]
  rfl

theorem saveState_stored {candid : Candid} {limit : Nat} {m m' : StableMemory} {s : State}
    (h : saveState candid limit m s = some m') :
    ∃ bytes, candid.encodeOne s = some bytes ∧ Stored m' bytes := by
  cases he : candid.encodeOne s with
  | none => rw [saveState, he] at h; cases h
  | some bytes =>
    simp only [saveState_eq he, Option.bind_eq_some_iff] at h
    obtain ⟨m₀, -, m₁, h₁, h₂⟩ := h
    exact ⟨bytes, rfl, stored_of_write h₁ h₂⟩

theorem Stored.pages_pos {m : StableMemory} {bytes : Bytes} (h : Stored m bytes) :
    m.pages ≠ 0 := by
  have hread := Mem.read_le h.length
  intro h0
  unfold Mem.size at hread
  rw [h0] at hread
  omega

/-- What a memory that holds the bytes of `s` is restored to. -/
theorem Stored.tryRestoreState {candid : Candid} {m : StableMemory} {bytes : Bytes}
    {s s₀ : State} (h : Stored m bytes) (hd : candid.decodeOne bytes.data = some s) :
    tryRestoreState candid m s₀ =
      if bytes.data = [] ∨ (UInt32.ofNat m.pages * 65536 - 4).toNat < bytes.data.length then
        some (s₀, false)
      else some (s, true) := by
  have hlen : ofLe (leBytes 4 bytes.data.length) = bytes.data.length := ofLe_leBytes bytes.small
  simp only [ViciMinter.tryRestoreState, if_neg h.pages_pos, h.length, Option.bind_eq_bind,
    Option.bind_some, hlen, bytes.length_eq_zero, gt_iff_lt, UInt32.lt_iff_toNat_lt,
    bytes.toNat_length, h.data, hd]
  by_cases hnil : bytes.data = []
  · rw [if_pos hnil, if_pos (.inl hnil)]
  · by_cases hlt : (UInt32.ofNat m.pages * 65536 - 4).toNat < bytes.data.length
    · rw [if_neg hnil, if_pos hlt, if_pos (.inr hlt)]
    · rw [if_neg hnil, if_neg hlt, if_neg (by tauto)]

/-! ## Saving fits -/

/-- `divCeil a b` pages of `b` bytes are what `a` bytes need. -/
theorem divCeil_le_iff {a b c : Nat} (hb : 0 < b) : divCeil a b ≤ c ↔ a ≤ c * b := by
  unfold divCeil
  split
  · next hrem =>
    have hne : a ≠ c * b := by
      intro heq
      rw [heq, Nat.mul_mod_left] at hrem
      omega
    rw [Nat.succ_le_iff, Nat.div_lt_iff_lt_mul hb]
    omega
  · have hdiv := Nat.div_add_mod' a b
    rw [← Nat.mul_le_mul_right_iff hb]
    omega

/-- The largest memory that `usize` can address, with a page to spare. -/
def maxPages : Nat := 65535

/-- `s` can be encoded, and what it is encoded to can be saved. -/
def Savable (candid : Candid) (s : State) : Prop :=
  ∃ bytes, candid.encodeOne s = some bytes ∧ bytes.data ≠ [] ∧
    bytes.data.length + 4 ≤ maxPages * 65536

theorem growTo_fits {limit : Nat} {m : StableMemory} {needed : Nat} (hl : maxPages ≤ limit)
    (hm : m.pages ≤ maxPages) (hn : needed ≤ maxPages) :
    ∃ m', growTo limit m needed = some m' ∧ m'.pages ≤ maxPages ∧ needed ≤ m'.pages := by
  by_cases hgt : needed > m.pages
  · obtain ⟨m', hg⟩ := Mem.grow_fits (m := m) (show m.pages + (needed - m.pages) ≤ limit by omega)
    have hpages := Mem.grow_pages hg
    exact ⟨m', by rw [growTo, if_pos hgt, hg], by omega, by omega⟩
  · exact ⟨m, by rw [growTo, if_neg hgt], hm, by omega⟩

theorem saveState_fits {candid : Candid} {limit : Nat} {m : StableMemory} {s : State}
    (hl : maxPages ≤ limit) (hm : m.pages ≤ maxPages) (hs : Savable candid s) :
    ∃ m', saveState candid limit m s = some m' ∧ m'.pages ≤ maxPages := by
  obtain ⟨bytes, he, -, hlen⟩ := hs
  obtain ⟨m₀, hg, hmax, hneeded⟩ := growTo_fits hl hm ((divCeil_le_iff (by decide)).mpr hlen)
  have hsize : bytes.data.length + 4 ≤ m₀.size := (divCeil_le_iff (by decide)).mp hneeded
  obtain ⟨m₁, h₁⟩ := Mem.write_fits
    (show 0 + (leBytes 4 bytes.data.length).length ≤ m₀.size by rw [leBytes_length]; omega)
  obtain ⟨m₂, h₂⟩ := Mem.write_fits
    (show 4 + bytes.data.length ≤ m₁.size by rw [Mem.write_size h₁]; omega)
  refine ⟨m₂, ?_, by rwa [Mem.write_pages h₂, Mem.write_pages h₁]⟩
  rw [saveState_eq he, hg, Option.bind_some, h₁, Option.bind_some, h₂]

/-- The bound on what can be read does not wrap. -/
theorem toNat_maxReadable {pages : Nat} (h₁ : pages ≠ 0) (h₂ : pages ≤ maxPages) :
    (UInt32.ofNat pages * 65536 - 4).toNat = pages * 65536 - 4 := by
  have hsmall : pages * 65536 < UInt32.size :=
    (Nat.mul_le_mul_right 65536 h₂).trans_lt (by decide)
  have hmul : (UInt32.ofNat pages * 65536).toNat = pages * 65536 := by
    rw [UInt32.toNat_mul, UInt32.toNat_ofNat_of_lt' (by omega)]
    exact Nat.mod_eq_of_lt hsmall
  have hle : (4 : UInt32) ≤ UInt32.ofNat pages * 65536 := by
    rw [UInt32.le_iff_toNat_le, hmul]
    exact Nat.le_trans (by decide) (Nat.mul_le_mul_right 65536 (Nat.pos_of_ne_zero h₁))
  rw [UInt32.toNat_sub_of_le _ _ hle, hmul]
  rfl

/-- What was saved is restored. -/
theorem restored_of_saved {candid : Candid} (hinv : candid.Inverse) {limit : Nat}
    {m m' : StableMemory} {s : State} (hs : Savable candid s)
    (hsave : saveState candid limit m s = some m') (hm : m'.pages ≤ maxPages) (s₀ : State) :
    tryRestoreState candid m' s₀ = some (s, true) := by
  obtain ⟨bytes, he, hstored⟩ := saveState_stored hsave
  obtain ⟨_, he', hne, -⟩ := hs
  cases he.symm.trans he'
  rw [hstored.tryRestoreState (hinv s bytes he),
    toNat_maxReadable hstored.pages_pos hm, if_neg]
  have hread := Mem.read_le hstored.data
  unfold Mem.size at hread
  rintro (hnil | hlt)
  · exact hne hnil
  · omega

theorem saves_fit {candid : Candid} {limit : Nat} (hl : maxPages ≤ limit) (states : List State)
    {m : StableMemory} (hm : m.pages ≤ maxPages) (hfit : ∀ s ∈ states, Savable candid s) :
    ∃ m', states.foldlM (saveState candid limit) m = some m' ∧ m'.pages ≤ maxPages := by
  induction states generalizing m with
  | nil => exact ⟨m, rfl, hm⟩
  | cons s states ih =>
    obtain ⟨m₁, h₁, hm₁⟩ := saveState_fits hl hm (hfit s (List.mem_cons_self ..))
    obtain ⟨m₂, h₂, hm₂⟩ := ih hm₁ fun s' hs' => hfit s' (List.mem_cons_of_mem _ hs')
    exact ⟨m₂, by rw [List.foldlM_cons, h₁, Option.bind_eq_bind, Option.bind_some, h₂], hm₂⟩

/-- Whatever was saved before, the state that was saved last is restored. -/
theorem restored_last {candid : Candid} (hinv : candid.Inverse) {limit : Nat} {m : StableMemory}
    {states : List State} {s : State} (hl : maxPages ≤ limit) (hm : m.pages ≤ maxPages)
    (hfit : ∀ s' ∈ states ++ [s], Savable candid s') :
    ∃ m', (states ++ [s]).foldlM (saveState candid limit) m = some m' ∧
      ∀ s₀, tryRestoreState candid m' s₀ = some (s, true) := by
  have hs : Savable candid s := hfit s (by simp)
  obtain ⟨m₁, h₁, hm₁⟩ := saves_fit hl states hm fun s' hs' => hfit s' (List.mem_append_left _ hs')
  obtain ⟨m₂, h₂, hm₂⟩ := saveState_fits hl hm₁ hs
  refine ⟨m₂, ?_, restored_of_saved hinv hs h₂ hm₂⟩
  rw [List.foldlM_append, h₁, Option.bind_eq_bind, Option.bind_some, List.foldlM_cons, h₂]
  rfl

/-! ## A sample encoder -/

deriving instance DecidableEq for State

namespace Sample

def magic : List UInt8 := [68, 73, 68, 76]

def padded (n : Nat) (h : n + 4 < UInt32.size) : Bytes where
  data := magic ++ List.replicate n 0
  small := by
    rw [List.length_append, List.length_replicate, Nat.add_comm]
    exact h

theorem padded_length {n : Nat} (h : n + 4 < UInt32.size) : (padded n h).data.length = n + 4 := by
  unfold padded
  rw [List.length_append, List.length_replicate, Nat.add_comm]
  rfl

/-- An encoder of the listed states: each takes a page more than the one before it. -/
def candid (states : List State) : Candid where
  encodeOne s := (states.idxOf? s).bind fun i =>
    if h : 65536 * i + 4 < UInt32.size then some (padded _ h) else none
  decodeOne data := if magic.isPrefixOf data then states[(data.length - 4) / 65536]? else none

theorem candid_inverse (states : List State) : (candid states).Inverse := by
  intro s bytes h
  unfold candid at h
  simp only [Option.bind_eq_some_iff] at h
  obtain ⟨i, hi, h⟩ := h
  split at h
  · cases h
    obtain ⟨hlt, rfl, -⟩ := List.idxOf?_eq_some_iff.mp hi
    simp [candid, padded, magic, hlt]
  · cases h

theorem candid_savable {states : List State} {s : State} (hs : s ∈ states)
    (hn : states.length ≤ maxPages) : Savable (candid states) s := by
  obtain ⟨i, hi⟩ := Option.isSome_iff_exists.mp (List.isSome_idxOf?.mpr hs)
  obtain ⟨hlt, -⟩ := List.idxOf?_eq_some_iff.mp hi
  have hsmall : 65536 * i + 4 + 4 ≤ maxPages * 65536 := by
    unfold maxPages at hn ⊢
    omega
  have hsize : 65536 * i + 4 < UInt32.size :=
    Nat.lt_of_lt_of_le (by omega) (hsmall.trans (by decide))
  refine ⟨padded _ hsize, by simp only [candid, hi, Option.bind_some, dif_pos hsize],
    by simp [padded, magic], ?_⟩
  rwa [padded_length]

/-- A canister that registered `n` reserves and removed them again. -/
def drained (n : UInt64) : State := { State.default ledgerId with nextReserveId := n }

end Sample

/-- The longest state, the shortest one and one in between, saved over a page of other data. -/
theorem restored_last_sample :
    ∃ m', ([Sample.drained 2, Sample.drained 0] ++ [Sample.drained 1]).foldlM
        (saveState (Sample.candid [Sample.drained 0, Sample.drained 1, Sample.drained 2]) maxPages)
        ⟨1, fun _ => 255⟩ = some m' ∧
      ∀ s₀, tryRestoreState (Sample.candid [Sample.drained 0, Sample.drained 1, Sample.drained 2])
        m' s₀ = some (Sample.drained 1, true) := by
  refine restored_last (Sample.candid_inverse _) (Nat.le_refl _) (by decide) fun s hs => ?_
  refine Sample.candid_savable ?_ (by decide)
  simp only [List.mem_append, List.mem_cons, List.not_mem_nil, or_false] at hs ⊢
  tauto

end ViciMinter
