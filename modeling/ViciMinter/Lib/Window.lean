import Mathlib.Algebra.GroupWithZero.Nat
import Mathlib.Algebra.Order.BigOperators.Group.List
import Mathlib.Algebra.Order.Group.Nat

/-!
# Sliding windows over a log

A log is a list of entries with a time `ts` and an amount `amt`, oldest first.
`usage` adds up what a limiter sees looking back from now; `Capped W L` is what
it is for: no closed interval of length `W`, wherever it lies, holds more than
`L`. A limiter that admits an entry only when the backward usage leaves room for
it keeps the log capped (`Capped.append`), if entries come in order of time. The
backward usage may be read off a log from which old entries were dropped
(`usage_since`).
-/

namespace Window

variable {α : Type} (ts amt : α → Nat)

def total (l : List α) : Nat := (l.map amt).sum

/-- The entries not older than `cutoff`. -/
def since (cutoff : Nat) (l : List α) : List α := l.filter fun e => cutoff ≤ ts e

/-- The entries in the closed interval from `lo` to `hi`. -/
def within (lo hi : Nat) (l : List α) : List α := l.filter fun e => lo ≤ ts e ∧ ts e ≤ hi

/-- What the window of length `W` ending at `now` holds. -/
def usage (now W : Nat) (l : List α) : Nat := total amt (since ts (now - W) l)

/-- No interval of length `W` holds more than `L`. -/
def Capped (W L : Nat) (l : List α) : Prop := ∀ t, total amt (within ts t (t + W) l) ≤ L

variable {ts amt}

@[simp] theorem total_nil : total amt [] = 0 := rfl

@[simp] theorem total_append (l l' : List α) :
    total amt (l ++ l') = total amt l + total amt l' := by
  simp [total]

@[simp] theorem total_singleton (a : α) : total amt [a] = amt a := by simp [total]

theorem total_le_of_sublist {l l' : List α} (h : l.Sublist l') : total amt l ≤ total amt l' :=
  (h.map amt).sum_le_sum fun _ _ => Nat.zero_le _

theorem total_filter_le {p q : α → Bool} {l : List α} (h : ∀ a ∈ l, p a = true → q a = true) :
    total amt (l.filter p) ≤ total amt (l.filter q) := by
  have e : l.filter p = (l.filter q).filter p := by
    rw [List.filter_filter]
    refine List.filter_congr fun a ha => ?_
    cases hp : p a with
    | false => rfl
    | true => rw [h a ha hp]; rfl
  rw [e]
  exact total_le_of_sublist List.filter_sublist

theorem total_filter_or {p q : α → Bool} {l : List α} (h : ∀ a ∈ l, p a = true → q a = false) :
    total amt (l.filter fun a => p a || q a) =
      total amt (l.filter p) + total amt (l.filter q) := by
  induction l with
  | nil => rfl
  | cons a l ih =>
    have ih := ih fun b hb => h b (List.mem_cons_of_mem a hb)
    have ha := h a List.mem_cons_self
    simp only [total] at ih ⊢
    cases hp : p a <;> cases hq : q a <;> simp_all <;> omega

/-- Two selections that cover a third add up to at least as much. -/
theorem total_filter_cover {p q r : α → Bool} {l : List α}
    (h : ∀ a ∈ l, r a = true → p a = true ∨ q a = true) :
    total amt (l.filter r) ≤ total amt (l.filter p) + total amt (l.filter q) := by
  induction l with
  | nil => exact Nat.zero_le _
  | cons a l ih =>
    have ih := ih fun b hb => h b (List.mem_cons_of_mem a hb)
    have ha := h a List.mem_cons_self
    simp only [total] at ih ⊢
    cases hr : r a <;> cases hp : p a <;> cases hq : q a <;> simp_all <;> omega

/-- The groups of a log add up to no less than the log. -/
theorem total_le_groups {β : Type} [DecidableEq β] (key : α → β) {ids : List β} {l : List α}
    (h : ∀ a ∈ l, key a ∈ ids) :
    total amt l ≤ (ids.map fun b => total amt (l.filter fun a => key a = b)).sum := by
  induction ids generalizing l with
  | nil =>
    cases l with
    | nil => exact Nat.le_refl _
    | cons a l => cases h a List.mem_cons_self
  | cons b ids ih =>
    have hcover : total amt l ≤ total amt (l.filter fun a => key a = b) +
        total amt (l.filter fun a => ¬ key a = b) := by
      have hall : l.filter (fun _ => true) = l := List.filter_true l
      rw [← hall, List.filter_filter, List.filter_filter]
      refine total_filter_cover fun a _ _ => ?_
      by_cases hk : key a = b <;> simp [hk]
    have hrest := ih (l := l.filter fun a => ¬ key a = b) fun a ha => by
      obtain ⟨ha, hk⟩ := List.mem_filter.mp ha
      exact (List.mem_cons.mp (h a ha)).resolve_left (of_decide_eq_true hk)
    have hgroups : (ids.map fun c => total amt
        ((l.filter fun a => ¬ key a = b).filter fun a => key a = c)).sum ≤
          (ids.map fun c => total amt (l.filter fun a => key a = c)).sum := by
      refine List.sum_le_sum fun c _ => total_le_of_sublist ?_
      exact List.filter_sublist.filter _
    rw [List.map_cons, List.sum_cons]
    omega

theorem Capped.nil (W L : Nat) : Capped ts amt W L [] := fun _ => Nat.zero_le _

/-- What `n + 1` windows in a row hold. -/
theorem Capped.span {W L : Nat} {l : List α} (h : Capped ts amt W L l) (n t : Nat) :
    total amt (within ts t (t + (n + 1) * W) l) ≤ (n + 1) * L := by
  induction n with
  | zero => simpa using h t
  | succ n ih =>
    have hcover : total amt (within ts t (t + (n + 1 + 1) * W) l) ≤
        total amt (within ts t (t + (n + 1) * W) l) +
          total amt (within ts (t + (n + 1) * W) (t + (n + 1) * W + W) l) := by
      refine total_filter_cover fun a _ ha => ?_
      have ha := of_decide_eq_true ha
      rw [Nat.succ_mul] at ha
      simp only [decide_eq_true_eq]
      omega
    have hlast := h (t + (n + 1) * W)
    rw [Nat.succ_mul (n + 1) L]
    omega

/-- Dropping entries older than `c` does not change what is not older than a later `c'`. -/
theorem since_since {c c' : Nat} (h : c ≤ c') (l : List α) :
    since ts c' (since ts c l) = since ts c' l := by
  simp only [since, List.filter_filter]
  refine List.filter_congr fun a _ => ?_
  simp only [Bool.and_eq_decide, decide_eq_true_eq]
  exact decide_eq_decide.mpr ⟨fun h' => h'.1, fun h' => ⟨h', h.trans h'⟩⟩

theorem since_append (c : Nat) (l l' : List α) :
    since ts c (l ++ l') = since ts c l ++ since ts c l' := List.filter_append ..

theorem usage_since {c now W : Nat} (h : c ≤ now - W) (l : List α) :
    usage ts amt now W (since ts c l) = usage ts amt now W l := by
  rw [usage, since_since h, usage]

theorem within_append (lo hi : Nat) (l l' : List α) :
    within ts lo hi (l ++ l') = within ts lo hi l ++ within ts lo hi l' := List.filter_append ..

theorem within_singleton (lo hi : Nat) (a : α) :
    within ts lo hi [a] = if lo ≤ ts a ∧ ts a ≤ hi then [a] else [] := by
  simp [within, List.filter_singleton]

/-- An admitted entry keeps the log capped: an interval that holds it holds only
entries the backward window ending at it already counted. -/
theorem Capped.append {W L : Nat} {l : List α} {a : α} (hl : Capped ts amt W L l)
    (hord : ∀ e ∈ l, ts e ≤ ts a) (hadm : usage ts amt (ts a) W l + amt a ≤ L) :
    Capped ts amt W L (l ++ [a]) := by
  intro t
  rw [within_append, total_append, within_singleton]
  split
  · next ha =>
    have hle : total amt (within ts t (t + W) l) ≤ usage ts amt (ts a) W l := by
      refine total_filter_le fun e he h => ?_
      have h' := of_decide_eq_true h
      have := hord e he
      exact decide_eq_true (by omega)
    rw [total_singleton]
    omega
  · simpa using hl t

end Window
