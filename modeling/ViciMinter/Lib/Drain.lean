import Mathlib.Algebra.GroupWithZero.Nat
import Mathlib.Algebra.Order.BigOperators.Group.List
import Mathlib.Algebra.Order.Group.Nat
import ViciMinter.Lib.Lts

/-!
# Drawing a quantity down

A system whose events are amounts. `left` is a quantity of its states, and every
step takes a positive part of it (`Drains`). Whatever the steps take, no run is
longer than what was left at its start, a run that cannot be continued has taken
all of it, and there is such a run.
-/

namespace Lts

variable {σ : Type}

/-- Every step takes a positive part of what is left, and there is a step as long
as something is. -/
structure Drains (step : σ → Nat → σ → Prop) (left : σ → Nat) : Prop where
  takes : ∀ {s a t}, step s a t → 0 < a ∧ left s = a + left t
  continues : ∀ {s}, 0 < left s → ∃ a t, step s a t

section
variable {step : σ → Nat → σ → Prop} {left : σ → Nat} {s t : σ} {tr : List Nat}

theorem Drains.left_eq (hd : Drains step left) (h : Run step anyEvent s tr t) :
    left s = tr.sum + left t := by
  induction h with
  | nil => simp
  | cons _ hs _ ih => rw [List.sum_cons, (hd.takes hs).2, ih, Nat.add_assoc]

/-- A run has at most as many steps as there was to take. -/
theorem Drains.length_le (hd : Drains step left) (h : Run step anyEvent s tr t) :
    tr.length ≤ left s := by
  induction h with
  | nil => exact Nat.zero_le _
  | cons _ hs _ ih =>
    obtain ⟨hpos, hleft⟩ := hd.takes hs
    rw [List.length_cons, hleft]
    omega

/-- There is no step when nothing is left. -/
theorem Drains.stuck_iff (hd : Drains step left) : (¬ ∃ a t, step s a t) ↔ left s = 0 := by
  constructor
  · intro hstuck
    by_contra hne
    exact hstuck (hd.continues (Nat.pos_of_ne_zero hne))
  · rintro hzero ⟨a, t, hs⟩
    obtain ⟨hpos, hleft⟩ := hd.takes hs
    omega

/-- From every state some run takes all there is. -/
theorem Drains.exhausts (hd : Drains step left) (s : σ) :
    ∃ tr t, Run step anyEvent s tr t ∧ left t = 0 ∧ tr.sum = left s := by
  induction hn : left s using Nat.strongRecOn generalizing s with
  | ind n ih =>
    by_cases hpos : 0 < left s
    · obtain ⟨a, u, hs⟩ := hd.continues hpos
      obtain ⟨ha, hleft⟩ := hd.takes hs
      obtain ⟨tr, t, hr, ht, hsum⟩ := ih (left u) (by omega) u rfl
      refine ⟨a :: tr, t, .cons trivial hs hr, ht, ?_⟩
      rw [List.sum_cons, hsum]
      omega
    · have hzero : left s = 0 := by omega
      exact ⟨[], s, .nil s, hzero, by rw [← hn, hzero, List.sum_nil]⟩

end

end Lts
