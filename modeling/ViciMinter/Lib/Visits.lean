import ViciMinter.Lib.Window

/-!
# A log that visits keep filled

The other side of a limiter. Something visits a log now and then, and finds or leaves at
least `Q` in the window of length `W` behind it (`Filled`), since it adds to the log
whatever the limits let through. If visits are at most `G` apart, any `W + G` in a row
hold at least `Q`, wherever the entries lie (`Filled.le_total`).
-/

namespace Window

variable {α : Type} {ts amt : α → Nat} {W G Q t₀ : Nat} {visits : List Nat} {l l' : List α}

/-- Every visit has at least `Q` in the window behind it. -/
def Filled (ts amt : α → Nat) (W Q : Nat) (visits : List Nat) (l : List α) : Prop :=
  ∀ v ∈ visits, Q ≤ total amt (within ts (v - W) v l)

/-- Visits at most `G` apart, the first at most `G` after `t₀`. -/
def Close (G t₀ : Nat) (visits : List Nat) : Prop := (t₀ :: visits).IsChain fun a b => b ≤ a + G

instance (G t₀ : Nat) (visits : List Nat) : Decidable (Close G t₀ visits) :=
  inferInstanceAs (Decidable ((t₀ :: visits).IsChain fun a b => b ≤ a + G))

/-- Close visits leave no interval of length `G` out before the last of them. -/
theorem Close.visit_after (h : Close G t₀ visits) {x : Nat} (hx : t₀ ≤ x)
    (hlater : ∃ v ∈ visits, x < v) : ∃ v ∈ visits, x < v ∧ v ≤ x + G := by
  induction visits generalizing t₀ with
  | nil =>
    obtain ⟨v, hv, -⟩ := hlater
    cases hv
  | cons u visits ih =>
    obtain ⟨hu, hrest⟩ := List.isChain_cons_cons.mp h
    by_cases hxu : x < u
    · exact ⟨u, List.mem_cons_self, hxu, by omega⟩
    · obtain ⟨v, hv, hxv⟩ := hlater
      have hv : v ∈ visits := by
        rcases List.mem_cons.mp hv with rfl | hv
        · exact (hxu hxv).elim
        · exact hv
      obtain ⟨v', hv', hafter⟩ := ih hrest (by omega) ⟨v, hv, hxv⟩
      exact ⟨v', List.mem_cons_of_mem u hv', hafter⟩

theorem within_subset {lo hi lo' hi' : Nat} (hlo : lo' ≤ lo) (hhi : hi ≤ hi') :
    total amt (within ts lo hi l) ≤ total amt (within ts lo' hi' l) := by
  refine total_filter_le fun a _ ha => ?_
  have ha := of_decide_eq_true ha
  exact decide_eq_true (by omega)

/-- Intervals that do not meet. -/
theorem within_apart {lo mid hi : Nat} (hlo : lo ≤ mid + 1) (hhi : mid ≤ hi) :
    total amt (within ts lo mid l) + total amt (within ts (mid + 1) hi l) ≤
      total amt (within ts lo hi l) := by
  have hor : total amt (l.filter fun a => decide (lo ≤ ts a ∧ ts a ≤ mid) ||
      decide (mid + 1 ≤ ts a ∧ ts a ≤ hi)) =
        total amt (within ts lo mid l) + total amt (within ts (mid + 1) hi l) := by
    refine total_filter_or fun a _ ha => ?_
    have ha := of_decide_eq_true ha
    exact decide_eq_false (by omega)
  rw [← hor]
  refine total_filter_le fun a _ ha => ?_
  simp only [Bool.or_eq_true, decide_eq_true_eq] at ha ⊢
  omega

/-- What `n` intervals of length `W + G` hold, the last before some visit. -/
theorem Filled.le_total (h : Filled ts amt W Q visits l) (hclose : Close G t₀ visits) (n : Nat)
    (hlater : ∃ v ∈ visits, t₀ + n * (W + G) < v) :
    n * Q ≤ total amt (within ts (t₀ + 1) (t₀ + n * (W + G)) l) := by
  induction n with
  | zero =>
    rw [Nat.zero_mul]
    exact Nat.zero_le _
  | succ n ih =>
    obtain ⟨last, hlast, hlater⟩ := hlater
    rw [Nat.succ_mul] at hlater ⊢
    have hfirst := ih ⟨last, hlast, by omega⟩
    obtain ⟨v, hv, hafter, hbefore⟩ := hclose.visit_after (x := t₀ + n * (W + G) + W) (by omega)
      ⟨last, hlast, by omega⟩
    have hbehind : Q ≤ total amt
        (within ts (t₀ + n * (W + G) + 1) (t₀ + (n * (W + G) + (W + G))) l) :=
      (h v hv).trans (within_subset (by omega) (by omega))
    have hapart : total amt (within ts (t₀ + 1) (t₀ + n * (W + G)) l) +
        total amt (within ts (t₀ + n * (W + G) + 1) (t₀ + (n * (W + G) + (W + G))) l) ≤
          total amt (within ts (t₀ + 1) (t₀ + (n * (W + G) + (W + G))) l) :=
      within_apart (by omega) (by omega)
    rw [Nat.succ_mul]
    omega

end Window
