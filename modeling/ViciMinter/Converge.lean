import ViciMinter.Registry
import ViciMinter.Amount
import ViciMinter.Lib.Drain

/-!
# Rebalancing again and again

What repeated rebalances of a reserve mint in the end, when nothing else changes
its balance and it has no rate limits. A round of `compute_rebalance` drains
`refill`: the least of the deficit and the room that the two running totals
leave. The caps on one operation only decide how many rounds that takes.
-/

namespace ViciMinter

open Lts

/-! ## Rounds -/

/-- What `compute_rebalance` reads of a reserve besides its configuration. -/
structure Funds where
  balance : Nat
  lifetimeMinted : Nat
  deriving DecidableEq, Repr

def Funds.credit (f : Funds) (a : Nat) : Funds where
  balance := f.balance + a
  lifetimeMinted := f.lifetimeMinted + a

@[simp] theorem Funds.credit_balance (f : Funds) (a : Nat) :
    (f.credit a).balance = f.balance + a := rfl

@[simp] theorem Funds.credit_lifetimeMinted (f : Funds) (a : Nat) :
    (f.credit a).lifetimeMinted = f.lifetimeMinted + a := rfl

theorem Funds.credit_credit (f : Funds) (a a' : Nat) :
    (f.credit a).credit a' = f.credit (a + a') := by
  simp only [Funds.credit, Nat.add_assoc]

/-- A rebalance whose amount reaches the account; no answer if nothing is minted. -/
def rebalanceRound (config : ReserveConfig) (policy : GlobalPolicy) (f : Funds) :
    Option (Nat × Funds) :=
  match computeRebalance config f.balance f.lifetimeMinted policy with
  | .error _ => none
  | .ok c => if c.action = .minted then some (c.mintAmount, f.credit c.mintAmount) else none

/-- Without rate limits a rebalance issues what a round mints. -/
theorem issuedAmount_round (s : State) (id : ReserveId) (record : ReserveRecord) (b now : Nat)
    (hlimits : record.config.rateLimits = none) :
    issuedAmount s id (s.snapshot record) (.answered b) now =
      (rebalanceRound record.config s.globalPolicy ⟨b, record.lifetimeMinted⟩).map Prod.fst := by
  simp only [issuedAmount_eq, State.snapshot, mintAmount, hlimits, windowRooms, List.append_nil]
  unfold rebalanceRound
  by_cases hauto : AutoAllowed record.config s.globalPolicy
  · obtain ⟨c, hc, ha, -, hminted⟩ := computeRebalance_eq hauto b record.lifetimeMinted
    simp only [hauto, true_and, hc, ← ha, hminted]
    split <;> rfl
  · rw [if_neg fun h => hauto h.1]
    cases hc : computeRebalance record.config b record.lifetimeMinted s.globalPolicy with
    | error e => rfl
    | ok c =>
      have hne : c.action ≠ .minted := by
        intro hm
        exact hauto (computeRebalance_minted hc hm).2.autoAllowed
      simp only [hne, if_false, Option.map_none]

def Round (config : ReserveConfig) (policy : GlobalPolicy) (f : Funds) (a : Nat) (g : Funds) :
    Prop := rebalanceRound config policy f = some (a, g)

/-- The next rebalance answers, but mints nothing. -/
def Settled (config : ReserveConfig) (policy : GlobalPolicy) (f : Funds) : Prop :=
  ∃ c, computeRebalance config f.balance f.lifetimeMinted policy = .ok c ∧ c.action ≠ .minted

/-- What the two running totals let through of the deficit. -/
def refill (config : ReserveConfig) (f : Funds) : Nat :=
  least (deficit config f.balance f.lifetimeMinted)
    (room config.maxBalance f.balance ++ room config.lifetimeReceivedMaximum f.lifetimeMinted)

/-! ## What a round leaves -/

theorem least_sub (a d : Nat) (l : List Nat) :
    least (d - a) (l.map (· - a)) = least d l - a := by
  induction l generalizing d with
  | nil => rfl
  | cons r l ih =>
    have hmin : min (d - a) (r - a) = min d r - a := by omega
    rw [List.map_cons, least_cons, hmin, ih, least_cons]

theorem room_add (cap : Option Nat) (used a : Nat) :
    room cap (used + a) = (room cap used).map (· - a) := by
  cases cap with
  | none => rfl
  | some c => simp [Nat.sub_sub]

theorem deficit_add (config : ReserveConfig) (b m a : Nat) :
    deficit config (b + a) (m + a) = deficit config b m - a := by
  unfold deficit
  rw [Nat.sub_add_eq, Nat.sub_add_eq, Nat.sub_max_sub_right]

/-- An amount that reaches the account is an amount less to mint. -/
theorem refill_credit (config : ReserveConfig) (f : Funds) (a : Nat) :
    refill config (f.credit a) = refill config f - a := by
  simp only [refill, Funds.credit_balance, Funds.credit_lifetimeMinted, deficit_add, room_add,
    ← List.map_append, least_sub]

section
variable {config : ReserveConfig} {policy : GlobalPolicy} {f g : Funds} {a : Nat}

theorem round_iff (hauto : AutoAllowed config policy) : Round config policy f a g ↔
    0 < a ∧ g = f.credit a ∧ a = least (deficit config f.balance f.lifetimeMinted)
      (capRooms config f.balance f.lifetimeMinted policy) := by
  obtain ⟨c, hc, hamount, -, hminted⟩ := computeRebalance_eq hauto f.balance f.lifetimeMinted
  simp only [Round, rebalanceRound, hc, hminted, ← hamount, Option.ite_none_right_eq_some,
    Option.some.injEq, Prod.mk.injEq]
  constructor
  · rintro ⟨hpos, rfl, rfl⟩
    exact ⟨hpos, rfl, rfl⟩
  · rintro ⟨hpos, rfl, rfl⟩
    exact ⟨hpos, rfl, rfl⟩

/-- The next rebalance mints nothing exactly if there is no round. -/
theorem settled_iff (hauto : AutoAllowed config policy) :
    Settled config policy f ↔ ¬ ∃ a g, Round config policy f a g := by
  obtain ⟨c, hc, -⟩ := computeRebalance_eq hauto f.balance f.lifetimeMinted
  simp only [Settled, Round, rebalanceRound, hc, Except.ok.injEq, exists_eq_left']
  split
  · next h => simp [h]
  · next h => simp [h]

theorem mem_room_zero {cap : Option Nat} {r : Nat} (h : r ∈ room cap 0) : cap = some r := by
  obtain ⟨c, hcap, rfl⟩ := mem_room.mp h
  exact hcap

/-- With positive caps on one operation, a rebalance mints as long as the running
totals let it. -/
theorem capRooms_pos (htopup : ∀ c ∈ config.maxTopupPerRebalance, 0 < c)
    (hop : ∀ c ∈ policy.maxMintPerOperation, 0 < c) (hpos : 0 < refill config f) :
    0 < least (deficit config f.balance f.lifetimeMinted)
      (capRooms config f.balance f.lifetimeMinted policy) := by
  rw [refill, lt_least_iff] at hpos
  refine (lt_least_iff _ _).mpr ⟨hpos.1, fun r hr => ?_⟩
  simp only [capRooms, List.mem_append] at hr
  rcases hr with ((hr | hr) | hr) | hr
  · exact htopup r (mem_room_zero hr)
  · exact hpos.2 r (List.mem_append_left _ hr)
  · exact hpos.2 r (List.mem_append_right _ hr)
  · exact hop r (mem_room_zero hr)

theorem rounds_drain (hauto : AutoAllowed config policy)
    (htopup : ∀ c ∈ config.maxTopupPerRebalance, 0 < c)
    (hop : ∀ c ∈ policy.maxMintPerOperation, 0 < c) :
    Drains (Round config policy) (refill config) where
  takes := by
    intro f a g h
    obtain ⟨hpos, rfl, ha⟩ := (round_iff hauto).mp h
    have hle : a ≤ refill config f := by
      rw [ha]
      refine least_anti fun r hr => ?_
      simp only [capRooms, List.mem_append] at hr ⊢
      exact .inl (hr.imp_left .inr)
    rw [refill_credit]
    exact ⟨hpos, by omega⟩
  continues := by
    intro f hpos
    exact ⟨_, _, (round_iff hauto).mpr ⟨capRooms_pos htopup hop hpos, rfl, rfl⟩⟩

theorem credit_run {tr : List Nat} (hauto : AutoAllowed config policy)
    (h : Run (Round config policy) anyEvent f tr g) : g = f.credit tr.sum := by
  induction h with
  | nil => rfl
  | cons _ hs _ ih =>
    obtain ⟨-, rfl, -⟩ := (round_iff hauto).mp hs
    rw [ih, Funds.credit_credit, List.sum_cons]

/-! ## What is reached -/

/-- A running total under a cap that admits `goal` leaves the way to `goal`. -/
theorem le_room {cap : Option Nat} {goal used r : Nat} (hgoal : Within cap goal)
    (hr : r ∈ room cap used) : goal - used ≤ r := by
  obtain ⟨c, rfl, rfl⟩ := mem_room.mp hr
  exact Nat.sub_le_sub_right hgoal used

theorem ConfigOk.reaches_lifetime (hok : ConfigOk config) (hmax : config.maxBalance = none)
    {min : Nat} (hmin : min ∈ config.lifetimeReceivedMinimum) :
    min ≤ f.lifetimeMinted + refill config f := by
  have hle : min - f.lifetimeMinted ≤ refill config f := by
    refine (le_least_iff _ _).mpr ⟨?_, fun r hr => ?_⟩
    · rw [deficit, hmin, Option.getD_some]
      exact Nat.le_max_right _ _
    · rw [hmax, room_none, List.nil_append] at hr
      exact le_room (hok.lifetime min hmin) hr
  omega

theorem ConfigOk.reaches_target (hok : ConfigOk config)
    (hmax : config.lifetimeReceivedMaximum = none) :
    config.targetBalance ≤ f.balance + refill config f := by
  have hle : config.targetBalance - f.balance ≤ refill config f := by
    refine (le_least_iff _ _).mpr ⟨Nat.le_max_left _ _, fun r hr => ?_⟩
    rw [hmax, room_none, List.append_nil] at hr
    exact le_room hok.maxBalance hr
  omega

/-- Repeated rebalances come to an end, and what they mint in total does not
depend on the caps on one operation. With a valid configuration the lifetime
minimum is reached if `max_balance` is not set, and the target balance if
`lifetime_received_maximum` is not. -/
theorem rebalancing_converges (hauto : AutoAllowed config policy)
    (htopup : ∀ c ∈ config.maxTopupPerRebalance, 0 < c)
    (hop : ∀ c ∈ policy.maxMintPerOperation, 0 < c) (f : Funds) :
    (∀ tr g, Run (Round config policy) anyEvent f tr g → tr.length ≤ refill config f) ∧
    (∃ tr g, Run (Round config policy) anyEvent f tr g ∧ Settled config policy g) ∧
    ∀ tr g, Run (Round config policy) anyEvent f tr g → Settled config policy g →
      tr.sum = refill config f ∧ g = f.credit tr.sum ∧
      (validateReserveConfig config = .ok () → config.maxBalance = none →
        ∀ min ∈ config.lifetimeReceivedMinimum, min ≤ g.lifetimeMinted) ∧
      (validateReserveConfig config = .ok () → config.lifetimeReceivedMaximum = none →
        config.targetBalance ≤ g.balance) := by
  have hd := rounds_drain hauto htopup hop
  refine ⟨fun tr g h => hd.length_le h, ?_, ?_⟩
  · obtain ⟨tr, g, hr, hg, -⟩ := hd.exhausts f
    exact ⟨tr, g, hr, (settled_iff hauto).mpr (hd.stuck_iff.mpr hg)⟩
  · intro tr g hr hg
    have hzero := hd.stuck_iff.mp ((settled_iff hauto).mp hg)
    have hsum : tr.sum = refill config f := by
      rw [hd.left_eq hr, hzero, Nat.add_zero]
    obtain rfl := credit_run hauto hr
    refine ⟨hsum, rfl, fun hok hmax min hmin => ?_, fun hok hmax => ?_⟩
    · rw [hsum]
      exact (validateReserveConfig_ok.mp hok).reaches_lifetime hmax hmin
    · rw [hsum]
      exact (validateReserveConfig_ok.mp hok).reaches_target hmax

end

/-- A target of 100 and a lifetime minimum of 150, in steps of 40 at most. -/
def steppedReserve : ReserveConfig :=
  { Sample.reserve.config with
    lifetimeReceivedMinimum := some 150
    maxTopupPerRebalance := some 40 }

theorem rebalancing_converges_sample : ∃ tr g,
    Run (Round steppedReserve GlobalPolicy.default) anyEvent ⟨70, 20⟩ tr g ∧
    Settled steppedReserve GlobalPolicy.default g ∧ tr.sum = 130 ∧
    150 ≤ g.lifetimeMinted ∧ 100 ≤ g.balance := by
  obtain ⟨-, ⟨tr, g, hr, hg⟩, hall⟩ := @rebalancing_converges steppedReserve GlobalPolicy.default
    (by decide) (by decide) (by decide) ⟨70, 20⟩
  obtain ⟨hsum, -, hlife, htarget⟩ := hall tr g hr hg
  exact ⟨tr, g, hr, hg, hsum, hlife (by decide) rfl 150 rfl, htarget (by decide) rfl⟩

end ViciMinter
