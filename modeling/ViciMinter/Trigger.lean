import ViciMinter.Registry
import ViciMinter.Amount

/-!
# When a rebalance mints

A reserve whose lifetime minimum is met gets tokens whenever its balance is below
`target_balance` and nothing stops the rebalance. `min_balance` is validated and
stored, but decides nothing (`issues_below_min_iff`).
-/

namespace ViciMinter

/-- A cap or a rate limit leaves no room, whatever the deficit is. -/
def Exhausted (config : ReserveConfig) (balance lifetimeMinted : Nat) (policy : GlobalPolicy)
    (events : List MintEvent) (now : Nat) : Prop :=
  config.maxTopupPerRebalance = some 0 ∨
  (∃ max, config.maxBalance = some max ∧ max ≤ balance) ∨
  (∃ max, config.lifetimeReceivedMaximum = some max ∧ max ≤ lifetimeMinted) ∨
  policy.maxMintPerOperation = some 0 ∨
  ∃ limits w limit, config.rateLimits = some limits ∧ (w, some limit) ∈ limits.windows ∧
    limit ≤ usageInWindow events now w

theorem zero_mem_room {cap : Option Nat} {used : Nat} :
    0 ∈ room cap used ↔ ∃ max, cap = some max ∧ max ≤ used := by
  simp only [mem_room, Nat.sub_eq_zero_iff_le]

theorem zero_mem_windowRooms {rateLimits : Option RateLimits} {events : List MintEvent}
    {now : Nat} : 0 ∈ windowRooms rateLimits events now ↔
      ∃ limits w limit, rateLimits = some limits ∧ (w, some limit) ∈ limits.windows ∧
        limit ≤ usageInWindow events now w := by
  cases rateLimits with
  | none => simp [windowRooms]
  | some limits =>
    simp only [windowRooms, List.mem_flatMap, zero_mem_room, Option.some.injEq]
    constructor
    · rintro ⟨⟨w, _⟩, hw, limit, rfl, hle⟩
      exact ⟨limits, w, limit, rfl, hw, hle⟩
    · rintro ⟨_, w, limit, rfl, hw, hle⟩
      exact ⟨(w, some limit), hw, limit, rfl, hle⟩

theorem zero_mem_rooms {config : ReserveConfig} {b m : Nat} {policy : GlobalPolicy}
    {events : List MintEvent} {now : Nat} :
    0 ∈ capRooms config b m policy ++ windowRooms config.rateLimits events now ↔
      Exhausted config b m policy events now := by
  have hzero : ∀ {cap : Option Nat}, (∃ max, cap = some max ∧ max ≤ 0) ↔ cap = some 0 := by
    simp
  simp only [capRooms, List.mem_append, zero_mem_windowRooms, zero_mem_room, hzero, or_assoc,
    Exhausted]

/-- There is something to mint if there is a deficit and nothing stops it. -/
theorem mintAmount_pos_iff {config : ReserveConfig} {b m : Nat} {policy : GlobalPolicy}
    {events : List MintEvent} {now : Nat} : 0 < mintAmount config b m policy events now ↔
      0 < deficit config b m ∧ ¬ Exhausted config b m policy events now := by
  rw [mintAmount, lt_least_iff, ← zero_mem_rooms]
  refine and_congr_right fun _ => ⟨fun h hzero => Nat.lt_irrefl 0 (h 0 hzero), fun h r hr => ?_⟩
  exact Nat.pos_of_ne_zero fun hr0 => h (hr0 ▸ hr)

section
variable {s : State} {id : ReserveId} {record : ReserveRecord} {b now : Nat}

/-- Once the lifetime minimum is met, the target alone decides. -/
theorem issues_iff
    (hlife : ∀ min ∈ record.config.lifetimeReceivedMinimum, min ≤ record.lifetimeMinted) :
    (∃ a, issuedAmount s id (s.snapshot record) (.answered b) now = some a) ↔
      AutoAllowed record.config s.globalPolicy ∧ b < record.config.targetBalance ∧
      ¬ Exhausted record.config b record.lifetimeMinted s.globalPolicy record.mintEvents now := by
  have hdeficit : 0 < deficit record.config b record.lifetimeMinted ↔
      b < record.config.targetBalance := by
    have hmet : record.config.lifetimeReceivedMinimum.getD 0 - record.lifetimeMinted = 0 := by
      cases hmin : record.config.lifetimeReceivedMinimum with
      | none => exact Nat.zero_sub _
      | some min => exact Nat.sub_eq_zero_of_le (hlife min hmin)
    rw [deficit, hmet]
    omega
  rw [← hdeficit, ← mintAmount_pos_iff]
  exact issues_iff_pos s id (s.snapshot record) b now

/-- Once the lifetime minimum is met, a rebalance mints only below `min_balance`
exactly if the balance is below it, or nothing would be minted at all: the target
is reached, rebalancing is not allowed, or a cap leaves no room. -/
theorem issues_below_min_iff
    (hlife : ∀ min ∈ record.config.lifetimeReceivedMinimum, min ≤ record.lifetimeMinted) :
    ((∃ a, issuedAmount s id (s.snapshot record) (.answered b) now = some a) →
      b < record.config.minBalance) ↔
    b < record.config.minBalance ∨ record.config.targetBalance ≤ b ∨
      ¬ AutoAllowed record.config s.globalPolicy ∨
      Exhausted record.config b record.lifetimeMinted s.globalPolicy record.mintEvents now := by
  rw [issues_iff hlife, ← Nat.not_lt]
  constructor
  · intro h
    by_contra hno
    simp only [not_or, not_not] at hno
    obtain ⟨hmin, htarget, hauto, hroom⟩ := hno
    exact hmin (h ⟨hauto, htarget, hroom⟩)
  · rintro h ⟨hauto, htarget, hroom⟩
    rcases h with hmin | hfunded | hno | hex
    · exact hmin
    · exact (hfunded htarget).elim
    · exact (hno hauto).elim
    · exact (hroom hex).elim

end

/-- A reserve kept between 40 and 100. -/
def bandReserve : AddReserveArg := { Sample.reserve with minBalance := 40 }

/-- At a balance of 70 the reserve is topped up to 100. -/
theorem issues_above_min :
    let s := (Sample.registered bandReserve).state
    ∃ record, s.reserves[(0 : ReserveId)]? = some record ∧
      validateReserveConfig record.config = .ok () ∧
      record.config.lifetimeReceivedMinimum = none ∧ record.config.minBalance = 40 ∧
      issuedAmount s 0 (s.snapshot record) (.answered 70) 1 = some 30 := by
  refine ⟨_, rfl, ?_⟩
  decide

theorem issues_below_min_iff_sample :
    let s := (Sample.registered bandReserve).state
    let record : ReserveRecord := { config := bandReserve.config, lifetimeMinted := 0,
                                    mintEvents := [] }
    (∃ a, issuedAmount s 0 (s.snapshot record) (.answered 100) 1 = some a) → 100 < 40 :=
  (issues_below_min_iff (by decide)).mpr (.inr (.inl (by decide)))

end ViciMinter
