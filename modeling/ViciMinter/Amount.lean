import ViciMinter.Segments

/-!
# The amount of a rebalance

`compute_rebalance` clamps the deficit five times, with early exits, and
`rebalance_one` clamps the result once more to the budget of the rate limits.
Read as lists of rooms, all of it is one minimum: `mintAmount` is the least of
the deficit and the room that every cap and every window leaves.

`Trap` is the same code with a subtraction that traps below zero; it never does.
-/

namespace ViciMinter

/-! ## The specification -/

/-- What the caps of the reserve and of the policy leave. -/
def capRooms (config : ReserveConfig) (balance lifetimeMinted : Nat) (policy : GlobalPolicy) :
    List Nat :=
  room config.maxTopupPerRebalance 0 ++ room config.maxBalance balance ++
    room config.lifetimeReceivedMaximum lifetimeMinted ++ room policy.maxMintPerOperation 0

/-- The larger of the two deficits. -/
def deficit (config : ReserveConfig) (balance lifetimeMinted : Nat) : Nat :=
  max (config.targetBalance - balance) (config.lifetimeReceivedMinimum.getD 0 - lifetimeMinted)

/-- The least of the deficit and everything that caps it. -/
def mintAmount (config : ReserveConfig) (balance lifetimeMinted : Nat) (policy : GlobalPolicy)
    (events : List MintEvent) (now : Nat) : Nat :=
  least (deficit config balance lifetimeMinted)
    (capRooms config balance lifetimeMinted policy ++ windowRooms config.rateLimits events now)

/-- Minting and the reserve are enabled, and it may be rebalanced. -/
def AutoAllowed (config : ReserveConfig) (policy : GlobalPolicy) : Prop :=
  policy.mintingEnabled = true ∧ config.enabled = true ∧ config.allowAutoRebalance = true

instance (config : ReserveConfig) (policy : GlobalPolicy) :
    Decidable (AutoAllowed config policy) :=
  inferInstanceAs (Decidable (_ ∧ _ ∧ _))

theorem MintedOk.autoAllowed {config : ReserveConfig} {b m : Nat} {policy : GlobalPolicy} {a : Nat}
    (h : MintedOk config b m policy a) : AutoAllowed config policy :=
  ⟨h.mintingEnabled, h.enabled, h.allowAutoRebalance⟩

/-! ## The clamps of `compute_rebalance` -/

theorem capAt_eq (cap : Option Nat) (a : Nat) : capAt cap a = least a (room cap 0) := by
  cases cap with
  | none => rfl
  | some c =>
    unfold capAt
    simp only [room_some, least_cons, least_nil, Nat.sub_zero]
    split <;> omega

theorem capRoom_eq (cap : Option Nat) (used a : Nat) : capRoom cap used a =
    if 0 ∈ room cap used then none else some (least a (room cap used)) := by
  cases cap with
  | none => rfl
  | some c =>
    unfold capRoom
    simp only [natSub_eq, room_some, List.mem_singleton, least_cons, least_nil]
    split
    · next h =>
      have hpos : ¬ 0 = c - used := by omega
      rw [if_neg hpos]
      congr 1
      split <;> omega
    · next h =>
      have hzero : 0 = c - used := by omega
      rw [if_pos hzero]

theorem cyclicalDeficit_eq (config : ReserveConfig) (balance : Nat) :
    cyclicalDeficit config balance = config.targetBalance - balance := by
  unfold cyclicalDeficit
  simp only [natSub_eq]
  split <;> omega

theorem lifetimeDeficit_eq (config : ReserveConfig) (lifetimeMinted : Nat) :
    lifetimeDeficit config lifetimeMinted =
      config.lifetimeReceivedMinimum.getD 0 - lifetimeMinted := by
  unfold lifetimeDeficit
  simp only [natSub_eq]
  cases config.lifetimeReceivedMinimum with
  | none => exact (Nat.zero_sub _).symm
  | some min =>
    simp only [Option.getD_some]
    split <;> omega

theorem deficit_eq (config : ReserveConfig) (balance lifetimeMinted : Nat) :
    (if lifetimeDeficit config lifetimeMinted > cyclicalDeficit config balance then
      lifetimeDeficit config lifetimeMinted else cyclicalDeficit config balance) =
      deficit config balance lifetimeMinted := by
  rw [cyclicalDeficit_eq, lifetimeDeficit_eq, deficit]
  split <;> omega

/-- When rebalancing is allowed, the computed amount is the least of the deficit
and the caps, and the action says whether there is one. -/
theorem computeRebalance_eq {config : ReserveConfig} {policy : GlobalPolicy}
    (h : AutoAllowed config policy) (b m : Nat) :
    ∃ c, computeRebalance config b m policy = .ok c ∧
      c.mintAmount = least (deficit config b m) (capRooms config b m policy) ∧
      (c.action = .alreadyFunded ↔ deficit config b m = 0) ∧
      (c.action = .minted ↔ 0 < c.mintAmount) := by
  obtain ⟨hpol, hen, hauto⟩ := h
  simp only [computeRebalance, hpol, hen, hauto, Bool.not_true, Bool.false_eq_true, if_false,
    deficit_eq, capAt_eq, capRoom_eq, capRooms, least_append]
  generalize deficit config b m = d
  split
  · next hd =>
    exact ⟨_, rfl, by simp [notMinted, hd], by simp [notMinted, hd], by simp [notMinted]⟩
  next hd =>
  generalize least d (room config.maxTopupPerRebalance 0) = a₁
  by_cases hb : 0 ∈ room config.maxBalance b
  · rw [if_pos hb, least_eq_zero hb]
    exact ⟨_, rfl, by simp [notMinted], by simp [notMinted, hd], by simp [notMinted]⟩
  rw [if_neg hb]
  generalize least a₁ (room config.maxBalance b) = a₂
  by_cases hl : 0 ∈ room config.lifetimeReceivedMaximum m
  · simp only [if_pos hl, least_eq_zero hl]
    exact ⟨_, rfl, by simp [notMinted], by simp [notMinted, hd], by simp [notMinted]⟩
  simp only [if_neg hl]
  generalize least (least a₂ (room config.lifetimeReceivedMaximum m))
    (room policy.maxMintPerOperation 0) = a₃
  split
  · next h3 => exact ⟨_, rfl, by simp [notMinted, h3], by simp [notMinted, hd], by simp [notMinted]⟩
  · next h3 => exact ⟨_, rfl, rfl, by simp [hd], by simp [Nat.pos_of_ne_zero h3]⟩

/-- An answer that is not `minted` mints nothing. -/
theorem computeRebalance_unminted {config : ReserveConfig} {b m : Nat} {policy : GlobalPolicy}
    {c : ComputedRebalance} (h : computeRebalance config b m policy = .ok c)
    (hm : c.action ≠ .minted) : c.mintAmount = 0 := by
  by_cases hauto : AutoAllowed config policy
  · obtain ⟨c', hc', -, -, hact⟩ := computeRebalance_eq hauto b m
    cases h.symm.trans hc'
    exact Nat.eq_zero_of_not_pos fun hpos => hm (hact.mpr hpos)
  · unfold computeRebalance at h
    simp only at h
    split at h
    · cases h
    next hpol =>
    split at h
    · cases h
      rfl
    next hen =>
    split at h
    · cases h
      rfl
    next hallow =>
    exact (hauto ⟨by simpa using hpol, by simpa using hen, by simpa using hallow⟩).elim

/-! ## The budget -/

/-- The clamp to the budget takes the least once more, and refuses to mint nothing. -/
theorem clampToBudget_eq {a : Nat} (ha : 0 < a) (rooms : List Nat) :
    clampToBudget rooms.min? a = if 0 < least a rooms then some (least a rooms) else none := by
  cases rooms with
  | nil => simp [clampToBudget, ha]
  | cons r rooms =>
    simp only [min?_eq_least, clampToBudget, least_cons, least_min]
    generalize least r rooms = b
    repeat' split
    all_goals first
      | rfl
      | omega
      | (congr 1; omega)

/-! ## What a rebalance issues -/

/-- The amount of the transfer that a rebalance issues when its balance query returns. -/
def issuedAmount (s : State) (id : ReserveId) (snap : MintSnapshot) (reply : Reply Nat)
    (now : Nat) : Option Nat :=
  match (rebalanceIssue s id snap reply now).2 with
  | .transfer _ arg _ => some arg.amount
  | .ended _ => none

theorem issuedAmount_eq (s : State) (id : ReserveId) (snap : MintSnapshot) (b now : Nat) :
    issuedAmount s id snap (.answered b) now =
      if AutoAllowed snap.config snap.policy ∧
        0 < mintAmount snap.config b snap.lifetimeMinted snap.policy snap.mintEvents now then
        some (mintAmount snap.config b snap.lifetimeMinted snap.policy snap.mintEvents now)
      else none := by
  by_cases hauto : AutoAllowed snap.config snap.policy
  · obtain ⟨c, hc, ha, -, hact⟩ := computeRebalance_eq hauto b snap.lifetimeMinted
    simp only [hauto, true_and, mintAmount, least_append, ← ha]
    unfold issuedAmount rebalanceIssue getBalanceResult
    simp only [hc, availableMintBudget_eq]
    generalize windowRooms snap.config.rateLimits snap.mintEvents now = rooms
    cases h : c.action with
    | minted =>
      simp only [clampToBudget_eq (hact.mp h)]
      by_cases hpos : 0 < least c.mintAmount rooms
      · simp only [if_pos hpos]
        rfl
      · simp only [if_neg hpos]
    | alreadyFunded | skipped =>
      have hzero : c.mintAmount = 0 := by
        rw [h] at hact
        simpa using hact
      simp [hzero]
  · simp only [hauto, false_and, if_false, issuedAmount]
    rcases rebalanceIssue_cases s id snap (.answered b) now with ⟨r, -, -, he⟩ | ⟨k, hk, -⟩
    · rw [he]
    · exact (hauto hk.minted.autoAllowed).elim

/-- A rebalance issues a transfer if it is allowed and something is to be minted. -/
theorem issues_iff_pos (s : State) (id : ReserveId) (snap : MintSnapshot) (b now : Nat) :
    (∃ a, issuedAmount s id snap (.answered b) now = some a) ↔
      AutoAllowed snap.config snap.policy ∧
      0 < mintAmount snap.config b snap.lifetimeMinted snap.policy snap.mintEvents now := by
  simp only [issuedAmount_eq, Option.ite_none_right_eq_some, Option.some.injEq, exists_and_left,
    exists_eq', and_true]

/-! ## Subtraction that traps -/

/-- candid `Nat` subtraction; `none` is the trap below zero. -/
def checkedSub (a b : Nat) : Option Nat := if b ≤ a then some (a - b) else none

theorem checkedSub_eq {a b : Nat} (h : b ≤ a) : checkedSub a b = some (a - b) := if_pos h

namespace Trap

def cyclicalDeficit (config : ReserveConfig) (currentBalance : Nat) : Option Nat :=
  if currentBalance ≥ config.targetBalance then some 0
  else checkedSub config.targetBalance currentBalance

def lifetimeDeficit (config : ReserveConfig) (lifetimeMinted : Nat) : Option Nat :=
  match config.lifetimeReceivedMinimum with
  | some min => if min > lifetimeMinted then checkedSub min lifetimeMinted else some 0
  | none => some 0

def capRoom (cap : Option Nat) (used amount : Nat) : Option (Option Nat) :=
  match cap with
  | some max =>
    if max > used then do
      let room ← checkedSub max used
      return some (if amount > room then room else amount)
    else some none
  | none => some (some amount)

def computeRebalance (config : ReserveConfig) (currentBalance lifetimeMinted : Nat)
    (policy : GlobalPolicy) : Option (Except MinterError ComputedRebalance) := do
  if !policy.mintingEnabled then return .error .mintingDisabled
  if !config.enabled then return .ok (notMinted (.skipped "Reserve is disabled") 0 0)
  if !config.allowAutoRebalance then
    return .ok (notMinted (.skipped "Auto-rebalance not allowed for this reserve") 0 0)
  let cyclical ← cyclicalDeficit config currentBalance
  let lifetime ← lifetimeDeficit config lifetimeMinted
  let amount := if lifetime > cyclical then lifetime else cyclical
  if amount = 0 then return .ok (notMinted .alreadyFunded cyclical lifetime)
  let amount := capAt config.maxTopupPerRebalance amount
  match ← capRoom config.maxBalance currentBalance amount with
  | none =>
    return .ok (notMinted (.skipped "Balance already at or above max_balance") cyclical lifetime)
  | some amount =>
    match ← capRoom config.lifetimeReceivedMaximum lifetimeMinted amount with
    | none =>
      return .ok (notMinted (.skipped "Lifetime maximum already reached") cyclical lifetime)
    | some amount =>
      let amount := capAt policy.maxMintPerOperation amount
      if amount = 0 then
        return .ok (notMinted (.skipped "Amount capped to zero by policy or config limits")
          cyclical lifetime)
      return .ok { action := .minted, mintAmount := amount, cyclicalDeficit := cyclical,
                   lifetimeDeficit := lifetime }

def tightenBudget (events : List MintEvent) (nowNs : Nat) (budget : Option Nat) :
    Nat × Option Nat → Option (Option Nat)
  | (_, none) => some budget
  | (windowNs, some limit) => do
    let used := usageInWindow events nowNs windowNs
    let remaining ← if limit > used then checkedSub limit used else some 0
    return some (match budget with
      | some b => if remaining < b then remaining else b
      | none => remaining)

def availableMintBudget (rateLimits : Option RateLimits) (events : List MintEvent)
    (nowNs : Nat) : Option (Option Nat) :=
  match rateLimits with
  | none => some none
  | some limits => limits.windows.foldlM (tightenBudget events nowNs) none

theorem cyclicalDeficit_eq (config : ReserveConfig) (b : Nat) :
    cyclicalDeficit config b = some (ViciMinter.cyclicalDeficit config b) := by
  unfold cyclicalDeficit ViciMinter.cyclicalDeficit
  split
  · rfl
  · rw [checkedSub_eq (by omega), natSub_eq]

theorem lifetimeDeficit_eq (config : ReserveConfig) (m : Nat) :
    lifetimeDeficit config m = some (ViciMinter.lifetimeDeficit config m) := by
  unfold lifetimeDeficit ViciMinter.lifetimeDeficit
  cases config.lifetimeReceivedMinimum with
  | none => rfl
  | some min =>
    simp only [natSub_eq]
    split
    · rw [checkedSub_eq (by omega)]
    · rfl

theorem capRoom_eq (cap : Option Nat) (used a : Nat) :
    capRoom cap used a = some (ViciMinter.capRoom cap used a) := by
  cases cap with
  | none => rfl
  | some c =>
    unfold capRoom ViciMinter.capRoom
    simp only [natSub_eq]
    split
    · rw [checkedSub_eq (by omega)]
      rfl
    · rfl

theorem computeRebalance_eq (config : ReserveConfig) (b m : Nat) (policy : GlobalPolicy) :
    computeRebalance config b m policy = some (ViciMinter.computeRebalance config b m policy) := by
  simp only [computeRebalance, cyclicalDeficit_eq, lifetimeDeficit_eq, capRoom_eq,
    Option.bind_eq_bind, Option.bind_some, Option.pure_def, ViciMinter.computeRebalance]
  generalize ViciMinter.cyclicalDeficit config b = cyclical
  generalize ViciMinter.lifetimeDeficit config m = lifetime
  generalize (if lifetime > cyclical then lifetime else cyclical) = raw
  split
  · rfl
  split
  · rfl
  split
  · rfl
  split
  · rfl
  cases ViciMinter.capRoom config.maxBalance b (capAt config.maxTopupPerRebalance raw) with
  | none => rfl
  | some a₁ =>
    simp only
    cases ViciMinter.capRoom config.lifetimeReceivedMaximum m a₁ with
    | none => rfl
    | some a₂ =>
      simp only
      split <;> rfl

theorem tightenBudget_eq (events : List MintEvent) (now : Nat) (budget : Option Nat)
    (w : Nat × Option Nat) :
    tightenBudget events now budget w = some (ViciMinter.tightenBudget events now budget w) := by
  obtain ⟨w, _ | limit⟩ := w
  · rfl
  · unfold tightenBudget ViciMinter.tightenBudget
    simp only [natSub_eq]
    split
    · rw [checkedSub_eq (by omega)]
      rfl
    · rfl

theorem availableMintBudget_eq (rateLimits : Option RateLimits) (events : List MintEvent)
    (now : Nat) : availableMintBudget rateLimits events now =
      some (ViciMinter.availableMintBudget rateLimits events now) := by
  cases rateLimits with
  | none => rfl
  | some limits =>
    have hfold : ∀ (l : List (Nat × Option Nat)) (budget : Option Nat),
        l.foldlM (tightenBudget events now) budget =
          some (l.foldl (ViciMinter.tightenBudget events now) budget) := by
      intro l
      induction l with
      | nil => exact fun _ => rfl
      | cons w l ih =>
        intro budget
        rw [List.foldlM_cons, tightenBudget_eq, List.foldl_cons]
        exact ih _
    rw [availableMintBudget, ViciMinter.availableMintBudget, hfold]

end Trap

/-- A rebalance issues a transfer of the least of the deficit and all caps, if it
is allowed and that is positive, and no subtraction on the way traps. -/
theorem rebalance_amount (s : State) (id : ReserveId) (record : ReserveRecord) (b now : Nat) :
    (Trap.computeRebalance record.config b record.lifetimeMinted s.globalPolicy =
        some (computeRebalance record.config b record.lifetimeMinted s.globalPolicy) ∧
      Trap.availableMintBudget record.config.rateLimits record.mintEvents now =
        some (availableMintBudget record.config.rateLimits record.mintEvents now)) ∧
    (¬ AutoAllowed record.config s.globalPolicy →
      issuedAmount s id (s.snapshot record) (.answered b) now = none) ∧
    (AutoAllowed record.config s.globalPolicy →
      (∀ a, issuedAmount s id (s.snapshot record) (.answered b) now = some a ↔
        0 < a ∧ a = mintAmount record.config b record.lifetimeMinted s.globalPolicy
          record.mintEvents now) ∧
      ∃ c, computeRebalance record.config b record.lifetimeMinted s.globalPolicy = .ok c ∧
        (c.action = .alreadyFunded ↔ deficit record.config b record.lifetimeMinted = 0)) ∧
    ∀ c, computeRebalance record.config b record.lifetimeMinted s.globalPolicy = .ok c →
      (c.action ≠ .minted → c.mintAmount = 0) ∧ (c.action = .minted → 0 < c.mintAmount) := by
  have hissued : issuedAmount s id (s.snapshot record) (.answered b) now = _ :=
    issuedAmount_eq s id (s.snapshot record) b now
  change _ = ite (AutoAllowed record.config s.globalPolicy ∧ 0 < mintAmount record.config b
    record.lifetimeMinted s.globalPolicy record.mintEvents now) _ _ at hissued
  refine ⟨⟨Trap.computeRebalance_eq _ _ _ _, Trap.availableMintBudget_eq _ _ _⟩,
    fun hno => ?_, fun hauto => ⟨fun a => ?_, ?_⟩, fun c hc => ⟨fun hne => ?_, fun hm => ?_⟩⟩
  · rw [hissued, if_neg fun h => hno h.1]
  · simp only [hissued, hauto, true_and, Option.ite_none_right_eq_some, Option.some.injEq]
    constructor
    · rintro ⟨hpos, rfl⟩
      exact ⟨hpos, rfl⟩
    · rintro ⟨hpos, rfl⟩
      exact ⟨hpos, rfl⟩
  · obtain ⟨c, hc, -, hfunded, -⟩ := computeRebalance_eq hauto b record.lifetimeMinted
    exact ⟨c, hc, hfunded⟩
  · exact computeRebalance_unminted hc hne
  · exact (computeRebalance_minted hc hm).1

end ViciMinter
