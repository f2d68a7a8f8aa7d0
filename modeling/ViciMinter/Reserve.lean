import ViciMinter.Model
import ViciMinter.Lib.Window

/-!
# Reserve validation, rate limits and the rebalance computation

The pure functions of `services/reserve.rs`. candid `Nat` subtraction traps
below zero, so `natSub` takes the proof that it does not. `Within cap x` says
that an optional cap admits `x`; what a `minted` answer of `computeRebalance`
guarantees is `MintedOk`, and what both rate-limit functions enforce is
`WithinLimits`.
-/

namespace ViciMinter

/-- candid `Nat` subtraction. -/
def natSub (a b : Nat) (_ : b ≤ a) : Nat := a - b

@[simp] theorem natSub_eq {a b : Nat} (h : b ≤ a) : natSub a b h = a - b := by
  unfold natSub; rfl

/-! ## Time constants -/

def nanosPerHour : Nat := 3600000000000
def nanosPerDay : Nat := 86400000000000
def nanosPerWeek : Nat := 604800000000000
def nanosPerMonth : Nat := 2592000000000000
def nanosPerYear : Nat := 31536000000000000

def hoursPerHour : Nat := 1
def hoursPerDay : Nat := 24
def hoursPerWeek : Nat := 168
def hoursPerMonth : Nat := 720
def hoursPerYear : Nat := 8760

/-! ## Validation -/

/-- The configured windows with their lengths in hours, shortest first. -/
def RateLimits.hourWindows (limits : RateLimits) : List (Nat × Nat) :=
  [(hoursPerHour, limits.maxAmountPerHour), (hoursPerDay, limits.maxAmountPerDay),
    (hoursPerWeek, limits.maxAmountPerWeek), (hoursPerMonth, limits.maxAmountPerMonth),
    (hoursPerYear, limits.maxAmountPerYear)].filterMap fun (d, l) => l.map fun l => (d, l)

/-- `limit_B / duration_B < limit_A / duration_A`, multiplied out. -/
def tighter (small large : Nat × Nat) : Bool := large.2 * small.1 < small.2 * large.1

def validateRateLimits (limits : RateLimits) : Except MinterError Unit :=
  let windows := limits.hourWindows
  if (windows.zip windows.tail).all fun (small, large) => tighter small large then .ok ()
  else .error (.invalidConfig
    "Rate limits must be progressively more restrictive for larger time windows")

def validateBalanceInvariants (minBalance targetBalance : Nat) (maxBalance : Option Nat)
    (lifetimeMin lifetimeMax : Option Nat) (label : String) : Except MinterError Unit := do
  if label.isEmpty then
    throw (.invalidConfig "Label cannot be empty")
  if minBalance > targetBalance then
    throw (.invalidConfig "min_balance must be <= target_balance")
  if let some max := maxBalance then
    if targetBalance > max then
      throw (.invalidConfig "target_balance must be <= max_balance")
  if let (some lo, some hi) := (lifetimeMin, lifetimeMax) then
    if lo > hi then
      throw (.invalidConfig "lifetime_received_maximum must be >= lifetime_received_minimum")
  return ()

def validateAddReserveArg (arg : AddReserveArg) : Except MinterError Unit := do
  validateBalanceInvariants arg.minBalance arg.targetBalance arg.maxBalance
    arg.lifetimeReceivedMinimum arg.lifetimeReceivedMaximum arg.label
  if let some limits := arg.rateLimits then
    validateRateLimits limits
  return ()

def validateReserveConfig (config : ReserveConfig) : Except MinterError Unit := do
  validateBalanceInvariants config.minBalance config.targetBalance config.maxBalance
    config.lifetimeReceivedMinimum config.lifetimeReceivedMaximum config.label
  if let some limits := config.rateLimits then
    validateRateLimits limits
  return ()

/-! ## Rate limits at run time -/

def usageInWindow (events : List MintEvent) (nowNs windowNs : Nat) : Nat :=
  let cutoff := nowNs - windowNs
  (events.filter fun e => e.timestampNs ≥ cutoff).foldl (fun acc e => acc + e.amount) 0

/-- The five windows with their lengths in nanoseconds. -/
def RateLimits.windows (limits : RateLimits) : List (Nat × Option Nat) :=
  [(nanosPerHour, limits.maxAmountPerHour), (nanosPerDay, limits.maxAmountPerDay),
    (nanosPerWeek, limits.maxAmountPerWeek), (nanosPerMonth, limits.maxAmountPerMonth),
    (nanosPerYear, limits.maxAmountPerYear)]

theorem windows_le_year {limits : RateLimits} {W : Nat} {L : Option Nat}
    (h : (W, L) ∈ limits.windows) : W ≤ nanosPerYear := by
  unfold RateLimits.windows at h
  simp only [List.mem_cons, Prod.mk.injEq, List.not_mem_nil, or_false] at h
  rcases h with ⟨rfl, _⟩ | ⟨rfl, _⟩ | ⟨rfl, _⟩ | ⟨rfl, _⟩ | ⟨rfl, _⟩ <;> decide

/-- One round of the loop of `availableMintBudget`. -/
def tightenBudget (events : List MintEvent) (nowNs : Nat) (budget : Option Nat) :
    Nat × Option Nat → Option Nat
  | (_, none) => budget
  | (windowNs, some limit) =>
    let used := usageInWindow events nowNs windowNs
    let remaining := if h : limit > used then natSub limit used h.le else 0
    some (match budget with
      | some b => if remaining < b then remaining else b
      | none => remaining)

def availableMintBudget (rateLimits : Option RateLimits) (events : List MintEvent)
    (nowNs : Nat) : Option Nat :=
  match rateLimits with
  | none => none
  | some limits => limits.windows.foldl (tightenBudget events nowNs) none

/-- The windows as `checkRateLimits` lists them, with their labels. -/
def RateLimits.windowChecks (limits : RateLimits) : List (Option Nat × Nat × String) :=
  [(limits.maxAmountPerHour, nanosPerHour, "hour"), (limits.maxAmountPerDay, nanosPerDay, "day"),
    (limits.maxAmountPerWeek, nanosPerWeek, "week"),
    (limits.maxAmountPerMonth, nanosPerMonth, "month"),
    (limits.maxAmountPerYear, nanosPerYear, "year")]

/-- The loop of `checkRateLimits`: the first window that would be exceeded. -/
def checkWindows (events : List MintEvent) (amount nowNs : Nat) :
    List (Option Nat × Nat × String) → Except MinterError Unit
  | [] => .ok ()
  | (none, _, _) :: rest => checkWindows events amount nowNs rest
  | (some limit, windowNs, label) :: rest =>
    let used := usageInWindow events nowNs windowNs
    let projected := used + amount
    if projected > limit then .error (.rateLimitExceeded label limit used amount)
    else checkWindows events amount nowNs rest

def checkRateLimits (limits : RateLimits) (events : List MintEvent) (amount nowNs : Nat) :
    Except MinterError Unit :=
  checkWindows events amount nowNs limits.windowChecks

def pruneOldEvents (events : List MintEvent) (nowNs : Nat) : List MintEvent :=
  let cutoff := nowNs - nanosPerYear
  events.filter fun e => e.timestampNs ≥ cutoff

/-! ## The rebalance computation -/

def cyclicalDeficit (config : ReserveConfig) (currentBalance : Nat) : Nat :=
  if h : currentBalance ≥ config.targetBalance then 0
  else natSub config.targetBalance currentBalance (Nat.le_of_not_ge h)

def lifetimeDeficit (config : ReserveConfig) (lifetimeMinted : Nat) : Nat :=
  match config.lifetimeReceivedMinimum with
  | some min => if h : min > lifetimeMinted then natSub min lifetimeMinted h.le else 0
  | none => 0

/-- A cap on one operation: `max_topup_per_rebalance` and `max_mint_per_operation`. -/
def capAt (cap : Option Nat) (amount : Nat) : Nat :=
  match cap with
  | some max => if amount > max then max else amount
  | none => amount

/-- A cap on a running total: `max_balance` and `lifetime_received_maximum`. No
answer when the total has reached it. -/
def capRoom (cap : Option Nat) (used amount : Nat) : Option Nat :=
  match cap with
  | some max =>
    if h : max > used then
      let room := natSub max used h.le
      some (if amount > room then room else amount)
    else none
  | none => some amount

/-- An answer that mints nothing. -/
def notMinted (action : RebalanceAction) (cyclical lifetime : Nat) : ComputedRebalance where
  action := action
  mintAmount := 0
  cyclicalDeficit := cyclical
  lifetimeDeficit := lifetime

def computeRebalance (config : ReserveConfig) (currentBalance lifetimeMinted : Nat)
    (policy : GlobalPolicy) : Except MinterError ComputedRebalance :=
  if !policy.mintingEnabled then .error .mintingDisabled
  else if !config.enabled then .ok (notMinted (.skipped "Reserve is disabled") 0 0)
  else if !config.allowAutoRebalance then
    .ok (notMinted (.skipped "Auto-rebalance not allowed for this reserve") 0 0)
  else
    let cyclical := cyclicalDeficit config currentBalance
    let lifetime := lifetimeDeficit config lifetimeMinted
    let amount := if lifetime > cyclical then lifetime else cyclical
    if amount = 0 then .ok (notMinted .alreadyFunded cyclical lifetime)
    else
      let amount := capAt config.maxTopupPerRebalance amount
      match capRoom config.maxBalance currentBalance amount with
      | none =>
        .ok (notMinted (.skipped "Balance already at or above max_balance") cyclical lifetime)
      | some amount =>
        match capRoom config.lifetimeReceivedMaximum lifetimeMinted amount with
        | none => .ok (notMinted (.skipped "Lifetime maximum already reached") cyclical lifetime)
        | some amount =>
          let amount := capAt policy.maxMintPerOperation amount
          if amount = 0 then
            .ok (notMinted (.skipped "Amount capped to zero by policy or config limits")
              cyclical lifetime)
          else
            .ok { action := .minted, mintAmount := amount, cyclicalDeficit := cyclical,
                  lifetimeDeficit := lifetime }

/-! ## Optional caps -/

/-- The cap, if any, admits `x`. -/
def Within (cap : Option Nat) (x : Nat) : Prop :=
  match cap with
  | none => True
  | some c => x ≤ c

instance (cap : Option Nat) (x : Nat) : Decidable (Within cap x) :=
  match cap with
  | none => .isTrue trivial
  | some c => Nat.decLe x c

@[simp] theorem within_none (x : Nat) : Within none x := trivial

@[simp] theorem within_some {c x : Nat} : Within (some c) x ↔ x ≤ c := Iff.rfl

theorem Within.mono {cap : Option Nat} {x y : Nat} (h : Within cap y) (hxy : x ≤ y) :
    Within cap x := by
  cases cap with
  | none => trivial
  | some c => exact Nat.le_trans hxy h

theorem capAt_le (cap : Option Nat) (a : Nat) : capAt cap a ≤ a := by
  unfold capAt
  split
  · split <;> omega
  · omega

theorem within_capAt (cap : Option Nat) (a : Nat) : Within cap (capAt cap a) := by
  cases cap with
  | none => trivial
  | some c =>
    unfold capAt
    simp only [within_some]
    split <;> omega

theorem capRoom_some {cap : Option Nat} {used a r : Nat} (h : capRoom cap used a = some r) :
    r ≤ a ∧ Within cap (used + r) := by
  cases cap with
  | none =>
    unfold capRoom at h
    simp only [Option.some.injEq] at h
    exact ⟨by omega, trivial⟩
  | some c =>
    unfold capRoom at h
    simp only [natSub_eq] at h
    split at h
    · rename_i hroom
      simp only [Option.some.injEq] at h
      rw [within_some]
      split at h <;> omega
    · cases h

/-! ## What a `minted` answer guarantees -/

/-- Minting `a` respects the policy, the flags and every cap but the rate limits. -/
structure MintedOk (config : ReserveConfig) (currentBalance lifetimeMinted : Nat)
    (policy : GlobalPolicy) (a : Nat) : Prop where
  mintingEnabled : policy.mintingEnabled = true
  enabled : config.enabled = true
  allowAutoRebalance : config.allowAutoRebalance = true
  topup : Within config.maxTopupPerRebalance a
  balance : Within config.maxBalance (currentBalance + a)
  lifetime : Within config.lifetimeReceivedMaximum (lifetimeMinted + a)
  perOperation : Within policy.maxMintPerOperation a

theorem MintedOk.mono {config : ReserveConfig} {b m : Nat} {policy : GlobalPolicy} {a a' : Nat}
    (h : MintedOk config b m policy a) (hle : a' ≤ a) : MintedOk config b m policy a' where
  mintingEnabled := h.mintingEnabled
  enabled := h.enabled
  allowAutoRebalance := h.allowAutoRebalance
  topup := h.topup.mono hle
  balance := h.balance.mono (by omega)
  lifetime := h.lifetime.mono (by omega)
  perOperation := h.perOperation.mono hle

theorem computeRebalance_minted {config : ReserveConfig} {b m : Nat} {policy : GlobalPolicy}
    {c : ComputedRebalance} (h : computeRebalance config b m policy = .ok c)
    (hm : c.action = .minted) : 0 < c.mintAmount ∧ MintedOk config b m policy c.mintAmount := by
  simp only [computeRebalance, notMinted] at h
  -- every exit but the last answers something other than `minted`
  split at h
  · cases h
  rename_i hpol
  split at h
  · cases h; cases hm
  rename_i hen
  split at h
  · cases h; cases hm
  rename_i hauto
  generalize (if lifetimeDeficit config m > cyclicalDeficit config b then
    lifetimeDeficit config m else cyclicalDeficit config b) = raw at h
  split at h
  · cases h; cases hm
  split at h
  · cases h; cases hm
  rename_i a₁ h₁
  split at h
  · cases h; cases hm
  rename_i a₂ h₂
  split at h
  · cases h; cases hm
  rename_i hpos
  cases h
  obtain ⟨hle₁, hbal⟩ := capRoom_some h₁
  obtain ⟨hle₂, hlife⟩ := capRoom_some h₂
  have hle₃ := capAt_le policy.maxMintPerOperation a₂
  refine ⟨Nat.pos_of_ne_zero hpos, by simpa using hpol, by simpa using hen, by simpa using hauto,
    (within_capAt _ raw).mono ?_, hbal.mono ?_, hlife.mono ?_, within_capAt _ a₂⟩
  all_goals dsimp only; omega

/-! ## What the rate-limit functions enforce -/

theorem usageInWindow_eq (events : List MintEvent) (nowNs windowNs : Nat) :
    usageInWindow events nowNs windowNs =
      Window.usage MintEvent.timestampNs MintEvent.amount nowNs windowNs events := by
  have h : ∀ (l : List MintEvent) (n : Nat),
      l.foldl (fun acc e => acc + e.amount) n = n + (l.map MintEvent.amount).sum := by
    intro l
    induction l with
    | nil => simp
    | cons e l ih => intro n; rw [List.foldl_cons, ih]; simp [Nat.add_assoc]
  simp [usageInWindow, Window.usage, Window.total, Window.since, h]

theorem pruneOldEvents_eq (events : List MintEvent) (nowNs : Nat) :
    pruneOldEvents events nowNs =
      Window.since MintEvent.timestampNs (nowNs - nanosPerYear) events := rfl

/-- Every configured window has room for `a` more. -/
def WithinLimits (limits : RateLimits) (events : List MintEvent) (nowNs a : Nat) : Prop :=
  ∀ w ∈ limits.windows, Within w.2 (usageInWindow events nowNs w.1 + a)

theorem checkWindows_ok {events : List MintEvent} {a nowNs : Nat} :
    ∀ {l : List (Option Nat × Nat × String)}, checkWindows events a nowNs l = .ok () ↔
      ∀ c ∈ l, Within c.1 (usageInWindow events nowNs c.2.1 + a)
  | [] => by simp [checkWindows]
  | (none, _, _) :: l => by simp [checkWindows, checkWindows_ok (l := l)]
  | (some limit, w, label) :: l => by
    unfold checkWindows
    simp only [List.forall_mem_cons, within_some]
    split
    · next h => simp only [reduceCtorEq, false_iff]; omega
    · next h => rw [checkWindows_ok (l := l)]; exact ⟨fun h' => ⟨by omega, h'⟩, fun h' => h'.2⟩

theorem checkRateLimits_ok {limits : RateLimits} {events : List MintEvent} {a nowNs : Nat} :
    checkRateLimits limits events a nowNs = .ok () ↔ WithinLimits limits events nowNs a := by
  simp [checkRateLimits, checkWindows_ok, WithinLimits, RateLimits.windowChecks,
    RateLimits.windows]

end ViciMinter
