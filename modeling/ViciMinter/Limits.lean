import Mathlib.Algebra.Order.Field.Rat
import ViciMinter.Registry
import ViciMinter.Amount
import ViciMinter.Lib.Adjacent

/-!
# Rate limits: validation, the two checks, pruning

`validate_rate_limits` compares neighbours by cross multiplication, and so
compares the rates of all pairs of windows. The budget of a rebalance and the
check of a manual top-up admit the same amounts. Neither of them sees that
`mint_events` was pruned.
-/

namespace ViciMinter

/-! ## Validation -/

/-- Tokens per hour. -/
def rate (w : Nat × Nat) : ℚ := w.2 / w.1

/-- The window `b` allows a lower rate than `a`. -/
def SlowerRate (a b : Nat × Nat) : Prop := rate b < rate a

instance : Trans SlowerRate SlowerRate SlowerRate where
  trans hab hbc := lt_trans hbc hab

theorem tighter_iff {a b : Nat × Nat} (ha : 0 < a.1) (hb : 0 < b.1) :
    b.2 * a.1 < a.2 * b.1 ↔ SlowerRate a b := by
  rw [SlowerRate, rate, rate, div_lt_div_iff₀ (Nat.cast_pos.mpr hb) (Nat.cast_pos.mpr ha)]
  exact_mod_cast Iff.rfl

theorem RateLimits.hourWindows_sorted (limits : RateLimits) :
    limits.hourWindows.Pairwise fun a b => a.1 < b.1 := by
  unfold hourWindows
  rw [List.pairwise_filterMap]
  simp [hoursPerHour, hoursPerDay, hoursPerWeek, hoursPerMonth, hoursPerYear]

theorem RateLimits.mem_hourWindows {limits : RateLimits} {d l : Nat} :
    (d, l) ∈ limits.hourWindows ↔
      limits.maxAmountPerHour = some l ∧ hoursPerHour = d ∨
      limits.maxAmountPerDay = some l ∧ hoursPerDay = d ∨
      limits.maxAmountPerWeek = some l ∧ hoursPerWeek = d ∨
      limits.maxAmountPerMonth = some l ∧ hoursPerMonth = d ∨
      limits.maxAmountPerYear = some l ∧ hoursPerYear = d := by
  unfold hourWindows
  simp only [List.mem_filterMap, List.mem_cons, List.not_mem_nil, or_false, exists_eq_or_imp,
    exists_eq_left, Option.map_eq_some_iff, Prod.mk.injEq, exists_eq_right_right]

theorem RateLimits.hourWindows_pos {limits : RateLimits} {w : Nat × Nat}
    (hw : w ∈ limits.hourWindows) : 0 < w.1 := by
  obtain ⟨d, l⟩ := w
  show 0 < d
  rcases mem_hourWindows.mp hw with ⟨-, rfl⟩ | ⟨-, rfl⟩ | ⟨-, rfl⟩ | ⟨-, rfl⟩ | ⟨-, rfl⟩ <;> decide

/-- The comparison of neighbours decides the comparison of all windows. -/
theorem validateRateLimits_slower {limits : RateLimits} : validateRateLimits limits = .ok () ↔
    ∀ a ∈ limits.hourWindows, ∀ b ∈ limits.hourWindows, a.1 < b.1 → SlowerRate a b := by
  rw [validateRateLimits_ok, ← Adjacent.forall_adjacent_iff limits.hourWindows_sorted]
  refine forall₂_congr fun p hp => ?_
  obtain ⟨ha, hb⟩ := List.of_mem_zip hp
  exact tighter_iff (RateLimits.hourWindows_pos ha)
    (RateLimits.hourWindows_pos (List.mem_of_mem_tail hb))

/-- Windows that are taken from an accepted configuration are accepted. -/
theorem validateRateLimits_anti {limits limits' : RateLimits}
    (hsub : limits'.hourWindows ⊆ limits.hourWindows) (h : validateRateLimits limits = .ok ()) :
    validateRateLimits limits' = .ok () := by
  rw [validateRateLimits_slower] at h ⊢
  intro a ha b hb hab
  exact h a (hsub ha) b (hsub hb) hab

inductive RateWindow where
  | hour
  | day
  | week
  | month
  | year
  deriving DecidableEq, Repr

/-- The limits with one window taken away. -/
def RateLimits.without (limits : RateLimits) : RateWindow → RateLimits
  | .hour => { limits with maxAmountPerHour := none }
  | .day => { limits with maxAmountPerDay := none }
  | .week => { limits with maxAmountPerWeek := none }
  | .month => { limits with maxAmountPerMonth := none }
  | .year => { limits with maxAmountPerYear := none }

theorem RateLimits.without_subset (limits : RateLimits) (window : RateWindow) :
    (limits.without window).hourWindows ⊆ limits.hourWindows := by
  rintro ⟨d, l⟩ hw
  rw [mem_hourWindows] at hw ⊢
  cases window <;> simp only [without, reduceCtorEq, false_and, false_or, or_false] at hw <;>
    rcases hw with h | h | h | h <;> simp only [h, and_self, true_or, or_true]

/-- `validate_rate_limits` accepts exactly the configurations whose rates fall
strictly with the length of the window, neighbours or not, and taking a window
away keeps them accepted. -/
theorem validateRateLimits_rates (limits : RateLimits) :
    (validateRateLimits limits = .ok () ↔
      ∀ a ∈ limits.hourWindows, ∀ b ∈ limits.hourWindows, a.1 < b.1 →
        (b.2 : ℚ) / b.1 < (a.2 : ℚ) / a.1) ∧
    ∀ window, validateRateLimits limits = .ok () →
      validateRateLimits (limits.without window) = .ok () :=
  ⟨validateRateLimits_slower,
    fun window h => validateRateLimits_anti (limits.without_subset window) h⟩

/-! ## The budget and the check -/

/-- An amount that was clamped to the budget passes the check. -/
theorem clampToBudget_admitted {limits : RateLimits} {events : List MintEvent} {now x a : Nat}
    (hx : 0 < x) (h : clampToBudget (availableMintBudget (some limits) events now) x = some a) :
    checkRateLimits limits events a now = .ok () := by
  obtain ⟨ha, -, hw⟩ := clampToBudget_some hx h
  exact checkRateLimits_ok.mpr ((within_budget_iff ha).mp hw)

/-- What a rebalance issues passes as a manual top-up at the same time. -/
theorem issued_topupOk {s : State} {id : ReserveId} {record : ReserveRecord} {reply : Reply Nat}
    {now a : Nat} (h : issuedAmount s id (s.snapshot record) reply now = some a)
    (hmanual : record.config.allowManualTopup = true) (key : Option String) :
    validateManualTopupInputs ⟨id, a, key⟩ s.globalPolicy record.config record.lifetimeMinted
      record.mintEvents now = .ok () := by
  unfold issuedAmount at h
  rcases rebalanceIssue_cases s id (s.snapshot record) reply now with ⟨r, -, -, he⟩ | ⟨k, hk, he⟩
  · rw [he] at h
    cases h
  · rw [he] at h
    obtain rfl : k.mintAmount = a := Option.some.inj h
    exact validateManualTopupInputs_ok.mpr ⟨hk.minted.mintingEnabled, hk.minted.enabled, hmanual,
      hk.minted.perOperation, hk.minted.lifetime, hk.rate⟩

/-- The budget is the largest amount that the check admits: both admit the same
positive amounts. What a rebalance clamps to the budget passes the check, and
what it issues passes as a manual top-up where these are allowed. -/
theorem budget_agrees (limits : RateLimits) (events : List MintEvent) (now : Nat) :
    (∀ a, 0 < a → (checkRateLimits limits events a now = .ok () ↔
      availableMintBudget (some limits) events now = none ∨
      ∃ budget, availableMintBudget (some limits) events now = some budget ∧ a ≤ budget)) ∧
    (∀ x a, 0 < x →
      clampToBudget (availableMintBudget (some limits) events now) x = some a →
      checkRateLimits limits events a now = .ok ()) ∧
    ∀ (s : State) id (record : ReserveRecord) reply a key,
      issuedAmount s id (s.snapshot record) reply now = some a →
      record.config.allowManualTopup = true →
      validateManualTopupInputs ⟨id, a, key⟩ s.globalPolicy record.config record.lifetimeMinted
        record.mintEvents now = .ok () := by
  refine ⟨fun a ha => ?_, fun x a hx h => clampToBudget_admitted hx h,
    fun s id record reply a key h hmanual => issued_topupOk h hmanual key⟩
  rw [checkRateLimits_ok, ← within_budget_iff ha]
  cases availableMintBudget (some limits) events now with
  | none => simp
  | some budget => simp

/-- Forty a day. -/
def dailyLimits : RateLimits where
  maxAmountPerHour := none
  maxAmountPerDay := some 40
  maxAmountPerWeek := none
  maxAmountPerMonth := none
  maxAmountPerYear := none

theorem budget_agrees_sample : checkRateLimits dailyLimits [⟨5, 15⟩] 25 6 = .ok () ∧
    checkRateLimits dailyLimits [⟨5, 15⟩] 26 6 ≠ .ok () := by
  obtain ⟨h, -, -⟩ := budget_agrees dailyLimits [⟨5, 15⟩] 6
  have hbudget : availableMintBudget (some dailyLimits) [⟨5, 15⟩] 6 = some 25 := by decide
  constructor
  · exact (h 25 (by decide)).mpr (.inr ⟨25, hbudget, Nat.le_refl _⟩)
  · rw [Ne, h 26 (by decide), hbudget]
    simp

/-! ## Pruning -/

/-- The record after a sequence of mints. -/
def ReserveRecord.mintAll (record : ReserveRecord) (commits : List MintEvent) : ReserveRecord :=
  commits.foldl (fun record e => record.mint e.amount e.timestampNs) record

theorem ReserveRecord.mintAll_concat (record : ReserveRecord) (commits : List MintEvent)
    (e : MintEvent) :
    record.mintAll (commits ++ [e]) = (record.mintAll commits).mint e.amount e.timestampNs := by
  simp only [mintAll, List.foldl_append, List.foldl_cons, List.foldl_nil]

/-- Mints come in order of time, after the recorded ones. -/
def InOrder (l : List MintEvent) : Prop :=
  l.Pairwise fun e e' => e.timestampNs ≤ e'.timestampNs

instance (l : List MintEvent) : Decidable (InOrder l) :=
  inferInstanceAs (Decidable (l.Pairwise _))

/-- What is kept goes back a year from the last mint. -/
theorem ReserveRecord.mintAll_events (record : ReserveRecord) (commits : List MintEvent)
    (e : MintEvent) (h : InOrder (record.mintEvents ++ (commits ++ [e]))) :
    (record.mintAll (commits ++ [e])).mintEvents =
      Window.since MintEvent.timestampNs (e.timestampNs - nanosPerYear)
        (record.mintEvents ++ (commits ++ [e])) := by
  induction commits using List.reverseRecOn generalizing e with
  | nil => rfl
  | append_singleton commits e' ih =>
    have hinit : InOrder (record.mintEvents ++ (commits ++ [e'])) := by
      rw [InOrder, ← List.append_assoc, List.pairwise_append] at h
      exact h.1
    have hle : e'.timestampNs ≤ e.timestampNs := by
      rw [InOrder, ← List.append_assoc, List.pairwise_append] at h
      exact h.2.2 e' (by simp) e (by simp)
    have hcut : e'.timestampNs - nanosPerYear ≤ e.timestampNs - nanosPerYear :=
      Nat.sub_le_sub_right hle _
    rw [mintAll_concat]
    show pruneOldEvents ((record.mintAll (commits ++ [e'])).mintEvents ++ [e]) e.timestampNs = _
    rw [ih e' hinit, World.pruned_eq hcut, List.append_assoc]

section
variable {events events' : List MintEvent} {now : Nat}

theorem checkWindows_congr (a : Nat) {l : List (Option Nat × Nat × String)}
    (h : ∀ c ∈ l, usageInWindow events now c.2.1 = usageInWindow events' now c.2.1) :
    checkWindows events a now l = checkWindows events' a now l := by
  induction l with
  | nil => rfl
  | cons c l ih =>
    obtain ⟨hc, hl⟩ := List.forall_mem_cons.mp h
    obtain ⟨_ | limit, w, label⟩ := c
    · exact ih hl
    · unfold checkWindows
      rw [hc, ih hl]

theorem RateLimits.windowChecks_map (limits : RateLimits) :
    limits.windowChecks.map (fun c => (c.2.1, c.1)) = limits.windows := rfl

/-- The rate limits see the events through the usage of windows of a year at most. -/
theorem checkRateLimits_congr (limits : RateLimits) (a : Nat)
    (h : ∀ w ≤ nanosPerYear, usageInWindow events now w = usageInWindow events' now w) :
    checkRateLimits limits events a now = checkRateLimits limits events' a now := by
  refine checkWindows_congr a fun c hc => h _ ?_
  have hmem : (c.2.1, c.1) ∈ limits.windows := by
    rw [← limits.windowChecks_map]
    exact List.mem_map_of_mem hc
  exact windows_le_year hmem

theorem availableMintBudget_congr (rateLimits : Option RateLimits)
    (h : ∀ w ≤ nanosPerYear, usageInWindow events now w = usageInWindow events' now w) :
    availableMintBudget rateLimits events now = availableMintBudget rateLimits events' now := by
  rw [availableMintBudget_eq, availableMintBudget_eq]
  cases rateLimits with
  | none => rfl
  | some limits =>
    congr 1
    exact List.flatMap_congr fun w hw => by rw [h _ (windows_le_year hw)]

end

/-- Pruning does not change what the rate limits answer, and keeps the mints of
the last year. -/
theorem pruning_invisible (record : ReserveRecord) (commits : List MintEvent)
    (hord : InOrder (record.mintEvents ++ commits)) :
    (∀ e, commits.getLast? = some e → (record.mintAll commits).mintEvents =
      (record.mintEvents ++ commits).filter fun m =>
        e.timestampNs - nanosPerYear ≤ m.timestampNs) ∧
    ∀ now, (∀ e, commits.getLast? = some e → e.timestampNs ≤ now) → ∀ limits a,
      checkRateLimits limits (record.mintAll commits).mintEvents a now =
        checkRateLimits limits (record.mintEvents ++ commits) a now ∧
      availableMintBudget (some limits) (record.mintAll commits).mintEvents now =
        availableMintBudget (some limits) (record.mintEvents ++ commits) now := by
  rcases commits.eq_nil_or_concat' with rfl | ⟨commits, e, rfl⟩
  · simp [ReserveRecord.mintAll]
  have hkept := record.mintAll_events commits e hord
  simp only [List.getLast?_concat, Option.some.injEq, forall_eq']
  refine ⟨hkept, fun now hnow limits a => ?_⟩
  have husage : ∀ w ≤ nanosPerYear,
      usageInWindow (record.mintAll (commits ++ [e])).mintEvents now w =
        usageInWindow (record.mintEvents ++ (commits ++ [e])) now w := by
    intro w hw
    rw [hkept, usageInWindow_eq, usageInWindow_eq, Window.usage_since (by omega)]
  exact ⟨checkRateLimits_congr limits a husage, availableMintBudget_congr _ husage⟩

/-- Mints at zero, a year later, and right after that. -/
def yearOfMints : List MintEvent := [⟨0, 5⟩, ⟨nanosPerYear, 7⟩, ⟨nanosPerYear + 1, 1⟩]

def freshRecord : ReserveRecord where
  config := Sample.reserve.config
  lifetimeMinted := 0
  mintEvents := []

theorem pruning_invisible_sample :
    (freshRecord.mintAll yearOfMints).mintEvents = yearOfMints.tail ∧
    ∀ limits a, checkRateLimits limits yearOfMints.tail a (nanosPerYear + 1) =
      checkRateLimits limits yearOfMints a (nanosPerYear + 1) := by
  obtain ⟨hkept, hsame⟩ := pruning_invisible freshRecord yearOfMints (by decide)
  have hlast : (freshRecord.mintAll yearOfMints).mintEvents = yearOfMints.tail :=
    (hkept ⟨nanosPerYear + 1, 1⟩ rfl).trans (by decide)
  refine ⟨hlast, fun limits a => ?_⟩
  rw [← hlast]
  refine (hsame (nanosPerYear + 1) ?_ limits a).1
  rintro e ⟨rfl⟩
  exact Nat.le_refl _

end ViciMinter
