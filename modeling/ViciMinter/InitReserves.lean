import Mathlib.Algebra.Order.Ring.Int
import ViciMinter.World
import ViciMinter.Lib.Numeral

/-!
# The script that registers the reserves

`scripts/init.reserves.sh`: it computes the caps and budgets of six reserves in
base units and calls `add_reserve` for each. Its numbers are bash integers, signed
64-bit words that wrap, so they are `Int64`. The check of the total cap compares
two of them that wrap alike (`totalCap_eq`) and never fails.

`registers_exactly_iff` says for which `DECIMALS` the numbers are the documented
ones.
-/

namespace ViciMinter

namespace InitReserves

/-! ## Decimals -/

/-- The pattern that refuses a text with anything but digits, or without any. -/
def acceptsDecimals (decimals : String) : Bool :=
  !decimals.isEmpty && decimals.toList.all Char.isDigit

/-- The number a text of digits is written for. -/
def decimalsValue (decimals : String) : Nat := Numeral.value 10 decimals.toList

/-- A text of digits read in a base, unless a digit is too great for it. -/
def constantIn (base : Nat) (text : List Char) : Option Int64 :=
  if text.all fun c => Numeral.digit c < base then some (.ofNat (Numeral.value base text))
  else none

/-- A text of digits as a bash integer: a leading zero means base 8. -/
def constant (text : List Char) : Option Int64 :=
  if text.head? = some '0' then constantIn 8 text else constantIn 10 text

/-- The loop of `pow10`, that runs as often as `i` counts up to `d`. -/
def pow10Loop : Nat → Int64 → Int64
  | 0, r => r
  | n + 1, r => pow10Loop n (r * 10)

def pow10 (d : String) : Int64 :=
  match constant d.toList with
  -- the loop ends with an error, and the function goes on after it
  | none => 1
  | some d => pow10Loop d.toInt.toNat 1

/-! ## Caps and budgets -/

inductive Bucket where
  | forecast
  | onboarding
  | streaks
  | leaderboard
  | campaign
  | buffer
  deriving DecidableEq, Repr

/-- In the order of the calls. -/
def Bucket.all : List Bucket := [forecast, onboarding, streaks, leaderboard, campaign, buffer]

/-- The variables `CAP_*`, with `MULT`. -/
def cap (mult : Int64) : Bucket → Int64
  | .forecast => 400000000 * mult
  | .onboarding => 200000000 * mult
  | .streaks => 200000000 * mult
  | .leaderboard => 100000000 * mult
  | .campaign => 50000000 * mult
  | .buffer => 50000000 * mult

def totalCap (mult : Int64) : Int64 :=
  cap mult .forecast + cap mult .onboarding + cap mult .streaks + cap mult .leaderboard +
    cap mult .campaign + cap mult .buffer

def expectedTotal (mult : Int64) : Int64 := 1000000000 * mult

def dailyForecast : Int64 := 220000
def dailyOnboarding : Int64 := 130000
def dailyStreaks : Int64 := 110000
def dailyLeaderboard : Int64 := 55000
def dailyCampaign : Int64 := 33000

/-! ## The calls -/

/-- A number in the text of a call; `dfx` refuses a negative `nat`. -/
def candidNat (x : Int64) : Option Nat := if 0 ≤ x then some x.toInt.toNat else none

def callAddManualReserve (label purpose : String) (principal : Principal) (capNat : Int64) :
    Option AddReserveArg := do
  let cap ← candidNat capNat
  return { account := ⟨principal, none⟩, minBalance := 0, targetBalance := 0,
           maxBalance := some cap, maxTopupPerRebalance := none,
           lifetimeReceivedMinimum := none, lifetimeReceivedMaximum := some cap,
           rateLimits := none, enabled := true, allowManualTopup := true,
           allowAutoRebalance := false, purpose, label }

def callAddAutoReserve (label purpose : String) (principal : Principal)
    (capNat dailyBudget mult : Int64) : Option AddReserveArg := do
  let target ← candidNat (dailyBudget * 7 * mult)
  let min ← candidNat (dailyBudget * 2 * mult)
  let maxTopup := target
  let rateDay ← candidNat (dailyBudget * 2 * mult)
  let rateYear ← candidNat (dailyBudget * 365 * mult)
  let cap ← candidNat capNat
  return { account := ⟨principal, none⟩, minBalance := min, targetBalance := target,
           maxBalance := some cap, maxTopupPerRebalance := some maxTopup,
           lifetimeReceivedMinimum := none, lifetimeReceivedMaximum := some cap,
           rateLimits := some { maxAmountPerHour := none, maxAmountPerDay := some rateDay,
                                maxAmountPerWeek := none, maxAmountPerMonth := none,
                                maxAmountPerYear := some rateYear },
           enabled := true, allowManualTopup := true, allowAutoRebalance := true, purpose, label }

def addReserveCall (mult : Int64) (principal : Bucket → Principal) :
    Bucket → Option AddReserveArg
  | .forecast => callAddAutoReserve "forecast" "Gameplay: prediction participation rewards (40%)"
      (principal .forecast) (cap mult .forecast) dailyForecast mult
  | .onboarding =>
    callAddAutoReserve "onboarding" "Gameplay: signup bonuses, activation, tutorials (20%)"
      (principal .onboarding) (cap mult .onboarding) dailyOnboarding mult
  | .streaks => callAddAutoReserve "streaks" "Gameplay: daily engagement, login streaks (20%)"
      (principal .streaks) (cap mult .streaks) dailyStreaks mult
  | .leaderboard =>
    callAddAutoReserve "leaderboard" "Gameplay: leaderboard prizes, competitions (10%)"
      (principal .leaderboard) (cap mult .leaderboard) dailyLeaderboard mult
  | .campaign => callAddAutoReserve "campaign" "Gameplay: promotions, referrals, events (5%)"
      (principal .campaign) (cap mult .campaign) dailyCampaign mult
  | .buffer =>
    callAddManualReserve "buffer" "Gameplay: strategic buffer for future features (5%, manual only)"
      (principal .buffer) (cap mult .buffer)

/-- The calls in a row, and what they register. A call that `dfx` refuses ends
the script; one that `add_reserve` refuses does not. -/
def registerReserves (mult : Int64) (principal : Bucket → Principal) (s : State) :
    List Bucket → State × List (Bucket × AddReserveArg)
  | [] => (s, [])
  | b :: rest =>
    match addReserveCall mult principal b with
    | none => (s, [])
    | some arg =>
      match addReserveImpl s arg with
      | (s, .error _) => registerReserves mult principal s rest
      | (s, .ok _) =>
        let (s, registered) := registerReserves mult principal s rest
        (s, (b, arg) :: registered)

/-- The script, with the state of the minter and what it registered. -/
def initReserves (decimals : String) (principals : Bucket → Option Principal) (s : State) :
    State × List (Bucket × AddReserveArg) :=
  if !acceptsDecimals decimals then (s, [])
  else
    let mult := pow10 decimals
    if totalCap mult ≠ expectedTotal mult then (s, [])
    else if Bucket.all.any fun b => (principals b).isNone then (s, [])
    else if ¬ (Bucket.all.filterMap principals).Nodup then (s, [])
    else registerReserves mult (fun b => (principals b).getD ⟨[]⟩) s Bucket.all

/-! ## The multiplier -/

theorem pow10Loop_ofNat (n r : Nat) : pow10Loop n (.ofNat r) = .ofNat (r * 10 ^ n) := by
  induction n generalizing r with
  | zero => rw [Nat.pow_zero, Nat.mul_one, pow10Loop]
  | succ n ih =>
    have hten : Int64.ofNat r * 10 = Int64.ofNat (r * 10) := (Int64.ofNat_mul r 10).symm
    rw [pow10Loop, hten, ih, Nat.mul_assoc, Nat.pow_succ']

theorem pow10_of_constant {d : String} {o : Nat} (ho : o < 2 ^ 63)
    (h : constant d.toList = some (.ofNat o)) : pow10 d = .ofNat (10 ^ o) := by
  have hone : (1 : Int64) = .ofNat 1 := rfl
  unfold pow10
  simp only [h, Int64.toInt_ofNat_of_lt ho, Int.toNat_natCast]
  rw [hone, pow10Loop_ofNat, Nat.one_mul]

theorem constantIn_some {base : Nat} {text : List Char}
    (h : ∀ c ∈ text, Numeral.digit c < base) :
    constantIn base text = some (.ofNat (Numeral.value base text)) := by
  refine if_pos (List.all_eq_true.mpr fun c hc => ?_)
  exact decide_eq_true (h c hc)

theorem constantIn_none {base : Nat} {text : List Char}
    (h : ¬ ∀ c ∈ text, Numeral.digit c < base) : constantIn base text = none := by
  refine if_neg fun hall => h fun c hc => ?_
  exact of_decide_eq_true (List.all_eq_true.mp hall c hc)

/-- No leading zero, or a number that bash reads alike. -/
def ReadAsWritten (decimals : String) : Prop :=
  decimals.toList.head? = some '0' → decimalsValue decimals ≤ 7

/-- Up to ten decimals, `MULT` is the power that is meant, or a smaller one. -/
theorem pow10_cases {decimals : String} (h : acceptsDecimals decimals = true)
    (hle : decimalsValue decimals ≤ 10) :
    (ReadAsWritten decimals ∧ pow10 decimals = .ofNat (10 ^ decimalsValue decimals)) ∨
    (¬ ReadAsWritten decimals ∧
      ∃ o < decimalsValue decimals, pow10 decimals = .ofNat (10 ^ o)) := by
  have hten : ∀ c ∈ decimals.toList, Numeral.digit c < 10 := by
    intro c hc
    unfold acceptsDecimals at h
    rw [Bool.and_eq_true, List.all_eq_true] at h
    exact Numeral.digit_lt_ten (h.2 c hc)
  by_cases hzero : decimals.toList.head? = some '0'
  · have hconst : constant decimals.toList = constantIn 8 decimals.toList := if_pos hzero
    by_cases hsmall : decimalsValue decimals ≤ 7
    · have hlt : Numeral.value 10 decimals.toList < 8 := Nat.lt_succ_of_le hsmall
      obtain ⟨hval, height⟩ := Numeral.value_of_lt hlt (by decide)
      refine .inl ⟨fun _ => hsmall, pow10_of_constant (by omega) ?_⟩
      rw [hconst, constantIn_some height, hval, decimalsValue]
    · refine .inr ⟨fun hread => hsmall (hread hzero), ?_⟩
      have hge : 8 ≤ Numeral.value 10 decimals.toList := Nat.lt_of_not_le hsmall
      by_cases height : ∀ c ∈ decimals.toList, Numeral.digit c < 8
      · have hlt := Numeral.value_lt (by decide) (by decide) height hge
        have hle' : Numeral.value 10 decimals.toList ≤ 10 := hle
        exact ⟨Numeral.value 8 decimals.toList, hlt,
          pow10_of_constant (by omega) (hconst.trans (constantIn_some height))⟩
      · refine ⟨0, Nat.lt_of_lt_of_le (by decide) hge, ?_⟩
        unfold pow10
        rw [hconst, constantIn_none height]
        rfl
  · refine .inl ⟨fun hhead => (hzero hhead).elim, pow10_of_constant (by omega) ?_⟩
    rw [constant, if_neg hzero, constantIn_some hten, decimalsValue]

/-! ## The check of the total -/

/-- Both sides wrap alike. -/
theorem totalCap_eq (mult : Int64) : totalCap mult = expectedTotal mult := by
  unfold totalCap expectedTotal cap
  grind

/-! ## What is registered -/

/-- The documented number of whole tokens. -/
def Bucket.tokens : Bucket → Nat
  | forecast => 400000000
  | onboarding => 200000000
  | streaks => 200000000
  | leaderboard => 100000000
  | campaign => 50000000
  | buffer => 50000000

/-- The daily emission budget in whole tokens; the buffer has none. -/
def Bucket.daily : Bucket → Nat
  | forecast => 220000
  | onboarding => 130000
  | streaks => 110000
  | leaderboard => 55000
  | campaign => 33000
  | buffer => 0

/-- The numbers of a reserve, in units of which there are `10 ^ n` to a token. -/
structure ExactReserve (n : Nat) (b : Bucket) (arg : AddReserveArg) : Prop where
  lifetimeMaximum : arg.lifetimeReceivedMaximum = some (b.tokens * 10 ^ n)
  maxBalance : arg.maxBalance = some (b.tokens * 10 ^ n)
  target : arg.targetBalance = b.daily * 7 * 10 ^ n
  min : arg.minBalance = b.daily * 2 * 10 ^ n
  maxTopup : ∀ max ∈ arg.maxTopupPerRebalance, max = b.daily * 7 * 10 ^ n
  rateLimits : ∀ limits ∈ arg.rateLimits, limits =
    { maxAmountPerHour := none
      maxAmountPerDay := some (b.daily * 2 * 10 ^ n)
      maxAmountPerWeek := none
      maxAmountPerMonth := none
      maxAmountPerYear := some (b.daily * 365 * 10 ^ n) }

theorem candidNat_ofNat {x : Nat} (h : x < 2 ^ 63) : candidNat (.ofNat x) = some x := by
  unfold candidNat
  rw [if_pos (Int64.le_iff_toInt_le.mpr ?_), Int64.toInt_ofNat_of_lt h, Int.toNat_natCast]
  rw [Int64.toInt_ofNat_of_lt h]
  exact Int.natCast_nonneg x

theorem exact_of_manual {label purpose : String} {principal : Principal} {n : Nat} {b : Bucket}
    {arg : AddReserveArg} (hb : b.daily = 0) (hcap : b.tokens * 10 ^ n < 2 ^ 63)
    (h : callAddManualReserve label purpose principal (.ofNat b.tokens * .ofNat (10 ^ n)) =
      some arg) : ExactReserve n b arg := by
  unfold callAddManualReserve at h
  rw [← Int64.ofNat_mul, candidNat_ofNat hcap] at h
  obtain rfl := Option.some.inj h
  constructor <;> simp [hb]

/-- A multiple of the daily budget that fits a word is exact. -/
theorem candidNat_multiple {daily k m : Nat} {x : Int64} (hx : x = .ofNat k)
    (h : daily * k * m < 2 ^ 63) : candidNat (.ofNat daily * x * .ofNat m) =
      some (daily * k * m) := by
  rw [hx, ← Int64.ofNat_mul, ← Int64.ofNat_mul, candidNat_ofNat h]

theorem exact_of_auto {label purpose : String} {principal : Principal} {n : Nat} {b : Bucket}
    {arg : AddReserveArg} (hcap : b.tokens * 10 ^ n < 2 ^ 63)
    (hdaily : b.daily * 365 * 10 ^ n < 2 ^ 63)
    (h : callAddAutoReserve label purpose principal (.ofNat b.tokens * .ofNat (10 ^ n))
      (.ofNat b.daily) (.ofNat (10 ^ n)) = some arg) : ExactReserve n b arg := by
  have hless : ∀ k ≤ 365, b.daily * k * 10 ^ n < 2 ^ 63 := fun k hk =>
    Nat.lt_of_le_of_lt (Nat.mul_le_mul_right _ (Nat.mul_le_mul_left _ hk)) hdaily
  unfold callAddAutoReserve at h
  rw [candidNat_multiple (x := 7) rfl (hless 7 (by decide)),
    candidNat_multiple (x := 2) rfl (hless 2 (by decide)),
    candidNat_multiple (x := 365) rfl hdaily, ← Int64.ofNat_mul, candidNat_ofNat hcap] at h
  obtain rfl := Option.some.inj h
  constructor <;> simp

theorem pow_le_ten {n : Nat} (hn : n ≤ 10) : 10 ^ n ≤ 10 ^ 10 :=
  Nat.pow_le_pow_right (by decide) hn

/-- Up to ten decimals every number of a call fits a word. -/
theorem exact_of_call {n : Nat} (hn : n ≤ 10) {principal : Bucket → Principal} {b : Bucket}
    {arg : AddReserveArg} (h : addReserveCall (.ofNat (10 ^ n)) principal b = some arg) :
    ExactReserve n b arg := by
  have hpow := pow_le_ten hn
  have hcap : b.tokens * 10 ^ n < 2 ^ 63 := by
    cases b <;> simp only [Bucket.tokens] <;> omega
  have hdaily : b.daily * 365 * 10 ^ n < 2 ^ 63 := by
    cases b <;> simp only [Bucket.daily] <;> omega
  cases b with
  | buffer => exact exact_of_manual rfl hcap h
  | _ => exact exact_of_auto hcap hdaily h

theorem mem_registered {mult : Int64} {principal : Bucket → Principal} {s : State}
    {buckets : List Bucket} {p : Bucket × AddReserveArg}
    (h : p ∈ (registerReserves mult principal s buckets).2) :
    addReserveCall mult principal p.1 = some p.2 := by
  induction buckets generalizing s with
  | nil => cases h
  | cons b rest ih =>
    unfold registerReserves at h
    split at h
    · cases h
    next arg hcall =>
    split at h
    · exact ih h
    · rcases List.mem_cons.mp h with rfl | h
      · exact hcall
      · exact ih h

/-! ## Exactness -/

/-- The six caps as the numbers they stand for. -/
def capSum (mult : Int64) : Int := (Bucket.all.map fun b => (cap mult b).toInt).sum

/-- Once the check of the total has passed, all that is registered is exact, and
the caps add up to a billion tokens. -/
def RegistersExactly (decimals : String) : Prop :=
  totalCap (pow10 decimals) = expectedTotal (pow10 decimals) →
    (∀ principals s, ∀ p ∈ (initReserves decimals principals s).2,
      ExactReserve (decimalsValue decimals) p.1 p.2) ∧
    capSum (pow10 decimals) = (10 ^ 9 * 10 ^ decimalsValue decimals : Nat)

theorem initReserves_call {decimals : String} {principals : Bucket → Option Principal} {s : State}
    {p : Bucket × AddReserveArg} (h : p ∈ (initReserves decimals principals s).2) :
    ∃ principal, addReserveCall (pow10 decimals) principal p.1 = some p.2 := by
  unfold initReserves at h
  simp only at h
  split at h
  · cases h
  split at h
  · cases h
  split at h
  · cases h
  split at h
  · cases h
  exact ⟨_, mem_registered h⟩

theorem cap_ofNat {n : Nat} (hn : n ≤ 10) (b : Bucket) :
    (cap (.ofNat (10 ^ n)) b).toInt = (b.tokens * 10 ^ n : Nat) := by
  have hpow := pow_le_ten hn
  have hcap : cap (.ofNat (10 ^ n)) b = .ofNat (b.tokens * 10 ^ n) := by
    rw [Int64.ofNat_mul]
    cases b <;> rfl
  rw [hcap, Int64.toInt_ofNat_of_lt]
  cases b <;> simp only [Bucket.tokens] <;> omega

theorem capSum_ofNat {n : Nat} (hn : n ≤ 10) :
    capSum (.ofNat (10 ^ n)) = (10 ^ 9 * 10 ^ n : Nat) := by
  simp only [capSum, cap_ofNat hn, Bucket.all, List.map_cons, List.map_nil, List.sum_cons,
    List.sum_nil, Bucket.tokens]
  omega

/-- Six words never add up to a billion tokens of eleven decimals. -/
theorem capSum_lt (mult : Int64) : capSum mult < (10 ^ 9 * 10 ^ 11 : Nat) := by
  have hlt := fun b => (cap mult b).toInt_lt
  have h1 := hlt .forecast
  have h2 := hlt .onboarding
  have h3 := hlt .streaks
  have h4 := hlt .leaderboard
  have h5 := hlt .campaign
  have h6 := hlt .buffer
  simp only [capSum, Bucket.all, List.map_cons, List.map_nil, List.sum_cons, List.sum_nil]
  omega

/-- The script registers exact numbers if and only if `DECIMALS` is at most ten,
and bash reads it in base 10 or alike. Its check of the total excludes nothing. -/
theorem registers_exactly_iff {decimals : String} (h : acceptsDecimals decimals = true) :
    RegistersExactly decimals ↔ decimalsValue decimals ≤ 10 ∧ ReadAsWritten decimals := by
  constructor
  · intro hexact
    obtain ⟨-, hsum⟩ := hexact (totalCap_eq _)
    have hle : decimalsValue decimals ≤ 10 := by
      by_contra hlt
      have hpow : 10 ^ 11 ≤ 10 ^ decimalsValue decimals :=
        Nat.pow_le_pow_right (by decide) (by omega)
      have hcap := capSum_lt (pow10 decimals)
      omega
    rcases pow10_cases h hle with ⟨hread, -⟩ | ⟨-, o, ho, hpow⟩
    · exact ⟨hle, hread⟩
    · rw [hpow, capSum_ofNat (by omega)] at hsum
      have hlt : 10 ^ o < 10 ^ decimalsValue decimals := Nat.pow_lt_pow_right (by decide) ho
      omega
  · rintro ⟨hle, hread⟩ -
    rcases pow10_cases h hle with ⟨-, hpow⟩ | ⟨hno, -⟩
    · refine ⟨fun principals s p hp => ?_, ?_⟩
      · obtain ⟨principal, hcall⟩ := initReserves_call hp
        rw [hpow] at hcall
        exact exact_of_call hle hcall
      · rw [hpow, capSum_ofNat hle]
    · exact (hno hread).elim

/-- The default of four decimals is exact. -/
theorem registers_exactly_iff_sample : RegistersExactly "4" :=
  (registers_exactly_iff (by decide)).mpr ⟨by decide, fun _ => by decide⟩

def samplePrincipals : Bucket → Option Principal
  | .forecast => some ⟨[1]⟩
  | .onboarding => some ⟨[2]⟩
  | .streaks => some ⟨[3]⟩
  | .leaderboard => some ⟨[4]⟩
  | .campaign => some ⟨[5]⟩
  | .buffer => some ⟨[6]⟩

/-- With eleven decimals the check passes and the minter accepts three reserves
with wrapped caps. Then a negative cap ends the script. -/
theorem wrapped_caps_registered :
    acceptsDecimals "11" = true ∧ decimalsValue "11" = 11 ∧
    totalCap (pow10 "11") = expectedTotal (pow10 "11") ∧
    ((initReserves "11" samplePrincipals (State.default ⟨[]⟩)).2.map fun p =>
      (p.1, p.2.lifetimeReceivedMaximum)) =
        [(.forecast, some 3106511852580896768), (.onboarding, some 1553255926290448384),
          (.streaks, some 1553255926290448384)] ∧
    Bucket.forecast.tokens * 10 ^ 11 = 40000000000000000000 ∧ ¬ RegistersExactly "11" := by
  refine ⟨by decide, by decide, by decide, by decide, by decide, fun hexact => ?_⟩
  obtain ⟨-, hsum⟩ := hexact (by decide)
  exact absurd hsum (by decide)

end InitReserves

end ViciMinter
