import Mathlib.Data.Nat.Basic
import Std.Data.ExtTreeMap
import Std.Data.ExtTreeSet

/-!
# The minter's data model

The types of `model.rs`, the arguments of `api/admin/params.rs` and the
canister state of `state.rs`. Token amounts are candid `Nat`s and stay `Nat`.
Reserve ids are `u64` and stay `UInt64`: `next_reserve_id` wraps. Timestamps are
only compared and subtracted with saturation, so they are `Nat`. `BTreeMap` and
`BTreeSet` are extensional tree maps and sets over the same key order.
-/

namespace ViciMinter

/-! ## Accounts -/

/-- A principal is its byte string; the minter only compares principals. -/
structure Principal where
  bytes : List UInt8
  deriving DecidableEq, Repr

abbrev Subaccount := Vector UInt8 32

/-- An ICRC-1 account. -/
structure Account where
  owner : Principal
  subaccount : Option Subaccount
  deriving DecidableEq, Repr

/-- The subaccount with the default (all zero) one filled in. -/
def Account.effectiveSubaccount (a : Account) : Subaccount :=
  a.subaccount.getD (Vector.replicate 32 0)

/-- `PartialEq` of `Account`: an absent subaccount equals the all-zero one. -/
def Account.eq (a b : Account) : Bool :=
  a.owner == b.owner && a.effectiveSubaccount == b.effectiveSubaccount

/-- What the ledger knows an account by. -/
def Account.canon (a : Account) : Principal × Subaccount := (a.owner, a.effectiveSubaccount)

theorem Account.eq_iff {a b : Account} : a.eq b = true ↔ a.canon = b.canon := by
  simp [Account.eq, Account.canon]

/-! ## Reserves -/

abbrev ReserveId := UInt64

/-- Sliding-window caps of a reserve. -/
structure RateLimits where
  maxAmountPerHour : Option Nat
  maxAmountPerDay : Option Nat
  maxAmountPerWeek : Option Nat
  maxAmountPerMonth : Option Nat
  maxAmountPerYear : Option Nat
  deriving DecidableEq, Repr

/-- A recorded mint, kept for rate limiting. -/
structure MintEvent where
  timestampNs : Nat
  amount : Nat
  deriving DecidableEq, Repr

structure ReserveConfig where
  account : Account
  minBalance : Nat
  targetBalance : Nat
  maxBalance : Option Nat
  maxTopupPerRebalance : Option Nat
  lifetimeReceivedMinimum : Option Nat
  lifetimeReceivedMaximum : Option Nat
  rateLimits : Option RateLimits
  enabled : Bool
  allowManualTopup : Bool
  allowAutoRebalance : Bool
  purpose : String
  label : String
  deriving DecidableEq, Repr

structure ReserveRecord where
  config : ReserveConfig
  lifetimeMinted : Nat
  mintEvents : List MintEvent
  deriving DecidableEq, Repr

structure AddReserveArg where
  account : Account
  minBalance : Nat
  targetBalance : Nat
  maxBalance : Option Nat
  maxTopupPerRebalance : Option Nat
  lifetimeReceivedMinimum : Option Nat
  lifetimeReceivedMaximum : Option Nat
  rateLimits : Option RateLimits
  enabled : Bool
  allowManualTopup : Bool
  allowAutoRebalance : Bool
  purpose : String
  label : String
  deriving DecidableEq, Repr

/-- A partial update. In the fields of type `Option (Option _)` `none` keeps the
current value, `some none` clears it and `some (some v)` sets it. -/
structure UpdateReserveArg where
  id : ReserveId
  minBalance : Option Nat
  targetBalance : Option Nat
  maxBalance : Option (Option Nat)
  maxTopupPerRebalance : Option (Option Nat)
  lifetimeReceivedMinimum : Option Nat
  lifetimeReceivedMaximum : Option (Option Nat)
  rateLimits : Option (Option RateLimits)
  enabled : Option Bool
  allowManualTopup : Option Bool
  allowAutoRebalance : Option Bool
  purpose : Option String
  label : Option String
  deriving DecidableEq, Repr

structure ManualTopupArg where
  reserveId : ReserveId
  amount : Nat
  idempotencyKey : Option String
  deriving DecidableEq, Repr

/-! ## Policy and idempotency -/

structure GlobalPolicy where
  mintingEnabled : Bool
  maxMintPerOperation : Option Nat
  deriving DecidableEq, Repr

def GlobalPolicy.default : GlobalPolicy := { mintingEnabled := true, maxMintPerOperation := none }

/-- A finished manual top-up, as its replays return it. -/
structure IdempotencyEntry where
  ledgerBlockIndex : Nat
  mintedAmount : Nat
  reserveId : ReserveId
  executedAtNs : Nat
  deriving DecidableEq, Repr

inductive IdempotencyRecord where
  | pending (reserveId : ReserveId)
  | completed (entry : IdempotencyEntry)
  deriving DecidableEq, Repr

/-! ## Errors and responses -/

inductive MinterError where
  | notAuthorized
  | reserveNotFound (id : ReserveId)
  | reserveAccountAlreadyExists (account : Account)
  | mintingDisabled
  | reserveDisabled (id : ReserveId)
  | manualTopupNotAllowed (id : ReserveId)
  | autoRebalanceNotAllowed (id : ReserveId)
  | amountExceedsLimit (requested limit : Nat)
  | rateLimitExceeded (window : String) (limit currentUsage requested : Nat)
  | invalidConfig (reason : String)
  | ledgerError (message : String)
  | idempotencyKeyAlreadyUsed (key : String) (existingBlockIndex : Nat)
  | reserveOperationInProgress (id : ReserveId)
  | idempotencyOperationInProgress (key : String)
  | internalInvariantViolated (reason : String)
  deriving DecidableEq, Repr

inductive RebalanceAction where
  | minted
  | alreadyFunded
  | skipped (reason : String)
  deriving DecidableEq, Repr

structure RebalanceResponse where
  reserveId : ReserveId
  action : RebalanceAction
  balanceBefore : Nat
  mintedAmount : Nat
  ledgerBlockIndex : Option Nat
  deriving DecidableEq, Repr

structure ManualTopupResponse where
  reserveId : ReserveId
  mintedAmount : Nat
  ledgerBlockIndex : Nat
  deriving DecidableEq, Repr

/-- The outcome of `compute_rebalance`: what to do, and the two deficits behind it. -/
structure ComputedRebalance where
  action : RebalanceAction
  mintAmount : Nat
  cyclicalDeficit : Nat
  lifetimeDeficit : Nat
  deriving DecidableEq, Repr

/-! ## The canister state -/

/-- The complete runtime state of the minter canister. -/
structure State where
  ledgerId : Principal
  nextReserveId : ReserveId
  reserves : Std.ExtTreeMap ReserveId ReserveRecord
  globalPolicy : GlobalPolicy
  idempotency : Std.ExtTreeMap String IdempotencyRecord
  reserveMintInflight : Std.ExtTreeSet ReserveId

/-- `State::default()` with the ledger id that `init` stores. -/
def State.default (ledgerId : Principal) : State where
  ledgerId := ledgerId
  nextReserveId := 0
  reserves := ∅
  globalPolicy := GlobalPolicy.default
  idempotency := ∅
  reserveMintInflight := ∅

end ViciMinter
