import ViciMinter.Reserve
import ViciMinter.Ledger

/-!
# Rebalancing one reserve

`rebalance_one` of `services/rebalance.rs`, cut at its two awaits:
`rebalanceBegin` takes the lock and the snapshot, `rebalanceIssue` runs from the
balance reply to the transfer, `rebalanceCommit` from the transfer reply to the
end. A segment runs without interruption, so it is a function of the state.
-/

namespace ViciMinter

/-- How a segment leaves an operation: ended, or awaiting a transfer. -/
inductive Segment (κ ρ : Type) where
  | ended (r : Except MinterError ρ)
  | transfer (ledgerId : Principal) (arg : TransferArg) (k : κ)

/-- What an operation copies out of the state when it begins. -/
structure MintSnapshot where
  ledgerId : Principal
  config : ReserveConfig
  lifetimeMinted : Nat
  mintEvents : List MintEvent
  policy : GlobalPolicy
  deriving DecidableEq, Repr

def State.snapshot (s : State) (record : ReserveRecord) : MintSnapshot where
  ledgerId := s.ledgerId
  config := record.config
  lifetimeMinted := record.lifetimeMinted
  mintEvents := record.mintEvents
  policy := s.globalPolicy

def releaseMintLock (s : State) (reserveId : ReserveId) : State :=
  { s with reserveMintInflight := s.reserveMintInflight.erase reserveId }

def rebalanceBegin (s : State) (id : ReserveId) : State × Except MinterError MintSnapshot :=
  match s.reserves[id]? with
  | none => (s, .error (.reserveNotFound id))
  | some record =>
    if s.reserveMintInflight.contains id then (s, .error (.reserveOperationInProgress id))
    else ({ s with reserveMintInflight := s.reserveMintInflight.insert id },
      .ok (s.snapshot record))

/-- What a rebalance keeps across its transfer. -/
structure RebalanceMint where
  id : ReserveId
  balance : Nat
  mintAmount : Nat
  now : Nat
  deriving DecidableEq, Repr

/-- The rate-limit clamp: no amount when the budget is exhausted. -/
def clampToBudget (budget : Option Nat) (mintAmount : Nat) : Option Nat :=
  match budget with
  | none => some mintAmount
  | some budget =>
    if budget = 0 then none else some (if mintAmount > budget then budget else mintAmount)

/-- A response that minted nothing. -/
def noMintResponse (id : ReserveId) (action : RebalanceAction) (balance : Nat) :
    RebalanceResponse where
  reserveId := id
  action := action
  balanceBefore := balance
  mintedAmount := 0
  ledgerBlockIndex := none

def rebalanceIssue (s : State) (id : ReserveId) (snap : MintSnapshot) (reply : Reply Nat)
    (now : Nat) : State × Segment RebalanceMint RebalanceResponse :=
  match getBalanceResult reply with
  | .error e => (releaseMintLock s id, .ended (.error e))
  | .ok balance =>
    match computeRebalance snap.config balance snap.lifetimeMinted snap.policy with
    | .error e => (releaseMintLock s id, .ended (.error e))
    | .ok computed =>
      match computed.action with
      | .minted =>
        let budget := availableMintBudget snap.config.rateLimits snap.mintEvents now
        match clampToBudget budget computed.mintAmount with
        | none => (releaseMintLock s id,
            .ended (.ok (noMintResponse id (.skipped "Rate limit budget exhausted") balance)))
        | some mintAmount =>
          let memo := "rebalance:" ++ toString id
          (s, .transfer snap.ledgerId (mintToArg snap.config.account mintAmount memo now)
            { id, balance, mintAmount, now })
      | action => (releaseMintLock s id, .ended (.ok (noMintResponse id action balance)))

/-- The record after a mint: counter, event, pruning. -/
def ReserveRecord.mint (record : ReserveRecord) (amount now : Nat) : ReserveRecord where
  config := record.config
  lifetimeMinted := record.lifetimeMinted + amount
  mintEvents := pruneOldEvents (record.mintEvents ++ [{ timestampNs := now, amount }]) now

def reserveMissing : MinterError := .internalInvariantViolated
  "reserve missing after successful ledger mint; call release_stuck_mint_state if needed"

def rebalanceCommit (s : State) (k : RebalanceMint) (reply : Reply (Except TransferError Nat)) :
    State × Except MinterError RebalanceResponse :=
  match mintToResult reply with
  | .error e => (releaseMintLock s k.id, .error e)
  | .ok blockIndex =>
    let s := releaseMintLock s k.id
    match s.reserves[k.id]? with
    | none => (s, .error reserveMissing)
    | some record =>
      ({ s with reserves := s.reserves.insert k.id (record.mint k.mintAmount k.now) },
        .ok { reserveId := k.id, action := .minted, balanceBefore := k.balance,
              mintedAmount := k.mintAmount, ledgerBlockIndex := some blockIndex })

end ViciMinter
