import ViciMinter.Rebalance

/-!
# The admin operations

`api/admin/api.rs`. Reserve CRUD, the policy and the forced release are one
segment each. A manual top-up is cut at its only await: `manualTopupIssue` runs
up to the transfer, `manualTopupCommit` from its reply. An operation that
returns an error keeps what it already did to the state, so every function here
returns the state next to its result.
-/

namespace ViciMinter

/-! ## Reserve CRUD -/

def AddReserveArg.config (arg : AddReserveArg) : ReserveConfig where
  account := arg.account
  minBalance := arg.minBalance
  targetBalance := arg.targetBalance
  maxBalance := arg.maxBalance
  maxTopupPerRebalance := arg.maxTopupPerRebalance
  lifetimeReceivedMinimum := arg.lifetimeReceivedMinimum
  lifetimeReceivedMaximum := arg.lifetimeReceivedMaximum
  rateLimits := arg.rateLimits
  enabled := arg.enabled
  allowManualTopup := arg.allowManualTopup
  allowAutoRebalance := arg.allowAutoRebalance
  purpose := arg.purpose
  label := arg.label

def addReserveImpl (s : State) (arg : AddReserveArg) : State × Except MinterError ReserveId :=
  match validateAddReserveArg arg with
  | .error e => (s, .error e)
  | .ok () =>
    if s.reserves.toList.any fun p => p.2.config.account.eq arg.account then
      (s, .error (.reserveAccountAlreadyExists arg.account))
    else
      let id := s.nextReserveId
      ({ s with
          nextReserveId := s.nextReserveId + 1
          reserves := s.reserves.insert id
            { config := arg.config, lifetimeMinted := 0, mintEvents := [] } }, .ok id)

/-- The config with the fields of `arg` replaced; the lifetime minimum only grows. -/
def UpdateReserveArg.apply (arg : UpdateReserveArg) (config : ReserveConfig) :
    Except MinterError ReserveConfig :=
  let updated := { config with
    minBalance := arg.minBalance.getD config.minBalance
    targetBalance := arg.targetBalance.getD config.targetBalance
    maxBalance := arg.maxBalance.getD config.maxBalance
    maxTopupPerRebalance := arg.maxTopupPerRebalance.getD config.maxTopupPerRebalance
    enabled := arg.enabled.getD config.enabled
    allowManualTopup := arg.allowManualTopup.getD config.allowManualTopup
    allowAutoRebalance := arg.allowAutoRebalance.getD config.allowAutoRebalance
    purpose := arg.purpose.getD config.purpose
    label := arg.label.getD config.label
    lifetimeReceivedMaximum := arg.lifetimeReceivedMaximum.getD config.lifetimeReceivedMaximum
    rateLimits := arg.rateLimits.getD config.rateLimits }
  match arg.lifetimeReceivedMinimum, config.lifetimeReceivedMinimum with
  | none, _ => .ok updated
  | some newMin, some current =>
    if newMin < current then
      .error (.invalidConfig "lifetime_received_minimum can only increase, not decrease")
    else .ok { updated with lifetimeReceivedMinimum := some newMin }
  | some newMin, none => .ok { updated with lifetimeReceivedMinimum := some newMin }

def updateReserveImpl (s : State) (arg : UpdateReserveArg) : State × Except MinterError Unit :=
  match s.reserves[arg.id]? with
  | none => (s, .error (.reserveNotFound arg.id))
  | some record =>
    match arg.apply record.config with
    | .error e => (s, .error e)
    | .ok updated =>
      match validateReserveConfig updated with
      | .error e => (s, .error e)
      | .ok () =>
        ({ s with reserves := s.reserves.insert arg.id { record with config := updated } }, .ok ())

def IdempotencyRecord.isPendingFor (id : ReserveId) : IdempotencyRecord → Bool
  | .pending rid => rid == id
  | .completed _ => false

def removeReserveImpl (s : State) (id : ReserveId) : State × Except MinterError ReserveConfig :=
  if s.reserveMintInflight.contains id then (s, .error (.reserveOperationInProgress id))
  else if s.idempotency.toList.any fun p => p.2.isPendingFor id then
    (s, .error (.reserveOperationInProgress id))
  else
    match s.reserves[id]? with
    | none => (s, .error (.reserveNotFound id))
    | some record => ({ s with reserves := s.reserves.erase id }, .ok record.config)

def setGlobalPolicyImpl (s : State) (policy : GlobalPolicy) : State × Except MinterError Unit :=
  ({ s with globalPolicy := policy }, .ok ())

/-! ## The forced release and the rollback -/

def releaseStuckMintStateImpl (s : State) (reserveId : ReserveId)
    (idempotencyKey : Option String) : State × Except MinterError Unit :=
  let s := releaseMintLock s reserveId
  match idempotencyKey with
  | none => (s, .ok ())
  | some k =>
    match s.idempotency[k]? with
    | some (.pending pendingRid) =>
      if pendingRid = reserveId then
        ({ s with idempotency := s.idempotency.erase k }, .ok ())
      else (s, .error (.invalidConfig "idempotency key is pending for a different reserve"))
    | some (.completed _) => (s, .ok ())
    | none => (s, .ok ())

def rollbackManualMintBegin (s : State) (reserveId : ReserveId)
    (idempotencyKey : Option String) : State :=
  let s := releaseMintLock s reserveId
  match idempotencyKey with
  | none => s
  | some k =>
    match s.idempotency[k]? with
    | some (.pending rid) =>
      if rid = reserveId then { s with idempotency := s.idempotency.erase k } else s
    | _ => s

/-! ## Manual top-up -/

def validateManualTopupInputs (arg : ManualTopupArg) (policy : GlobalPolicy)
    (config : ReserveConfig) (lifetimeMinted : Nat) (mintEvents : List MintEvent) (nowNs : Nat) :
    Except MinterError Unit := do
  if !policy.mintingEnabled then
    throw .mintingDisabled
  if !config.enabled then
    throw (.reserveDisabled arg.reserveId)
  if !config.allowManualTopup then
    throw (.manualTopupNotAllowed arg.reserveId)
  if let some max := policy.maxMintPerOperation then
    if arg.amount > max then
      throw (.amountExceedsLimit arg.amount max)
  if let some maxLifetime := config.lifetimeReceivedMaximum then
    let projected := lifetimeMinted + arg.amount
    if projected > maxLifetime then
      throw (.amountExceedsLimit arg.amount maxLifetime)
  if let some limits := config.rateLimits then
    checkRateLimits limits mintEvents arg.amount nowNs
  return ()

inductive ManualTopupBegin where
  | cached (r : ManualTopupResponse)
  | started (snap : MintSnapshot)

def IdempotencyEntry.response (e : IdempotencyEntry) : ManualTopupResponse where
  reserveId := e.reserveId
  mintedAmount := e.mintedAmount
  ledgerBlockIndex := e.ledgerBlockIndex

/-- `idempotency.insert(k, r)` when a key was given. -/
def State.setKey (s : State) (key : Option String) (r : IdempotencyRecord) : State :=
  match key with
  | none => s
  | some k => { s with idempotency := s.idempotency.insert k r }

/-- The reserve and lock checks of a top-up whose key is free. -/
def manualTopupStart (s : State) (arg : ManualTopupArg) :
    State × Except MinterError ManualTopupBegin :=
  match s.reserves[arg.reserveId]? with
  | none => (s, .error (.reserveNotFound arg.reserveId))
  | some record =>
    if s.reserveMintInflight.contains arg.reserveId then
      (s, .error (.reserveOperationInProgress arg.reserveId))
    else
      let s' := { s with reserveMintInflight := s.reserveMintInflight.insert arg.reserveId }
      (s'.setKey arg.idempotencyKey (.pending arg.reserveId), .ok (.started (s.snapshot record)))

def manualTopupBegin (s : State) (arg : ManualTopupArg) :
    State × Except MinterError ManualTopupBegin :=
  match arg.idempotencyKey with
  | none => manualTopupStart s arg
  | some k =>
    match s.idempotency[k]? with
    | some (.completed e) => (s, .ok (.cached e.response))
    | some (.pending _) => (s, .error (.idempotencyOperationInProgress k))
    | none => manualTopupStart s arg

def ManualTopupArg.memo (arg : ManualTopupArg) : String :=
  match arg.idempotencyKey with
  | some key => "topup:" ++ toString arg.reserveId ++ ":" ++ key
  | none => "topup:" ++ toString arg.reserveId

/-- What a manual top-up keeps across its transfer. -/
structure TopupMint where
  arg : ManualTopupArg
  now : Nat
  deriving DecidableEq, Repr

def manualTopupIssue (s : State) (arg : ManualTopupArg) (now : Nat) :
    State × Segment TopupMint ManualTopupResponse :=
  match manualTopupBegin s arg with
  | (s, .error e) => (s, .ended (.error e))
  | (s, .ok (.cached r)) => (s, .ended (.ok r))
  | (s, .ok (.started snap)) =>
    match validateManualTopupInputs arg snap.policy snap.config snap.lifetimeMinted
        snap.mintEvents now with
    | .error e => (rollbackManualMintBegin s arg.reserveId arg.idempotencyKey, .ended (.error e))
    | .ok () =>
      (s, .transfer snap.ledgerId (mintToArg snap.config.account arg.amount arg.memo now)
        { arg, now })

def manualTopupCommit (s : State) (k : TopupMint) (reply : Reply (Except TransferError Nat)) :
    State × Except MinterError ManualTopupResponse :=
  match mintToResult reply with
  | .error e => (rollbackManualMintBegin s k.arg.reserveId k.arg.idempotencyKey, .error e)
  | .ok blockIndex =>
    let s := releaseMintLock s k.arg.reserveId
    match s.reserves[k.arg.reserveId]? with
    | none => (s, .error reserveMissing)
    | some record =>
      let s := { s with
        reserves := s.reserves.insert k.arg.reserveId (record.mint k.arg.amount k.now) }
      (s.setKey k.arg.idempotencyKey (.completed
          { ledgerBlockIndex := blockIndex, mintedAmount := k.arg.amount,
            reserveId := k.arg.reserveId, executedAtNs := k.now }),
        .ok { reserveId := k.arg.reserveId, mintedAmount := k.arg.amount,
              ledgerBlockIndex := blockIndex })

end ViciMinter
