import Mathlib.Tactic.MkIffOfInductiveProp
import ViciMinter.Admin
import ViciMinter.Rooms

/-!
# What each segment does

One lemma per segment: the state it leaves and what it checked on the way. The
states are named by what happened (`register`, `begin`, `drop`, `commit`), and
later proofs use these names and never open a segment again.

A segment that ends an operation without a mint leaves `State.drop`: the lock is
released, and the operation's key is removed if it is pending for its reserve.
`rollback_manual_mint_begin` and `release_stuck_mint_state` are both of this
form, and so is `release_mint_lock`, without a key.
-/

namespace ViciMinter

/-! ## The states -/

/-- A reserve is registered under the next id. -/
def State.register (s : State) (arg : AddReserveArg) : State :=
  { s with
    nextReserveId := s.nextReserveId + 1
    reserves := s.reserves.insert s.nextReserveId
      { config := arg.config, lifetimeMinted := 0, mintEvents := [] } }

/-- An operation on `id` takes the lock and reserves its key. -/
def State.begin (s : State) (id : ReserveId) (key : Option String) : State :=
  { s with reserveMintInflight := s.reserveMintInflight.insert id }.setKey key (.pending id)

/-- `m` without `key`, if that is pending for `id`. -/
def dropPending (m : Std.ExtTreeMap String IdempotencyRecord) (id : ReserveId)
    (key : Option String) : Std.ExtTreeMap String IdempotencyRecord :=
  match key with
  | none => m
  | some k => if m[k]? = some (IdempotencyRecord.pending id) then m.erase k else m

/-- The lock of `id` is released and its pending `key` dropped. -/
def State.drop (s : State) (id : ReserveId) (key : Option String) : State :=
  { releaseMintLock s id with idempotency := dropPending s.idempotency id key }

/-- A mint to the registered reserve `id` is recorded and its `key` completed. -/
def State.commit (s : State) (id : ReserveId) (key : Option String) (record : ReserveRecord)
    (amount now blockIndex : Nat) : State :=
  { releaseMintLock s id with
    reserves := s.reserves.insert id (record.mint amount now) }.setKey key
      (.completed { ledgerBlockIndex := blockIndex, mintedAmount := amount, reserveId := id,
                    executedAtNs := now })

section
variable {s : State} {id : ReserveId} {key : Option String} {r : IdempotencyRecord}

@[simp] theorem setKey_reserves : (s.setKey key r).reserves = s.reserves := by
  cases key <;> rfl
@[simp] theorem setKey_nextReserveId : (s.setKey key r).nextReserveId = s.nextReserveId := by
  cases key <;> rfl
@[simp] theorem setKey_inflight : (s.setKey key r).reserveMintInflight = s.reserveMintInflight := by
  cases key <;> rfl

theorem setKey_getElem? (k : String) :
    (s.setKey key r).idempotency[k]? = if key = some k then some r else s.idempotency[k]? := by
  cases key with
  | none => simp [State.setKey]
  | some k' => simp [State.setKey, Std.ExtTreeMap.getElem?_insert]

section
variable (s : State) (id : ReserveId) (key : Option String) (record : ReserveRecord) (a t b : Nat)
  (arg : AddReserveArg)

@[simp] theorem register_reserves : (s.register arg).reserves =
    s.reserves.insert s.nextReserveId ⟨arg.config, 0, []⟩ := rfl

@[simp] theorem begin_reserves : (s.begin id key).reserves = s.reserves := by simp [State.begin]
@[simp] theorem begin_nextReserveId : (s.begin id key).nextReserveId = s.nextReserveId := by
  simp [State.begin]
@[simp] theorem begin_inflight :
    (s.begin id key).reserveMintInflight = s.reserveMintInflight.insert id := by simp [State.begin]

@[simp] theorem drop_reserves : (s.drop id key).reserves = s.reserves := rfl
@[simp] theorem drop_inflight :
    (s.drop id key).reserveMintInflight = s.reserveMintInflight.erase id := rfl
@[simp] theorem drop_idempotency :
    (s.drop id key).idempotency = dropPending s.idempotency id key := rfl

@[simp] theorem commit_reserves : (s.commit id key record a t b).reserves =
    s.reserves.insert id (record.mint a t) := by simp [State.commit]
@[simp] theorem commit_nextReserveId :
    (s.commit id key record a t b).nextReserveId = s.nextReserveId := by
  simp [State.commit, releaseMintLock]
@[simp] theorem commit_inflight :
    (s.commit id key record a t b).reserveMintInflight = s.reserveMintInflight.erase id := by
  simp [State.commit, releaseMintLock]

end

theorem begin_getElem? (k : String) : (s.begin id key).idempotency[k]? =
    if key = some k then some (IdempotencyRecord.pending id) else s.idempotency[k]? := by
  unfold State.begin
  rw [setKey_getElem?]

theorem commit_getElem? {record : ReserveRecord} {a t b : Nat} (k : String) :
    (s.commit id key record a t b).idempotency[k]? =
      if key = some k then some (IdempotencyRecord.completed ⟨b, a, id, t⟩)
      else s.idempotency[k]? := by
  unfold State.commit
  rw [setKey_getElem?]
  rfl

theorem mem_begin {r : ReserveId} :
    r ∈ (s.begin id key).reserveMintInflight ↔ id = r ∨ r ∈ s.reserveMintInflight := by
  rw [begin_inflight, Std.ExtTreeSet.mem_insert, Std.LawfulEqCmp.compare_eq_iff_eq]

theorem mem_drop {r : ReserveId} :
    r ∈ (s.drop id key).reserveMintInflight ↔ id ≠ r ∧ r ∈ s.reserveMintInflight := by
  rw [drop_inflight, Std.ExtTreeSet.mem_erase, ne_eq, Std.LawfulEqCmp.compare_eq_iff_eq]

theorem mem_commit {record : ReserveRecord} {a t b : Nat} {r : ReserveId} :
    r ∈ (s.commit id key record a t b).reserveMintInflight ↔
      id ≠ r ∧ r ∈ s.reserveMintInflight := by
  rw [commit_inflight, Std.ExtTreeSet.mem_erase, ne_eq, Std.LawfulEqCmp.compare_eq_iff_eq]

theorem register_record (s : State) (arg : AddReserveArg) (r : ReserveId) :
    (s.register arg).reserves[r]? =
      if s.nextReserveId = r then some ⟨arg.config, 0, []⟩ else s.reserves[r]? := by
  simp [Std.ExtTreeMap.getElem?_insert]

theorem commit_record {record : ReserveRecord} {a t b : Nat} (r : ReserveId) :
    (s.commit id key record a t b).reserves[r]? =
      if id = r then some (record.mint a t) else s.reserves[r]? := by
  simp [Std.ExtTreeMap.getElem?_insert]

theorem dropPending_getElem? (m : Std.ExtTreeMap String IdempotencyRecord) (k : String) :
    (dropPending m id key)[k]? =
      if key = some k ∧ m[k]? = some (IdempotencyRecord.pending id) then none else m[k]? := by
  cases key with
  | none => simp [dropPending]
  | some k' =>
    unfold dropPending
    simp only [Option.some.injEq]
    by_cases hk : k' = k
    · subst hk
      split <;> simp_all
    · split <;> simp [Std.ExtTreeMap.getElem?_erase, hk]

theorem dropPending_completed {m : Std.ExtTreeMap String IdempotencyRecord} {k : String}
    {e : IdempotencyEntry} (h : m[k]? = some (IdempotencyRecord.completed e)) :
    (dropPending m id key)[k]? = some (IdempotencyRecord.completed e) := by
  rw [dropPending_getElem?, h]
  simp

theorem releaseMintLock_eq_drop (s : State) (id : ReserveId) :
    releaseMintLock s id = s.drop id none := rfl

theorem rollbackManualMintBegin_eq (s : State) (id : ReserveId) (key : Option String) :
    rollbackManualMintBegin s id key = s.drop id key := by
  cases key with
  | none => rfl
  | some k =>
    simp only [rollbackManualMintBegin, State.drop, dropPending, releaseMintLock]
    split
    · next rid h =>
      rw [h]
      by_cases hr : rid = id
      · simp [hr]
      · simp [hr]
    · next h => rw [if_neg (h id)]

theorem releaseStuckMintStateImpl_state (s : State) (id : ReserveId) (key : Option String) :
    (releaseStuckMintStateImpl s id key).1 = s.drop id key := by
  cases key with
  | none => rfl
  | some k =>
    simp only [releaseStuckMintStateImpl, State.drop, dropPending, releaseMintLock]
    split
    · next rid h =>
      rw [h]
      by_cases hr : rid = id
      · simp [hr]
      · simp [hr]
    · next e h => rw [h, if_neg (by simp)]
    · next h => rw [h, if_neg (by simp)]

/-- Undoing a begin gives back the state before it. -/
theorem drop_begin (hl : id ∉ s.reserveMintInflight)
    (hk : ∀ k ∈ key, s.idempotency[k]? = none) : (s.begin id key).drop id key = s := by
  have hlock : (s.reserveMintInflight.insert id).erase id = s.reserveMintInflight := by
    refine Std.ExtTreeSet.ext_mem fun a => ?_
    simp only [Std.ExtTreeSet.mem_erase, Std.ExtTreeSet.mem_insert, ne_eq,
      Std.LawfulEqCmp.compare_eq_iff_eq]
    constructor
    · rintro ⟨hne, rfl | ha⟩
      · exact (hne rfl).elim
      · exact ha
    · intro ha
      refine ⟨?_, .inr ha⟩
      rintro rfl
      exact hl ha
  cases key with
  | none => simp [State.begin, State.setKey, State.drop, releaseMintLock, dropPending, hlock]
  | some k =>
    have hmap : (s.idempotency.insert k (.pending id)).erase k = s.idempotency := by
      refine Std.ExtTreeMap.ext_getElem? fun a => ?_
      rw [Std.ExtTreeMap.getElem?_erase, Std.ExtTreeMap.getElem?_insert]
      simp only [Std.LawfulEqCmp.compare_eq_iff_eq]
      split
      · next he => rw [← he, hk k rfl]
      · rfl
    simp [State.begin, State.setKey, State.drop, releaseMintLock, dropPending, hlock, hmap]

end

/-! ## Reserve CRUD -/

/-- The two ways `add_reserve` ends. -/
theorem addReserveImpl_cases (s : State) (arg : AddReserveArg) :
    (∃ e, addReserveImpl s arg = (s, .error e)) ∨
    (addReserveImpl s arg = (s.register arg, .ok s.nextReserveId) ∧
      validateAddReserveArg arg = .ok () ∧
      ∀ (id : ReserveId) (record : ReserveRecord), s.reserves[id]? = some record →
        record.config.account.canon ≠ arg.account.canon) := by
  unfold addReserveImpl
  cases hv : validateAddReserveArg arg with
  | error e => exact .inl ⟨e, rfl⟩
  | ok u =>
    simp only
    split
    · exact .inl ⟨_, rfl⟩
    · next hdup =>
      refine .inr ⟨rfl, trivial, fun id record hrec heq => hdup ?_⟩
      rw [List.any_eq_true]
      exact ⟨(id, record), Std.ExtTreeMap.mem_toList_iff_getElem?_eq_some.mpr hrec,
        Account.eq_iff.mpr heq⟩

/-- The two ways `update_reserve` ends. -/
theorem updateReserveImpl_cases (s : State) (arg : UpdateReserveArg) :
    (∃ e, updateReserveImpl s arg = (s, .error e)) ∨
    (∃ record updated, s.reserves[arg.id]? = some record ∧
      arg.apply record.config = .ok updated ∧ validateReserveConfig updated = .ok () ∧
      updateReserveImpl s arg =
        ({ s with reserves := s.reserves.insert arg.id { record with config := updated } },
          .ok ())) := by
  unfold updateReserveImpl
  cases hrec : s.reserves[arg.id]? with
  | none => exact .inl ⟨_, rfl⟩
  | some record =>
    cases hup : arg.apply record.config with
    | error e => exact .inl ⟨e, by simp [hup]⟩
    | ok updated =>
      cases hv : validateReserveConfig updated with
      | error e => exact .inl ⟨e, by simp [hup, hv]⟩
      | ok u => exact .inr ⟨record, updated, rfl, hup, hv, by simp [hup, hv]⟩

/-- An update never touches the account, and `max_balance` only if it says so. -/
theorem UpdateReserveArg.apply_keeps {arg : UpdateReserveArg} {config updated : ReserveConfig}
    (h : arg.apply config = .ok updated) :
    updated.account = config.account ∧
    updated.maxBalance = arg.maxBalance.getD config.maxBalance := by
  unfold UpdateReserveArg.apply at h
  simp only at h
  split at h
  · cases h
    exact ⟨rfl, rfl⟩
  · split at h
    · cases h
    · cases h
      exact ⟨rfl, rfl⟩
  · cases h
    exact ⟨rfl, rfl⟩

/-- The two ways `remove_reserve` ends. -/
theorem removeReserveImpl_cases (s : State) (id : ReserveId) :
    (∃ e, removeReserveImpl s id = (s, .error e)) ∨
    (∃ record, s.reserves[id]? = some record ∧ id ∉ s.reserveMintInflight ∧
      (∀ k : String, s.idempotency[k]? ≠ some (IdempotencyRecord.pending id)) ∧
      removeReserveImpl s id =
        ({ s with reserves := s.reserves.erase id }, .ok record.config)) := by
  unfold removeReserveImpl
  split
  · exact .inl ⟨_, rfl⟩
  next hlock =>
  split
  · exact .inl ⟨_, rfl⟩
  next hpend =>
  cases hrec : s.reserves[id]? with
  | none => exact .inl ⟨_, rfl⟩
  | some record =>
    refine .inr ⟨record, rfl, by simpa using hlock, fun k hk => hpend ?_, rfl⟩
    rw [List.any_eq_true]
    exact ⟨(k, .pending id), Std.ExtTreeMap.mem_toList_iff_getElem?_eq_some.mpr hk,
      by simp [IdempotencyRecord.isPendingFor]⟩

/-! ## Rebalance -/

/-- The error of the branch that should never run. -/
def MinterError.isFault : MinterError → Bool
  | .internalInvariantViolated _ => true
  | _ => false

/-- A result other than `InternalInvariantViolated`. -/
def NoFault {ρ : Type} (r : Except MinterError ρ) : Prop := ∀ e, r = .error e → e.isFault = false

theorem noFault_ok {ρ : Type} (a : ρ) : NoFault (.ok a : Except MinterError ρ) := nofun

theorem noFault_error {ρ : Type} {e : MinterError} (h : e.isFault = false) :
    NoFault (.error e : Except MinterError ρ) := by
  rintro _ ⟨⟩
  exact h

/-- The two ways the first segment of a rebalance ends. -/
theorem rebalanceBegin_cases (s : State) (id : ReserveId) :
    (∃ e, e.isFault = false ∧ rebalanceBegin s id = (s, .error e)) ∨
    (∃ record, s.reserves[id]? = some record ∧ id ∉ s.reserveMintInflight ∧
      rebalanceBegin s id = (s.begin id none, .ok (s.snapshot record))) := by
  unfold rebalanceBegin
  cases hrec : s.reserves[id]? with
  | none => exact .inl ⟨_, rfl, rfl⟩
  | some record =>
    by_cases hlock : id ∈ s.reserveMintInflight
    · exact .inl ⟨.reserveOperationInProgress id, rfl, by simp [hlock]⟩
    · exact .inr ⟨record, rfl, hlock, by simp [State.begin, State.setKey, hlock]⟩

theorem getBalanceResult_error {reply : Reply Nat} {e : MinterError}
    (h : getBalanceResult reply = .error e) : e.isFault = false := by
  cases reply <;> cases h <;> rfl

theorem getBalanceResult_ok {reply : Reply Nat} {b : Nat} (h : getBalanceResult reply = .ok b) :
    reply = .answered b := by
  cases reply <;> cases h; rfl

theorem mintToResult_error {reply : Reply (Except TransferError Nat)} {e : MinterError}
    (h : mintToResult reply = .error e) : e.isFault = false := by
  unfold mintToResult at h
  split at h <;> cases h <;> rfl

theorem computeRebalance_error {config : ReserveConfig} {b m : Nat} {policy : GlobalPolicy}
    {e : MinterError} (h : computeRebalance config b m policy = .error e) :
    e = .mintingDisabled := by
  unfold computeRebalance at h
  simp only at h
  repeat' split at h
  all_goals cases h
  rfl

theorem clampToBudget_some {budget : Option Nat} {a a' : Nat} (ha : 0 < a)
    (h : clampToBudget budget a = some a') : 0 < a' ∧ a' ≤ a ∧ Within budget a' := by
  cases budget with
  | none => cases h; exact ⟨ha, Nat.le_refl _, trivial⟩
  | some b =>
    simp only [clampToBudget] at h
    split at h
    · cases h
    · next hb =>
      cases h
      simp only [within_some]
      split <;> omega

/-- A rebalance decides on the amount `a`. -/
def Decides (snap : MintSnapshot) (reply : Reply Nat) (now a : Nat) : Prop :=
  ∃ balance c, reply = .answered balance ∧
    computeRebalance snap.config balance snap.lifetimeMinted snap.policy = .ok c ∧
    c.action = .minted ∧
    clampToBudget (availableMintBudget snap.config.rateLimits snap.mintEvents now) c.mintAmount =
      some a

/-- What a rebalance decided on when it issues its transfer. -/
structure RebalanceIssued (id : ReserveId) (snap : MintSnapshot) (reply : Reply Nat) (now : Nat)
    (k : RebalanceMint) : Prop where
  reserve : k.id = id
  time : k.now = now
  balance : reply = .answered k.balance
  decided : Decides snap reply now k.mintAmount
  positive : 0 < k.mintAmount
  minted : MintedOk snap.config k.balance snap.lifetimeMinted snap.policy k.mintAmount
  rate : ∀ limits ∈ snap.config.rateLimits,
    WithinLimits limits snap.mintEvents now k.mintAmount

/-- The transfer a rebalance sends. -/
def RebalanceMint.transfer (k : RebalanceMint) (account : Account) : TransferArg :=
  mintToArg account k.mintAmount ("rebalance:" ++ toString k.id) k.now

/-- The two ways the second segment of a rebalance ends. -/
theorem rebalanceIssue_cases (s : State) (id : ReserveId) (snap : MintSnapshot)
    (reply : Reply Nat) (now : Nat) :
    (∃ r, NoFault r ∧ (∀ a, ¬ Decides snap reply now a) ∧
      rebalanceIssue s id snap reply now = (s.drop id none, .ended r)) ∨
    (∃ k, RebalanceIssued id snap reply now k ∧ rebalanceIssue s id snap reply now =
      (s, .transfer snap.ledgerId (k.transfer snap.config.account) k)) := by
  unfold rebalanceIssue
  rw [releaseMintLock_eq_drop]
  cases hbal : getBalanceResult reply with
  | error e =>
    refine .inl ⟨.error e, noFault_error (getBalanceResult_error hbal), ?_, rfl⟩
    rintro a ⟨balance, c, rfl, -⟩
    cases hbal
  | ok balance =>
    obtain rfl := getBalanceResult_ok hbal
    have hdec : ∀ a, Decides snap (.answered balance) now a ↔
        ∃ c, computeRebalance snap.config balance snap.lifetimeMinted snap.policy = .ok c ∧
          c.action = .minted ∧ clampToBudget (availableMintBudget snap.config.rateLimits
            snap.mintEvents now) c.mintAmount = some a := by
      simp [Decides]
    simp only [hdec]
    cases hc : computeRebalance snap.config balance snap.lifetimeMinted snap.policy with
    | error e =>
      exact .inl ⟨.error e, noFault_error (by rw [computeRebalance_error hc]; rfl), by simp, rfl⟩
    | ok c =>
      simp only [Except.ok.injEq, exists_eq_left']
      cases ha : c.action with
      | minted =>
        obtain ⟨hpos, hok⟩ := computeRebalance_minted hc ha
        simp only
        split
        · next hclamp => exact .inl ⟨_, noFault_ok _, by simp [hclamp], rfl⟩
        · next a hclamp =>
          obtain ⟨ha', hle, hw⟩ := clampToBudget_some hpos hclamp
          refine .inr ⟨⟨id, balance, a, now⟩,
            ⟨rfl, rfl, rfl, (hdec a).mpr ⟨c, hc, ha, hclamp⟩, ha', hok.mono hle, ?_⟩, rfl⟩
          intro limits hl
          rw [Option.mem_def.mp hl] at hw
          exact (within_budget_iff ha').mp hw
      | alreadyFunded => exact .inl ⟨_, noFault_ok _, by simp, rfl⟩
      | skipped reason => exact .inl ⟨_, noFault_ok _, by simp, rfl⟩

/-- The three ways the last segment of a rebalance ends. -/
theorem rebalanceCommit_cases (s : State) (k : RebalanceMint)
    (reply : Reply (Except TransferError Nat)) :
    (∃ e, mintToResult reply = .error e ∧
      rebalanceCommit s k reply = (s.drop k.id none, .error e)) ∨
    (∃ block, mintToResult reply = .ok block ∧ s.reserves[k.id]? = none ∧
      rebalanceCommit s k reply = (s.drop k.id none, .error reserveMissing)) ∨
    (∃ block record, mintToResult reply = .ok block ∧ s.reserves[k.id]? = some record ∧
      rebalanceCommit s k reply = (s.commit k.id none record k.mintAmount k.now block,
        .ok { reserveId := k.id, action := .minted, balanceBefore := k.balance,
              mintedAmount := k.mintAmount, ledgerBlockIndex := some block })) := by
  unfold rebalanceCommit
  cases hr : mintToResult reply with
  | error e => exact .inl ⟨e, rfl, rfl⟩
  | ok block =>
    refine .inr ?_
    cases hrec : s.reserves[k.id]? with
    | none => exact .inl ⟨block, rfl, rfl, by simp [releaseMintLock, hrec, State.drop,
        dropPending]⟩
    | some record => exact .inr ⟨block, record, rfl, rfl, by simp [releaseMintLock, hrec,
        State.commit, State.setKey]⟩

/-! ## Manual top-up -/

/-- What a manual top-up was checked against when it issues its transfer. -/
@[mk_iff]
structure TopupOk (arg : ManualTopupArg) (policy : GlobalPolicy) (config : ReserveConfig)
    (lifetimeMinted : Nat) (mintEvents : List MintEvent) (now : Nat) : Prop where
  mintingEnabled : policy.mintingEnabled = true
  enabled : config.enabled = true
  allowManualTopup : config.allowManualTopup = true
  perOperation : Within policy.maxMintPerOperation arg.amount
  lifetime : Within config.lifetimeReceivedMaximum (lifetimeMinted + arg.amount)
  rate : ∀ limits ∈ config.rateLimits, WithinLimits limits mintEvents now arg.amount

/-- The call is answered neither from the map nor with an error: it issues its transfer. -/
structure Starts (s : State) (arg : ManualTopupArg) (now : Nat) (record : ReserveRecord) :
    Prop where
  registered : s.reserves[arg.reserveId]? = some record
  unlocked : arg.reserveId ∉ s.reserveMintInflight
  free : ∀ k ∈ arg.idempotencyKey, s.idempotency[k]? = none
  valid : validateManualTopupInputs arg s.globalPolicy record.config record.lifetimeMinted
    record.mintEvents now = .ok ()

theorem ite_error_eq_ok {ε α : Type} {p : Prop} [Decidable p] {e : ε} {x : Except ε α} {a : α} :
    (if p then .error e else x) = .ok a ↔ ¬ p ∧ x = .ok a := by
  by_cases hp : p <;> simp [hp]

theorem validateManualTopupInputs_ok {arg : ManualTopupArg} {policy : GlobalPolicy}
    {config : ReserveConfig} {m : Nat} {events : List MintEvent} {now : Nat} :
    validateManualTopupInputs arg policy config m events now = .ok () ↔
      TopupOk arg policy config m events now := by
  simp only [validateManualTopupInputs, bind, Except.bind, pure, Except.pure, throw, throwThe,
    MonadExceptOf.throw, ite_error_eq_ok, Bool.not_eq_true', Bool.not_eq_false, topupOk_iff]
  refine and_congr Iff.rfl (and_congr Iff.rfl (and_congr Iff.rfl ?_))
  -- the three optional checks, each present or absent
  cases policy.maxMintPerOperation <;> cases config.lifetimeReceivedMaximum <;>
    rcases config.rateLimits with _ | limits <;>
    simp [ite_error_eq_ok, ← checkRateLimits_ok] <;>
    cases checkRateLimits limits events arg.amount now <;> simp

theorem checkWindows_error {events : List MintEvent} {a nowNs : Nat} {e : MinterError} :
    ∀ {l : List (Option Nat × Nat × String)}, checkWindows events a nowNs l = .error e →
      e.isFault = false
  | [], h => by cases h
  | (none, _, _) :: l, h => checkWindows_error (l := l) h
  | (some limit, w, label) :: l, h => by
    simp only [checkWindows] at h
    split at h
    · cases h; rfl
    · exact checkWindows_error h

theorem validateManualTopupInputs_error {arg : ManualTopupArg} {policy : GlobalPolicy}
    {config : ReserveConfig} {m : Nat} {events : List MintEvent} {now : Nat} {e : MinterError}
    (h : validateManualTopupInputs arg policy config m events now = .error e) :
    e.isFault = false := by
  simp only [validateManualTopupInputs, bind, Except.bind, pure, Except.pure, throw, throwThe,
    MonadExceptOf.throw] at h
  repeat' split at h
  all_goals cases h
  all_goals first
    | rfl
    | exact checkWindows_error ‹_›

/-- The two ways the reserve and lock checks of a top-up end. -/
theorem manualTopupStart_cases (s : State) (arg : ManualTopupArg) :
    (∃ e, e.isFault = false ∧ manualTopupStart s arg = (s, .error e)) ∨
    (∃ record, s.reserves[arg.reserveId]? = some record ∧
      arg.reserveId ∉ s.reserveMintInflight ∧
      manualTopupStart s arg =
        (s.begin arg.reserveId arg.idempotencyKey, .ok (.started (s.snapshot record)))) := by
  unfold manualTopupStart
  cases hrec : s.reserves[arg.reserveId]? with
  | none => exact .inl ⟨_, rfl, rfl⟩
  | some record =>
    by_cases hlock : arg.reserveId ∈ s.reserveMintInflight
    · exact .inl ⟨.reserveOperationInProgress arg.reserveId, rfl, by simp [hlock]⟩
    · exact .inr ⟨record, rfl, hlock, by simp [State.begin, hlock]⟩

/-- A key that is not free answers by itself. -/
theorem manualTopupBegin_key (s : State) (arg : ManualTopupArg) :
    (∃ r, NoFault r ∧ (∀ snap, r ≠ .ok (.started snap)) ∧ manualTopupBegin s arg = (s, r)) ∨
    ((∀ k ∈ arg.idempotencyKey, s.idempotency[k]? = none) ∧
      manualTopupBegin s arg = manualTopupStart s arg) := by
  unfold manualTopupBegin
  cases hkey : arg.idempotencyKey with
  | none => exact .inr ⟨nofun, rfl⟩
  | some k =>
    cases hk : s.idempotency[k]? with
    | none => exact .inr ⟨by simpa using hk, by simp [hk]⟩
    | some r =>
      cases r with
      | pending rid =>
        exact .inl ⟨.error (.idempotencyOperationInProgress k), noFault_error rfl, by simp,
          by simp [hk]⟩
      | completed e =>
        exact .inl ⟨.ok (.cached e.response), noFault_ok _, by simp, by simp [hk]⟩

/-- The two ways `manualTopupBegin` ends: nothing taken, or lock and key taken. -/
theorem manualTopupBegin_cases (s : State) (arg : ManualTopupArg) :
    (∃ r, NoFault r ∧ (∀ snap, r ≠ .ok (.started snap)) ∧ manualTopupBegin s arg = (s, r)) ∨
    (∃ record, s.reserves[arg.reserveId]? = some record ∧
      arg.reserveId ∉ s.reserveMintInflight ∧
      (∀ k ∈ arg.idempotencyKey, s.idempotency[k]? = none) ∧
      manualTopupBegin s arg =
        (s.begin arg.reserveId arg.idempotencyKey, .ok (.started (s.snapshot record)))) := by
  rcases manualTopupBegin_key s arg with h | ⟨hfree, heq⟩
  · exact .inl h
  · rcases manualTopupStart_cases s arg with ⟨e, he, h⟩ | ⟨record, hrec, hlock, h⟩
    · exact .inl ⟨.error e, noFault_error he, by simp, heq.trans h⟩
    · exact .inr ⟨record, hrec, hlock, hfree, heq.trans h⟩

/-- The transfer a manual top-up sends. -/
def TopupMint.transfer (k : TopupMint) (account : Account) : TransferArg :=
  mintToArg account k.arg.amount k.arg.memo k.now

/-- The two ways the first segment of a manual top-up ends: with the state as it
was, or with lock and key taken and the transfer on its way. -/
theorem manualTopupIssue_cases (s : State) (arg : ManualTopupArg) (now : Nat) :
    (∃ r, NoFault r ∧ manualTopupIssue s arg now = (s, .ended r)) ∨
    (∃ record, s.reserves[arg.reserveId]? = some record ∧
      arg.reserveId ∉ s.reserveMintInflight ∧
      (∀ k ∈ arg.idempotencyKey, s.idempotency[k]? = none) ∧
      TopupOk arg s.globalPolicy record.config record.lifetimeMinted record.mintEvents now ∧
      manualTopupIssue s arg now = (s.begin arg.reserveId arg.idempotencyKey,
        .transfer s.ledgerId (TopupMint.transfer ⟨arg, now⟩ record.config.account)
          ⟨arg, now⟩)) := by
  unfold manualTopupIssue
  rcases manualTopupBegin_cases s arg with ⟨r, hr, hns, h⟩ | ⟨record, hrec, hlock, hkey, h⟩
  · rw [h]
    cases r with
    | error e => exact .inl ⟨_, noFault_error (hr e rfl), rfl⟩
    | ok b =>
      cases b with
      | cached r => exact .inl ⟨_, noFault_ok r, rfl⟩
      | started snap => exact (hns snap rfl).elim
  · rw [h]
    simp only
    split
    · next e hv =>
      rw [rollbackManualMintBegin_eq, drop_begin hlock hkey]
      exact .inl ⟨_, noFault_error (validateManualTopupInputs_error hv), rfl⟩
    · next hv =>
      exact .inr ⟨record, hrec, hlock, hkey, validateManualTopupInputs_ok.mp hv, rfl⟩

/-- A completed key is answered from the map. -/
theorem manualTopupIssue_completed {s : State} {arg : ManualTopupArg} {k : String}
    {e : IdempotencyEntry} (hkey : arg.idempotencyKey = some k)
    (hk : s.idempotency[k]? = some (IdempotencyRecord.completed e)) (now : Nat) :
    manualTopupIssue s arg now = (s, .ended (.ok e.response)) := by
  simp [manualTopupIssue, manualTopupBegin, hkey, hk]

/-- The three ways the last segment of a manual top-up ends. -/
theorem manualTopupCommit_cases (s : State) (k : TopupMint)
    (reply : Reply (Except TransferError Nat)) :
    (∃ e, mintToResult reply = .error e ∧ manualTopupCommit s k reply =
      (s.drop k.arg.reserveId k.arg.idempotencyKey, .error e)) ∨
    (∃ block, mintToResult reply = .ok block ∧ s.reserves[k.arg.reserveId]? = none ∧
      manualTopupCommit s k reply = (s.drop k.arg.reserveId none, .error reserveMissing)) ∨
    (∃ block record, mintToResult reply = .ok block ∧
      s.reserves[k.arg.reserveId]? = some record ∧ manualTopupCommit s k reply =
        (s.commit k.arg.reserveId k.arg.idempotencyKey record k.arg.amount k.now block,
          .ok { reserveId := k.arg.reserveId, mintedAmount := k.arg.amount,
                ledgerBlockIndex := block })) := by
  unfold manualTopupCommit
  cases hr : mintToResult reply with
  | error e => exact .inl ⟨e, rfl, by rw [rollbackManualMintBegin_eq]⟩
  | ok block =>
    refine .inr ?_
    cases hrec : s.reserves[k.arg.reserveId]? with
    | none => exact .inl ⟨block, rfl, rfl, by simp [releaseMintLock, hrec, State.drop,
        dropPending]⟩
    | some record => exact .inr ⟨block, record, rfl, rfl, by simp [releaseMintLock, hrec,
        State.commit]⟩

end ViciMinter
