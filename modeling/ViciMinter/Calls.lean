import ViciMinter.Lib.Serial
import ViciMinter.Recovery
import ViciMinter.Registry
import ViciMinter.Solo

/-!
# Calls that are not interrupted

Every call of the minter as one action on the state, with the replies that it gets
(`Call.run`). A rebalance or a top-up acts on its reserve and its key alone, by an
`Effect`: the mint of its amount, or nothing (`ActsBy`). A call that spares these
commutes with the effect, so calls with their effects are a `Serial.System`, and
`calls_lawful` its laws.
-/

namespace ViciMinter

open Lts

/-! ## States at rest -/

def IdempotencyRecord.isCompleted : IdempotencyRecord → Bool
  | .pending _ => false
  | .completed _ => true

/-- The state without its locks and pending keys. -/
def State.atRest (s : State) : State :=
  { s with
    idempotency := s.idempotency.filter fun _ r => r.isCompleted
    reserveMintInflight := ∅ }

section
variable {s t : State} {id : ReserveId} {key : Option String}

theorem State.ext_getElem? (hledger : s.ledgerId = t.ledgerId)
    (hnext : s.nextReserveId = t.nextReserveId)
    (hreserves : ∀ r : ReserveId, s.reserves[r]? = t.reserves[r]?)
    (hpolicy : s.globalPolicy = t.globalPolicy)
    (hkeys : ∀ k : String, s.idempotency[k]? = t.idempotency[k]?)
    (hlocks : s.reserveMintInflight = t.reserveMintInflight) : s = t := by
  have hres : s.reserves = t.reserves := Std.ExtTreeMap.ext_getElem? fun {r} => hreserves r
  have hidem : s.idempotency = t.idempotency := Std.ExtTreeMap.ext_getElem? fun {k} => hkeys k
  cases s
  cases t
  simp only [State.mk.injEq]
  exact ⟨hledger, hnext, hres, hpolicy, hidem, hlocks⟩

@[simp] theorem atRest_ledgerId : s.atRest.ledgerId = s.ledgerId := rfl
@[simp] theorem atRest_nextReserveId : s.atRest.nextReserveId = s.nextReserveId := rfl
@[simp] theorem atRest_reserves : s.atRest.reserves = s.reserves := rfl
@[simp] theorem atRest_globalPolicy : s.atRest.globalPolicy = s.globalPolicy := rfl
@[simp] theorem atRest_inflight : s.atRest.reserveMintInflight = ∅ := rfl

theorem atRest_getElem? (k : String) :
    s.atRest.idempotency[k]? = s.idempotency[k]?.filter IdempotencyRecord.isCompleted :=
  Std.ExtTreeMap.getElem?_filter'

theorem atRest_completed {k : String} {e : IdempotencyEntry}
    (h : s.idempotency[k]? = some (IdempotencyRecord.completed e)) :
    s.atRest.idempotency[k]? = some (IdempotencyRecord.completed e) := by
  rw [atRest_getElem?, h]
  rfl

theorem atRest_none {k : String} (h : s.idempotency[k]? = none) :
    s.atRest.idempotency[k]? = none := by
  rw [atRest_getElem?, h]
  rfl

/-- A release and a rollback are not seen at rest. -/
theorem atRest_drop (s : State) (id : ReserveId) (key : Option String) :
    (s.drop id key).atRest = s.atRest := by
  refine State.ext_getElem? rfl rfl (fun _ => rfl) rfl (fun k => ?_) rfl
  rw [atRest_getElem?, atRest_getElem?, drop_idempotency, dropPending_getElem?]
  split
  · next h =>
    rw [h.2]
    rfl
  · rfl

/-- Nor is a lock that is taken, or a key that becomes pending. -/
theorem atRest_begin (hkey : ∀ k ∈ key, s.idempotency[k]? = none) :
    (s.begin id key).atRest = s.atRest := by
  refine State.ext_getElem? ?_ (by simp) (fun _ => by simp) ?_ (fun k => ?_) rfl
  · cases key <;> rfl
  · cases key <;> rfl
  · rw [atRest_getElem?, atRest_getElem?, begin_getElem?]
    split
    · next h =>
      rw [hkey k h]
      rfl
    · rfl

end

/-! ## The effect of a mint -/

/-- The reserve and the key that an operation changes. -/
structure Footprint where
  id : ReserveId
  key : Option String
  deriving DecidableEq, Repr

/-- What an operation on `target` leaves when it ends: a mint with its block, or
nothing. -/
structure Effect where
  target : Footprint
  mint : Option (MintEvent × Nat)
  deriving DecidableEq, Repr

def Effect.apply (e : Effect) (s : State) : State :=
  match e.mint, s.reserves[e.target.id]? with
  | some (m, block), some record =>
    { s with
      reserves := s.reserves.insert e.target.id (record.mint m.amount m.timestampNs) }.setKey
        e.target.key (.completed { ledgerBlockIndex := block, mintedAmount := m.amount,
                                   reserveId := e.target.id, executedAtNs := m.timestampNs })
  | _, _ => s

section
variable (e : Effect) (s : State)

@[simp] theorem setKey_ledgerId (key : Option String) (r : IdempotencyRecord) :
    (s.setKey key r).ledgerId = s.ledgerId := by cases key <;> rfl

@[simp] theorem setKey_globalPolicy (key : Option String) (r : IdempotencyRecord) :
    (s.setKey key r).globalPolicy = s.globalPolicy := by cases key <;> rfl

@[simp] theorem apply_ledgerId : (e.apply s).ledgerId = s.ledgerId := by
  unfold Effect.apply
  split <;> simp

@[simp] theorem apply_nextReserveId : (e.apply s).nextReserveId = s.nextReserveId := by
  unfold Effect.apply
  split <;> simp

@[simp] theorem apply_globalPolicy : (e.apply s).globalPolicy = s.globalPolicy := by
  unfold Effect.apply
  split <;> simp

@[simp] theorem apply_inflight : (e.apply s).reserveMintInflight = s.reserveMintInflight := by
  unfold Effect.apply
  split <;> simp

/-- The record that the effect leaves. -/
def Effect.record (e : Effect) (record : ReserveRecord) : ReserveRecord :=
  match e.mint with
  | some (m, _) => record.mint m.amount m.timestampNs
  | none => record

/-- What the effect stores under its key. -/
def Effect.entry (e : Effect) : Option IdempotencyRecord :=
  e.mint.map fun p => .completed { ledgerBlockIndex := p.2, mintedAmount := p.1.amount,
                                   reserveId := e.target.id, executedAtNs := p.1.timestampNs }

theorem apply_record (r : ReserveId) : (e.apply s).reserves[r]? =
    if e.target.id = r then s.reserves[r]?.map e.record else s.reserves[r]? := by
  unfold Effect.apply Effect.record
  cases hm : e.mint with
  | none => simp
  | some p =>
    cases hrec : s.reserves[e.target.id]? with
    | none =>
      by_cases hr : e.target.id = r
      · subst hr
        simp [hrec]
      · simp [hr]
    | some record =>
      simp only [setKey_reserves, Std.ExtTreeMap.getElem?_insert,
        Std.LawfulEqCmp.compare_eq_iff_eq]
      by_cases hr : e.target.id = r
      · subst hr
        simp [hrec]
      · simp [hr]

theorem apply_getElem? {record : ReserveRecord} (hrec : s.reserves[e.target.id]? = some record)
    (k : String) : (e.apply s).idempotency[k]? =
      if e.target.key = some k then e.entry <|> s.idempotency[k]? else s.idempotency[k]? := by
  unfold Effect.apply Effect.entry
  cases hm : e.mint with
  | none => simp
  | some p => simp [hrec, setKey_getElem?]

end


section
variable {e e' : Effect} {s : State} {id : ReserveId} {key : Option String}

theorem apply_other {r : ReserveId} (hr : r ≠ e.target.id) :
    (e.apply s).reserves[r]? = s.reserves[r]? := by
  rw [apply_record, if_neg fun h => hr h.symm]

theorem apply_key {k : String} (hk : e.target.key ≠ some k) :
    (e.apply s).idempotency[k]? = s.idempotency[k]? := by
  cases hrec : s.reserves[e.target.id]? with
  | none =>
    unfold Effect.apply
    cases e.mint <;> simp [hrec]
  | some record => rw [apply_getElem? e s hrec, if_neg hk]

/-- Effects do not unregister reserves. -/
theorem apply_registered {r : ReserveId} {record : ReserveRecord}
    (hrec : s.reserves[r]? = some record) : ∃ record', (e.apply s).reserves[r]? = some record' := by
  rw [apply_record, hrec]
  split
  · exact ⟨_, rfl⟩
  · exact ⟨_, rfl⟩

/-- A mint that is recorded is an effect at rest. -/
theorem atRest_commit {record : ReserveRecord} {m : MintEvent} {block : Nat}
    (hrec : s.reserves[id]? = some record) :
    (s.commit id key record m.amount m.timestampNs block).atRest =
      Effect.apply ⟨⟨id, key⟩, some (m, block)⟩ s.atRest := by
  have hrest : s.atRest.reserves[id]? = some record := hrec
  refine State.ext_getElem? ?_ (by simp) (fun r => ?_) ?_ (fun k => ?_) (by simp)
  · cases key <;> simp [State.commit, State.setKey, releaseMintLock]
  · rw [apply_record, atRest_reserves, commit_record, atRest_reserves]
    by_cases hr : id = r
    · subst hr
      simp [hrec, Effect.record]
    · simp [hr]
  · cases key <;> simp [State.commit, State.setKey, releaseMintLock]
  · rw [apply_getElem? _ _ hrest, atRest_getElem?, atRest_getElem?, commit_getElem?]
    split <;> rfl

/-- Two effects on reserves and keys of their own come in either order. -/
theorem apply_comm (hid : e.target.id ≠ e'.target.id)
    (hkey : ∀ k, e.target.key = some k → e'.target.key ≠ some k)
    (hreg : ∃ record, s.reserves[e.target.id]? = some record)
    (hreg' : ∃ record, s.reserves[e'.target.id]? = some record) :
    e.apply (e'.apply s) = e'.apply (e.apply s) := by
  obtain ⟨record, hrec⟩ := hreg
  obtain ⟨record', hrec'⟩ := hreg'
  have hr : (e'.apply s).reserves[e.target.id]? = some record := by rw [apply_other hid, hrec]
  have hr' : (e.apply s).reserves[e'.target.id]? = some record' := by
    rw [apply_other hid.symm, hrec']
  refine State.ext_getElem? (by simp) (by simp) (fun r => ?_) (by simp) (fun k => ?_) (by simp)
  · simp only [apply_record]
    by_cases h : e.target.id = r
    · subst h
      simp [hid.symm]
    · simp [h]
  · rw [apply_getElem? e _ hr, apply_getElem? e' _ hr', apply_getElem? e _ hrec,
      apply_getElem? e' _ hrec']
    by_cases h : e.target.key = some k
    · simp [h, hkey k h]
    · simp [h]

end

/-! ## Calls that run at once -/

/-- What a top-up whose key is free does: end, or mint. -/
def startDecision (s : State) (arg : ManualTopupArg) (now : Nat) :
    Except MinterError ManualTopupResponse ⊕ ReserveRecord :=
  match s.reserves[arg.reserveId]? with
  | none => .inl (.error (.reserveNotFound arg.reserveId))
  | some record =>
    if arg.reserveId ∈ s.reserveMintInflight then
      .inl (.error (.reserveOperationInProgress arg.reserveId))
    else
      match validateManualTopupInputs arg s.globalPolicy record.config record.lifetimeMinted
          record.mintEvents now with
      | .error e => .inl (.error e)
      | .ok () => .inr record

def topupDecision (s : State) (arg : ManualTopupArg) (now : Nat) :
    Except MinterError ManualTopupResponse ⊕ ReserveRecord :=
  match arg.idempotencyKey with
  | none => startDecision s arg now
  | some k =>
    match s.idempotency[k]? with
    | some (.completed e) => .inl (.ok e.response)
    | some (.pending _) => .inl (.error (.idempotencyOperationInProgress k))
    | none => startDecision s arg now

theorem manualTopupBegin_start {s : State} {arg : ManualTopupArg} (now : Nat)
    (hkey : ∀ k ∈ arg.idempotencyKey, s.idempotency[k]? = none)
    (hbegin : manualTopupBegin s arg = manualTopupStart s arg) :
    manualTopupIssue s arg now =
      match startDecision s arg now with
      | .inl r => (s, .ended r)
      | .inr record => (s.begin arg.reserveId arg.idempotencyKey, .transfer s.ledgerId
          (TopupMint.transfer ⟨arg, now⟩ record.config.account) ⟨arg, now⟩) := by
  unfold manualTopupIssue startDecision
  rw [hbegin]
  unfold manualTopupStart
  cases hrec : s.reserves[arg.reserveId]? with
  | none => rfl
  | some record =>
    by_cases hlock : arg.reserveId ∈ s.reserveMintInflight
    · simp [hlock]
    · have hfree : s.reserveMintInflight.contains arg.reserveId = false :=
        Bool.eq_false_iff.mpr (by simpa using hlock)
      simp only [hfree, Bool.false_eq_true, if_false, if_neg hlock, State.snapshot]
      cases hv : validateManualTopupInputs arg s.globalPolicy record.config record.lifetimeMinted
        record.mintEvents now with
      | error e =>
        simp only [rollbackManualMintBegin_eq]
        exact congrArg (·, Segment.ended (.error e)) (drop_begin hlock hkey)
      | ok u => rfl

/-- The first segment of a top-up, by its decision. -/
theorem manualTopupIssue_eq (s : State) (arg : ManualTopupArg) (now : Nat) :
    manualTopupIssue s arg now =
      match topupDecision s arg now with
      | .inl r => (s, .ended r)
      | .inr record => (s.begin arg.reserveId arg.idempotencyKey, .transfer s.ledgerId
          (TopupMint.transfer ⟨arg, now⟩ record.config.account) ⟨arg, now⟩) := by
  cases hkey : arg.idempotencyKey with
  | none =>
    have heq : topupDecision s arg now = startDecision s arg now := by simp [topupDecision, hkey]
    rw [heq, ← hkey]
    exact manualTopupBegin_start now (by simp [hkey]) (by simp [manualTopupBegin, hkey])
  | some k =>
    cases hk : s.idempotency[k]? with
    | none =>
      have hfree : ∀ k' ∈ arg.idempotencyKey, s.idempotency[k']? = none := by
        intro k' hk'
        cases hkey.symm.trans hk'
        exact hk
      have heq : topupDecision s arg now = startDecision s arg now := by
        simp [topupDecision, hkey, hk]
      rw [heq, ← hkey]
      exact manualTopupBegin_start now hfree (by simp [manualTopupBegin, hkey, hk])
    | some r => cases r <;> simp [manualTopupIssue, manualTopupBegin, topupDecision, hkey, hk]

/-- What a mint of `a` at `now` leaves once it is block `block`. -/
def mintEffect (id : ReserveId) (key : Option String) (a now block : Nat) : Effect :=
  ⟨⟨id, key⟩, some (⟨now, a⟩, block)⟩

theorem atRest_mint {s : State} {id : ReserveId} {key : Option String} {record : ReserveRecord}
    {a now block : Nat} (hrec : s.reserves[id]? = some record) :
    (s.commit id key record a now block).atRest =
      (mintEffect id key a now block).apply s.atRest :=
  let m : MintEvent := ⟨now, a⟩
  show (s.commit id key record m.amount m.timestampNs block).atRest = _ from atRest_commit hrec

/-- A top-up whose transfer is answered. -/
def settleTopup (s : State) (k : TopupMint) (reply : Reply (Except TransferError Nat)) :
    State × Except MinterError ManualTopupResponse :=
  match mintToResult reply with
  | .error e => (s, .error e)
  | .ok block =>
    ((mintEffect k.arg.reserveId k.arg.idempotencyKey k.arg.amount k.now block).apply s,
      .ok { reserveId := k.arg.reserveId, mintedAmount := k.arg.amount, ledgerBlockIndex := block })

theorem topupDecision_inr {s : State} {arg : ManualTopupArg} {now : Nat} {record : ReserveRecord} :
    topupDecision s arg now = .inr record ↔ Starts s arg now record := by
  have hstart : startDecision s arg now = .inr record ↔
      s.reserves[arg.reserveId]? = some record ∧ arg.reserveId ∉ s.reserveMintInflight ∧
      validateManualTopupInputs arg s.globalPolicy record.config record.lifetimeMinted
        record.mintEvents now = .ok () := by
    unfold startDecision
    cases hrec : s.reserves[arg.reserveId]? with
    | none => simp
    | some r =>
      simp only [Option.some.injEq]
      split
      · next hlock => simp [hlock]
      · next hlock =>
        split
        · next hv =>
          simp only [reduceCtorEq, false_iff]
          rintro ⟨rfl, -, hok⟩
          cases hv.symm.trans hok
        · next hv =>
          simp only [Sum.inr.injEq, hlock, not_false_eq_true, true_and]
          constructor
          · rintro rfl
            exact ⟨rfl, hv⟩
          · exact fun h => h.1
  cases hkey : arg.idempotencyKey with
  | none =>
    have heq : topupDecision s arg now = startDecision s arg now := by simp [topupDecision, hkey]
    rw [heq, hstart]
    exact ⟨fun ⟨hr, hl, hv⟩ => ⟨hr, hl, by simp [hkey], hv⟩,
      fun h => ⟨h.registered, h.unlocked, h.valid⟩⟩
  | some k =>
    cases hk : s.idempotency[k]? with
    | none =>
      have heq : topupDecision s arg now = startDecision s arg now := by
        simp [topupDecision, hkey, hk]
      rw [heq, hstart]
      exact ⟨fun ⟨hr, hl, hv⟩ => ⟨hr, hl, by simpa [hkey] using hk, hv⟩,
        fun h => ⟨h.registered, h.unlocked, h.valid⟩⟩
    | some r =>
      have hno : ¬ Starts s arg now record := by
        intro h
        cases hk.symm.trans (h.free k hkey)
      cases r <;> simp [topupDecision, hkey, hk, hno]

/-- What a top-up leaves at once is the effect of its mint. -/
theorem commit_begin {s : State} {id : ReserveId} {key : Option String} {record : ReserveRecord}
    (hrec : s.reserves[id]? = some record) (hlock : id ∉ s.reserveMintInflight)
    (a now block : Nat) :
    (s.begin id key).commit id key record a now block =
      (mintEffect id key a now block).apply s := by
  refine State.ext_getElem? ?_ (by simp) (fun r => ?_) ?_ (fun k => ?_) ?_
  · cases key <;> simp [State.commit, State.begin, State.setKey, releaseMintLock]
  · rw [apply_record, commit_record, begin_reserves]
    by_cases hr : id = r
    · subst hr
      simp [hrec, mintEffect, Effect.record]
    · simp [hr, mintEffect]
  · cases key <;> simp [State.commit, State.begin, State.setKey, releaseMintLock]
  · rw [apply_getElem? _ _ hrec, commit_getElem?, begin_getElem?]
    by_cases hk : key = some k
    · simp [hk, mintEffect, Effect.entry]
    · simp [hk, mintEffect]
  · refine Std.ExtTreeSet.ext_mem fun r => ?_
    rw [mem_commit, mem_begin, apply_inflight]
    constructor
    · rintro ⟨hne, rfl | hr⟩
      · exact (hne rfl).elim
      · exact hr
    · intro hr
      refine ⟨?_, .inr hr⟩
      rintro rfl
      exact hlock hr

theorem manualTopupReserveImpl_eq (s : State) (arg : ManualTopupArg) (now : Nat)
    (reply : Reply (Except TransferError Nat)) : manualTopupReserveImpl s arg now reply =
      match topupDecision s arg now with
      | .inl r => (s, r)
      | .inr _ => settleTopup s ⟨arg, now⟩ reply := by
  unfold manualTopupReserveImpl
  rw [manualTopupIssue_eq]
  cases hd : topupDecision s arg now with
  | inl r => rfl
  | inr record =>
    have hstart := topupDecision_inr.mp hd
    have hreg : (s.begin arg.reserveId arg.idempotencyKey).reserves[arg.reserveId]? =
        some record := by rw [begin_reserves, hstart.registered]
    simp only [settleTopup]
    rcases manualTopupCommit_cases (s.begin arg.reserveId arg.idempotencyKey) ⟨arg, now⟩ reply with
      ⟨e, he, hc⟩ | ⟨block, -, hnone, -⟩ | ⟨block, record', hb, hrec', hc⟩
    · rw [hc, he, drop_begin hstart.unlocked hstart.free]
    · cases hreg.symm.trans hnone
    · cases hreg.symm.trans hrec'
      rw [hc, hb, commit_begin hstart.registered hstart.unlocked]

/-- A rebalance in one go, by its effect. -/
theorem settleRebalance_eq {s : State} {record : ReserveRecord} {k : RebalanceMint}
    (hrec : s.reserves[k.id]? = some record) (reply : Reply (Except TransferError Nat)) :
    settleRebalance s record k reply =
      match mintToResult reply with
      | .error e => (s, .error e)
      | .ok block => ((mintEffect k.id none k.mintAmount k.now block).apply s,
          .ok { reserveId := k.id, action := .minted, balanceBefore := k.balance,
                mintedAmount := k.mintAmount, ledgerBlockIndex := some block }) := by
  unfold settleRebalance Effect.apply mintEffect
  cases mintToResult reply with
  | error e => rfl
  | ok block => simp [hrec, State.setKey]


/-- A call, with what the ledger and the clock answer to it. -/
inductive Call where
  | addReserve (arg : AddReserveArg)
  | updateReserve (arg : UpdateReserveArg)
  | removeReserve (id : ReserveId)
  | setGlobalPolicy (policy : GlobalPolicy)
  | rebalance (id : ReserveId) (env : Replies)
  | manualTopup (arg : ManualTopupArg) (now : Nat) (reply : Reply (Except TransferError Nat))

/-- The call from its beginning to its end, with nothing in between. -/
def Call.run : Call → State → State × Output
  | addReserve arg, s =>
    let (s, r) := addReserveImpl s arg
    (s, .added r)
  | updateReserve arg, s =>
    let (s, r) := updateReserveImpl s arg
    (s, .updated r)
  | removeReserve id, s =>
    let (s, r) := removeReserveImpl s id
    (s, .removed r)
  | setGlobalPolicy policy, s =>
    let (s, r) := setGlobalPolicyImpl s policy
    (s, .policySet r)
  | rebalance id env, s =>
    let (s, r) := rebalanceOne env s id
    (s, .rebalanced r)
  | manualTopup arg now reply, s =>
    let (s, r) := manualTopupReserveImpl s arg now reply
    (s, .toppedUp r)

/-- The call does not meet what `f` stands for. A replay meets nothing. -/
def Call.Spares (f : Footprint) : Call → State → Prop
  | addReserve _, s => s.nextReserveId ≠ f.id
  | updateReserve _, _ => True
  | removeReserve id, _ => id ≠ f.id
  | setGlobalPolicy _, _ => True
  | rebalance id _, _ => id ≠ f.id
  | manualTopup arg _ _, s =>
    (∃ k e, arg.idempotencyKey = some k ∧
      s.idempotency[k]? = some (IdempotencyRecord.completed e)) ∨
    arg.reserveId ≠ f.id ∧ ∀ k, arg.idempotencyKey = some k → f.key ≠ some k

/-- A mint for `f` can still be recorded. -/
structure Footprint.Free (f : Footprint) (s : State) : Prop where
  registered : ∃ record, s.reserves[f.id]? = some record
  key : ∀ k, f.key = some k → s.idempotency[k]? = none

structure Footprint.Apart (f g : Footprint) : Prop where
  id : f.id ≠ g.id
  key : ∀ k, f.key = some k → g.key ≠ some k

def Op.footprint (op : Op) : Footprint := ⟨op.reserveId, op.key⟩

/-- The operation could have begun in this state, and would be where it is. -/
def Op.Ready : Op → State → Prop
  | .awaitBalance id snap, s => id ∉ s.reserveMintInflight ∧
    ∃ record, s.reserves[id]? = some record ∧ s.snapshot record = snap
  | .awaitRebalance k, s => k.id ∉ s.reserveMintInflight ∧
    ∃ record, s.reserves[k.id]? = some record ∧
      rebalanceDecision k.id (s.snapshot record) (.answered k.balance) k.now = .inr k
  | .awaitTopup k, s => ∃ record, Starts s k.arg k.now record

/-- The minter as a system of calls. -/
def calls : Serial.System State Call Output Op Effect Footprint where
  run := Call.run
  effect := Effect.apply
  footprint := Op.footprint
  target := Effect.target
  ready := Op.Ready
  free f s := f.Free s
  spares f a s := a.Spares f s
  apart f g := f.Apart g

/-! ## Calls and effects commute -/

/-- The states are alike for an operation on `f`. -/
structure Footprint.Alike (f : Footprint) (s t : State) : Prop where
  ledgerId : t.ledgerId = s.ledgerId
  record : t.reserves[f.id]? = s.reserves[f.id]?
  globalPolicy : t.globalPolicy = s.globalPolicy
  key : ∀ k, f.key = some k → t.idempotency[k]? = s.idempotency[k]?
  inflight : t.reserveMintInflight = s.reserveMintInflight

/-- In `s` the call acts on `f` alone, and so it does in every state alike. -/
def ActsBy {ρ : Type} (f : Footprint) (run : State → State × ρ) (s : State) : Prop :=
  ∃ e : Effect, e.target = f ∧ ∀ t, f.Alike s t → run t = (e.apply t, (run s).2)

section
variable {s t : State} {e : Effect} {f : Footprint} {id : ReserveId} {record : ReserveRecord}

theorem Footprint.Alike.refl (f : Footprint) (s : State) : f.Alike s s :=
  ⟨rfl, rfl, rfl, fun _ _ => rfl, rfl⟩

theorem Footprint.Alike.snapshot (h : f.Alike s t) (record : ReserveRecord) :
    t.snapshot record = s.snapshot record := by
  simp only [State.snapshot, h.ledgerId, h.globalPolicy]

/-- An effect elsewhere leaves a state alike. -/
theorem apply_alike (h : f.Apart e.target) : f.Alike s (e.apply s) where
  ledgerId := by simp
  record := apply_other h.id
  globalPolicy := by simp
  key k hk := apply_key (h.key k hk)
  inflight := by simp

/-- A call that does nothing. -/
theorem actsBy_none {ρ : Type} {run : State → State × ρ} (r : ρ)
    (h : ∀ t, f.Alike s t → run t = (t, r)) : ActsBy f run s := by
  refine ⟨⟨f, none⟩, rfl, fun t ht => ?_⟩
  rw [h t ht, h s (.refl f s)]
  rfl

theorem rebalanceOne_actsBy (env : Replies) (s : State) (id : ReserveId) :
    ActsBy ⟨id, none⟩ (rebalanceOne env · id) s := by
  cases hrec : s.reserves[id]? with
  | none =>
    refine actsBy_none (.error (.reserveNotFound id)) fun t ht => ?_
    rw [rebalanceOne_eq, ht.record, hrec]
  | some record =>
    by_cases hlock : id ∈ s.reserveMintInflight
    · refine actsBy_none (.error (.reserveOperationInProgress id)) fun t ht => ?_
      rw [rebalanceOne_eq, ht.record, hrec]
      exact if_pos (ht.inflight ▸ hlock)
    have heq : ∀ t, Footprint.Alike ⟨id, none⟩ s t → rebalanceOne env t id =
        (rebalanceDecision id (s.snapshot record) env.balance env.now).elim (fun r => (t, r))
          fun k => settleRebalance t record k env.transfer := by
      intro t ht
      have hfree : id ∉ t.reserveMintInflight := ht.inflight ▸ hlock
      rw [rebalanceOne_eq, ht.record, hrec, ← ht.snapshot]
      refine (if_neg hfree).trans ?_
      cases rebalanceDecision id (t.snapshot record) env.balance env.now <;> rfl
    cases hd : rebalanceDecision id (s.snapshot record) env.balance env.now with
    | inl r => exact actsBy_none r fun t ht => by rw [heq t ht, hd, Sum.elim_inl]
    | inr k =>
      obtain rfl := rebalanceDecision_id hd
      have hrec' : ∀ t, Footprint.Alike ⟨k.id, none⟩ s t → t.reserves[k.id]? = some record :=
        fun t ht => ht.record.trans hrec
      cases hm : mintToResult env.transfer with
      | error err =>
        refine actsBy_none (.error err) fun t ht => ?_
        simp only [heq t ht, hd, Sum.elim_inr, settleRebalance_eq (hrec' t ht), hm]
      | ok block =>
        refine ⟨mintEffect k.id none k.mintAmount k.now block, rfl, fun t ht => ?_⟩
        simp only [heq t ht, heq s (.refl _ s), hd, Sum.elim_inr, settleRebalance_eq (hrec' t ht),
          settleRebalance_eq hrec, hm]

theorem topupDecision_congr {arg : ManualTopupArg} {now : Nat}
    (h : Footprint.Alike ⟨arg.reserveId, arg.idempotencyKey⟩ s t) :
    topupDecision t arg now = topupDecision s arg now := by
  have hstart : startDecision t arg now = startDecision s arg now := by
    simp only [startDecision, h.record, h.inflight, h.globalPolicy]
  unfold topupDecision
  cases hkey : arg.idempotencyKey with
  | none => exact hstart
  | some k => simp only [h.key k hkey, hstart]

theorem manualTopupReserveImpl_actsBy (s : State) (arg : ManualTopupArg) (now : Nat)
    (reply : Reply (Except TransferError Nat)) :
    ActsBy ⟨arg.reserveId, arg.idempotencyKey⟩
      (manualTopupReserveImpl · arg now reply) s := by
  have heq : ∀ t, Footprint.Alike ⟨arg.reserveId, arg.idempotencyKey⟩ s t →
      manualTopupReserveImpl t arg now reply =
        match topupDecision s arg now with
        | .inl r => (t, r)
        | .inr _ => settleTopup t ⟨arg, now⟩ reply := by
    intro t ht
    rw [manualTopupReserveImpl_eq, topupDecision_congr ht]
  cases hd : topupDecision s arg now with
  | inl r => exact actsBy_none r fun t ht => by rw [heq t ht, hd]
  | inr record =>
    cases hm : mintToResult reply with
    | error err =>
      exact actsBy_none (.error err) fun t ht => by simp only [heq t ht, hd, settleTopup, hm]
    | ok block =>
      refine ⟨mintEffect arg.reserveId arg.idempotencyKey arg.amount now block, rfl,
        fun t ht => ?_⟩
      simp only [heq t ht, heq s (.refl _ s), hd, settleTopup, hm]

/-- A replay answers from the map. -/
theorem manualTopupReserveImpl_replay {arg : ManualTopupArg} {k : String} {entry : IdempotencyEntry}
    (hkey : arg.idempotencyKey = some k)
    (hk : s.idempotency[k]? = some (IdempotencyRecord.completed entry)) (now : Nat)
    (reply : Reply (Except TransferError Nat)) :
    manualTopupReserveImpl s arg now reply = (s, .ok entry.response) := by
  rw [manualTopupReserveImpl, manualTopupIssue_completed hkey hk]

/-- A call on a footprint of its own commutes with an effect elsewhere. -/
theorem ActsBy.commute {ρ : Type} {run : State → State × ρ} (h : ActsBy f run s)
    (hapart : f.Apart e.target) (hreg : ∃ record, s.reserves[e.target.id]? = some record) :
    run (e.apply s) = (e.apply (run s).1, (run s).2) := by
  obtain ⟨e', rfl, he'⟩ := h
  rw [he' _ (apply_alike hapart), he' s (.refl _ s)]
  by_cases hreg' : ∃ record, s.reserves[e'.target.id]? = some record
  · rw [apply_comm hapart.id hapart.key hreg' hreg]
  · have hnone : s.reserves[e'.target.id]? = none := by
      simpa [Option.eq_none_iff_forall_ne_some] using hreg'
    have hno : ∀ u : State, u.reserves[e'.target.id]? = none → e'.apply u = u := by
      intro u hu
      unfold Effect.apply
      cases e'.mint <;> simp [hu]
    rw [hno s hnone, hno _ ((apply_other hapart.id).trans hnone)]

theorem ActsBy.free {ρ : Type} {run : State → State × ρ} {g : Footprint} (h : ActsBy f run s)
    (hkey : ∀ k, g.key = some k → f.key ≠ some k) (hg : g.Free s) : g.Free (run s).1 := by
  obtain ⟨e', rfl, he'⟩ := h
  rw [he' s (.refl _ s)]
  obtain ⟨record, hrec⟩ := hg.registered
  exact ⟨apply_registered hrec, fun k hk => (apply_key (hkey k hk)).trans (hg.key k hk)⟩


/-! ### The admin calls -/

/-- Effects leave the configurations alone. -/
theorem apply_config (e : Effect) (s : State) (r : ReserveId) :
    (e.apply s).reserves[r]?.map (·.config) = s.reserves[r]?.map (·.config) := by
  have hconfig : ∀ record, (e.record record).config = record.config := by
    intro record
    unfold Effect.record
    split <;> rfl
  rw [apply_record]
  split
  · cases s.reserves[r]? <;> simp [hconfig]
  · rfl

theorem accountTaken_congr
    (h : ∀ r : ReserveId, t.reserves[r]?.map (·.config) = s.reserves[r]?.map (·.config))
    (account : Account) :
    (t.reserves.toList.any fun p => p.2.config.account.eq account) =
      s.reserves.toList.any fun p => p.2.config.account.eq account := by
  have hiff : ∀ s : State,
      (s.reserves.toList.any fun p => p.2.config.account.eq account) = true ↔
        ∃ (r : ReserveId) (config : ReserveConfig),
          s.reserves[r]?.map (·.config) = some config ∧ config.account.eq account = true := by
    intro s
    simp [Option.map_eq_some_iff]
  rw [Bool.eq_iff_iff, hiff, hiff]
  simp only [h]

/-- An effect comes before or after a change of another record, or of the configuration of
its own. -/
theorem apply_insert (next r : ReserveId) {x y : ReserveRecord}
    (hreg : s.reserves[e.target.id]? = some record)
    (hxy : y = if e.target.id = r then e.record x else x) :
    ({ e.apply s with
        nextReserveId := next
        reserves := (e.apply s).reserves.insert r y } : State) =
      e.apply { s with nextReserveId := next, reserves := s.reserves.insert r x } := by
  have hreg' : ∃ record', (s.reserves.insert r x)[e.target.id]? = some record' := by
    rw [Std.ExtTreeMap.getElem?_insert]
    split
    · exact ⟨_, rfl⟩
    · exact ⟨_, hreg⟩
  obtain ⟨record', hrec'⟩ := hreg'
  refine State.ext_getElem? (by simp) (by simp) (fun i => ?_) (by simp) (fun k => ?_) (by simp)
  · simp only [apply_record, Std.ExtTreeMap.getElem?_insert, Std.LawfulEqCmp.compare_eq_iff_eq]
    by_cases hi : r = i
    · subst hi
      by_cases he : e.target.id = r <;> simp [he, hxy]
    · simp [hi]
  · rw [apply_getElem? e { s with nextReserveId := next, reserves := s.reserves.insert r x } hrec']
    exact apply_getElem? e s hreg k

theorem addReserveImpl_commute {arg : AddReserveArg}
    (hreg : s.reserves[e.target.id]? = some record) (hnext : s.nextReserveId ≠ e.target.id) :
    addReserveImpl (e.apply s) arg =
      (e.apply (addReserveImpl s arg).1, (addReserveImpl s arg).2) := by
  unfold addReserveImpl
  cases validateAddReserveArg arg with
  | error err => rfl
  | ok u =>
    simp only [accountTaken_congr (apply_config e s), apply_nextReserveId]
    split
    · rfl
    · exact congrArg (·, Except.ok s.nextReserveId)
        (apply_insert _ _ hreg (by rw [if_neg hnext.symm]))

theorem updateReserveImpl_commute {arg : UpdateReserveArg}
    (hreg : s.reserves[e.target.id]? = some record) :
    updateReserveImpl (e.apply s) arg =
      (e.apply (updateReserveImpl s arg).1, (updateReserveImpl s arg).2) := by
  have hwith : ∀ (x : ReserveRecord) config,
      { e.record x with config := config } = e.record { x with config := config } := by
    intro x config
    unfold Effect.record
    split <;> rfl
  unfold updateReserveImpl
  cases hrec : s.reserves[arg.id]? with
  | none =>
    have hnone : (e.apply s).reserves[arg.id]? = none := by
      rw [apply_record, hrec]
      split <;> rfl
    rw [hnone]
  | some x =>
    obtain ⟨y, hy, hconfig, hxy⟩ : ∃ y, (e.apply s).reserves[arg.id]? = some y ∧
        y.config = x.config ∧ y = if e.target.id = arg.id then e.record x else x := by
      have hc := apply_config e s arg.id
      rw [apply_record, hrec] at hc ⊢
      split
      · next he => exact ⟨e.record x, rfl, by simpa [he] using hc, rfl⟩
      · exact ⟨x, rfl, rfl, rfl⟩
    rw [hy]
    simp only [hconfig]
    cases arg.apply x.config with
    | error err => rfl
    | ok updated =>
      simp only
      cases validateReserveConfig updated with
      | error err => rfl
      | ok u =>
        refine congrArg (·, Except.ok ()) ?_
        have hxy' : { y with config := updated } =
            if e.target.id = arg.id then e.record { x with config := updated }
            else { x with config := updated } := by
          rw [← hwith, hxy]
          split <;> rfl
        exact (apply_insert (e.apply s).nextReserveId arg.id hreg hxy').trans
          (congrArg e.apply (by rw [apply_nextReserveId]))

theorem removeReserveImpl_commute (hfree : e.target.Free s) (hid : id ≠ e.target.id) :
    removeReserveImpl (e.apply s) id =
      (e.apply (removeReserveImpl s id).1, (removeReserveImpl s id).2) := by
  obtain ⟨record, hreg⟩ := hfree.registered
  -- what the effect stores was not pending before, and is completed
  have hkeys : ∀ k : String, (e.apply s).idempotency[k]? = some (IdempotencyRecord.pending id) ↔
      s.idempotency[k]? = some (IdempotencyRecord.pending id) := by
    intro k
    rw [apply_getElem? e s hreg]
    split
    · next hk =>
      rw [hfree.key k hk]
      simp [Effect.entry]
    · rfl
  have hpend : ((e.apply s).idempotency.toList.any fun p => p.2.isPendingFor id) =
      s.idempotency.toList.any fun p => p.2.isPendingFor id := by
    rw [Bool.eq_iff_iff]
    simp only [List.any_eq_true, Prod.exists, Std.ExtTreeMap.mem_toList_iff_getElem?_eq_some,
      IdempotencyRecord.isPendingFor_iff, exists_eq_right, hkeys]
  unfold removeReserveImpl
  simp only [apply_inflight, hpend, apply_other hid]
  split
  · rfl
  split
  · rfl
  cases s.reserves[id]? with
  | none => rfl
  | some x =>
    refine congrArg (·, Except.ok x.config) ?_
    have hreg' : (s.reserves.erase id)[e.target.id]? = some record := by
      rw [Std.ExtTreeMap.getElem?_erase, if_neg (by simpa using hid), hreg]
    refine State.ext_getElem? (by simp) (by simp) (fun i => ?_) (by simp) (fun k => ?_) (by simp)
    · simp only [apply_record, Std.ExtTreeMap.getElem?_erase, Std.LawfulEqCmp.compare_eq_iff_eq]
      by_cases hi : id = i
      · simp [hi]
      · simp [hi]
    · rw [apply_getElem? e { s with reserves := s.reserves.erase id } hreg']
      exact apply_getElem? e s hreg k

theorem setGlobalPolicyImpl_commute (hreg : s.reserves[e.target.id]? = some record)
    (policy : GlobalPolicy) : setGlobalPolicyImpl (e.apply s) policy =
      (e.apply (setGlobalPolicyImpl s policy).1, (setGlobalPolicyImpl s policy).2) := by
  refine congrArg (·, Except.ok ()) ?_
  refine State.ext_getElem? (by simp [setGlobalPolicyImpl]) (by simp [setGlobalPolicyImpl])
    (fun i => ?_) (by simp [setGlobalPolicyImpl]) (fun k => ?_) (by simp [setGlobalPolicyImpl])
  · simp only [apply_record, setGlobalPolicyImpl]
  · exact (apply_getElem? e s hreg k).trans
      (apply_getElem? e { s with globalPolicy := policy } hreg k).symm


/-! ### The laws -/

theorem Op.Ready.free {op : Op} (h : op.Ready s) : op.footprint.Free s := by
  cases op with
  | awaitBalance id snap =>
    obtain ⟨-, record, hrec, -⟩ := h
    exact ⟨⟨record, hrec⟩, nofun⟩
  | awaitRebalance k =>
    obtain ⟨-, record, hrec, -⟩ := h
    exact ⟨⟨record, hrec⟩, nofun⟩
  | awaitTopup k =>
    obtain ⟨record, hstart⟩ := h
    exact ⟨⟨record, hstart.registered⟩, hstart.free⟩

theorem Op.Ready.alike {op : Op} (h : op.Ready s) (ht : op.footprint.Alike s t) : op.Ready t := by
  cases op with
  | awaitBalance id snap =>
    obtain ⟨hlock, record, hrec, hsnap⟩ := h
    exact ⟨ht.inflight ▸ hlock, record, ht.record.trans hrec, (ht.snapshot record).trans hsnap⟩
  | awaitRebalance k =>
    obtain ⟨hlock, record, hrec, hdec⟩ := h
    refine ⟨ht.inflight ▸ hlock, record, ht.record.trans hrec, ?_⟩
    rw [ht.snapshot, hdec]
  | awaitTopup k =>
    obtain ⟨record, hstart⟩ := h
    refine ⟨record, ht.record.trans hstart.registered, ht.inflight ▸ hstart.unlocked,
      fun k' hk' => (ht.key k' hk').trans (hstart.free k' hk'), ?_⟩
    rw [ht.globalPolicy, hstart.valid]

/-- A call that spares a footprint leaves it free. -/
theorem Call.Spares.free {a : Call} (h : a.Spares f s) (hf : f.Free s) : f.Free (a.run s).1 := by
  obtain ⟨record, hrec⟩ := hf.registered
  cases a with
  | addReserve arg =>
    show f.Free (addReserveImpl s arg).1
    rcases addReserveImpl_cases s arg with ⟨err, he⟩ | ⟨he, -⟩ <;> rw [he]
    · exact hf
    · refine ⟨⟨record, ?_⟩, hf.key⟩
      rw [register_record, if_neg h, hrec]
  | updateReserve arg =>
    show f.Free (updateReserveImpl s arg).1
    rcases updateReserveImpl_cases s arg with ⟨err, he⟩ | ⟨old, updated, -, -, -, he⟩ <;> rw [he]
    · exact hf
    · refine ⟨?_, hf.key⟩
      rw [Std.ExtTreeMap.getElem?_insert]
      split
      · exact ⟨_, rfl⟩
      · exact ⟨record, hrec⟩
  | removeReserve id =>
    show f.Free (removeReserveImpl s id).1
    rcases removeReserveImpl_cases s id with ⟨err, he⟩ | ⟨old, -, -, -, he⟩ <;> rw [he]
    · exact hf
    · refine ⟨⟨record, ?_⟩, hf.key⟩
      have hne : id ≠ f.id := h
      simp [Std.ExtTreeMap.getElem?_erase, hne, hrec]
  | setGlobalPolicy policy => exact ⟨⟨record, hrec⟩, hf.key⟩
  | rebalance id env => exact (rebalanceOne_actsBy env s id).free (fun _ _ => nofun) hf
  | manualTopup arg now reply =>
    show f.Free (manualTopupReserveImpl s arg now reply).1
    rcases h with ⟨k, entry, hkey, hk⟩ | ⟨-, hkey⟩
    · rw [manualTopupReserveImpl_replay hkey hk]
      exact hf
    · refine (manualTopupReserveImpl_actsBy s arg now reply).free (fun k hk hk' => ?_) hf
      exact hkey k hk' hk

theorem Call.Spares.commute {a : Call} (h : a.Spares e.target s) (hf : e.target.Free s) :
    a.run (e.apply s) = (e.apply (a.run s).1, (a.run s).2) := by
  obtain ⟨record, hreg⟩ := hf.registered
  cases a with
  | addReserve arg => simp only [Call.run, addReserveImpl_commute hreg h]
  | updateReserve arg => simp only [Call.run, updateReserveImpl_commute hreg]
  | removeReserve id => simp only [Call.run, removeReserveImpl_commute hf h]
  | setGlobalPolicy policy => simp only [Call.run, setGlobalPolicyImpl_commute hreg]
  | rebalance id env =>
    have hc := (rebalanceOne_actsBy env s id).commute ⟨h, nofun⟩ hf.registered
    simp only [Call.run, hc]
  | manualTopup arg now reply =>
    rcases h with ⟨k, entry, hkey, hk⟩ | ⟨hid, hkey⟩
    · have hk' : (e.apply s).idempotency[k]? = some (IdempotencyRecord.completed entry) := by
        rw [apply_key, hk]
        intro hkey'
        cases hk.symm.trans (hf.key k hkey')
      simp only [Call.run, manualTopupReserveImpl_replay hkey hk,
        manualTopupReserveImpl_replay hkey hk']
    · have hc := (manualTopupReserveImpl_actsBy s arg now reply).commute ⟨hid, hkey⟩ hf.registered
      simp only [Call.run, hc]

/-- A completed key stays completed. -/
theorem apply_completed (e : Effect) {k : String} {entry : IdempotencyEntry}
    (hk : s.idempotency[k]? = some (IdempotencyRecord.completed entry)) :
    ∃ entry', (e.apply s).idempotency[k]? = some (IdempotencyRecord.completed entry') := by
  cases hrec : s.reserves[e.target.id]? with
  | none =>
    refine ⟨entry, ?_⟩
    unfold Effect.apply
    cases e.mint <;> simp [hrec, hk]
  | some record =>
    rw [apply_getElem? e s hrec, hk]
    unfold Effect.entry
    split
    · cases e.mint with
      | none => exact ⟨entry, rfl⟩
      | some p => exact ⟨_, rfl⟩
    · exact ⟨entry, rfl⟩

theorem Call.Spares.effect {a : Call} (h : a.Spares f s) : a.Spares f (e.apply s) := by
  cases a with
  | addReserve arg => exact fun hn => h ((apply_nextReserveId e s).symm.trans hn)
  | updateReserve | removeReserve | setGlobalPolicy | rebalance => exact h
  | manualTopup arg now reply =>
    refine h.imp_left ?_
    rintro ⟨k, entry, hkey, hk⟩
    obtain ⟨entry', hk'⟩ := apply_completed e hk
    exact ⟨k, entry', hkey, hk'⟩

theorem calls_lawful : calls.Lawful where
  free_of_ready := Op.Ready.free
  free_run hf h := h.free hf
  commute hf h := h.commute hf
  spares_effect h := h.effect
  ready_effect hapart h := h.alike (apply_alike hapart)

end

end ViciMinter
