import Mathlib.Logic.Function.Basic
import ViciMinter.Lib.Lts
import ViciMinter.Segments

/-!
# Interleaved operations

The canister runs one segment at a time, and other segments run while an
operation awaits a reply. A `World` is the canister state, the suspended
operations and what the environment needs to be talked about: the last `time()`
reading and the mints committed so far. An `Event` runs one segment, or loses a
suspended operation (its continuation never runs, as after a trap).

`step_did` says once what a step can do; invariants are proved from `Did`.
-/

namespace ViciMinter

open Lts

abbrev OpId := Nat

/-- A suspended operation, with what it keeps across its await. -/
inductive Op where
  | awaitBalance (id : ReserveId) (snap : MintSnapshot)
  | awaitRebalance (k : RebalanceMint)
  | awaitTopup (k : TopupMint)
  deriving DecidableEq, Repr

namespace Op

def reserveId : Op → ReserveId
  | awaitBalance id _ => id
  | awaitRebalance k => k.id
  | awaitTopup k => k.arg.reserveId

def key : Op → Option String
  | awaitTopup k => k.arg.idempotencyKey
  | _ => none

/-- The mint an operation has issued, as it will be recorded. -/
def mint : Op → Option MintEvent
  | awaitBalance _ _ => none
  | awaitRebalance k => some ⟨k.now, k.mintAmount⟩
  | awaitTopup k => some ⟨k.now, k.arg.amount⟩

section
variable (id : ReserveId) (snap : MintSnapshot) (k : RebalanceMint) (t : TopupMint)

@[simp] theorem awaitBalance_reserveId : (awaitBalance id snap).reserveId = id := rfl
@[simp] theorem awaitRebalance_reserveId : (awaitRebalance k).reserveId = k.id := rfl
@[simp] theorem awaitTopup_reserveId : (awaitTopup t).reserveId = t.arg.reserveId := rfl
@[simp] theorem awaitBalance_key : (awaitBalance id snap).key = none := rfl
@[simp] theorem awaitRebalance_key : (awaitRebalance k).key = none := rfl
@[simp] theorem awaitTopup_key : (awaitTopup t).key = t.arg.idempotencyKey := rfl

end

end Op

/-- A mint that reached its commit. -/
structure Commit where
  op : OpId
  reserveId : ReserveId
  key : Option String
  event : MintEvent
  blockIndex : Nat
  deriving DecidableEq, Repr

/-- What replays of a committed top-up are answered from. -/
def Commit.entry (c : Commit) : IdempotencyEntry where
  ledgerBlockIndex := c.blockIndex
  mintedAmount := c.event.amount
  reserveId := c.reserveId
  executedAtNs := c.event.timestampNs

structure World where
  state : State
  ops : OpId → Option Op
  nextOp : OpId
  clock : Nat
  commits : List Commit

namespace World

def init (ledgerId : Principal) : World where
  state := State.default ledgerId
  ops := fun _ => none
  nextOp := 0
  clock := 0
  commits := []

/-- An operation begins and awaits its first reply. -/
def suspend (w : World) (s : State) (op : Op) : World :=
  { w with state := s, ops := Function.update w.ops w.nextOp (some op), nextOp := w.nextOp + 1 }

/-- Operation `n` ends. -/
def finish (w : World) (s : State) (n : OpId) (commits : List Commit) : World :=
  { w with state := s, ops := Function.update w.ops n none, commits := w.commits ++ commits }

section
variable (w : World) (s : State) (n : OpId) (op : Op) (l : List Commit)

@[simp] theorem suspend_state : (w.suspend s op).state = s := rfl
@[simp] theorem suspend_ops :
    (w.suspend s op).ops = Function.update w.ops w.nextOp (some op) := rfl
@[simp] theorem suspend_nextOp : (w.suspend s op).nextOp = w.nextOp + 1 := rfl
@[simp] theorem suspend_commits : (w.suspend s op).commits = w.commits := rfl

@[simp] theorem finish_state : (w.finish s n l).state = s := rfl
@[simp] theorem finish_ops : (w.finish s n l).ops = Function.update w.ops n none := rfl
@[simp] theorem finish_commits : (w.finish s n l).commits = w.commits ++ l := rfl

end

/-- The operations after one of them changed. -/
theorem update_eq_some {α : Type} {f : OpId → Option α} {n m : OpId} {o : Option α} {a : α} :
    Function.update f n o m = some a ↔ m = n ∧ o = some a ∨ m ≠ n ∧ f m = some a := by
  by_cases h : m = n
  · subst h; simp
  · simp [h]

theorem suspend_ops_some {w : World} {s : State} {op₀ op : Op} {m : OpId} :
    (w.suspend s op₀).ops m = some op ↔
      m = w.nextOp ∧ op₀ = op ∨ m ≠ w.nextOp ∧ w.ops m = some op := by
  rw [suspend_ops, update_eq_some, Option.some.injEq]

theorem finish_ops_some {w : World} {s : State} {n m : OpId} {l : List Commit} {op : Op} :
    (w.finish s n l).ops m = some op ↔ m ≠ n ∧ w.ops m = some op := by
  rw [finish_ops, update_eq_some]
  simp only [reduceCtorEq, and_false, false_or]

/-- `id` has an operation that began and did not end. -/
def Live (w : World) (id : ReserveId) : Prop := ∃ n op, w.ops n = some op ∧ op.reserveId = id

end World

inductive Event where
  | addReserve (arg : AddReserveArg)
  | updateReserve (arg : UpdateReserveArg)
  | removeReserve (id : ReserveId)
  | setGlobalPolicy (policy : GlobalPolicy)
  | releaseStuckMintState (id : ReserveId) (key : Option String)
  | rebalance (id : ReserveId)
  | balanceReply (n : OpId) (reply : Reply Nat) (now : Nat)
  | manualTopup (arg : ManualTopupArg) (now : Nat)
  | transferReply (n : OpId) (reply : Reply (Except TransferError Nat))
  | lose (n : OpId)
  deriving DecidableEq, Repr

/-- The `time()` reading of a segment. -/
def Event.time : Event → Option Nat
  | balanceReply _ _ now => some now
  | manualTopup _ now => some now
  | _ => none

/-- The operation an event resumes, or loses. -/
def Event.resumes : Event → Option OpId
  | balanceReply n _ _ => some n
  | transferReply n _ => some n
  | lose n => some n
  | _ => none

/-- The reserve an event would begin an operation on. -/
def Event.begins : Event → Option ReserveId
  | rebalance id => some id
  | manualTopup arg _ => some arg.reserveId
  | _ => none

/-- The key an event would reserve. -/
def Event.key : Event → Option String
  | manualTopup arg _ => arg.idempotencyKey
  | _ => none

/-- Neither a forced release nor a loss. -/
def Event.calm : Event → Bool
  | releaseStuckMintState _ _ => false
  | lose _ => false
  | _ => true

/-- What a step answers: a result, or the call it makes. -/
inductive Output where
  | added (r : Except MinterError ReserveId)
  | updated (r : Except MinterError Unit)
  | removed (r : Except MinterError ReserveConfig)
  | policySet (r : Except MinterError Unit)
  | released (r : Except MinterError Unit)
  | balanceCall (n : OpId) (ledgerId : Principal) (account : Account)
  | transferCall (n : OpId) (ledgerId : Principal) (arg : TransferArg)
  | rebalanced (r : Except MinterError RebalanceResponse)
  | toppedUp (r : Except MinterError ManualTopupResponse)
  | lost
  deriving DecidableEq, Repr

/-- A result that tells an operation or an admin call ended without effect. -/
def Output.quiet : Output → Prop
  | .added r => ∃ e, r = .error e
  | .updated r => ∃ e, r = .error e
  | .removed r => ∃ e, r = .error e
  | .rebalanced r => NoFault r
  | .toppedUp r => NoFault r
  | _ => False

/-- The result of an operation that ended without a mint. -/
def Output.dropped : Output → Prop
  | .rebalanced r => NoFault r
  | .toppedUp r => NoFault r
  | _ => False

/-- The result of an operation whose mint is block `block`. -/
def Output.minted (op : Op) (block : Nat) : Output → Prop
  | .rebalanced r => ∃ k, op = .awaitRebalance k ∧
    r = .ok { reserveId := k.id, action := .minted, balanceBefore := k.balance,
              mintedAmount := k.mintAmount, ledgerBlockIndex := some block }
  | .toppedUp r => ∃ k, op = .awaitTopup k ∧
    r = .ok { reserveId := k.arg.reserveId, mintedAmount := k.arg.amount,
              ledgerBlockIndex := block }
  | _ => False

/-- The result of an operation whose reserve is gone after its mint. -/
def Output.missing : Output → Prop
  | .rebalanced r => r = .error reserveMissing
  | .toppedUp r => r = .error reserveMissing
  | _ => False

/-- The segment ended by calling the ledger. -/
def Output.calls : Output → Bool
  | .balanceCall _ _ _ => true
  | .transferCall _ _ _ => true
  | _ => false

theorem Output.quiet.calls {o : Output} (h : o.quiet) : o.calls = false := by
  cases o <;> first | rfl | cases h

theorem Output.dropped.calls {o : Output} (h : o.dropped) : o.calls = false := by
  cases o <;> first | rfl | cases h

theorem Output.minted.calls {op : Op} {block : Nat} {o : Output} (h : o.minted op block) :
    o.calls = false := by
  cases o <;> first | rfl | cases h

theorem Output.missing.calls {o : Output} (h : o.missing) : o.calls = false := by
  cases o <;> first | rfl | cases h

/-- The answer is not `InternalInvariantViolated`. -/
def Output.faultless : Output → Prop
  | .rebalanced r => NoFault r
  | .toppedUp r => NoFault r
  | _ => True

namespace World

/-- The commits a rebalance's last segment leaves. -/
def rebalanceCommits (n : OpId) (k : RebalanceMint) :
    Except MinterError RebalanceResponse → List Commit
  | .ok { ledgerBlockIndex := some block, mintedAmount, reserveId, .. } =>
    [⟨n, reserveId, none, ⟨k.now, mintedAmount⟩, block⟩]
  | _ => []

/-- The commits a top-up's last segment leaves. -/
def topupCommits (n : OpId) (k : TopupMint) :
    Except MinterError ManualTopupResponse → List Commit
  | .ok r => [⟨n, r.reserveId, k.arg.idempotencyKey, ⟨k.now, r.mintedAmount⟩, r.ledgerBlockIndex⟩]
  | .error _ => []

/-- One segment, on a world whose clock is already set. -/
def advance (w : World) : Event → Option (World × Output)
  | .addReserve arg =>
    let (s, r) := addReserveImpl w.state arg
    some ({ w with state := s }, .added r)
  | .updateReserve arg =>
    let (s, r) := updateReserveImpl w.state arg
    some ({ w with state := s }, .updated r)
  | .removeReserve id =>
    let (s, r) := removeReserveImpl w.state id
    some ({ w with state := s }, .removed r)
  | .setGlobalPolicy policy =>
    let (s, r) := setGlobalPolicyImpl w.state policy
    some ({ w with state := s }, .policySet r)
  | .releaseStuckMintState id key =>
    let (s, r) := releaseStuckMintStateImpl w.state id key
    some ({ w with state := s }, .released r)
  | .rebalance id =>
    match rebalanceBegin w.state id with
    | (s, .error e) => some ({ w with state := s }, .rebalanced (.error e))
    | (s, .ok snap) => some (w.suspend s (.awaitBalance id snap),
        .balanceCall w.nextOp snap.ledgerId snap.config.account)
  | .balanceReply n reply now =>
    match w.ops n with
    | some (.awaitBalance id snap) =>
      match rebalanceIssue w.state id snap reply now with
      | (s, .ended r) => some (w.finish s n [], .rebalanced r)
      | (s, .transfer ledgerId arg k) =>
        some ({ w with state := s, ops := Function.update w.ops n (some (.awaitRebalance k)) },
          .transferCall n ledgerId arg)
    | _ => none
  | .manualTopup arg now =>
    match manualTopupIssue w.state arg now with
    | (s, .ended r) => some ({ w with state := s }, .toppedUp r)
    | (s, .transfer ledgerId t k) => some (w.suspend s (.awaitTopup k),
        .transferCall w.nextOp ledgerId t)
  | .transferReply n reply =>
    match w.ops n with
    | some (.awaitRebalance k) =>
      let (s, r) := rebalanceCommit w.state k reply
      some (w.finish s n (rebalanceCommits n k r), .rebalanced r)
    | some (.awaitTopup k) =>
      let (s, r) := manualTopupCommit w.state k reply
      some (w.finish s n (topupCommits n k r), .toppedUp r)
    | _ => none
  | .lose n =>
    match w.ops n with
    | some _ => some (w.finish w.state n [], .lost)
    | none => none

/-- The clock shows the last `time()` reading. -/
def tick (w : World) (e : Event) : World := { w with clock := e.time.getD w.clock }

section
variable (w : World) (e : Event)

@[simp] theorem tick_state : (w.tick e).state = w.state := rfl
@[simp] theorem tick_ops : (w.tick e).ops = w.ops := rfl
@[simp] theorem tick_nextOp : (w.tick e).nextOp = w.nextOp := rfl
@[simp] theorem tick_clock : (w.tick e).clock = e.time.getD w.clock := rfl
@[simp] theorem tick_commits : (w.tick e).commits = w.commits := rfl

end

def step (w : World) (e : Event) : Option (World × Output) := (w.tick e).advance e

/-- The interleavings of segments, as a transition system. -/
abbrev Step : World → Event → World → Prop := Lts.ofFun step

/-! ## What a step does -/

/-- What a step does, by cases. `w` has its clock set already. -/
inductive Did (w : World) : Event → Output → World → Prop where
  /-- Nothing: a refused call, a replay, or a top-up that failed its checks. -/
  | quiet {e : Event} {o : Output} : e.resumes = none → o.quiet → Did w e o w
  | added {arg : AddReserveArg} : validateAddReserveArg arg = .ok () →
      (∀ (id : ReserveId) (record : ReserveRecord), w.state.reserves[id]? = some record →
        record.config.account.canon ≠ arg.account.canon) →
      Did w (.addReserve arg) (.added (.ok w.state.nextReserveId))
        { w with state := w.state.register arg }
  | updated {arg : UpdateReserveArg} {record : ReserveRecord} {updated : ReserveConfig} :
      w.state.reserves[arg.id]? = some record → arg.apply record.config = .ok updated →
      validateReserveConfig updated = .ok () →
      Did w (.updateReserve arg) (.updated (.ok ()))
        { w with state := { w.state with
            reserves := w.state.reserves.insert arg.id { record with config := updated } } }
  | removed {id : ReserveId} {record : ReserveRecord} : w.state.reserves[id]? = some record →
      id ∉ w.state.reserveMintInflight →
      (∀ k : String, w.state.idempotency[k]? ≠ some (IdempotencyRecord.pending id)) →
      Did w (.removeReserve id) (.removed (.ok record.config))
        { w with state := { w.state with reserves := w.state.reserves.erase id } }
  | policySet {policy : GlobalPolicy} :
      Did w (.setGlobalPolicy policy) (.policySet (.ok ()))
        { w with state := { w.state with globalPolicy := policy } }
  | released {id : ReserveId} {key : Option String} {r : Except MinterError Unit} :
      Did w (.releaseStuckMintState id key) (.released r)
        { w with state := w.state.drop id key }
  | begunRebalance {id : ReserveId} {record : ReserveRecord} :
      w.state.reserves[id]? = some record → id ∉ w.state.reserveMintInflight →
      Did w (.rebalance id) (.balanceCall w.nextOp w.state.ledgerId record.config.account)
        (w.suspend (w.state.begin id none) (.awaitBalance id (w.state.snapshot record)))
  | begunTopup {arg : ManualTopupArg} {now : Nat} {record : ReserveRecord} :
      w.state.reserves[arg.reserveId]? = some record →
      arg.reserveId ∉ w.state.reserveMintInflight →
      (∀ k ∈ arg.idempotencyKey, w.state.idempotency[k]? = none) →
      TopupOk arg w.state.globalPolicy record.config record.lifetimeMinted record.mintEvents now →
      Did w (.manualTopup arg now)
        (.transferCall w.nextOp w.state.ledgerId
          (TopupMint.transfer ⟨arg, now⟩ record.config.account))
        (w.suspend (w.state.begin arg.reserveId arg.idempotencyKey) (.awaitTopup ⟨arg, now⟩))
  | issued {n : OpId} {id : ReserveId} {snap : MintSnapshot} {reply : Reply Nat} {now : Nat}
      {k : RebalanceMint} : w.ops n = some (.awaitBalance id snap) →
      RebalanceIssued id snap reply now k →
      Did w (.balanceReply n reply now)
        (.transferCall n snap.ledgerId (k.transfer snap.config.account))
        { w with ops := Function.update w.ops n (some (.awaitRebalance k)) }
  /-- An operation ends without a mint: after its balance reply, or on a failed transfer. -/
  | dropped {n : OpId} {op : Op} {e : Event} {o : Output} : w.ops n = some op →
      ((∃ id snap reply now, op = .awaitBalance id snap ∧ e = .balanceReply n reply now ∧
        ∀ a, ¬ Decides snap reply now a) ∨
        ∃ reply err, op.mint.isSome = true ∧ e = .transferReply n reply ∧
          mintToResult reply = .error err) →
      o.dropped →
      Did w e o (w.finish (w.state.drop op.reserveId op.key) n [])
  | committed {n : OpId} {op : Op} {m : MintEvent} {record : ReserveRecord} {block : Nat}
      {reply : Reply (Except TransferError Nat)} {o : Output} : w.ops n = some op →
      op.mint = some m → w.state.reserves[op.reserveId]? = some record →
      mintToResult reply = .ok block → o.minted op block →
      Did w (.transferReply n reply) o
        (w.finish (w.state.commit op.reserveId op.key record m.amount m.timestampNs block) n
          [⟨n, op.reserveId, op.key, m, block⟩])
  /-- The branch of `InternalInvariantViolated`: minted, but the reserve is gone. -/
  | missed {n : OpId} {op : Op} {block : Nat} {reply : Reply (Except TransferError Nat)}
      {o : Output} : w.ops n = some op → op.mint.isSome = true →
      w.state.reserves[op.reserveId]? = none →
      mintToResult reply = .ok block → o.missing →
      Did w (.transferReply n reply) o (w.finish (w.state.drop op.reserveId none) n [])
  | lost {n : OpId} {op : Op} : w.ops n = some op →
      Did w (.lose n) .lost (w.finish w.state n [])

theorem advance_did {w w' : World} {e : Event} {o : Output} (h : w.advance e = some (w', o)) :
    Did w e o w' := by
  cases e with
  | addReserve arg =>
    simp only [advance] at h
    rcases addReserveImpl_cases w.state arg with ⟨e, he⟩ | ⟨he, hv, hacc⟩ <;> rw [he] at h <;>
      cases h
    · exact .quiet rfl ⟨e, rfl⟩
    · exact .added hv hacc
  | updateReserve arg =>
    simp only [advance] at h
    rcases updateReserveImpl_cases w.state arg with
      ⟨e, he⟩ | ⟨record, updated, hrec, hup, hv, he⟩ <;> rw [he] at h <;> cases h
    · exact .quiet rfl ⟨e, rfl⟩
    · exact .updated hrec hup hv
  | removeReserve id =>
    simp only [advance] at h
    rcases removeReserveImpl_cases w.state id with ⟨e, he⟩ | ⟨record, hrec, hlock, hpend, he⟩ <;>
      rw [he] at h <;> cases h
    · exact .quiet rfl ⟨e, rfl⟩
    · exact .removed hrec hlock hpend
  | setGlobalPolicy policy =>
    cases h
    exact .policySet
  | releaseStuckMintState id key =>
    simp only [advance] at h
    have hs := releaseStuckMintStateImpl_state w.state id key
    cases h
    rw [hs]
    exact .released
  | rebalance id =>
    simp only [advance] at h
    rcases rebalanceBegin_cases w.state id with ⟨e, hf, he⟩ | ⟨record, hrec, hlock, he⟩ <;>
      rw [he] at h <;> cases h
    · exact .quiet rfl (noFault_error hf)
    · exact .begunRebalance hrec hlock
  | balanceReply n reply now =>
    simp only [advance] at h
    split at h
    · next id snap hop =>
      rcases rebalanceIssue_cases w.state id snap reply now with
        ⟨r, hr, hno, he⟩ | ⟨k, hk, he⟩ <;> rw [he] at h <;> cases h
      · exact .dropped hop (.inl ⟨id, snap, reply, now, rfl, rfl, hno⟩) hr
      · exact .issued hop hk
    · cases h
  | manualTopup arg now =>
    simp only [advance] at h
    rcases manualTopupIssue_cases w.state arg now with
      ⟨r, hr, he⟩ | ⟨record, hrec, hlock, hkey, hok, he⟩ <;> rw [he] at h <;> cases h
    · exact .quiet rfl hr
    · exact .begunTopup hrec hlock hkey hok
  | transferReply n reply =>
    simp only [advance] at h
    split at h
    · next k hop =>
      rcases rebalanceCommit_cases w.state k reply with
        ⟨e, hr, he⟩ | ⟨block, hr, hrec, he⟩ | ⟨block, record, hr, hrec, he⟩ <;>
        rw [he] at h <;> cases h
      · exact .dropped hop (.inr ⟨reply, e, rfl, rfl, hr⟩) (noFault_error (mintToResult_error hr))
      · exact .missed hop rfl hrec hr rfl
      · exact .committed hop rfl hrec hr ⟨k, rfl, rfl⟩
    · next k hop =>
      rcases manualTopupCommit_cases w.state k reply with
        ⟨e, hr, he⟩ | ⟨block, hr, hrec, he⟩ | ⟨block, record, hr, hrec, he⟩ <;>
        rw [he] at h <;> cases h
      · exact .dropped hop (.inr ⟨reply, e, rfl, rfl, hr⟩) (noFault_error (mintToResult_error hr))
      · exact .missed hop rfl hrec hr rfl
      · exact .committed hop rfl hrec hr ⟨k, rfl, rfl⟩
    · cases h
  | lose n =>
    simp only [advance] at h
    split at h
    · next op hop => cases h; exact .lost hop
    · cases h

theorem step_did {w w' : World} {e : Event} {o : Output} (h : w.step e = some (w', o)) :
    Did (w.tick e) e o w' := advance_did h

/-- Operation ids from `nextOp` on are unused. -/
def Fresh (w : World) : Prop := ∀ n, w.nextOp ≤ n → w.ops n = none

theorem fresh_init (ledgerId : Principal) : Fresh (init ledgerId) := fun _ _ => rfl

theorem Fresh.did {w w' : World} {e : Event} {o : Output} (h : Fresh w) (hd : Did w e o w') :
    Fresh w' := by
  intro n hn
  have hlt : ∀ m op, w.ops m = some op → m < w.nextOp := by
    intro m op hm
    refine Nat.lt_of_not_le fun hle => ?_
    simp [h m hle] at hm
  cases hd with
  | quiet | added | updated | removed | policySet | released => exact h n hn
  | begunRebalance | begunTopup =>
    simp only [suspend_nextOp, suspend_ops] at hn ⊢
    rw [Function.update_of_ne (Nat.lt_of_succ_le hn).ne']
    exact h n (Nat.le_of_succ_le hn)
  | issued hop | dropped hop | committed hop | missed hop | lost hop =>
    exact (Function.update_of_ne ((hlt _ _ hop).trans_le hn).ne' _ _).trans (h n hn)

theorem Fresh.step {w w' : World} {e : Event} (h : Fresh w) (hs : Step w e w') : Fresh w' :=
  let ⟨_, hs⟩ := hs
  Fresh.did (w := w.tick e) h (step_did hs)

end World

/-! ## A sample reserve -/

namespace Sample

def ledgerId : Principal := ⟨[1]⟩

/-- A reserve without caps, kept at 100. -/
def reserve : AddReserveArg where
  account := ⟨⟨[2]⟩, none⟩
  minBalance := 0
  targetBalance := 100
  maxBalance := none
  maxTopupPerRebalance := none
  lifetimeReceivedMinimum := none
  lifetimeReceivedMaximum := none
  rateLimits := none
  enabled := true
  allowManualTopup := true
  allowAutoRebalance := true
  purpose := "sample"
  label := "sample"

/-- An update that changes nothing. -/
def update : UpdateReserveArg where
  id := 0
  minBalance := none
  targetBalance := none
  maxBalance := none
  maxTopupPerRebalance := none
  lifetimeReceivedMinimum := none
  lifetimeReceivedMaximum := none
  rateLimits := none
  enabled := none
  allowManualTopup := none
  allowAutoRebalance := none
  purpose := none
  label := none

/-- `arg` is registered as reserve 0. -/
def registered (arg : AddReserveArg) : World :=
  last World.step (World.init ledgerId) [.addReserve arg]

end Sample

end ViciMinter
