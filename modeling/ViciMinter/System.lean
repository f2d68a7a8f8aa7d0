import ViciMinter.History

/-!
# The minter and its ledger

The ledger is outside the canister: it gets the calls the segments make, and it
handles each of them when and how it likes. A transfer may be applied although
its caller was told of an error, or before or after that. What may be assumed of
the ledger is stated by step predicates.

`Linked` ties the requests at the ledger to the operations that made them. A
projection (`System.world_run`) carries the results about worlds over.
-/

namespace ViciMinter

open Lts

/-- A transfer at the ledger. The ledger sees only `transfer`; the rest says who
sent it and on whose behalf. -/
structure Request where
  op : OpId
  reserveId : ReserveId
  key : Option String
  transfer : TransferArg
  deriving DecidableEq, Repr

/-- What a deduplicating ledger compares. -/
structure TransferId where
  toAccount : Principal × Subaccount
  amount : Nat
  fee : Option Nat
  memo : Option (List UInt8)
  createdAtTime : Option Nat
  deriving DecidableEq, Repr

def TransferArg.id (t : TransferArg) : TransferId where
  toAccount := t.toAccount.canon
  amount := t.amount
  fee := t.fee
  memo := t.memo
  createdAtTime := t.createdAtTime

structure Ledger where
  /-- Balance queries that were not answered yet, and the answers. -/
  queries : OpId → Option Account
  quotes : OpId → Option Nat
  /-- Transfers that were not handled yet, and the blocks of the applied ones. -/
  inbox : OpId → Option Request
  blocks : List Request
  balance : Principal × Subaccount → Nat

namespace Ledger

def empty : Ledger where
  queries := fun _ => none
  quotes := fun _ => none
  inbox := fun _ => none
  blocks := []
  balance := fun _ => 0

/-- The ledger mints a block. -/
def apply (l : Ledger) (q : Request) : Ledger :=
  { l with
    blocks := l.blocks ++ [q]
    balance := Function.update l.balance q.transfer.toAccount.canon
      (l.balance q.transfer.toAccount.canon + q.transfer.amount) }

/-- A transfer leaves the inbox. -/
def take (l : Ledger) (n : OpId) : Ledger := { l with inbox := Function.update l.inbox n none }

/-- The call of a segment arrives. `w` is the world after the segment. -/
def receive (l : Ledger) (w : World) : Output → Ledger
  | .balanceCall n _ account => { l with queries := Function.update l.queries n (some account) }
  | .transferCall n _ arg =>
    match w.ops n with
    | some op =>
      { l with inbox := Function.update l.inbox n (some ⟨n, op.reserveId, op.key, arg⟩) }
    | none => l
  | _ => l

section
variable (l : Ledger) (q : Request) (n : OpId)

@[simp] theorem apply_inbox : (l.apply q).inbox = l.inbox := rfl
@[simp] theorem apply_blocks : (l.apply q).blocks = l.blocks ++ [q] := rfl
@[simp] theorem take_inbox : (l.take n).inbox = Function.update l.inbox n none := rfl
@[simp] theorem take_blocks : (l.take n).blocks = l.blocks := rfl

end

theorem take_inbox_some {l : Ledger} {q : Request} {n m : OpId} :
    (l.take n).inbox m = some q ↔ m ≠ n ∧ l.inbox m = some q := by
  rw [take_inbox, World.update_eq_some]
  simp only [reduceCtorEq, and_false, false_or]

/-- The transfers on their way after a transfer call are the new one and the old ones. -/
theorem receive_inbox_some {l : Ledger} {w : World} {arg : TransferArg} {n m : OpId} {op : Op}
    {q : Request} (ledgerId : Principal) (hop : w.ops n = some op) :
    (l.receive w (.transferCall n ledgerId arg)).inbox m = some q ↔
      m = n ∧ ⟨n, op.reserveId, op.key, arg⟩ = q ∨ m ≠ n ∧ l.inbox m = some q := by
  unfold receive
  simp only [hop]
  rw [World.update_eq_some, Option.some.injEq]

theorem receive_of_calls {l : Ledger} {w : World} {o : Output} (h : o.calls = false) :
    l.receive w o = l := by
  cases o <;> first | rfl | cases h

@[simp] theorem receive_blocks {l : Ledger} {w : World} {o : Output} :
    (l.receive w o).blocks = l.blocks := by
  cases o with
  | transferCall n => simp only [receive]; cases w.ops n <;> rfl
  | _ => rfl

@[simp] theorem receive_balance {l : Ledger} {w : World} {o : Output} :
    (l.receive w o).balance = l.balance := by
  cases o with
  | transferCall n => simp only [receive]; cases w.ops n <;> rfl
  | _ => rfl

@[simp] theorem receive_quotes {l : Ledger} {w : World} {o : Output} :
    (l.receive w o).quotes = l.quotes := by
  cases o with
  | transferCall n => simp only [receive]; cases w.ops n <;> rfl
  | _ => rfl

end Ledger

structure System where
  world : World
  ledger : Ledger

inductive SysEvent where
  | minter (e : Event)
  /-- The ledger answers a balance query. -/
  | quote (n : OpId)
  /-- The ledger handles a transfer: it applies it, or it does not. -/
  | handle (n : OpId) (applied : Bool)
  /-- Somebody else changes a balance. -/
  | move (account : Principal × Subaccount) (balance : Nat)
  deriving DecidableEq, Repr

namespace System

def init (ledgerId : Principal) : System := ⟨World.init ledgerId, Ledger.empty⟩

def step (s : System) : SysEvent → Option (System × Option Output)
  | .minter e =>
    match s.world.step e with
    | some (w, o) => some (⟨w, s.ledger.receive w o⟩, some o)
    | none => none
  | .quote n =>
    match s.ledger.queries n with
    | some account => some ({ s with ledger := { s.ledger with
        queries := Function.update s.ledger.queries n none
        quotes := Function.update s.ledger.quotes n (some (s.ledger.balance account.canon)) } },
        none)
    | none => none
  | .handle n applied =>
    match s.ledger.inbox n with
    | some q =>
      let l := s.ledger.take n
      some ({ s with ledger := if applied then l.apply q else l }, none)
    | none => none
  | .move account balance =>
    some ({ s with ledger := { s.ledger with
      balance := Function.update s.ledger.balance account balance } }, none)

abbrev Step : System → SysEvent → System → Prop := Lts.ofFun step

/-- The ways the system steps. -/
theorem step_cases {s s' : System} {e : SysEvent} (h : Step s e s') :
    (∃ ev w o, e = .minter ev ∧ s.world.step ev = some (w, o) ∧
      s' = ⟨w, s.ledger.receive w o⟩) ∨
    (∃ n account, e = .quote n ∧ s.ledger.queries n = some account ∧
      s' = { s with ledger := { s.ledger with
        queries := Function.update s.ledger.queries n none
        quotes := Function.update s.ledger.quotes n (some (s.ledger.balance account.canon)) } }) ∨
    (∃ n q, e = .handle n true ∧ s.ledger.inbox n = some q ∧
      s' = { s with ledger := (s.ledger.take n).apply q }) ∨
    (∃ n q, e = .handle n false ∧ s.ledger.inbox n = some q ∧
      s' = { s with ledger := s.ledger.take n }) ∨
    (∃ account balance, e = .move account balance ∧
      s' = { s with ledger := { s.ledger with
        balance := Function.update s.ledger.balance account balance } }) := by
  obtain ⟨o, h⟩ := h
  cases e with
  | minter ev =>
    simp only [step] at h
    split at h
    · next w o hs =>
      cases h
      exact .inl ⟨ev, w, o, rfl, hs, rfl⟩
    · cases h
  | quote n =>
    simp only [step] at h
    split at h
    · next account hq =>
      cases h
      exact .inr (.inl ⟨n, account, rfl, hq, rfl⟩)
    · cases h
  | handle n applied =>
    simp only [step] at h
    split at h
    · next q hq =>
      cases h
      cases applied with
      | true => exact .inr (.inr (.inl ⟨n, q, rfl, hq, rfl⟩))
      | false => exact .inr (.inr (.inr (.inl ⟨n, q, rfl, hq, rfl⟩)))
    · cases h
  | move account balance =>
    cases h
    exact .inr (.inr (.inr (.inr ⟨account, balance, rfl, rfl⟩)))

/-- A step of the system is a step of the minter, or leaves the minter as it was. -/
theorem world_step {s s' : System} {e : SysEvent} (h : Step s e s') :
    (∃ ev, e = .minter ev ∧ World.Step s.world ev s'.world) ∨ s'.world = s.world := by
  rcases step_cases h with ⟨ev, w, o, rfl, hs, rfl⟩ | ⟨_, _, rfl, _, rfl⟩ | ⟨_, _, rfl, _, rfl⟩ |
    ⟨_, _, rfl, _, rfl⟩ | ⟨_, _, rfl, rfl⟩
  · exact .inl ⟨ev, rfl, o, hs⟩
  all_goals exact .inr rfl

/-- What is asked of the minter's own steps. -/
def OnMinter (ok : World → Event → Prop) (s : System) (e : SysEvent) : Prop :=
  ∀ ev, e = .minter ev → ok s.world ev

/-- A run of the system is a run of its minter. -/
theorem world_run {ok : World → Event → Prop} {s s' : System} {tr : List SysEvent}
    (h : Run Step (OnMinter ok) s tr s') : ∃ tr', Run World.Step ok s.world tr' s'.world := by
  have hsim : ∃ tr' w, Run World.Step ok s.world tr' w ∧ s'.world = w := by
    refine h.simulate (R := fun s w => s.world = w) ?_ rfl
    rintro s e s' w hok hs rfl
    rcases world_step hs with ⟨ev, rfl, hw⟩ | hw
    · exact .inr ⟨ev, _, hok ev rfl, hw, rfl⟩
    · exact .inl hw
  obtain ⟨tr', w, hr, rfl⟩ := hsim
  exact ⟨tr', hr⟩

/-! ## Requests and operations -/

/-- Every operation has at most one request at the ledger, and the request of a
live operation is for its mint. -/
structure Linked (s : System) : Prop where
  fresh : World.Fresh s.world
  sent : ∀ n q, s.ledger.inbox n = some q → q.op = n ∧ n < s.world.nextOp ∧
    ∀ b ∈ s.ledger.blocks, b.op ≠ n
  made : ∀ b ∈ s.ledger.blocks, b.op < s.world.nextOp
  once : s.ledger.blocks.Pairwise fun b b' => b.op ≠ b'.op
  live : ∀ n op q, s.world.ops n = some op →
    (s.ledger.inbox n = some q ∨ q ∈ s.ledger.blocks ∧ q.op = n) →
    q.reserveId = op.reserveId ∧ q.key = op.key ∧
    ∃ m, op.mint = some m ∧ q.transfer.amount = m.amount

theorem linked_init (ledgerId : Principal) : Linked (init ledgerId) where
  fresh := World.fresh_init ledgerId
  sent n q h := by simp [init, Ledger.empty] at h
  made b hb := by simp [init, Ledger.empty] at hb
  once := .nil
  live n op q h := by simp [init, World.init] at h

/-- A segment that calls nothing and suspends nothing keeps the links, if the
operations it leaves are those that were there. -/
theorem Linked.of_ops {s : System} {w : World} (h : Linked s) (hf : World.Fresh w)
    (hn : s.world.nextOp ≤ w.nextOp) (ho : ∀ n op, w.ops n = some op → s.world.ops n = some op) :
    Linked ⟨w, s.ledger⟩ where
  fresh := hf
  sent n q hq :=
    let ⟨h1, h2, h3⟩ := h.sent n q hq
    ⟨h1, Nat.lt_of_lt_of_le h2 hn, h3⟩
  made b hb := Nat.lt_of_lt_of_le (h.made b hb) hn
  once := h.once
  live n op q hop := h.live n op q (ho n op hop)

/-- A segment by which operation `n` gets its transfer. -/
theorem Linked.send {s : System} {w : World} {n : OpId} {ledgerId : Principal} {arg : TransferArg}
    (h : Linked s) (op : Op) (m : MintEvent) (hf : World.Fresh w)
    (hn : s.world.nextOp ≤ w.nextOp) (hlt : n < w.nextOp) (hop : w.ops n = some op)
    (hm : op.mint = some m) (ha : arg.amount = m.amount)
    (hnone : s.ledger.inbox n = none ∧ ∀ b ∈ s.ledger.blocks, b.op ≠ n)
    (ho : ∀ k op, k ≠ n → w.ops k = some op → s.world.ops k = some op) :
    Linked ⟨w, s.ledger.receive w (.transferCall n ledgerId arg)⟩ where
  fresh := hf
  sent k q hq := by
    rw [Ledger.receive_blocks]
    rcases (Ledger.receive_inbox_some ledgerId hop).mp hq with ⟨rfl, rfl⟩ | ⟨-, hq⟩
    · exact ⟨rfl, hlt, hnone.2⟩
    · obtain ⟨h1, h2, h3⟩ := h.sent k q hq
      exact ⟨h1, Nat.lt_of_lt_of_le h2 hn, h3⟩
  made b hb := Nat.lt_of_lt_of_le (h.made b (by simpa using hb)) hn
  once := by simpa using h.once
  live k op' q hop' hq := by
    rw [Ledger.receive_inbox_some ledgerId hop, Ledger.receive_blocks] at hq
    rcases hq with (⟨rfl, rfl⟩ | ⟨hk, hq⟩) | ⟨hb, hbn⟩
    · obtain rfl : op = op' := Option.some.inj (hop.symm.trans hop')
      exact ⟨rfl, rfl, m, hm, ha⟩
    · exact h.live k op' q (ho k op' hk hop') (.inl hq)
    · have hk : k ≠ n := fun he => hnone.2 q hb (hbn.trans he)
      exact h.live k op' q (ho k op' hk hop') (.inr ⟨hb, hbn⟩)

/-- An operation that has issued no mint has no request at the ledger. -/
theorem Linked.unsent {s : System} (h : Linked s) {n : OpId} {op : Op}
    (hop : s.world.ops n = some op) (hm : op.mint = none) :
    s.ledger.inbox n = none ∧ ∀ b ∈ s.ledger.blocks, b.op ≠ n := by
  constructor
  · by_contra hne
    obtain ⟨q, hq⟩ := Option.ne_none_iff_exists'.mp hne
    obtain ⟨-, -, m, hm', -⟩ := h.live n op q hop (.inl hq)
    simp [hm] at hm'
  · intro b hb hbn
    obtain ⟨-, -, m, hm', -⟩ := h.live n op b hop (.inr ⟨hb, hbn⟩)
    simp [hm] at hm'

/-- Nor has an operation that has not begun. -/
theorem Linked.unused {s : System} (h : Linked s) :
    s.ledger.inbox s.world.nextOp = none ∧ ∀ b ∈ s.ledger.blocks, b.op ≠ s.world.nextOp := by
  constructor
  · by_contra hne
    obtain ⟨q, hq⟩ := Option.ne_none_iff_exists'.mp hne
    exact Nat.lt_irrefl _ (h.sent _ q hq).2.1
  · exact fun b hb => (h.made b hb).ne

theorem Linked.segment {s : System} {w : World} {e : Event} {o : Output} (h : Linked s)
    (hs : s.world.step e = some (w, o)) : Linked ⟨w, s.ledger.receive w o⟩ := by
  have hf : World.Fresh w := h.fresh.step ⟨o, hs⟩
  have hd := World.step_did hs
  cases hc : o.calls with
  | false =>
    rw [Ledger.receive_of_calls hc]
    exact h.of_ops hf hd.nextOp_le fun n op hop => hd.ops_of_calls (w := s.world.tick e) hc hop
  | true =>
    rcases hd.call_cases hc with ⟨id, record, rfl, -, -, rfl, rfl⟩ |
      ⟨arg, now, record, rfl, -, rfl, rfl⟩ | ⟨n, id, snap, reply, now, k, rfl, hop, -, rfl, rfl⟩
    · refine ⟨hf, fun k q hq => ?_, fun b hb => Nat.lt_succ_of_lt (h.made b hb), h.once, ?_⟩
      · obtain ⟨h1, h2, h3⟩ := h.sent k q hq
        exact ⟨h1, Nat.lt_succ_of_lt h2, h3⟩
      · intro k op q hop hq
        rcases World.suspend_ops_some.mp hop with ⟨rfl, -⟩ | ⟨-, hop⟩
        · rcases hq with hq | ⟨hb, hbn⟩
          · exact absurd (h.unused.1.symm.trans hq) nofun
          · exact (h.unused.2 q hb hbn).elim
        · exact h.live k op q hop hq
    · refine h.send (.awaitTopup ⟨arg, now⟩) ⟨now, arg.amount⟩ hf (Nat.le_succ _)
        (Nat.lt_succ_self _) (by simp) rfl rfl h.unused ?_
      intro k op hk hop
      exact ((World.suspend_ops_some.mp hop).resolve_left fun h => hk h.1).2
    · have hlt : n < s.world.nextOp := by
        refine Nat.lt_of_not_le fun hle => ?_
        cases (h.fresh n hle).symm.trans hop
      refine h.send (.awaitRebalance k) ⟨k.now, k.mintAmount⟩ hf (Nat.le_refl _) hlt (by simp) rfl
        rfl (h.unsent hop rfl) ?_
      intro j op hj hop'
      simpa [hj] using hop'

theorem Linked.step {s s' : System} {e : SysEvent} (h : Linked s) (hs : Step s e s') :
    Linked s' := by
  rcases step_cases hs with ⟨ev, w, o, rfl, hw, rfl⟩ | ⟨_, _, rfl, _, rfl⟩ | ⟨n, q, rfl, hq, rfl⟩ |
    ⟨n, q, rfl, hq, rfl⟩ | ⟨_, _, rfl, rfl⟩
  · exact h.segment hw
  · exact ⟨h.fresh, h.sent, h.made, h.once, h.live⟩
  · obtain ⟨hqn, hlt, hnew⟩ := h.sent n q hq
    refine ⟨h.fresh, fun k q' hq' => ?_, fun b hb => ?_, ?_, fun k op q' hop hq' => ?_⟩
    · obtain ⟨hk, hq'⟩ := Ledger.take_inbox_some.mp hq'
      obtain ⟨h1, h2, h3⟩ := h.sent k q' hq'
      refine ⟨h1, h2, fun b hb => ?_⟩
      simp only [Ledger.apply_blocks, Ledger.take_blocks, List.mem_append,
        List.mem_singleton] at hb
      rcases hb with hb | rfl
      · exact h3 b hb
      · exact fun he => hk (he.symm.trans hqn)
    · simp only [Ledger.apply_blocks, Ledger.take_blocks, List.mem_append,
        List.mem_singleton] at hb
      rcases hb with hb | rfl
      · exact h.made b hb
      · exact hqn ▸ hlt
    · simp only [Ledger.apply_blocks, Ledger.take_blocks, List.pairwise_append]
      refine ⟨h.once, List.pairwise_singleton _ _, fun b hb b' hb' => ?_⟩
      rw [List.mem_singleton] at hb'
      subst hb'
      rw [hqn]
      exact hnew b hb
    · refine h.live k op q' hop ?_
      simp only [Ledger.apply_inbox, Ledger.take_inbox_some, Ledger.apply_blocks,
        Ledger.take_blocks, List.mem_append, List.mem_singleton] at hq'
      rcases hq' with ⟨-, hq'⟩ | ⟨hb | rfl, hbn⟩
      · exact .inl hq'
      · exact .inr ⟨hb, hbn⟩
      · rw [← hqn.symm.trans hbn]
        exact .inl hq
  · have hin : ∀ k q', (s.ledger.take n).inbox k = some q' → s.ledger.inbox k = some q' :=
      fun k q' hq' => (Ledger.take_inbox_some.mp hq').2
    exact ⟨h.fresh, fun k q' hq' => h.sent k q' (hin k q' hq'), h.made, h.once,
      fun k op q' hop hq' => h.live k op q' hop (hq'.imp_left (hin k q'))⟩
  · exact ⟨h.fresh, h.sent, h.made, h.once, h.live⟩

/-- The transfers that are not handled, as a list. -/
def opened (s : System) : List Request := (List.range s.world.nextOp).filterMap s.ledger.inbox

theorem Linked.mem_opened {s : System} (h : Linked s) {n : OpId} {q : Request}
    (hq : s.ledger.inbox n = some q) : q ∈ s.opened :=
  List.mem_filterMap.mpr ⟨n, List.mem_range.mpr (h.sent n q hq).2.1, hq⟩

/-! ## Since a registration -/

/-- A request that the ledger has, applied or not. -/
def AtLedger (s : System) (q : Request) : Prop :=
  q ∈ s.ledger.blocks ∨ ∃ n, s.ledger.inbox n = some q

/-- A request that arrives is the one its segment sent. -/
theorem atLedger_receive {s : System} {w : World} {o : Output} {q : Request}
    (h : AtLedger ⟨w, s.ledger.receive w o⟩ q) :
    s.AtLedger q ∨ ∃ n ledgerId t op, o = .transferCall n ledgerId t ∧ w.ops n = some op ∧
      q = ⟨n, op.reserveId, op.key, t⟩ := by
  rcases h with h | ⟨m, h⟩
  · exact .inl (.inl (by simpa using h))
  cases o with
  | transferCall n ledgerId t =>
    cases hop : w.ops n with
    | none =>
      unfold Ledger.receive at h
      simp only [hop] at h
      exact .inl (.inr ⟨m, h⟩)
    | some op =>
      rcases (Ledger.receive_inbox_some ledgerId hop).mp h with ⟨rfl, rfl⟩ | ⟨-, h⟩
      · exact .inr ⟨m, ledgerId, t, op, rfl, hop, rfl⟩
      · exact .inl (.inr ⟨m, h⟩)
  | _ => exact .inl (.inr ⟨m, h⟩)

theorem atLedger_take {s : System} {n : OpId} {q : Request}
    (h : AtLedger { s with ledger := s.ledger.take n } q) : s.AtLedger q := by
  rcases h with h | ⟨m, h⟩
  · exact .inl h
  · exact .inr ⟨m, (Ledger.take_inbox_some.mp h).2⟩

theorem atLedger_apply {s : System} {n : OpId} {q q' : Request} (hq : s.ledger.inbox n = some q)
    (h : AtLedger { s with ledger := (s.ledger.take n).apply q } q') : s.AtLedger q' := by
  rcases h with h | h
  · simp only [Ledger.apply_blocks, Ledger.take_blocks, List.mem_append, List.mem_singleton] at h
    rcases h with h | rfl
    exacts [.inl h, .inr ⟨n, hq⟩]
  · exact atLedger_take (.inr h)

/-- A step brings no request to the ledger but for the operation it leaves live. -/
theorem atLedger_step {s s' : System} {e : SysEvent} {q : Request} (hs : Step s e s')
    (h : s'.AtLedger q) :
    s.AtLedger q ∨ ∃ n op, s'.world.ops n = some op ∧ q.reserveId = op.reserveId := by
  rcases step_cases hs with ⟨ev, w, o, rfl, hw, rfl⟩ | ⟨_, _, rfl, _, rfl⟩ | ⟨n, q, rfl, hq, rfl⟩ |
    ⟨n, q, rfl, hq, rfl⟩ | ⟨_, _, rfl, rfl⟩
  · rcases atLedger_receive h with h | ⟨n, _, _, op, rfl, hop, rfl⟩
    exacts [.inl h, .inr ⟨n, op, hop, rfl⟩]
  · exact .inl h
  · exact .inl (atLedger_apply hq h)
  · exact .inl (atLedger_take h)
  · exact .inl h

/-- `s` was reached from `s₁`, in which `arg` has just been registered as `r`,
and `tr` are the steps since then. They satisfy `ok`. -/
def Since (ledgerId : Principal) (arg : AddReserveArg) (r : ReserveId)
    (ok : System → SysEvent → Prop) (s₁ : System) (tr : List SysEvent) (s : System) : Prop :=
  ∃ tr₀ s₀, Run Step (OnMinter (World.AddsOther r)) (init ledgerId) tr₀ s₀ ∧
    s₀.step (.minter (.addReserve arg)) = some (s₁, some (.added (.ok r))) ∧
    Run Step (fun s e => OnMinter (World.AddsOther r) s e ∧ ok s e) s₁ tr s

/-- The registration as a step of the minter. -/
theorem step_added {s s' : System} {arg : AddReserveArg} {r : ReserveId}
    (h : s.step (.minter (.addReserve arg)) = some (s', some (.added (.ok r)))) :
    s.world.step (.addReserve arg) = some (s'.world, .added (.ok r)) := by
  simp only [step] at h
  split at h
  · next w o hw =>
    cases h
    exact hw
  · cases h

/-- The world's part of a run since a registration. -/
theorem Since.world {ledgerId : Principal} {arg : AddReserveArg} {r : ReserveId}
    {ok : System → SysEvent → Prop} {okw : World → Event → Prop} {s₁ s : System}
    {tr : List SysEvent} (h : Since ledgerId arg r ok s₁ tr s)
    (hok : ∀ s e, ok s e → OnMinter okw s e) :
    ∃ tr', World.Since ledgerId arg r okw s₁.world tr' s.world := by
  obtain ⟨tr₀, s₀, h₀, hs, hr⟩ := h
  obtain ⟨tr₀', h₀'⟩ := world_run h₀
  have hr' : Run Step (OnMinter fun w e => World.AddsOther r w e ∧ okw w e) s₁ tr s :=
    hr.mono fun s e ⟨ha, ho⟩ ev he => ⟨ha ev he, hok s e ho ev he⟩
  obtain ⟨tr', hr'⟩ := world_run hr'
  exact ⟨tr', tr₀', s₀.world, h₀', step_added hs, hr'⟩

/-- A reserve that has just been registered. -/
structure Registered (arg : AddReserveArg) (r : ReserveId) (s : System) : Prop where
  world : World.Registered arg r s.world
  linked : Linked s
  unsent : ∀ q, s.AtLedger q → q.reserveId ≠ r

theorem Since.registered {ledgerId : Principal} {arg : AddReserveArg} {r : ReserveId}
    {ok : System → SysEvent → Prop} {s₁ s : System} {tr : List SysEvent}
    (h : Since ledgerId arg r ok s₁ tr s) : Registered arg r s₁ := by
  have hw : ∃ tr', World.Since ledgerId arg r (fun _ _ => True) s₁.world tr' s.world :=
    h.world fun _ _ _ _ _ => trivial
  obtain ⟨tr', hw⟩ := hw
  obtain ⟨tr₀, s₀, h₀, hs, -⟩ := h
  have hlink : Linked s₀ := h₀.invariant (fun _ _ _ _ hl hs => hl.step hs) (linked_init ledgerId)
  have hstep : Step s₀ (.minter (.addReserve arg)) s₁ := ⟨_, hs⟩
  have hun : World.Untouched r s₀.world ∧ ∀ q, s₀.AtLedger q → q.reserveId ≠ r := by
    refine h₀.invariant (I := fun s => World.Untouched r s.world ∧
      ∀ q, s.AtLedger q → q.reserveId ≠ r) ?_ ⟨World.untouched_init r ledgerId, ?_⟩
    · rintro s e s' ha ⟨hu, hq⟩ hs
      have hu' : World.Untouched r s'.world := by
        rcases world_step hs with ⟨ev, rfl, hw⟩ | hw
        · exact hu.step (ha ev rfl) hw
        · exact hw ▸ hu
      refine ⟨hu', fun q hq' => ?_⟩
      rcases atLedger_step hs hq' with hq' | ⟨n, op, hop, hid⟩
      · exact hq q hq'
      · exact hid ▸ hu'.idle n op hop
    · rintro q (h | ⟨n, h⟩) <;> simp [init, Ledger.empty] at h
  refine ⟨hw.registered, hlink.step hstep, fun q hq => ?_⟩
  rcases atLedger_step hstep hq with hq | ⟨n, op, hop, hid⟩
  · exact hun.2 q hq
  · exact hid ▸ hw.registered.idle n op hop

/-- What holds at the registration and is kept by every step holds since then. -/
theorem Since.invariant {ledgerId : Principal} {arg : AddReserveArg} {r : ReserveId}
    {ok : System → SysEvent → Prop} {s₁ s : System} {tr : List SysEvent} {I : System → Prop}
    (h : Since ledgerId arg r ok s₁ tr s) (h₁ : Registered arg r s₁ → I s₁)
    (hstep : ∀ s e s', OnMinter (World.AddsOther r) s e → ok s e → I s → Step s e s' → I s') :
    I s := by
  have hreg := h₁ h.registered
  obtain ⟨_, _, _, _, hr⟩ := h
  exact hr.invariant (fun s e s' hok hi hs => hstep s e s' hok.1 hok.2 hi hs) hreg

/-- A computed run since a registration. -/
def registered (arg : AddReserveArg) : System :=
  last step (init Sample.ledgerId) [.minter (.addReserve arg)]

theorem since_last {arg : AddReserveArg} {ok : System → SysEvent → Prop} {tr : List SysEvent}
    (okb : System → SysEvent → Bool)
    (hok : ∀ s e, okb s e = true → OnMinter (World.AddsOther 0) s e ∧ ok s e)
    (ha : ((init Sample.ledgerId).step (.minter (.addReserve arg))).map Prod.snd =
      some (some (.added (.ok 0))))
    (h : (exec step (registered arg) tr).isSome = true)
    (hb : okAlong step okb (registered arg) tr = true) :
    Since Sample.ledgerId arg 0 ok (registered arg) tr (last step (registered arg) tr) :=
  ⟨[], _, .nil _, step_last_eq ha, run_last okb hok h hb⟩

instance (ok : World → Event → Prop) [∀ w e, Decidable (ok w e)] (s : System) (e : SysEvent) :
    Decidable (OnMinter ok s e) :=
  match e with
  | .minter ev => decidable_of_iff (ok s.world ev) <| by
    constructor
    · rintro h _ ⟨⟩
      exact h
    · exact fun h => h ev rfl
  | .handle _ _ | .quote _ | .move _ _ => .isTrue (by rintro _ ⟨⟩)

/-! ## What the samples assume of the outside -/

/-- The ledger does not apply a transfer that agrees with an applied one. -/
def Dedups (s : System) (e : SysEvent) : Prop :=
  ∀ n q, e = .handle n true → s.ledger.inbox n = some q →
    ∀ b ∈ s.ledger.blocks, b.transfer.id ≠ q.transfer.id

instance (s : System) (e : SysEvent) : Decidable (Dedups s e) :=
  match e with
  | .handle n true => decidable_of_iff (∀ q ∈ s.ledger.inbox n, ∀ b ∈ s.ledger.blocks,
      b.transfer.id ≠ q.transfer.id) <| by
    constructor
    · rintro h _ q ⟨⟩ hq
      exact h q hq
    · exact fun h q hq => h n q rfl hq
  | .handle _ false | .minter _ | .quote _ | .move _ _ => .isTrue (by rintro _ _ ⟨⟩)

/-- No forced release, no loss, and `time()` does not go back. -/
abbrev Calm : System → SysEvent → Prop :=
  OnMinter fun w e => e.calm = true ∧ World.ClockMonotone w e

end System

end ViciMinter
