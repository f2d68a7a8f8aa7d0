import ViciMinter.System

/-!
# Delivery of a keyed top-up

A transfer may be applied although its caller gets an error. The rollback then
frees the key, and a retry sends a new transfer. The ledger recognises it as a
duplicate only if it agrees with the first one also in `created_at_time`, which
`mint_to` sets to the time of the attempt: `retry_mints_twice` is a run in which
one key gets two blocks.

`delivered_once` says that there is no other way: a key has at most one block if
no attempt starts while an earlier one of another time is at the ledger.
-/

namespace ViciMinter

open Lts

namespace System

def Retries (k : String) (arg : ManualTopupArg) (_ : System) (e : SysEvent) : Prop :=
  ∀ arg' now, e = .minter (.manualTopup arg' now) → arg'.idempotencyKey = some k → arg' = arg

instance (k : String) (arg : ManualTopupArg) (s : System) (e : SysEvent) :
    Decidable (Retries k arg s e) :=
  match e with
  | .minter (.manualTopup arg' now) =>
    decidable_of_iff (arg'.idempotencyKey = some k → arg' = arg) <| by
      constructor
      · rintro h _ _ ⟨⟩
        exact h
      · exact fun h => h arg' now rfl
  | .minter (.addReserve _) | .minter (.updateReserve _) | .minter (.removeReserve _)
  | .minter (.setGlobalPolicy _) | .minter (.releaseStuckMintState _ _) | .minter (.rebalance _)
  | .minter (.balanceReply _ _ _) | .minter (.transferReply _ _) | .minter (.lose _)
  | .handle _ _ | .quote _ | .move _ _ => .isTrue (by rintro _ _ ⟨⟩)

/-- A call with the key `k` that issues a transfer does so at the time, and to
the account, of the requests for `k` that the ledger already has. -/
def SameTime (k : String) (s : System) (e : SysEvent) : Prop :=
  ∀ arg now record, e = .minter (.manualTopup arg now) → arg.idempotencyKey = some k →
    Starts s.world.state arg now record → ∀ q, s.AtLedger q → q.key = some k →
    q.transfer.createdAtTime = some now ∧ q.transfer.toAccount.canon = record.config.account.canon

/-- All requests for `k` agree, and no two applied ones do. -/
structure Agrees (k : String) (arg : ManualTopupArg) (s : System) : Prop where
  form : ∀ q, s.AtLedger q → q.key = some k →
    ∃ account now, q.transfer = mintToArg account arg.amount arg.memo now
  same : ∀ q q', s.AtLedger q → s.AtLedger q' → q.key = some k → q'.key = some k →
    q.transfer.id = q'.transfer.id
  distinct : s.ledger.blocks.Pairwise fun b b' => b.transfer.id ≠ b'.transfer.id

theorem agrees_init (k : String) (arg : ManualTopupArg) (ledgerId : Principal) :
    Agrees k arg (init ledgerId) := by
  have hno : ∀ q, ¬ (init ledgerId).AtLedger q := by
    rintro q (h | ⟨n, h⟩) <;> simp [init, Ledger.empty] at h
  exact ⟨fun q hq => (hno q hq).elim, fun q _ hq => (hno q hq).elim, .nil⟩

theorem Agrees.mono {k : String} {arg : ManualTopupArg} {s s' : System} (h : Agrees k arg s)
    (ha : ∀ q, s'.AtLedger q → q.key = some k → s.AtLedger q)
    (hb : s'.ledger.blocks = s.ledger.blocks) : Agrees k arg s' where
  form q hq hk := h.form q (ha q hq hk) hk
  same q q' hq hq' hk hk' := h.same q q' (ha q hq hk) (ha q' hq' hk') hk hk'
  distinct := hb ▸ h.distinct

theorem Agrees.topup {k : String} {arg : ManualTopupArg} {s : System} {w : World} {n : OpId}
    {now : Nat} {record : ReserveRecord} {ledgerId : Principal} (h : Agrees k arg s)
    (hsame : ∀ q, s.AtLedger q → q.key = some k → q.transfer.createdAtTime = some now ∧
      q.transfer.toAccount.canon = record.config.account.canon) :
    Agrees k arg ⟨w, s.ledger.receive w
      (.transferCall n ledgerId (TopupMint.transfer ⟨arg, now⟩ record.config.account))⟩ := by
  -- every request for `k` is the new one, or an old one that agrees with it
  have hnew : ∀ q, AtLedger ⟨w, s.ledger.receive w (.transferCall n ledgerId
      (TopupMint.transfer ⟨arg, now⟩ record.config.account))⟩ q → q.key = some k →
      (∃ account now, q.transfer = mintToArg account arg.amount arg.memo now) ∧
      q.transfer.id = (TopupMint.transfer ⟨arg, now⟩ record.config.account).id := by
    intro q hq hk
    rcases atLedger_receive hq with hq | ⟨n', l, t, op, ho, hop', rfl⟩
    · obtain ⟨account, t, ht⟩ := h.form q hq hk
      obtain ⟨h1, h2⟩ := hsame q hq hk
      rw [ht] at h1 h2
      refine ⟨⟨account, t, ht⟩, ?_⟩
      rw [ht]
      cases h1
      simp only [TransferArg.id, mintToArg] at h2 ⊢
      simp [h2, TopupMint.transfer, mintToArg]
    · cases ho
      exact ⟨⟨record.config.account, now, rfl⟩, rfl⟩
  exact ⟨fun q hq hk => (hnew q hq hk).1,
    fun q q' hq hq' hk hk' => (hnew q hq hk).2.trans (hnew q' hq' hk').2.symm,
    by simpa using h.distinct⟩

theorem Agrees.step {k : String} {arg : ManualTopupArg} {s s' : System} {e : SysEvent}
    (hd : Dedups s e) (hr : Retries k arg s e) (ht : SameTime k s e) (h : Agrees k arg s)
    (hs : Step s e s') : Agrees k arg s' := by
  rcases step_cases hs with ⟨ev, w, o, rfl, hw, rfl⟩ | ⟨n, account, rfl, hq, rfl⟩ |
    ⟨n, q, rfl, hq, rfl⟩ | ⟨n, q, rfl, hq, rfl⟩ | ⟨_, _, rfl, rfl⟩
  · by_cases hcall : ∃ n ledgerId t op, o = .transferCall n ledgerId t ∧ w.ops n = some op ∧
        op.key = some k
    · obtain ⟨n, ledgerId, t, op, rfl, hop, hk⟩ := hcall
      rcases World.issue_cases hw with
        ⟨arg', now, record, rfl, rfl, hstart, rfl, rfl⟩ |
        ⟨id, snap, reply, now, c, rfl, _, _, rfl, rfl⟩
      · simp only [World.suspend_ops, World.tick_ops, World.tick_nextOp, Function.update_self,
          Option.some.injEq] at hop
        subst hop
        obtain rfl := hr arg' now rfl hk
        exact h.topup (ht arg' now record rfl hk hstart)
      · simp only [Function.update_self, Option.some.injEq] at hop
        subst hop
        cases hk
    · refine h.mono (fun q hq hk => ?_) (by simp)
      rcases atLedger_receive hq with hq | ⟨n, ledgerId, t, op, rfl, hop, rfl⟩
      · exact hq
      · exact (hcall ⟨n, ledgerId, t, op, rfl, hop, hk⟩).elim
  · exact h.mono (fun q hq _ => hq) rfl
  · have hold : ∀ q', AtLedger { s with ledger := (s.ledger.take n).apply q } q' →
        s.AtLedger q' := fun q' => atLedger_apply hq
    refine ⟨fun q' hq' => h.form q' (hold q' hq'), fun q' q'' hq' hq'' =>
      h.same q' q'' (hold q' hq') (hold q'' hq''), ?_⟩
    rw [Ledger.apply_blocks, Ledger.take_blocks, List.pairwise_append]
    refine ⟨h.distinct, List.pairwise_singleton _ _, fun b hb b' hb' => ?_⟩
    rw [List.mem_singleton] at hb'
    subst hb'
    exact hd n b' rfl hq b hb
  · exact h.mono (fun q' hq' _ => atLedger_take hq') rfl
  · exact h.mono (fun q hq _ => hq) rfl

/-- The blocks made on behalf of a key. -/
def blocksFor (s : System) (k : String) : List Request :=
  s.ledger.blocks.filter fun b => b.key = some k

/-- A key gets at most one block, if no attempt starts while the ledger has one
of another time. -/
theorem delivered_once {ledgerId : Principal} {k : String} {arg : ManualTopupArg}
    {tr : List SysEvent} {s : System}
    (h : Run Step (fun s e => Dedups s e ∧ Retries k arg s e ∧ SameTime k s e)
      (init ledgerId) tr s) : (s.blocksFor k).length ≤ 1 := by
  have ha : Agrees k arg s := h.invariant
    (fun _ _ _ ⟨hd, hr, ht⟩ ha hs => Agrees.step hd hr ht ha hs) (agrees_init k arg ledgerId)
  match hl : s.blocksFor k with
  | [] | [_] => simp
  | b :: b' :: l =>
    have hmem : ∀ b ∈ s.blocksFor k, s.AtLedger b ∧ b.key = some k := by
      intro b hb
      have hb := List.mem_filter.mp hb
      exact ⟨.inl hb.1, of_decide_eq_true hb.2⟩
    have hpair := ha.distinct.filter fun b => b.key = some k
    rw [show s.ledger.blocks.filter (fun b => b.key = some k) = b :: b' :: l from hl,
      List.pairwise_cons] at hpair
    obtain ⟨h1, k1⟩ := hmem b (by simp [hl])
    obtain ⟨h2, k2⟩ := hmem b' (by simp [hl])
    exact (hpair.1 b' (by simp) (ha.same b b' h1 h2 k1 k2)).elim

def requests (s : System) : List Request := s.ledger.blocks ++ s.opened

theorem AtLedger.mem {s : System} {q : Request} (h : Linked s) (hq : s.AtLedger q) :
    q ∈ s.requests := by
  unfold requests
  rw [List.mem_append]
  rcases hq with hq | ⟨n, hq⟩
  · exact .inl hq
  · exact .inr (h.mem_opened hq)

/-- `SameTime`, as a test of all requests. -/
def sameTimeTest (k : String) (s : System) : SysEvent → Bool
  | .minter (.manualTopup arg now) => s.requests.all fun q => q.key = some k →
    q.transfer.createdAtTime = some now ∧ (s.world.state.reserves[arg.reserveId]?).all fun record =>
      q.transfer.toAccount.canon = record.config.account.canon
  | _ => true

theorem sameTime_of_test {k : String} {s : System} {e : SysEvent} (h : Linked s)
    (ht : sameTimeTest k s e = true) : SameTime k s e := by
  rintro arg now record rfl hk hstart q hq hqk
  have hall := List.all_eq_true.mp ht q (hq.mem h)
  have ⟨h1, h2⟩ := of_decide_eq_true hall hqk
  rw [hstart.registered] at h2
  exact ⟨h1, of_decide_eq_true h2⟩

/-- A top-up whose transfer is applied and whose reply is lost. -/
def lostReply : List SysEvent :=
  [.minter (.addReserve Sample.reserve), .minter (.manualTopup ⟨0, 60, some "k"⟩ 1),
    .handle 0 true, .minter (.transferReply 0 (.callFailed "timeout"))]

/-- The retry one nanosecond later is another transfer for the ledger. -/
theorem retry_mints_twice : ∃ s,
    Run Step (fun s e => Dedups s e ∧ Retries "k" ⟨0, 60, some "k"⟩ s e ∧ Calm s e)
      (init Sample.ledgerId)
      (lostReply ++ [.minter (.manualTopup ⟨0, 60, some "k"⟩ 2), .handle 1 true]) s ∧
    (s.blocksFor "k").length = 2 :=
  ⟨_, run_last (fun s e => Dedups s e ∧ Retries "k" ⟨0, 60, some "k"⟩ s e ∧ Calm s e)
    (fun _ _ => of_decide_eq_true) (by decide) (by decide), by decide⟩

/-- The retry at the same time is a duplicate, and its call succeeds. -/
def sameTimeRetry : List SysEvent :=
  lostReply ++ [.minter (.manualTopup ⟨0, 60, some "k"⟩ 1), .handle 1 false,
    .minter (.transferReply 1 (.answered (.error (.duplicate 0))))]

theorem delivered_once_sample : ∃ s,
    Run Step (fun s e => Dedups s e ∧ Retries "k" ⟨0, 60, some "k"⟩ s e ∧ SameTime "k" s e)
      (init Sample.ledgerId) sameTimeRetry s ∧
    s.world.state.idempotency["k"]? = some (IdempotencyRecord.completed ⟨0, 60, 0, 1⟩) ∧
    (s.blocksFor "k").length ≤ 1 := by
  have h : Run Step (fun s e => Dedups s e ∧ Retries "k" ⟨0, 60, some "k"⟩ s e ∧
      sameTimeTest "k" s e = true) (init Sample.ledgerId) sameTimeRetry
      (last step (init Sample.ledgerId) sameTimeRetry) :=
    run_last (fun s e => Dedups s e ∧ Retries "k" ⟨0, 60, some "k"⟩ s e ∧
      sameTimeTest "k" s e = true) (fun _ _ => of_decide_eq_true) (by decide) (by decide)
  have h := (h.strengthen (fun _ _ _ _ hl hs => Linked.step hl hs) (linked_init _)).mono
    fun s e ⟨⟨hd, hr, ht⟩, hl⟩ => And.intro hd (And.intro hr (sameTime_of_test hl ht))
  exact ⟨_, h, by decide, delivered_once h⟩

end System

end ViciMinter
