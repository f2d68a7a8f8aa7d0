import ViciMinter.Delivery

/-!
# One block for each mint

`mint_to` takes a `Duplicate` answer for a success: the transfer is a replay, and
its block is already there. The ledger compares account, amount, memo and time,
and these do not tell two operations apart: the memo of a top-up without a key is
the reserve, that of a long key is cut off, and two calls can be made at the same
time. `replayed_twice` is a run in which one block is counted for two top-ups.

`one_block_each` says that there is no other way: if no operation sends a
transfer that agrees with one the ledger already has, every mint that is
committed has a block of its own.
-/

namespace ViciMinter

open Lts

namespace System

/-- A success names the block of the operation's own transfer, and `Duplicate` an
applied transfer that agrees with the one that is waiting. -/
structure Answers (s : System) (e : SysEvent) : Prop where
  success : ∀ n b, e = .minter (.transferReply n (.answered (.ok b))) →
    ∃ q, s.ledger.blocks[b]? = some q ∧ q.op = n
  duplicate : ∀ n b, e = .minter (.transferReply n (.answered (.error (.duplicate b)))) →
    ∃ q q', s.ledger.inbox n = some q ∧ s.ledger.blocks[b]? = some q' ∧
      q'.transfer.id = q.transfer.id

/-- The transfer that the step would send agrees with none that the ledger has. -/
structure NewTransfer (s : System) (e : SysEvent) : Prop where
  topup : ∀ arg now record, e = .minter (.manualTopup arg now) →
    Starts s.world.state arg now record → ∀ q, s.AtLedger q →
    q.transfer.id ≠ (TopupMint.transfer ⟨arg, now⟩ record.config.account).id
  rebalance : ∀ n id snap reply now a, e = .minter (.balanceReply n reply now) →
    s.world.ops n = some (.awaitBalance id snap) → Decides snap reply now a →
    ∀ q, s.AtLedger q → q.transfer.id ≠
      (mintToArg snap.config.account a ("rebalance:" ++ toString id) now).id

/-- No two operations have requests that agree. -/
def Apart (s : System) : Prop :=
  ∀ q q', s.AtLedger q → s.AtLedger q' → q.transfer.id = q'.transfer.id → q.op = q'.op

theorem Apart.mono {s s' : System} (h : Apart s) (ha : ∀ q, s'.AtLedger q → s.AtLedger q) :
    Apart s' :=
  fun q q' hq hq' => h q q' (ha q hq) (ha q' hq')

theorem NewTransfer.sent {s : System} {w : World} {e : Event} {n : OpId} {ledgerId : Principal}
    {t : TransferArg} (h : NewTransfer s (.minter e))
    (hs : s.world.step e = some (w, .transferCall n ledgerId t)) :
    ∀ q, s.AtLedger q → q.transfer.id ≠ t.id := by
  rcases World.issue_cases hs with ⟨arg, now, record, rfl, -, hstart, rfl, -⟩ |
    ⟨id, snap, reply, now, k, rfl, hop, hk, rfl, -⟩
  · exact h.topup arg now record rfl hstart
  · have hnew := h.rebalance n id snap reply now k.mintAmount rfl hop hk.decided
    rw [RebalanceMint.transfer, hk.reserve, hk.time]
    exact hnew

theorem Apart.step {s s' : System} {e : SysEvent} (hn : NewTransfer s e) (h : Apart s)
    (hs : Step s e s') : Apart s' := by
  rcases step_cases hs with ⟨ev, w, o, rfl, hw, rfl⟩ | ⟨_, _, rfl, _, rfl⟩ | ⟨n, q, rfl, hq, rfl⟩ |
    ⟨n, q, rfl, hq, rfl⟩ | ⟨_, _, rfl, rfl⟩
  · intro q q' hq hq' he
    rcases atLedger_receive hq with hold | ⟨n, ledgerId, t, op, rfl, hop, rfl⟩ <;>
      rcases atLedger_receive hq' with hold' | ⟨n', ledgerId', t', op', ho, hop', rfl⟩
    · exact h q q' hold hold' he
    · subst ho
      exact (hn.sent hw q hold he).elim
    · exact (hn.sent hw q' hold' he.symm).elim
    · cases ho
      rfl
  · exact h
  · exact h.mono fun q' => atLedger_apply hq
  · exact h.mono fun q' => atLedger_take
  · exact h

/-- Every committed mint has a block, made by its own operation. -/
structure Accounted (s : System) : Prop where
  block : ∀ c ∈ s.world.commits, ∃ q, s.ledger.blocks[c.blockIndex]? = some q ∧ q.op = c.op ∧
    q.reserveId = c.reserveId ∧ q.transfer.amount = c.event.amount
  ended : ∀ c ∈ s.world.commits, s.world.ops c.op = none ∧ c.op < s.world.nextOp
  once : s.world.commits.Pairwise fun c c' => c.op ≠ c'.op

theorem accounted_init (ledgerId : Principal) : Accounted (init ledgerId) where
  block c hc := by simp [init, World.init] at hc
  ended c hc := by simp [init, World.init] at hc
  once := .nil

theorem blocks_step {s s' : System} {e : SysEvent} (hs : Step s e s') {i : Nat} {q : Request}
    (hq : s.ledger.blocks[i]? = some q) : s'.ledger.blocks[i]? = some q := by
  rcases step_cases hs with ⟨ev, w, o, rfl, hw, rfl⟩ | ⟨_, _, rfl, _, rfl⟩ | ⟨n, q', rfl, _, rfl⟩ |
    ⟨n, q', rfl, _, rfl⟩ | ⟨_, _, rfl, rfl⟩
  · rw [Ledger.receive_blocks]
    exact hq
  · exact hq
  · rw [Ledger.apply_blocks, Ledger.take_blocks]
    exact (List.getElem?_append_left (List.getElem?_eq_some_iff.mp hq).1).trans hq
  · exact hq
  · exact hq

theorem Answers.own {s : System} {n : OpId}
    {reply : Reply (Except TransferError Nat)} {block : Nat} (hl : Linked s) (ha : Apart s)
    (h : Answers s (.minter (.transferReply n reply))) (hr : mintToResult reply = .ok block) :
    ∃ q, s.ledger.blocks[block]? = some q ∧ q.op = n := by
  unfold mintToResult at hr
  split at hr
  · cases hr
  · cases hr
  · cases hr
    exact h.success n block rfl
  · cases hr
    obtain ⟨q, q', hq, hq', he⟩ := h.duplicate n block rfl
    -- the agreeing block would be of the operation itself, which has none yet
    obtain ⟨hqn, -, hnone⟩ := hl.sent n q hq
    have hop := ha q' q (.inl (List.mem_of_getElem? hq')) (.inr ⟨n, hq⟩) he
    exact (hnone q' (List.mem_of_getElem? hq') (hop.trans hqn)).elim
  · cases hr

end System

namespace World

theorem Did.commits_cases {w w' : World} {e : Event} {o : Output} (hd : Did w e o w') :
    w'.commits = w.commits ∨ ∃ n op m reply block, w.ops n = some op ∧ op.mint = some m ∧
      e = .transferReply n reply ∧ mintToResult reply = .ok block ∧ w'.ops n = none ∧
      w'.commits = w.commits ++ [⟨n, op.reserveId, op.key, m, block⟩] := by
  cases hd with
  | quiet | added | updated | removed | policySet | released | begunRebalance | begunTopup |
    issued => exact .inl rfl
  | dropped | missed | lost => exact .inl (List.append_nil _)
  | @committed n op m _ block reply _ hop hm _ hr =>
    exact .inr ⟨n, op, m, reply, block, hop, hm, rfl, hr, by simp, rfl⟩

theorem Did.counted {w w' : World} {e : Event} {o : Output} {r : ReserveId}
    {record record' : ReserveRecord} (hd : Did w e o w')
    (hrec : w.state.reserves[r]? = some record) (hrec' : w'.state.reserves[r]? = some record')
    (hlt : record.lifetimeMinted < record'.lifetimeMinted) :
    ∃ c, w'.commits = w.commits ++ [c] ∧ c.reserveId = r ∧
      record'.lifetimeMinted = record.lifetimeMinted + c.event.amount := by
  cases hd.wrote hrec' with
  | kept hold =>
    cases hrec.symm.trans hold
    omega
  | added => exact (Nat.not_lt_zero _ hlt).elim
  | updated _ hold =>
    cases hrec.symm.trans hold
    exact (Nat.lt_irrefl _ hlt).elim
  | @minted _ _ m _ _ _ hm =>
    cases hrec.symm.trans hm.before
    have hh := hm.history
    rcases hd.commits_cases with hc | ⟨n, op, m', _, block, _, _, _, _, _, hc⟩
    · simp [history, hc] at hh
    · by_cases hid : op.reserveId = r
      · have hm' : m' = m := by simpa [history, hc, hid] using hh
        exact ⟨_, hc, hid, hm' ▸ rfl⟩
      · simp [history, hc, hid] at hh

theorem Did.stays_ended {w w' : World} {e : Event} {o : Output} {n : OpId} (hd : Did w e o w')
    (hend : w.ops n = none) (hlt : n < w.nextOp) : w'.ops n = none := by
  by_contra hne
  obtain ⟨op, hop⟩ := Option.ne_none_iff_exists'.mp hne
  rcases hd.origin hop with ⟨old, hold, -⟩ | hb
  · cases hend.symm.trans hold
  · exact Nat.lt_irrefl _ (hb.next ▸ hlt)

end World

namespace System

theorem Accounted.step {s s' : System} {e : SysEvent} (hl : Linked s) (ha : Apart s)
    (hr : Answers s e) (h : Accounted s) (hs : Step s e s') : Accounted s' := by
  have hblocks : ∀ {i q}, s.ledger.blocks[i]? = some q → s'.ledger.blocks[i]? = some q :=
    fun hq => blocks_step hs hq
  have hkept : ∀ c ∈ s.world.commits, ∃ q, s'.ledger.blocks[c.blockIndex]? = some q ∧
      q.op = c.op ∧ q.reserveId = c.reserveId ∧ q.transfer.amount = c.event.amount := by
    intro c hc
    obtain ⟨q, hq, hrest⟩ := h.block c hc
    exact ⟨q, hblocks hq, hrest⟩
  rcases world_step hs with ⟨ev, rfl, o, hw⟩ | hw
  · have hd := World.step_did hw
    have hended : ∀ c ∈ s.world.commits, s'.world.ops c.op = none ∧ c.op < s'.world.nextOp := by
      intro c hc
      obtain ⟨hend, hlt⟩ := h.ended c hc
      exact ⟨hd.stays_ended (w := s.world.tick ev) hend hlt, Nat.lt_of_lt_of_le hlt hd.nextOp_le⟩
    rcases hd.commits_cases with hc | ⟨n, op, m, reply, block, hop, hm, rfl, hreply, hend, hc⟩
    · rw [World.tick_commits] at hc
      rw [← hc] at hkept hended
      exact ⟨hkept, hended, hc ▸ h.once⟩
    · obtain ⟨q, hq, hqn⟩ := hr.own hl ha hreply
      obtain ⟨hid, -, m', hm', hamount⟩ :=
        hl.live n op q hop (.inr ⟨List.mem_of_getElem? hq, hqn⟩)
      obtain rfl : m' = m := Option.some.inj (hm'.symm.trans hm)
      have hlt : n < s.world.nextOp := by
        refine Nat.lt_of_not_le fun hle => ?_
        cases (hl.fresh n hle).symm.trans hop
      rw [World.tick_commits] at hc
      refine ⟨fun c hmem => ?_, fun c hmem => ?_, ?_⟩
      · rw [hc, List.mem_append, List.mem_singleton] at hmem
        rcases hmem with hmem | rfl
        · exact hkept c hmem
        · exact ⟨q, hblocks hq, hqn, hid, hamount⟩
      · rw [hc, List.mem_append, List.mem_singleton] at hmem
        rcases hmem with hmem | rfl
        · exact hended c hmem
        · exact ⟨hend, Nat.lt_of_lt_of_le hlt hd.nextOp_le⟩
      · rw [hc, List.pairwise_append]
        refine ⟨h.once, List.pairwise_singleton _ _, fun c hmem c' hmem' => ?_⟩
        rw [List.mem_singleton] at hmem'
        subst hmem'
        intro heq
        subst heq
        cases (h.ended c hmem).1.symm.trans hop
  · refine ⟨?_, ?_, ?_⟩ <;> rw [hw]
    exacts [hkept, h.ended, h.once]

theorem Accounted.blocks_apart {s : System} (h : Accounted s) :
    s.world.commits.Pairwise fun c c' => c.blockIndex ≠ c'.blockIndex := by
  refine h.once.imp_of_mem fun {c c'} hc hc' hne heq => hne ?_
  obtain ⟨q, hq, hqc, -⟩ := h.block c hc
  obtain ⟨q', hq', hqc', -⟩ := h.block c' hc'
  rw [heq] at hq
  cases hq.symm.trans hq'
  exact hqc.symm.trans hqc'

/-- If every transfer that is sent is a new one, the mints that are committed have
different blocks, each made by its own operation for the amount that is counted. -/
theorem one_block_each {ledgerId : Principal} {tr : List SysEvent} {s : System}
    (h : Run Step (fun s e => Answers s e ∧ NewTransfer s e) (init ledgerId) tr s) :
    s.world.commits.Pairwise (fun c c' => c.blockIndex ≠ c'.blockIndex) ∧
    (∀ c ∈ s.world.commits, ∃ q, s.ledger.blocks[c.blockIndex]? = some q ∧ q.op = c.op ∧
      q.reserveId = c.reserveId ∧ q.transfer.amount = c.event.amount) ∧
    ∀ e s', Answers s e → Step s e s' →
      (∀ n block, e = .minter (.transferReply n (.answered (.error (.duplicate block)))) →
        ∃ q, s.ledger.blocks[block]? = some q ∧ q.op = n) ∧
      ∀ (r : ReserveId) record record', s.world.state.reserves[r]? = some record →
        s'.world.state.reserves[r]? = some record' →
        record.lifetimeMinted < record'.lifetimeMinted →
        ∃ c, s'.world.commits = s.world.commits ++ [c] ∧ c.reserveId = r ∧
          record'.lifetimeMinted = record.lifetimeMinted + c.event.amount := by
  have hinv : Linked s ∧ Apart s ∧ Accounted s := by
    refine h.invariant (I := fun s => Linked s ∧ Apart s ∧ Accounted s) ?_
      ⟨linked_init ledgerId, ?_, accounted_init ledgerId⟩
    · rintro s e s' ⟨hr, hn⟩ ⟨hl, ha, hacc⟩ hs
      exact ⟨hl.step hs, ha.step hn hs, hacc.step hl ha hr hs⟩
    · rintro q q' (hq | ⟨n, hq⟩) <;> simp [init, Ledger.empty] at hq
  obtain ⟨hl, ha, hacc⟩ := hinv
  refine ⟨hacc.blocks_apart, hacc.block, fun e s' hr hs => ⟨?_, fun r record record' hrec hrec' hlt =>
    ?_⟩⟩
  · intro n block heq
    subst heq
    exact hr.own hl ha rfl
  · rcases world_step hs with ⟨ev, rfl, o, hw⟩ | hw
    · exact (World.step_did hw).counted (w := s.world.tick ev) hrec hrec' hlt
    · rw [hw] at hrec'
      cases hrec.symm.trans hrec'
      omega

def answersTest (s : System) : SysEvent → Bool
  | .minter (.transferReply n (.answered (.ok b))) =>
    s.ledger.blocks[b]?.any fun q => q.op = n
  | .minter (.transferReply n (.answered (.error (.duplicate b)))) =>
    (s.ledger.inbox n).any fun q => s.ledger.blocks[b]?.any fun q' => q'.transfer.id = q.transfer.id
  | _ => true

theorem answers_of_test {s : System} {e : SysEvent} (h : answersTest s e = true) :
    Answers s e where
  success := by
    intro n b heq
    subst heq
    cases hb : s.ledger.blocks[b]? with
    | none => simp [answersTest, hb] at h
    | some q => exact ⟨q, rfl, by simpa [answersTest, hb] using h⟩
  duplicate := by
    intro n b heq
    subst heq
    cases hn : s.ledger.inbox n with
    | none => simp [answersTest, hn] at h
    | some q =>
      cases hb : s.ledger.blocks[b]? with
      | none => simp [answersTest, hn, hb] at h
      | some q' => exact ⟨q, q', rfl, rfl, by simpa [answersTest, hn, hb] using h⟩

/-- Two top-ups of one reserve for one amount at one time. The ledger applies the
first, and the second is a duplicate of it. -/
def twiceAtOnce : List SysEvent :=
  [.minter (.addReserve Sample.reserve), .minter (.manualTopup ⟨0, 5, none⟩ 1), .handle 0 true,
    .minter (.transferReply 0 (.answered (.ok 0))), .minter (.manualTopup ⟨0, 5, none⟩ 1),
    .minter (.transferReply 1 (.answered (.error (.duplicate 0))))]

/-- Both commit block 0, and the counter is twice what was minted. -/
theorem replayed_twice : ∃ s, Run Step (fun s e => Calm s e ∧ Dedups s e ∧ Answers s e)
      (init Sample.ledgerId) twiceAtOnce s ∧
    s.world.commits.map (fun c => (c.op, c.blockIndex)) = [(0, 0), (1, 0)] ∧
    (s.world.state.reserves[(0 : ReserveId)]?).map (·.lifetimeMinted) = some 10 ∧
    s.ledger.blocks.map (·.transfer.amount) = [5] := by
  have h : Run Step (fun s e => Calm s e ∧ Dedups s e ∧ answersTest s e = true)
      (init Sample.ledgerId) twiceAtOnce (last step (init Sample.ledgerId) twiceAtOnce) :=
    run_last (fun s e => Calm s e ∧ Dedups s e ∧ answersTest s e = true)
      (fun _ _ => of_decide_eq_true) (by decide) (by decide)
  exact ⟨_, h.mono fun _ _ ⟨hc, hd, ha⟩ => ⟨hc, hd, answers_of_test ha⟩, by decide, by decide,
    by decide⟩

/-- `NewTransfer`, as a test of all requests, for runs without rebalances. -/
def newTransferTest (s : System) : SysEvent → Bool
  | .minter (.manualTopup arg now) => s.requests.all fun q =>
    (s.world.state.reserves[arg.reserveId]?).all fun record =>
      q.transfer.id ≠ (TopupMint.transfer ⟨arg, now⟩ record.config.account).id
  | .minter (.balanceReply _ _ _) => false
  | _ => true

theorem newTransfer_of_test {s : System} {e : SysEvent} (hl : Linked s)
    (h : newTransferTest s e = true) : NewTransfer s e where
  topup := by
    rintro arg now record rfl hstart q hq
    have hq := List.all_eq_true.mp h q (hq.mem hl)
    rw [hstart.registered] at hq
    exact of_decide_eq_true hq
  rebalance := by
    intro n id snap reply now a heq
    subst heq
    cases h

/-- The same two top-ups, the second a nanosecond later. -/
def twiceInTurn : List SysEvent :=
  [.minter (.addReserve Sample.reserve), .minter (.manualTopup ⟨0, 5, none⟩ 1), .handle 0 true,
    .minter (.transferReply 0 (.answered (.ok 0))), .minter (.manualTopup ⟨0, 5, none⟩ 2),
    .handle 1 true, .minter (.transferReply 1 (.answered (.ok 1)))]

theorem one_block_each_sample : ∃ s,
    Run Step (fun s e => Answers s e ∧ NewTransfer s e) (init Sample.ledgerId) twiceInTurn s ∧
    s.world.commits.length = 2 ∧
    s.world.commits.Pairwise fun c c' => c.blockIndex ≠ c'.blockIndex := by
  have h : Run Step (fun s e => answersTest s e = true ∧ newTransferTest s e = true)
      (init Sample.ledgerId) twiceInTurn (last step (init Sample.ledgerId) twiceInTurn) :=
    run_last (fun s e => answersTest s e = true ∧ newTransferTest s e = true)
      (fun _ _ => of_decide_eq_true) (by decide) (by decide)
  have h := (h.strengthen (fun _ _ _ _ hl hs => Linked.step hl hs) (linked_init _)).mono
    fun s e ⟨⟨ha, hn⟩, hl⟩ => And.intro (answers_of_test ha) (newTransfer_of_test hl hn)
  exact ⟨_, h, by decide, (one_block_each h).1⟩

end System

end ViciMinter
