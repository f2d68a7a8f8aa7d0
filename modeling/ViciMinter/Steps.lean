import ViciMinter.World

/-!
# What a step changes

`Did` says what a step does. Here it is read for one operation, one lock, one
key and one reserve: where a live operation comes from (`Did.became`,
`Did.origin`), how a lock and a pending key are lost (`Did.unlocked`,
`Did.unpended`) and taken (`Did.relocked`, `Did.pended`). The invariants are
proved from these.
-/

namespace ViciMinter

namespace World

/-! ## Operations -/

/-- How operation `n` came to be what it is after a step. -/
inductive Became (w : World) (n : OpId) : Event → Op → Prop where
  | kept {e : Event} {op : Op} : w.ops n = some op → Became w n e op
  | rebalance {id : ReserveId} {record : ReserveRecord} : n = w.nextOp →
      w.state.reserves[id]? = some record → id ∉ w.state.reserveMintInflight →
      Became w n (.rebalance id) (.awaitBalance id (w.state.snapshot record))
  | topup {arg : ManualTopupArg} {now : Nat} {record : ReserveRecord} : n = w.nextOp →
      w.state.reserves[arg.reserveId]? = some record →
      arg.reserveId ∉ w.state.reserveMintInflight →
      TopupOk arg w.state.globalPolicy record.config record.lifetimeMinted record.mintEvents now →
      Became w n (.manualTopup arg now) (.awaitTopup ⟨arg, now⟩)
  | issued {id : ReserveId} {snap : MintSnapshot} {reply : Reply Nat} {now : Nat}
      {k : RebalanceMint} : w.ops n = some (.awaitBalance id snap) →
      RebalanceIssued id snap reply now k →
      Became w n (.balanceReply n reply now) (.awaitRebalance k)

section
variable {w w' : World} {e : Event} {o : Output}

theorem Did.became {n : OpId} {op : Op} (hd : Did w e o w') (hop : w'.ops n = some op) :
    Became w n e op := by
  cases hd with
  | quiet | added | updated | removed | policySet | released => exact .kept hop
  | begunRebalance hrec hlock =>
    rcases suspend_ops_some.mp hop with ⟨hn, rfl⟩ | ⟨-, hop⟩
    · exact .rebalance hn hrec hlock
    · exact .kept hop
  | begunTopup hrec hlock _ hok =>
    rcases suspend_ops_some.mp hop with ⟨hn, rfl⟩ | ⟨-, hop⟩
    · exact .topup hn hrec hlock hok
    · exact .kept hop
  | issued hop' hk =>
    rcases update_eq_some.mp hop with ⟨rfl, h⟩ | ⟨-, hop⟩
    · cases h
      exact .issued hop' hk
    · exact .kept hop
  | dropped | committed | missed | lost => exact .kept (finish_ops_some.mp hop).2

theorem Did.nextOp_le (hd : Did w e o w') : w.nextOp ≤ w'.nextOp := by
  cases hd with
  | begunRebalance | begunTopup => exact Nat.le_succ _
  | _ => exact Nat.le_refl _

structure Began (w w' : World) (n : OpId) (op : Op) : Prop where
  next : n = w.nextOp
  free : op.reserveId ∉ w.state.reserveMintInflight
  locked : op.reserveId ∈ w'.state.reserveMintInflight
  pending : ∀ (k : String), op.key = some k →
    w'.state.idempotency[k]? = some (IdempotencyRecord.pending op.reserveId)
  registered : ∃ record, w'.state.reserves[op.reserveId]? = some record
  before : ∃ record, w.state.reserves[op.reserveId]? = some record

/-- An operation that is live after a step was live before it, for the same
reserve and key, or it has just begun. -/
theorem Did.origin {n : OpId} {op : Op} (hd : Did w e o w') (hop : w'.ops n = some op) :
    (∃ old, w.ops n = some old ∧ old.reserveId = op.reserveId ∧ old.key = op.key) ∨
    Began w w' n op := by
  cases hd with
  | quiet | added | updated | removed | policySet | released => exact .inl ⟨op, hop, rfl, rfl⟩
  | @begunRebalance id record hrec hlock =>
    rcases suspend_ops_some.mp hop with ⟨hn, rfl⟩ | ⟨-, hop⟩
    · exact .inr ⟨hn, hlock, mem_begin.mpr (.inl rfl), nofun, ⟨record, by simpa using hrec⟩,
        ⟨record, hrec⟩⟩
    · exact .inl ⟨op, hop, rfl, rfl⟩
  | @begunTopup arg now record hrec hlock =>
    rcases suspend_ops_some.mp hop with ⟨hn, rfl⟩ | ⟨-, hop⟩
    · refine .inr ⟨hn, hlock, mem_begin.mpr (.inl rfl), fun k hk => ?_,
        ⟨record, by simpa using hrec⟩, ⟨record, hrec⟩⟩
      rw [suspend_state, begin_getElem?]
      exact if_pos hk
    · exact .inl ⟨op, hop, rfl, rfl⟩
  | issued hop' hk =>
    rcases update_eq_some.mp hop with ⟨rfl, h⟩ | ⟨-, hop⟩
    · cases h
      exact .inl ⟨_, hop', hk.reserve.symm, rfl⟩
    · exact .inl ⟨op, hop, rfl, rfl⟩
  | dropped | committed | missed | lost => exact .inl ⟨op, (finish_ops_some.mp hop).2, rfl, rfl⟩

theorem Did.ops_of_calls {n : OpId} {op : Op} (hd : Did w e o w') (hc : o.calls = false)
    (hop : w'.ops n = some op) : w.ops n = some op := by
  cases hd with
  | quiet | added | updated | removed | policySet | released => exact hop
  | begunRebalance | begunTopup | issued => cases hc
  | dropped | committed | missed | lost => exact (finish_ops_some.mp hop).2

theorem Did.call_cases (hd : Did w e o w') (hc : o.calls = true) :
    (∃ id record, e = .rebalance id ∧ w.state.reserves[id]? = some record ∧
      id ∉ w.state.reserveMintInflight ∧
      o = .balanceCall w.nextOp w.state.ledgerId record.config.account ∧
      w' = w.suspend (w.state.begin id none) (.awaitBalance id (w.state.snapshot record))) ∨
    (∃ arg now record, e = .manualTopup arg now ∧ Starts w.state arg now record ∧
      o = .transferCall w.nextOp w.state.ledgerId
        (TopupMint.transfer ⟨arg, now⟩ record.config.account) ∧
      w' = w.suspend (w.state.begin arg.reserveId arg.idempotencyKey) (.awaitTopup ⟨arg, now⟩)) ∨
    (∃ n id snap reply now k, e = .balanceReply n reply now ∧
      w.ops n = some (.awaitBalance id snap) ∧ RebalanceIssued id snap reply now k ∧
      o = .transferCall n snap.ledgerId (k.transfer snap.config.account) ∧
      w' = { w with ops := Function.update w.ops n (some (.awaitRebalance k)) }) := by
  cases hd with
  | begunRebalance hrec hlock => exact .inl ⟨_, _, rfl, hrec, hlock, rfl, rfl⟩
  | begunTopup hrec hlock hkey hok =>
    exact .inr (.inl ⟨_, _, _, rfl, ⟨hrec, hlock, hkey, validateManualTopupInputs_ok.mpr hok⟩, rfl,
      rfl⟩)
  | issued hop hk => exact .inr (.inr ⟨_, _, _, _, _, _, rfl, hop, hk, rfl, rfl⟩)
  | quiet _ hq => cases hq.calls.symm.trans hc
  | dropped _ _ hq => cases hq.calls.symm.trans hc
  | committed _ _ _ _ hq => cases hq.calls.symm.trans hc
  | missed _ _ _ _ hq => cases hq.calls.symm.trans hc
  | added | updated | removed | policySet | released | lost => cases hc

theorem issue_cases {n : OpId} {ledgerId : Principal} {t : TransferArg}
    (h : w.step e = some (w', .transferCall n ledgerId t)) :
    (∃ arg now record, e = .manualTopup arg now ∧ n = w.nextOp ∧
      Starts w.state arg now record ∧ t = TopupMint.transfer ⟨arg, now⟩ record.config.account ∧
      w' = (w.tick e).suspend (w.state.begin arg.reserveId arg.idempotencyKey)
        (.awaitTopup ⟨arg, now⟩)) ∨
    (∃ id snap reply now k, e = .balanceReply n reply now ∧
      w.ops n = some (.awaitBalance id snap) ∧ RebalanceIssued id snap reply now k ∧
      t = k.transfer snap.config.account ∧
      w' = { w.tick e with ops := Function.update w.ops n (some (.awaitRebalance k)) }) := by
  rcases (step_did h).call_cases rfl with ⟨_, _, _, _, _, ho, _⟩ |
    ⟨arg, now, record, he, hstart, ho, hw⟩ | ⟨n, id, snap, reply, now, k, he, hop, hk, ho, hw⟩
  · cases ho
  · cases ho
    exact .inl ⟨arg, now, record, he, rfl, hstart, rfl, hw⟩
  · cases ho
    exact .inr ⟨id, snap, reply, now, k, he, hop, hk, rfl, hw⟩

theorem Did.stays {n : OpId} {op : Op} (hd : Did w e o w') (hn : w.ops w.nextOp = none)
    (hop : w.ops n = some op) :
    (∃ op', w'.ops n = some op' ∧ op'.reserveId = op.reserveId ∧ op'.key = op.key) ∨
    w'.ops n = none := by
  cases h : w'.ops n with
  | none => exact .inr rfl
  | some op' =>
    refine .inl ⟨op', rfl, ?_⟩
    rcases hd.origin h with ⟨old, hold, hid, hkey⟩ | hb
    · cases hop.symm.trans hold
      exact ⟨hid.symm, hkey.symm⟩
    · rw [hb.next, hn] at hop
      cases hop

def Ends (m : OpId) (op : Op) (e : Event) : Prop :=
  (∃ id snap reply now, op = .awaitBalance id snap ∧ e = .balanceReply m reply now ∧
    ∀ a, ¬ Decides snap reply now a) ∨
  ∃ reply, op.mint.isSome = true ∧ e = .transferReply m reply

def Commits (w : World) (m : OpId) (op : Op) (e : Event) : Prop :=
  ∃ reply block, op.mint.isSome = true ∧ e = .transferReply m reply ∧
    mintToResult reply = .ok block ∧ ∃ record, w.state.reserves[op.reserveId]? = some record

/-! ## Locks -/

/-- A lock is lost by a forced release or by the end of an operation on its reserve. -/
theorem Did.unlocked {r : ReserveId} (hd : Did w e o w') (hr : r ∈ w.state.reserveMintInflight) :
    r ∈ w'.state.reserveMintInflight ∨ (∃ key, e = .releaseStuckMintState r key) ∨
    ∃ m op, w.ops m = some op ∧ op.reserveId = r ∧ Ends m op e ∧ w'.ops m = none := by
  cases hd with
  | quiet | added | updated | removed | policySet | issued | lost => exact .inl hr
  | @released id key =>
    by_cases he : id = r
    · subst he
      exact .inr (.inl ⟨key, rfl⟩)
    · exact .inl (mem_drop.mpr ⟨he, hr⟩)
  | begunRebalance | begunTopup => exact .inl (mem_begin.mpr (.inr hr))
  | @dropped m op _ _ hop hend =>
    by_cases he : op.reserveId = r
    · refine .inr (.inr ⟨m, op, hop, he, ?_, by simp⟩)
      rcases hend with h | ⟨reply, _, hm, h, -⟩
      exacts [.inl h, .inr ⟨reply, hm, h⟩]
    · exact .inl (mem_drop.mpr ⟨he, hr⟩)
  | @committed m op _ _ _ reply _ hop hm =>
    by_cases he : op.reserveId = r
    · exact .inr (.inr ⟨m, op, hop, he, .inr ⟨reply, by simp [hm], rfl⟩, by simp⟩)
    · exact .inl (mem_commit.mpr ⟨he, hr⟩)
  | @missed m op _ reply _ hop hm =>
    by_cases he : op.reserveId = r
    · exact .inr (.inr ⟨m, op, hop, he, .inr ⟨reply, hm, rfl⟩, by simp⟩)
    · exact .inl (mem_drop.mpr ⟨he, hr⟩)

theorem Did.relocked {r : ReserveId} (hd : Did w e o w')
    (hr : r ∈ w'.state.reserveMintInflight) : r ∈ w.state.reserveMintInflight ∨
      (∃ n op, w'.ops n = some op ∧ op.reserveId = r) ∧ e.begins = some r ∧ o.calls = true := by
  cases hd with
  | quiet | added | updated | removed | policySet | issued | lost => exact .inl hr
  | released | dropped | missed => exact .inl (mem_drop.mp hr).2
  | committed => exact .inl (mem_commit.mp hr).2
  | @begunRebalance id record =>
    rcases mem_begin.mp hr with rfl | hr
    · exact .inr ⟨⟨w.nextOp, .awaitBalance id (w.state.snapshot record), by simp, rfl⟩, rfl, rfl⟩
    · exact .inl hr
  | @begunTopup arg now =>
    rcases mem_begin.mp hr with rfl | hr
    · exact .inr ⟨⟨w.nextOp, .awaitTopup ⟨arg, now⟩, by simp, rfl⟩, rfl, rfl⟩
    · exact .inl hr

/-! ## Keys -/

/-- A pending key is lost by a forced release, by the end of a top-up with the
key, or by its commit. -/
theorem Did.unpended {r : ReserveId} {k : String} (hd : Did w e o w')
    (hk : w.state.idempotency[k]? = some (IdempotencyRecord.pending r)) :
    w'.state.idempotency[k]? = some (IdempotencyRecord.pending r) ∨
    (∃ key, e = .releaseStuckMintState r key) ∨
    ∃ m op, w.ops m = some op ∧ op.key = some k ∧ w'.ops m = none ∧
      (op.reserveId = r ∧ Ends m op e ∨ Commits w m op e) := by
  cases hd with
  | quiet | added | updated | removed | policySet | issued | lost | begunRebalance =>
    exact .inl hk
  | @released id key =>
    by_cases he : id = r
    · subst he
      exact .inr (.inl ⟨key, rfl⟩)
    · left
      rw [drop_idempotency, dropPending_getElem?, hk, if_neg]
      rintro ⟨-, h⟩
      cases h
      exact he rfl
  | begunTopup _ _ hfree =>
    left
    rw [suspend_state, begin_getElem?, if_neg]
    · exact hk
    · intro he
      simp [hfree k he] at hk
  | @dropped m op _ _ hop hend =>
    by_cases he : op.key = some k ∧ op.reserveId = r
    · refine .inr (.inr ⟨m, op, hop, he.1, by simp, .inl ⟨he.2, ?_⟩⟩)
      rcases hend with h | ⟨reply, _, hm, h, -⟩
      exacts [.inl h, .inr ⟨reply, hm, h⟩]
    · left
      rw [finish_state, drop_idempotency, dropPending_getElem?, hk, if_neg]
      rintro ⟨hkey, h⟩
      cases h
      exact he ⟨hkey, rfl⟩
  | @committed m op _ record block reply _ hop hm hrec hr =>
    by_cases he : op.key = some k
    · exact .inr (.inr ⟨m, op, hop, he, by simp,
        .inr ⟨reply, block, by simp [hm], rfl, hr, record, hrec⟩⟩)
    · left
      rw [finish_state, commit_getElem?, if_neg he]
      exact hk
  | missed => exact .inl hk

theorem Did.pended {r : ReserveId} {k : String} (hd : Did w e o w')
    (hk : w'.state.idempotency[k]? = some (IdempotencyRecord.pending r)) :
    w.state.idempotency[k]? = some (IdempotencyRecord.pending r) ∨
    (∃ n op, w'.ops n = some op ∧ op.reserveId = r ∧ op.key = some k) ∧
      e.begins = some r ∧ e.key = some k ∧ o.calls = true := by
  cases hd with
  | quiet | added | updated | removed | policySet | issued | lost | begunRebalance | missed =>
    exact .inl hk
  | released | dropped =>
    simp only [finish_state, drop_idempotency, dropPending_getElem?] at hk
    split at hk
    · cases hk
    · exact .inl hk
  | @begunTopup arg now =>
    rw [suspend_state, begin_getElem?] at hk
    split at hk
    · next he =>
      cases hk
      exact .inr ⟨⟨w.nextOp, .awaitTopup ⟨arg, now⟩, by simp, rfl, he⟩, rfl, he, rfl⟩
    · exact .inl hk
  | committed =>
    rw [finish_state, commit_getElem?] at hk
    split at hk
    · cases hk
    · exact .inl hk

/-! ## Reserves -/

/-- A reserve stays registered, or it is removed, unlocked and without a pending key. -/
theorem Did.still_or_removed {r : ReserveId} {record : ReserveRecord} (hd : Did w e o w')
    (hrec : w.state.reserves[r]? = some record) :
    (∃ record', w'.state.reserves[r]? = some record') ∨
    e = .removeReserve r ∧ r ∉ w.state.reserveMintInflight ∧
      ∀ k : String, w.state.idempotency[k]? ≠ some (IdempotencyRecord.pending r) := by
  cases hd with
  | quiet | policySet | issued | lost | released | dropped | missed => exact .inl ⟨record, hrec⟩
  | begunRebalance | begunTopup => exact .inl ⟨record, by simpa using hrec⟩
  | added =>
    left
    simp only [register_record]
    split
    exacts [⟨_, rfl⟩, ⟨record, hrec⟩]
  | updated =>
    left
    simp only [Std.ExtTreeMap.getElem?_insert]
    split
    exacts [⟨_, rfl⟩, ⟨record, hrec⟩]
  | @removed id _ _ hlock hpend =>
    by_cases hr : id = r
    · subst hr
      exact .inr ⟨rfl, hlock, hpend⟩
    · refine .inl ⟨record, ?_⟩
      simpa [Std.ExtTreeMap.getElem?_erase, hr] using hrec
  | committed =>
    left
    simp only [finish_state, commit_record]
    split
    exacts [⟨_, rfl⟩, ⟨record, hrec⟩]

theorem Did.still_registered {r : ReserveId} {record : ReserveRecord} (hd : Did w e o w')
    (hr : r ∈ w.state.reserveMintInflight) (hrec : w.state.reserves[r]? = some record) :
    ∃ record', w'.state.reserves[r]? = some record' :=
  (hd.still_or_removed hrec).resolve_right fun h => h.2.1 hr

end

end World

end ViciMinter
