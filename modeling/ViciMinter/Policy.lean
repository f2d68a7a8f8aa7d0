import ViciMinter.History

/-!
# Which policy a transfer obeys

A manual top-up reads the policy and the configuration in the segment that sends
its transfer. A rebalance decides on the copies it took before its balance
query, so a change in between does not reach it: `switched_off` is a run in
which it mints although minting was switched off.

`transfers_obey` says that every transfer obeys what is in force when it is sent,
if it is a top-up's, or nothing that the rebalance has copied was made stricter.
-/

namespace ViciMinter

open Lts

/-- The settings in `s` and in the record allow a transfer of `a`. -/
structure Allowed (s : State) (record : ReserveRecord) (auto : Bool) (now a : Nat) : Prop where
  mintingEnabled : s.globalPolicy.mintingEnabled = true
  enabled : record.config.enabled = true
  allow : (if auto then record.config.allowAutoRebalance else record.config.allowManualTopup) = true
  perOperation : Within s.globalPolicy.maxMintPerOperation a
  perRebalance : auto = true → Within record.config.maxTopupPerRebalance a
  lifetime : Within record.config.lifetimeReceivedMaximum (record.lifetimeMinted + a)
  rate : ∀ limits ∈ record.config.rateLimits,
    checkRateLimits limits record.mintEvents a now = .ok ()

/-- Whatever the settings in `snap` allow, `policy` and `config` allow. -/
structure NotStricter (snap : MintSnapshot) (policy : GlobalPolicy) (config : ReserveConfig) :
    Prop where
  mintingEnabled : snap.policy.mintingEnabled = true → policy.mintingEnabled = true
  enabled : snap.config.enabled = true → config.enabled = true
  allow : snap.config.allowAutoRebalance = true → config.allowAutoRebalance = true
  perOperation : ∀ a, Within snap.policy.maxMintPerOperation a → Within policy.maxMintPerOperation a
  perRebalance : ∀ a, Within snap.config.maxTopupPerRebalance a →
    Within config.maxTopupPerRebalance a
  lifetime : ∀ a, Within snap.config.lifetimeReceivedMaximum a →
    Within config.lifetimeReceivedMaximum a
  rate : ∀ events now a, (∀ limits ∈ snap.config.rateLimits, WithinLimits limits events now a) →
    ∀ limits ∈ config.rateLimits, WithinLimits limits events now a

theorem notStricter_refl (snap : MintSnapshot) : NotStricter snap snap.policy snap.config :=
  ⟨id, id, id, fun _ => id, fun _ => id, fun _ => id, fun _ _ _ => id⟩

/-- The operation is a rebalance. -/
def Op.auto : Op → Bool
  | awaitTopup _ => false
  | _ => true

namespace World

/-- A transfer that the step sends obeys what is in force at that moment. -/
def Obeys (w : World) (e : Event) : Prop :=
  ∀ w' n ledgerId t op, w.step e = some (w', .transferCall n ledgerId t) → w'.ops n = some op →
    ∃ record now, w.state.reserves[op.reserveId]? = some record ∧ e.time = some now ∧
      Allowed w.state record op.auto now t.amount

/-- A rebalance that decides on an amount when its balance query returns finds no
setting stricter than it has copied it. -/
def NotTightened (w : World) (e : Event) : Prop :=
  ∀ n reply now id snap record a, e = .balanceReply n reply now →
    w.ops n = some (.awaitBalance id snap) → Decides snap reply now a →
    w.state.reserves[id]? = some record → NotStricter snap w.state.globalPolicy record.config

theorem allowed_of_topup {s : State} {arg : ManualTopupArg} {record : ReserveRecord} {now : Nat}
    (h : TopupOk arg s.globalPolicy record.config record.lifetimeMinted record.mintEvents now) :
    Allowed s record false now arg.amount where
  mintingEnabled := h.mintingEnabled
  enabled := h.enabled
  allow := h.allowManualTopup
  perOperation := h.perOperation
  perRebalance := nofun
  lifetime := h.lifetime
  rate limits hl := checkRateLimits_ok.mpr (h.rate limits hl)

theorem allowed_of_rebalance {s : State} {id : ReserveId} {snap : MintSnapshot} {reply : Reply Nat}
    {now : Nat} {k : RebalanceMint} {record : ReserveRecord}
    (h : RebalanceIssued id snap reply now k)
    (hm : snap.lifetimeMinted = record.lifetimeMinted) (he : snap.mintEvents = record.mintEvents)
    (hs : NotStricter snap s.globalPolicy record.config) :
    Allowed s record true now k.mintAmount where
  mintingEnabled := hs.mintingEnabled h.minted.mintingEnabled
  enabled := hs.enabled h.minted.enabled
  allow := hs.allow h.minted.allowAutoRebalance
  perOperation := hs.perOperation _ h.minted.perOperation
  perRebalance _ := hs.perRebalance _ h.minted.topup
  lifetime := hs.lifetime _ (hm ▸ h.minted.lifetime)
  rate limits hl := checkRateLimits_ok.mpr (hs.rate _ _ _ (he ▸ h.rate) limits hl)

theorem obeys_of_exact {w : World} {e : Event} (hx : ∀ r, Exclusive r w)
    (hse : ∀ r, SnapshotExact r w) (hn : NotTightened w e) : Obeys w e := by
  intro w' n ledgerId t op hs hop
  rcases issue_cases hs with
    ⟨arg, now, record, rfl, rfl, hstart, rfl, rfl⟩ |
    ⟨id, snap, reply, now, k, rfl, hop', hk, rfl, rfl⟩
  · simp only [suspend_ops, tick_ops, tick_nextOp, Function.update_self, Option.some.injEq] at hop
    subst hop
    exact ⟨record, now, hstart.registered, rfl,
      allowed_of_topup (validateManualTopupInputs_ok.mp hstart.valid)⟩
  · simp only [Function.update_self, Option.some.injEq] at hop
    subst hop
    obtain ⟨record, hrec⟩ := (hx id).registered n _ hop' rfl
    obtain ⟨hm, he⟩ := hse id n snap record hop' hrec
    have hs := hn n reply now id snap record k.mintAmount rfl hop' hk.decided hrec
    refine ⟨record, now, ?_, rfl, allowed_of_rebalance hk hm he hs⟩
    rw [show (Op.awaitRebalance k).reserveId = id from hk.reserve]
    exact hrec

/-- What the runs of this module keep. -/
structure Snapshots (w : World) : Prop where
  exclusive : ∀ r, Exclusive r w
  exact : ∀ r, SnapshotExact r w

theorem snapshots_init (ledgerId : Principal) : Snapshots (init ledgerId) where
  exclusive r := exclusive_init r ledgerId
  exact r n snap record h := by simp [init] at h

theorem Snapshots.step {w w' : World} {e : Event} (hi : ReleasesIdle w e) (ha : AddsNew w e)
    (h : Snapshots w) (hs : Step w e w') : Snapshots w' := by
  refine ⟨fun r => (h.exclusive r).step (hi r) hs, fun r => ?_⟩
  obtain ⟨o, hs⟩ := hs
  refine SnapshotExact.did (w := w.tick e) ?_ (h.exclusive r).tick (h.exact r) (step_did hs)
  rintro rfl
  obtain ⟨arg, rfl, rfl, -⟩ := (step_did hs).added_ok
  exact ha arg rfl

/-- In every run, every step at which no setting is stricter than the rebalance it
resumes has copied it sends only what is in force at that moment. -/
theorem transfers_obey {ledgerId : Principal} {tr : List Event} {w : World}
    (h : Run Step (fun w e => ReleasesIdle w e ∧ AddsNew w e) (init ledgerId) tr w) :
    Run Step (fun w e => NotTightened w e → Obeys w e) (init ledgerId) tr w := by
  have hkept := h.strengthen (fun _ _ _ ⟨hi, ha⟩ hk hs => Snapshots.step hi ha hk hs)
    (snapshots_init ledgerId)
  exact hkept.mono fun _ _ ⟨_, hk⟩ hn => obeys_of_exact hk.exclusive hk.exact hn

/-! ## Samples -/

/-- A rebalance waits for its balance when minting is switched off. -/
def switchedOff : List Event :=
  [.addReserve Sample.reserve, .rebalance 0, .setGlobalPolicy ⟨false, none⟩]

/-- It mints nevertheless. -/
theorem switched_off : ∃ w w' t, Run Step (fun w e => ReleasesIdle w e ∧ AddsNew w e)
      (init Sample.ledgerId) switchedOff w ∧
    w.state.globalPolicy.mintingEnabled = false ∧
    w.step (.balanceReply 0 (.answered 0) 1) = some (w', .transferCall 0 Sample.ledgerId t) ∧
    t.amount = 100 ∧ ¬ Obeys w (.balanceReply 0 (.answered 0) 1) := by
  have h : Run Step (fun w e => ReleasesIdle w e ∧ AddsNew w e) (init Sample.ledgerId) switchedOff
      (last step (init Sample.ledgerId) switchedOff) :=
    run_last (fun w e => e.calm = true ∧ AddsNew w e) (fun w e hok =>
      let ⟨hc, ha⟩ := of_decide_eq_true hok
      ⟨(guarded_of_calm w e hc).1, ha⟩) (by decide) (by decide)
  have hoff : (last step (init Sample.ledgerId) switchedOff).state.globalPolicy.mintingEnabled =
    false := by decide
  have hs := step_last_eq (f := step) (s := last step (init Sample.ledgerId) switchedOff)
    (e := .balanceReply 0 (.answered 0) 1) (o := .transferCall 0 Sample.ledgerId
      (mintToArg Sample.reserve.account 100 "rebalance:0" 1)) (by decide)
  refine ⟨_, _, _, h, hoff, hs, rfl, fun hobeys => ?_⟩
  obtain ⟨record, now, -, -, hallow⟩ :=
    hobeys _ _ _ _ (.awaitRebalance ⟨0, 0, 100, 1⟩) hs (by decide)
  exact absurd (hallow.mintingEnabled.symm.trans hoff) (by decide)

/-- `NotTightened`, where nothing was changed at all. -/
def unchangedTest (w : World) : Event → Bool
  | .balanceReply n _ _ =>
    match w.ops n with
    | some (.awaitBalance id snap) => w.state.globalPolicy = snap.policy ∧
      (w.state.reserves[id]?).all fun record => record.config = snap.config
    | _ => true
  | _ => true

theorem notTightened_of_test {w : World} {e : Event} (h : unchangedTest w e = true) :
    NotTightened w e := by
  rintro n reply now id snap record _ rfl hop - hrec
  rw [unchangedTest, hop] at h
  obtain ⟨hp, hc⟩ := of_decide_eq_true h
  rw [hrec] at hc
  rw [hp, of_decide_eq_true hc]
  exact notStricter_refl snap

/-- Minting is switched off while a rebalance waits, but not for its balance. -/
def switchedOffLater : List Event :=
  [.addReserve Sample.reserve, .rebalance 0, .balanceReply 0 (.answered 0) 1,
    .setGlobalPolicy ⟨false, none⟩, .transferReply 0 (.answered (.ok 7)),
    .manualTopup ⟨0, 5, none⟩ 2]

theorem transfers_obey_sample : ∃ w,
    Run Step (fun w e => ReleasesIdle w e ∧ AddsNew w e) (init Sample.ledgerId) switchedOffLater w ∧
    w.commits.length = 1 ∧ Run Step Obeys (init Sample.ledgerId) switchedOffLater w := by
  have h : Run Step (fun w e => ReleasesIdle w e ∧ AddsNew w e) (init Sample.ledgerId)
      switchedOffLater (last step (init Sample.ledgerId) switchedOffLater) :=
    run_last (fun w e => e.calm = true ∧ AddsNew w e) (fun w e hok =>
      let ⟨hc, ha⟩ := of_decide_eq_true hok
      ⟨(guarded_of_calm w e hc).1, ha⟩) (by decide) (by decide)
  have hunchanged : Run Step NotTightened (init Sample.ledgerId) switchedOffLater
      (last step (init Sample.ledgerId) switchedOffLater) :=
    run_last unchangedTest (fun _ _ => notTightened_of_test) (by decide) (by decide)
  exact ⟨_, h, by decide,
    ((transfers_obey h).and hunchanged).mono fun _ _ ⟨hobeys, hn⟩ => hobeys hn⟩

end World

end ViciMinter
