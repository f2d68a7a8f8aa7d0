import ViciMinter.World

/-!
# Operations that are not interrupted

`rebalance_one` and `manual_topup_reserve_impl` as a whole, when no other segment
runs between theirs: their segments in a row, on given replies. Then also
`rebalance_all`, which awaits one `rebalance_one` after the other, and
`preview_inner`.

`rebalanceOne_eq` computes a rebalance in one go, and `rebalanceOne_run` says
that it is a run of the world.
-/

namespace ViciMinter

open Lts

/-! ## Whole operations -/

/-- What the ledger and the clock answer to one rebalance. -/
structure Replies where
  balance : Reply Nat
  now : Nat
  transfer : Reply (Except TransferError Nat)

def rebalanceOne (env : Replies) (s : State) (id : ReserveId) :
    State × Except MinterError RebalanceResponse :=
  match rebalanceBegin s id with
  | (s, .error e) => (s, .error e)
  | (s, .ok snap) =>
    match rebalanceIssue s id snap env.balance env.now with
    | (s, .ended r) => (s, r)
    | (s, .transfer _ _ k) => rebalanceCommit s k env.transfer

def manualTopupReserveImpl (s : State) (arg : ManualTopupArg) (now : Nat)
    (reply : Reply (Except TransferError Nat)) : State × Except MinterError ManualTopupResponse :=
  match manualTopupIssue s arg now with
  | (s, .ended r) => (s, r)
  | (s, .transfer _ _ k) => manualTopupCommit s k reply

/-- The loop of `rebalance_all`. -/
def rebalanceEach (env : ReserveId → Replies) (s : State) :
    List ReserveId → State × List (Except MinterError RebalanceResponse)
  | [] => (s, [])
  | id :: ids =>
    let (s, result) := rebalanceOne (env id) s id
    let (s, results) := rebalanceEach env s ids
    (s, result :: results)

def rebalanceAll (env : ReserveId → Replies) (s : State) :
    State × List (Except MinterError RebalanceResponse) :=
  let ids := s.reserves.keys
  rebalanceEach env s ids

/-! ## The preview -/

structure PreviewRebalanceResponse where
  reserveId : ReserveId
  action : RebalanceAction
  currentBalance : Nat
  targetBalance : Nat
  cyclicalDeficit : Nat
  lifetimeDeficit : Nat
  wouldMint : Nat
  rateLimitBudget : Option Nat
  deriving DecidableEq, Repr

def previewInner (s : State) (id : ReserveId) (reply : Reply Nat) (now : Nat) :
    State × Except MinterError PreviewRebalanceResponse :=
  match s.reserves[id]? with
  | none => (s, .error (.reserveNotFound id))
  | some record =>
    let snap := s.snapshot record
    match getBalanceResult reply with
    | .error e => (s, .error e)
    | .ok balance =>
      match computeRebalance snap.config balance snap.lifetimeMinted snap.policy with
      | .error e => (s, .error e)
      | .ok computed =>
        let budget := availableMintBudget snap.config.rateLimits snap.mintEvents now
        let wouldMint := match budget with
          | some b => if computed.mintAmount > b then b else computed.mintAmount
          | none => computed.mintAmount
        (s, .ok { reserveId := id, action := computed.action, currentBalance := balance,
                  targetBalance := snap.config.targetBalance,
                  cyclicalDeficit := computed.cyclicalDeficit,
                  lifetimeDeficit := computed.lifetimeDeficit, wouldMint,
                  rateLimitBudget := budget })

/-! ## A rebalance in one go -/

/-- What a rebalance does about its balance reply: end, or mint. -/
def rebalanceDecision (id : ReserveId) (snap : MintSnapshot) (reply : Reply Nat) (now : Nat) :
    Except MinterError RebalanceResponse ⊕ RebalanceMint :=
  match getBalanceResult reply with
  | .error e => .inl (.error e)
  | .ok balance =>
    match computeRebalance snap.config balance snap.lifetimeMinted snap.policy with
    | .error e => .inl (.error e)
    | .ok computed =>
      match computed.action with
      | .minted =>
        match clampToBudget (availableMintBudget snap.config.rateLimits snap.mintEvents now)
            computed.mintAmount with
        | none => .inl (.ok (noMintResponse id (.skipped "Rate limit budget exhausted") balance))
        | some mintAmount => .inr { id, balance, mintAmount, now }
      | action => .inl (.ok (noMintResponse id action balance))

theorem rebalanceIssue_eq (s : State) (id : ReserveId) (snap : MintSnapshot) (reply : Reply Nat)
    (now : Nat) : rebalanceIssue s id snap reply now =
      match rebalanceDecision id snap reply now with
      | .inl r => (s.drop id none, .ended r)
      | .inr k => (s, .transfer snap.ledgerId (k.transfer snap.config.account) k) := by
  unfold rebalanceIssue rebalanceDecision
  rw [releaseMintLock_eq_drop]
  cases getBalanceResult reply with
  | error e => rfl
  | ok balance =>
    simp only
    cases computeRebalance snap.config balance snap.lifetimeMinted snap.policy with
    | error e => rfl
    | ok c =>
      simp only
      cases c.action with
      | minted =>
        simp only
        cases clampToBudget (availableMintBudget snap.config.rateLimits snap.mintEvents now)
          c.mintAmount <;> rfl
      | alreadyFunded | skipped => rfl

theorem rebalanceDecision_id {id : ReserveId} {snap : MintSnapshot} {reply : Reply Nat}
    {now : Nat} {k : RebalanceMint} (h : rebalanceDecision id snap reply now = .inr k) :
    k.id = id := by
  unfold rebalanceDecision at h
  repeat' split at h
  all_goals cases h
  rfl

def settleRebalance (s : State) (record : ReserveRecord) (k : RebalanceMint)
    (reply : Reply (Except TransferError Nat)) : State × Except MinterError RebalanceResponse :=
  match mintToResult reply with
  | .error e => (s, .error e)
  | .ok block =>
    ({ s with reserves := s.reserves.insert k.id (record.mint k.mintAmount k.now) },
      .ok { reserveId := k.id, action := .minted, balanceBefore := k.balance,
            mintedAmount := k.mintAmount, ledgerBlockIndex := some block })

theorem rebalanceOne_eq (env : Replies) (s : State) (id : ReserveId) : rebalanceOne env s id =
    match s.reserves[id]? with
    | none => (s, .error (.reserveNotFound id))
    | some record =>
      if id ∈ s.reserveMintInflight then (s, .error (.reserveOperationInProgress id))
      else
        match rebalanceDecision id (s.snapshot record) env.balance env.now with
        | .inl r => (s, r)
        | .inr k => settleRebalance s record k env.transfer := by
  unfold rebalanceOne rebalanceBegin
  cases hrec : s.reserves[id]? with
  | none => rfl
  | some record =>
    by_cases hlock : id ∈ s.reserveMintInflight
    · simp [hlock]
    have hdrop : (s.begin id none).drop id none = s := drop_begin hlock nofun
    have hbegin : { s with reserveMintInflight := s.reserveMintInflight.insert id } =
        s.begin id none := rfl
    have hfree : s.reserveMintInflight.contains id = false :=
      Bool.eq_false_iff.mpr (by simpa using hlock)
    simp only [hfree, Bool.false_eq_true, if_false, hbegin,
      rebalanceIssue_eq, if_neg hlock]
    cases hdec : rebalanceDecision id (s.snapshot record) env.balance env.now with
    | inl r => simp only [hdrop]
    | inr k =>
      obtain rfl := rebalanceDecision_id hdec
      cases hm : mintToResult env.transfer <;>
        simp only [rebalanceCommit, settleRebalance, releaseMintLock_eq_drop, hdrop, hrec, hm]

/-- A rebalance that mints nothing leaves the state as it was. -/
theorem rebalanceOne_cases (env : Replies) (s : State) (id : ReserveId) :
    (rebalanceOne env s id).1 = s ∨
    ∃ (record : ReserveRecord) (k : RebalanceMint) (block : Nat),
      s.reserves[id]? = some record ∧
      rebalanceOne env s id =
        ({ s with reserves := s.reserves.insert id (record.mint k.mintAmount k.now) },
          .ok { reserveId := id, action := .minted, balanceBefore := k.balance,
                mintedAmount := k.mintAmount, ledgerBlockIndex := some block }) := by
  rw [rebalanceOne_eq]
  cases hrec : s.reserves[id]? with
  | none => exact .inl rfl
  | some record =>
    simp only
    split
    · exact .inl rfl
    cases hdec : rebalanceDecision id (s.snapshot record) env.balance env.now with
    | inl r => exact .inl rfl
    | inr k =>
      obtain rfl := rebalanceDecision_id hdec
      unfold settleRebalance
      cases mintToResult env.transfer with
      | error e => exact .inl rfl
      | ok block => exact .inr ⟨record, k, block, rfl, rfl⟩

/-- A manual top-up that fails leaves the state as it was. -/
theorem manualTopupReserveImpl_error {s s' : State} {arg : ManualTopupArg} {now : Nat}
    {reply : Reply (Except TransferError Nat)} {e : MinterError}
    (h : manualTopupReserveImpl s arg now reply = (s', .error e)) : s' = s := by
  unfold manualTopupReserveImpl at h
  rcases manualTopupIssue_cases s arg now with ⟨r, -, he⟩ | ⟨record, hrec, hlock, hkey, -, he⟩
  · rw [he] at h
    cases h
    rfl
  · have hreg : (s.begin arg.reserveId arg.idempotencyKey).reserves[arg.reserveId]? =
        some record := by rw [begin_reserves, hrec]
    simp only [he] at h
    rcases manualTopupCommit_cases (s.begin arg.reserveId arg.idempotencyKey) ⟨arg, now⟩ reply with
      ⟨e', -, hc⟩ | ⟨block, -, hnone, -⟩ | ⟨block, record', -, -, hc⟩
    · rw [drop_begin hlock hkey] at hc
      cases h.symm.trans hc
      rfl
    · cases hreg.symm.trans hnone
    · cases h.symm.trans hc

/-! ## Whole operations as runs -/

namespace World

/-- A rebalance that is not interrupted is a run of the world. -/
theorem rebalanceOne_run (env : Replies) (w : World) (id : ReserveId) : ∃ tr w₁ e w',
    Run Step anyEvent w tr w₁ ∧
    w₁.step e = some (w', .rebalanced (rebalanceOne env w.state id).2) ∧
    w'.state = (rebalanceOne env w.state id).1 := by
  unfold rebalanceOne
  cases hb : rebalanceBegin w.state id with
  | mk s₁ r =>
    cases r with
    | error e =>
      have hs : w.step (.rebalance id) = some ({ w.tick (.rebalance id) with state := s₁ },
          .rebalanced (.error e)) := by
        unfold step advance
        simp only [tick_state, hb]
      exact ⟨[], w, _, _, .nil w, hs, rfl⟩
    | ok snap =>
      let w₁ := (w.tick (.rebalance id)).suspend s₁ (.awaitBalance id snap)
      let e₂ : Event := .balanceReply w.nextOp env.balance env.now
      have h₁ : w.step (.rebalance id) =
          some (w₁, .balanceCall w.nextOp snap.ledgerId snap.config.account) := by
        unfold step advance
        simp only [tick_state, hb]
        rfl
      have hop : w₁.ops w.nextOp = some (.awaitBalance id snap) := by simp [w₁]
      simp only
      cases hi : rebalanceIssue s₁ id snap env.balance env.now with
      | mk s₂ r =>
        cases r with
        | ended r =>
          have h₂ : w₁.step e₂ = some ((w₁.tick e₂).finish s₂ w.nextOp [], .rebalanced r) := by
            unfold step advance
            simp only [tick_ops, hop, tick_state, w₁, e₂, suspend_state, hi]
          exact ⟨[.rebalance id], w₁, e₂, _, .cons trivial ⟨_, h₁⟩ (.nil _), h₂, rfl⟩
        | transfer ledgerId arg k =>
          let w₂ : World := { w₁.tick e₂ with
            state := s₂, ops := Function.update w₁.ops w.nextOp (some (.awaitRebalance k)) }
          have h₂ : w₁.step e₂ = some (w₂, .transferCall w.nextOp ledgerId arg) := by
            unfold step advance
            simp only [tick_ops, hop, tick_state, w₁, e₂, suspend_state, hi]
            rfl
          have hop₂ : w₂.ops w.nextOp = some (.awaitRebalance k) := by simp [w₂]
          have h₃ : w₂.step (.transferReply w.nextOp env.transfer) =
              some ((w₂.tick (.transferReply w.nextOp env.transfer)).finish
                (rebalanceCommit w₂.state k env.transfer).1 w.nextOp
                (rebalanceCommits w.nextOp k (rebalanceCommit w₂.state k env.transfer).2),
                .rebalanced (rebalanceCommit w₂.state k env.transfer).2) := by
            unfold step advance
            simp only [tick_ops, hop₂, tick_state]
          exact ⟨[.rebalance id, e₂], w₂, _, _,
            .cons trivial ⟨_, h₁⟩ (.cons trivial ⟨_, h₂⟩ (.nil _)), h₃, rfl⟩

/-- So is a manual top-up. -/
theorem manualTopupReserveImpl_run (w : World) (arg : ManualTopupArg) (now : Nat)
    (reply : Reply (Except TransferError Nat)) : ∃ tr w₁ e w',
    Run Step anyEvent w tr w₁ ∧
    w₁.step e = some (w', .toppedUp (manualTopupReserveImpl w.state arg now reply).2) ∧
    w'.state = (manualTopupReserveImpl w.state arg now reply).1 := by
  unfold manualTopupReserveImpl
  cases hi : manualTopupIssue w.state arg now with
  | mk s₁ r =>
    cases r with
    | ended r =>
      have hs : w.step (.manualTopup arg now) =
          some ({ w.tick (.manualTopup arg now) with state := s₁ }, .toppedUp r) := by
        unfold step advance
        simp only [tick_state, hi]
      exact ⟨[], w, _, _, .nil w, hs, rfl⟩
    | transfer ledgerId t k =>
      let w₁ := (w.tick (.manualTopup arg now)).suspend s₁ (.awaitTopup k)
      let e₂ : Event := .transferReply w.nextOp reply
      have h₁ : w.step (.manualTopup arg now) = some (w₁, .transferCall w.nextOp ledgerId t) := by
        unfold step advance
        simp only [tick_state, hi]
        rfl
      have hop : w₁.ops w.nextOp = some (.awaitTopup k) := by simp [w₁]
      have h₂ : w₁.step e₂ = some ((w₁.tick e₂).finish (manualTopupCommit s₁ k reply).1 w.nextOp
          (topupCommits w.nextOp k (manualTopupCommit s₁ k reply).2),
          .toppedUp (manualTopupCommit s₁ k reply).2) := by
        unfold step advance
        simp only [tick_ops, hop, tick_state, w₁, e₂, suspend_state]
      exact ⟨[.manualTopup arg now], w₁, e₂, _, .cons trivial ⟨_, h₁⟩ (.nil _), h₂, rfl⟩

end World

end ViciMinter
