import ViciMinter.Calls

/-!
# The order of the calls

The minter suspends rebalances and top-ups at their ledger calls and runs other
calls meanwhile, but the result is that of a serial run. If the calls run one
after the other in the order in which they began, each with the replies that it
got, they answer what they answered and leave the same state: `serializable`.

Left out of that order are the calls that a lock or a pending key refused, the
operations that still wait or were lost, and the forced releases. They leave locks
and pending keys at most, which a state at rest does not have.
-/

namespace ViciMinter

open Lts Serial

/-! ## The journal of a run -/

def MinterError.isBusy : MinterError → Bool
  | reserveOperationInProgress _ => true
  | idempotencyOperationInProgress _ => true
  | _ => false

def Output.busy : Output → Bool
  | removed (.error e) => e.isBusy
  | rebalanced (.error e) => e.isBusy
  | toppedUp (.error e) => e.isBusy
  | _ => false

/-- The reply that a call never waited for. -/
def noReply {α : Type} : Reply α := .callFailed ""

abbrev Journal := List (Slot OpId Call Output)

namespace World

/-- What a step from `w` enters into the journal. -/
def enter (w : World) (J : Journal) (e : Event) (o : Output) : Journal :=
  match e with
  | .addReserve arg => J ++ [.done (.addReserve arg) o]
  | .updateReserve arg => J ++ [.done (.updateReserve arg) o]
  | .removeReserve id => if o.busy then J else J ++ [.done (.removeReserve id) o]
  | .setGlobalPolicy policy => J ++ [.done (.setGlobalPolicy policy) o]
  | .releaseStuckMintState _ _ => J
  | .rebalance id =>
    if o.calls then J ++ [.opened w.nextOp]
    else if o.busy then J
    else J ++ [.done (.rebalance id ⟨noReply, 0, noReply⟩) o]
  | .manualTopup arg now =>
    if o.calls then J ++ [.opened w.nextOp]
    else if o.busy then J
    else J ++ [.done (.manualTopup arg now noReply) o]
  | .balanceReply n reply now =>
    match w.ops n with
    | some (.awaitBalance id _) =>
      if o.calls then J else close n (.rebalance id ⟨reply, now, noReply⟩) o J
    | _ => J
  | .transferReply n reply =>
    match w.ops n with
    | some (.awaitRebalance k) =>
      close n (.rebalance k.id ⟨.answered k.balance, k.now, reply⟩) o J
    | some (.awaitTopup k) => close n (.manualTopup k.arg k.now reply) o J
    | _ => J
  | .lose _ => J

/-- The journal of the steps `tr` from `w`, after `J`. -/
def journal : World → Journal → List Event → Journal
  | _, J, [] => J
  | w, J, e :: tr =>
    match w.step e with
    | some (w', o) => journal w' (enter w J e o) tr
    | none => J

/-! ## What a step enters -/

/-- The journal fits the world: the open slots wait, and the closed ones lead to its
state at rest. -/
structure Placed (s₀ : State) (w : World) (J : Journal) : Prop where
  sound : calls.Sound w.ops s₀ J
  state : calls.replay s₀ J = w.state.atRest
  opened : ∀ n op, w.ops n = some op → .opened n ∈ J
  below : ∀ n, .opened n ∈ J → n < w.nextOp

/-- What the order of the calls rests on. -/
structure Orderly (w : World) : Prop where
  fresh : Fresh w
  exclusive : ∀ r, Exclusive r w
  pending : KeysPending w
  next : w.state.reserves[w.state.nextReserveId]? = none

section
variable {s₀ : State} {w w' : World} {J : Journal} {a : Call} {o : Output} {n : OpId} {op op' : Op}

theorem Placed.at_once (h : Placed s₀ w J) (hrun : a.run w.state.atRest = (w'.state.atRest, o))
    (hops : w'.ops = w.ops) (hnext : w'.nextOp = w.nextOp)
    (hspares : ∀ n op, w.ops n = some op → a.Spares op.footprint w.state.atRest) :
    Placed s₀ w' (J ++ [.done a o]) where
  sound := by
    rw [hops]
    refine h.sound.concat ?_ fun n op hop => ?_
    · rw [h.state]
      exact congrArg Prod.snd hrun
    · rw [h.state]
      exact hspares n op hop
  state := by
    rw [System.replay_append, h.state]
    exact congrArg Prod.fst hrun
  opened n op hop := by
    rw [hops] at hop
    exact List.mem_append_left _ (h.opened n op hop)
  below n hn := by
    rw [hnext]
    exact h.below n ((List.mem_append.mp hn).resolve_right (by simp))

theorem Placed.still (h : Placed s₀ w J) (hs : w'.state.atRest = w.state.atRest)
    (hops : w'.ops = w.ops) (hnext : w'.nextOp = w.nextOp) : Placed s₀ w' J where
  sound := by
    rw [hops]
    exact h.sound
  state := h.state.trans hs.symm
  opened n op hop := h.opened n op (by rwa [hops] at hop)
  below n hn := by
    rw [hnext]
    exact h.below n hn

theorem Placed.begins (h : Placed s₀ w J) (hs : w'.state.atRest = w.state.atRest)
    (hops : w'.ops = Function.update w.ops w.nextOp (some op)) (hnext : w'.nextOp = w.nextOp + 1)
    (hready : op.Ready w.state.atRest) : Placed s₀ w' (J ++ [.opened w.nextOp]) where
  sound := by
    rw [hops]
    have hsound : calls.Sound (Function.update w.ops w.nextOp (some op)) s₀ J := by
      refine h.sound.mono fun n op' hn hop' => ?_
      rw [Function.update_of_ne (h.below n hn).ne] at hop'
      exact ⟨op', hop', rfl, fun _ hr => hr⟩
    refine hsound.concat_opened fun op' hop' => ?_
    rw [Function.update_self] at hop'
    cases hop'
    rw [h.state]
    exact hready
  state := by
    rw [System.replay_append, h.state]
    exact hs.symm
  opened n op' hop' := by
    rw [hops] at hop'
    rcases update_eq_some.mp hop' with ⟨rfl, -⟩ | ⟨-, hop'⟩
    · simp
    · exact List.mem_append_left _ (h.opened n op' hop')
  below n hn := by
    rw [hnext]
    rcases List.mem_append.mp hn with hn | hn
    · exact Nat.lt_succ_of_lt (h.below n hn)
    · simp only [List.mem_singleton, Slot.opened.injEq] at hn
      rw [hn]
      exact Nat.lt_succ_self _

theorem Placed.goes_on (h : Placed s₀ w J) (hs : w'.state.atRest = w.state.atRest)
    (hops : w'.ops = Function.update w.ops n (some op')) (hnext : w'.nextOp = w.nextOp)
    (hop : w.ops n = some op) (hf : op'.footprint = op.footprint)
    (hready : ∀ s : State, op.Ready s → op'.Ready s) : Placed s₀ w' J where
  sound := by
    rw [hops]
    refine h.sound.mono fun m u _ hu => ?_
    rcases update_eq_some.mp hu with ⟨hm, hu'⟩ | ⟨-, hu'⟩
    · subst hm
      cases hu'
      exact ⟨op, hop, hf, hready⟩
    · exact ⟨u, hu', rfl, fun _ hr => hr⟩
  state := h.state.trans hs.symm
  opened m u hu := by
    rw [hops] at hu
    rcases update_eq_some.mp hu with ⟨rfl, -⟩ | ⟨-, hu⟩
    · exact h.opened m op hop
    · exact h.opened m u hu
  below m hm := by
    rw [hnext]
    exact h.below m hm

theorem Placed.lost (h : Placed s₀ w J) : Placed s₀ (w.finish w.state n []) J where
  sound := by
    refine h.sound.mono fun m u _ hu => ?_
    exact ⟨u, (finish_ops_some.mp hu).2, rfl, fun _ hr => hr⟩
  state := h.state
  opened m u hu := h.opened m u (finish_ops_some.mp hu).2
  below := h.below

theorem Orderly.locked (ho : Orderly w) (hop : w.ops n = some op) :
    op.reserveId ∈ w.state.reserveMintInflight := (ho.exclusive _).locked n op hop rfl

theorem Orderly.registered (ho : Orderly w) (hop : w.ops n = some op) :
    ∃ record, w.state.reserves[op.reserveId]? = some record :=
  (ho.exclusive _).registered n op hop rfl

theorem Orderly.apart (ho : Orderly w) {m : OpId} {u : Op} (hm : m ≠ n) (hu : w.ops m = some u)
    (hop : w.ops n = some op) : u.footprint.Apart op.footprint where
  id hid := hm ((ho.exclusive op.reserveId).one m n u op hu hop hid rfl)
  key k hk hk' := by
    have hid := (ho.pending m u k hu hk).symm.trans (ho.pending n op k hop hk')
    rw [Option.some.injEq, IdempotencyRecord.pending.injEq] at hid
    exact hm ((ho.exclusive op.reserveId).one m n u op hu hop hid rfl)

theorem Placed.ends (h : Placed s₀ w J) (ho : Orderly w) (e : Effect) (hop : w.ops n = some op)
    (hs : w'.state.atRest = e.apply w.state.atRest)
    (hops : w'.ops = Function.update w.ops n none) (hnext : w'.nextOp = w.nextOp)
    (he : e.target = op.footprint)
    (hrun : ∀ s : State, op.Ready s → a.run s = (e.apply s, o))
    (hspares : ∀ f : Footprint, f.Apart op.footprint → ∀ s, a.Spares f s) :
    Placed s₀ w' (close n a o J) := by
  obtain ⟨hreplay, hsound⟩ := calls_lawful.close_sound (h.opened n op hop) hop hrun he
    (fun m u hm hu => ⟨ho.apart hm hu hop, fun s _ => hspares _ (ho.apart hm hu hop) s⟩) h.sound
  refine ⟨?_, ?_, fun m u hu => ?_, fun m hm => ?_⟩
  · rw [hops]
    exact hsound
  · rw [hs, ← h.state]
    exact hreplay
  · rw [hops] at hu
    rcases update_eq_some.mp hu with ⟨-, hu⟩ | ⟨hm, hu⟩
    · cases hu
    · exact mem_close hm (h.opened m u hu)
  · rw [hnext]
    exact h.below m (close_mem hm)

theorem Placed.ends_unminted (h : Placed s₀ w J) (ho : Orderly w) (hop : w.ops n = some op)
    (hs : w'.state = w.state.drop op.reserveId op.key)
    (hops : w'.ops = Function.update w.ops n none) (hnext : w'.nextOp = w.nextOp)
    (hrun : ∀ s : State, op.Ready s → a.run s = (s, o))
    (hspares : ∀ f : Footprint, f.Apart op.footprint → ∀ s, a.Spares f s) :
    Placed s₀ w' (close n a o J) :=
  h.ends ho ⟨op.footprint, none⟩ hop ((congrArg State.atRest hs).trans (atRest_drop _ _ _)) hops
    hnext rfl hrun hspares

/-- A rebalance spares what is apart from its reserve, and a top-up what is apart from its
reserve and its key. -/
theorem rebalance_spares {f : Footprint} {id : ReserveId} {key : Option String}
    (h : f.Apart ⟨id, key⟩) (env : Replies) (s : State) : (Call.rebalance id env).Spares f s :=
  h.id.symm

theorem topup_spares {f : Footprint} {arg : ManualTopupArg}
    (h : f.Apart ⟨arg.reserveId, arg.idempotencyKey⟩) (now : Nat)
    (reply : Reply (Except TransferError Nat)) (s : State) :
    (Call.manualTopup arg now reply).Spares f s :=
  .inr ⟨h.id.symm, fun k hk hk' => h.key k hk' hk⟩

/-! ### The steps -/

theorem addReserveImpl_atRest (s : State) (arg : AddReserveArg) :
    addReserveImpl s.atRest arg = ((addReserveImpl s arg).1.atRest, (addReserveImpl s arg).2) := by
  unfold addReserveImpl
  cases validateAddReserveArg arg with
  | error e => rfl
  | ok u =>
    by_cases hdup : (s.reserves.toList.any fun p => p.2.config.account.eq arg.account) = true
    · simp only [atRest_reserves, hdup, if_true]
    · simp only [atRest_reserves, hdup]
      rfl

theorem updateReserveImpl_atRest (s : State) (arg : UpdateReserveArg) :
    updateReserveImpl s.atRest arg =
      ((updateReserveImpl s arg).1.atRest, (updateReserveImpl s arg).2) := by
  unfold updateReserveImpl
  simp only [atRest_reserves]
  cases s.reserves[arg.id]? with
  | none => rfl
  | some record =>
    simp only
    cases arg.apply record.config with
    | error e => rfl
    | ok updated =>
      simp only
      cases validateReserveConfig updated <;> rfl

/-- A removal that is not refused as busy is the same at rest. -/
theorem removeReserveImpl_atRest {s : State} {id : ReserveId}
    (h : (Output.removed (removeReserveImpl s id).2).busy = false) :
    id ∉ s.reserveMintInflight ∧
    removeReserveImpl s.atRest id =
      ((removeReserveImpl s id).1.atRest, (removeReserveImpl s id).2) := by
  have hpend : (s.atRest.idempotency.toList.any fun p => p.2.isPendingFor id) = false := by
    rw [Bool.eq_false_iff]
    intro hany
    simp only [List.any_eq_true, Prod.exists, Std.ExtTreeMap.mem_toList_iff_getElem?_eq_some,
      IdempotencyRecord.isPendingFor_iff, exists_eq_right, atRest_getElem?,
      Option.filter_eq_some_iff] at hany
    obtain ⟨k, -, hk⟩ := hany
    cases hk
  unfold removeReserveImpl at h ⊢
  by_cases hlock : id ∈ s.reserveMintInflight
  · simp [hlock, Output.busy, MinterError.isBusy] at h
  refine ⟨hlock, ?_⟩
  simp only [hpend]
  by_cases hp : (s.idempotency.toList.any fun p => p.2.isPendingFor id) = true
  · simp [hlock, hp, Output.busy, MinterError.isBusy] at h
  · have hrest : id ∉ s.atRest.reserveMintInflight := Std.ExtTreeSet.not_mem_empty
    simp only [Std.ExtTreeSet.contains_iff_mem, hlock, hrest, hp, Bool.false_eq_true, if_false,
      atRest_reserves]
    cases s.reserves[id]? <;> rfl


/-- So is a rebalance that ends at once. -/
theorem rebalanceBegin_atRest {s s' : State} {id : ReserveId} {e : MinterError} (env : Replies)
    (h : rebalanceBegin s id = (s', .error e)) (hbusy : e.isBusy = false) :
    s' = s ∧ s.reserves[id]? = none ∧ rebalanceOne env s.atRest id = (s.atRest, .error e) := by
  unfold rebalanceBegin at h
  cases hrec : s.reserves[id]? with
  | none =>
    rw [hrec] at h
    cases h
    rw [rebalanceOne_eq, atRest_reserves, hrec]
    exact ⟨rfl, rfl, rfl⟩
  | some record =>
    rw [hrec] at h
    simp only at h
    split at h
    · cases h
      cases hbusy
    · cases h

/-- And a top-up that ends at once: a replay, or one on an idle or unknown reserve. -/
theorem topupDecision_atRest {s : State} {arg : ManualTopupArg} {now : Nat}
    {r : Except MinterError ManualTopupResponse} (h : topupDecision s arg now = .inl r)
    (hbusy : (Output.toppedUp r).busy = false) : topupDecision s.atRest arg now = .inl r ∧
    ((∃ k e, arg.idempotencyKey = some k ∧
      s.atRest.idempotency[k]? = some (IdempotencyRecord.completed e)) ∨
    (arg.reserveId ∉ s.reserveMintInflight ∨ s.reserves[arg.reserveId]? = none) ∧
      ∀ k, arg.idempotencyKey = some k → s.idempotency[k]? = none) := by
  have hstart : startDecision s arg now = .inl r → startDecision s.atRest arg now = .inl r ∧
      (arg.reserveId ∉ s.reserveMintInflight ∨ s.reserves[arg.reserveId]? = none) := by
    unfold startDecision
    cases hrec : s.reserves[arg.reserveId]? with
    | none =>
      intro h
      rw [atRest_reserves, hrec]
      exact ⟨h, .inr rfl⟩
    | some record =>
      by_cases hlock : arg.reserveId ∈ s.reserveMintInflight
      · simp only [if_pos hlock]
        rintro ⟨⟩
        cases hbusy
      · have hrest : arg.reserveId ∉ s.atRest.reserveMintInflight := Std.ExtTreeSet.not_mem_empty
        simp only [if_neg hlock, atRest_reserves, hrec, if_neg hrest, atRest_globalPolicy]
        exact fun h => ⟨h, .inl hlock⟩
  unfold topupDecision at h ⊢
  cases hkey : arg.idempotencyKey with
  | none =>
    rw [hkey] at h
    obtain ⟨hrest, hidle⟩ := hstart h
    exact ⟨hrest, .inr ⟨hidle, nofun⟩⟩
  | some k =>
    rw [hkey] at h
    cases hk : s.idempotency[k]? with
    | none =>
      simp only [hk] at h
      obtain ⟨hrest, hidle⟩ := hstart h
      simp only [atRest_none hk]
      refine ⟨hrest, .inr ⟨hidle, ?_⟩⟩
      rintro _ ⟨⟩
      exact hk
    | some entry =>
      simp only [hk] at h
      cases entry with
      | pending rid =>
        cases h
        cases hbusy
      | completed e =>
        simp only [atRest_completed hk]
        exact ⟨h, .inl ⟨k, e, rfl, atRest_completed hk⟩⟩

theorem rebalanceDecision_inr {id : ReserveId} {snap : MintSnapshot} {reply : Reply Nat}
    {now : Nat} {k : RebalanceMint} (h : rebalanceDecision id snap reply now = .inr k) :
    k.id = id ∧ k.now = now ∧ reply = .answered k.balance := by
  unfold rebalanceDecision at h
  repeat' split at h
  all_goals cases h
  next hbal _ _ _ _ _ _ _ _ => exact ⟨rfl, rfl, getBalanceResult_ok hbal⟩

theorem run_rebalance {s : State} {id : ReserveId} {record : ReserveRecord} {env : Replies}
    (hlock : id ∉ s.reserveMintInflight) (hrec : s.reserves[id]? = some record) :
    (Call.rebalance id env).run s =
      match rebalanceDecision id (s.snapshot record) env.balance env.now with
      | .inl r => (s, .rebalanced r)
      | .inr k =>
        match mintToResult env.transfer with
        | .error e => (s, .rebalanced (.error e))
        | .ok block => ((mintEffect k.id none k.mintAmount k.now block).apply s,
            .rebalanced (.ok
              { reserveId := k.id, action := .minted, balanceBefore := k.balance,
                mintedAmount := k.mintAmount, ledgerBlockIndex := some block })) := by
  simp only [Call.run, rebalanceOne_eq, hrec, if_neg hlock]
  cases hd : rebalanceDecision id (s.snapshot record) env.balance env.now with
  | inl r => rfl
  | inr k =>
    obtain rfl := rebalanceDecision_id hd
    simp only [settleRebalance_eq hrec]
    cases mintToResult env.transfer <;> rfl

theorem run_awaitTopup {k : TopupMint} {s : State} (h : (Op.awaitTopup k).Ready s)
    (reply : Reply (Except TransferError Nat)) :
    (Call.manualTopup k.arg k.now reply).run s =
      match mintToResult reply with
      | .error e => (s, .toppedUp (.error e))
      | .ok block =>
        ((mintEffect k.arg.reserveId k.arg.idempotencyKey k.arg.amount k.now block).apply s,
          .toppedUp (.ok { reserveId := k.arg.reserveId, mintedAmount := k.arg.amount,
                           ledgerBlockIndex := block })) := by
  obtain ⟨record, hstart⟩ := h
  simp only [Call.run, manualTopupReserveImpl_eq, topupDecision_inr.mpr hstart, settleTopup]
  cases mintToResult reply <;> rfl

theorem run_awaitRebalance {k : RebalanceMint} {s : State} (h : (Op.awaitRebalance k).Ready s)
    (reply : Reply (Except TransferError Nat)) :
    (Call.rebalance k.id ⟨.answered k.balance, k.now, reply⟩).run s =
      match mintToResult reply with
      | .error e => (s, .rebalanced (.error e))
      | .ok block => ((mintEffect k.id none k.mintAmount k.now block).apply s,
          .rebalanced (.ok { reserveId := k.id, action := .minted, balanceBefore := k.balance,
                             mintedAmount := k.mintAmount, ledgerBlockIndex := some block })) := by
  obtain ⟨hlock, record, hrec, hd⟩ := h
  rw [run_rebalance hlock hrec]
  simp only [hd]

theorem Placed.removes (h : Placed s₀ w J) (ho : Orderly w) {id : ReserveId}
    (hs : w.step (.removeReserve id) = some (w', o)) :
    Placed s₀ w' (enter w J (.removeReserve id) o) := by
  simp only [World.step, advance, Option.some.injEq, Prod.mk.injEq] at hs
  obtain ⟨rfl, rfl⟩ := hs
  cases hbusy : (Output.removed (removeReserveImpl w.state id).2).busy with
  | true =>
    have hsame : (removeReserveImpl w.state id).1 = w.state := by
      rcases removeReserveImpl_cases w.state id with ⟨e, he⟩ | ⟨record, -, -, -, he⟩ <;>
        rw [he] at hbusy ⊢
      cases hbusy
    simp only [enter, tick_state, hbusy, if_true]
    exact h.still (congrArg State.atRest hsame) rfl rfl
  | false =>
    obtain ⟨hidle, hrest⟩ := removeReserveImpl_atRest hbusy
    simp only [enter, tick_state, hbusy, Bool.false_eq_true, if_false]
    refine h.at_once (by simp only [Call.run, hrest]) rfl rfl fun n op hop hid => ?_
    exact hidle (hid ▸ ho.locked hop)

theorem Placed.begins_rebalance (h : Placed s₀ w J) (ho : Orderly w) {id : ReserveId}
    (hs : w.step (.rebalance id) = some (w', o)) : Placed s₀ w' (enter w J (.rebalance id) o) := by
  simp only [World.step, advance, tick_state] at hs
  rcases rebalanceBegin_cases w.state id with ⟨err, -, he⟩ | ⟨record, hrec, -, he⟩ <;>
    rw [he] at hs <;> cases hs
  · cases hbusy : err.isBusy with
    | true =>
      simp only [enter, Output.calls, Output.busy, hbusy, Bool.false_eq_true, if_false, if_true]
      exact h.still rfl rfl rfl
    | false =>
      obtain ⟨-, hnone, hrest⟩ := rebalanceBegin_atRest ⟨noReply, 0, noReply⟩ he hbusy
      simp only [enter, Output.calls, Output.busy, hbusy, Bool.false_eq_true, if_false]
      refine h.at_once (by simp only [Call.run, hrest]) rfl rfl fun n op hop hid => ?_
      obtain ⟨record, hrec⟩ := ho.registered hop
      cases hrec.symm.trans (hid ▸ hnone)
  · exact h.begins (atRest_begin (by simp)) rfl rfl
      ⟨Std.ExtTreeSet.not_mem_empty, record, hrec, rfl⟩

theorem Placed.begins_topup (h : Placed s₀ w J) (ho : Orderly w) {arg : ManualTopupArg} {now : Nat}
    (hs : w.step (.manualTopup arg now) = some (w', o)) :
    Placed s₀ w' (enter w J (.manualTopup arg now) o) := by
  simp only [World.step, advance, tick_state, manualTopupIssue_eq] at hs
  cases hd : topupDecision w.state arg now with
  | inl r =>
    rw [hd] at hs
    cases hs
    cases hbusy : (Output.toppedUp r).busy with
    | true =>
      simp only [enter, Output.calls, hbusy, Bool.false_eq_true, if_false, if_true]
      exact h.still rfl rfl rfl
    | false =>
      obtain ⟨hrest, hidle⟩ := topupDecision_atRest hd hbusy
      simp only [enter, Output.calls, hbusy, Bool.false_eq_true, if_false]
      refine h.at_once (by simp only [Call.run, manualTopupReserveImpl_eq, hrest]) rfl rfl
        fun n op hop => hidle.imp_right ?_
      rintro ⟨hidle, hkeys⟩
      refine ⟨fun hid => ?_, fun k hk hk' => ?_⟩
      · rcases hidle with hlock | hnone
        · exact hlock (hid ▸ ho.locked hop)
        · obtain ⟨record, hrec⟩ := ho.registered hop
          cases hrec.symm.trans (hid ▸ hnone)
      · cases (hkeys k hk).symm.trans (ho.pending n op k hop hk')
  | inr record =>
    rw [hd] at hs
    cases hs
    have hstart := topupDecision_inr.mp hd
    exact h.begins (atRest_begin hstart.free) rfl rfl ⟨record, hstart.registered,
      Std.ExtTreeSet.not_mem_empty, fun k hk => atRest_none (hstart.free k hk), hstart.valid⟩

theorem Placed.weighs (h : Placed s₀ w J) (ho : Orderly w) {reply : Reply Nat} {now : Nat}
    (hs : w.step (.balanceReply n reply now) = some (w', o)) :
    Placed s₀ w' (enter w J (.balanceReply n reply now) o) := by
  simp only [World.step, advance, tick_ops, tick_state] at hs
  split at hs
  · next id snap hop =>
    rw [rebalanceIssue_eq] at hs
    cases hd : rebalanceDecision id snap reply now with
    | inl r =>
      rw [hd] at hs
      cases hs
      simp only [enter, hop, Output.calls, Bool.false_eq_true, if_false]
      refine h.ends_unminted ho hop rfl rfl rfl ?_ fun f hf => rebalance_spares hf _
      rintro s ⟨hlock, record, hrec, rfl⟩
      rw [run_rebalance hlock hrec]
      simp only [hd]
    | inr k =>
      rw [hd] at hs
      cases hs
      obtain ⟨rfl, rfl, rfl⟩ := rebalanceDecision_inr hd
      simp only [enter, hop, Output.calls, if_true]
      refine h.goes_on rfl rfl rfl hop rfl ?_
      rintro s ⟨hlock, record, hrec, rfl⟩
      exact ⟨hlock, record, hrec, hd⟩
  · cases hs

theorem Placed.settled (h : Placed s₀ w J) (ho : Orderly w)
    {reply : Reply (Except TransferError Nat)}
    (hs : w.step (.transferReply n reply) = some (w', o)) :
    Placed s₀ w' (enter w J (.transferReply n reply) o) := by
  simp only [World.step, advance, tick_ops, tick_state] at hs
  split at hs
  · next k hop =>
    have hspares := fun (f : Footprint) (hf : f.Apart (Op.awaitRebalance k).footprint) =>
      rebalance_spares hf ⟨.answered k.balance, k.now, reply⟩
    rcases rebalanceCommit_cases w.state k reply with
      ⟨err, hm, hc⟩ | ⟨block, -, hnone, -⟩ | ⟨block, record, hm, hrec, hc⟩
    · rw [hc] at hs
      cases hs
      simp only [enter, hop]
      refine h.ends_unminted ho hop rfl rfl rfl (fun s hr => ?_) hspares
      rw [run_awaitRebalance hr, hm]
    · obtain ⟨record, hrec⟩ := ho.registered hop
      cases hrec.symm.trans hnone
    · rw [hc] at hs
      cases hs
      simp only [enter, hop]
      refine h.ends ho (mintEffect k.id none k.mintAmount k.now block) hop (atRest_mint hrec) rfl
        rfl rfl (fun s hr => ?_) hspares
      rw [run_awaitRebalance hr, hm]
  · next k hop =>
    have hspares := fun (f : Footprint) (hf : f.Apart (Op.awaitTopup k).footprint) =>
      topup_spares hf k.now reply
    rcases manualTopupCommit_cases w.state k reply with
      ⟨err, hm, hc⟩ | ⟨block, -, hnone, -⟩ | ⟨block, record, hm, hrec, hc⟩
    · rw [hc] at hs
      cases hs
      simp only [enter, hop]
      refine h.ends_unminted ho hop rfl rfl rfl (fun s hr => ?_) hspares
      rw [run_awaitTopup hr, hm]
    · obtain ⟨record, hrec⟩ := ho.registered hop
      cases hrec.symm.trans hnone
    · rw [hc] at hs
      cases hs
      simp only [enter, hop]
      refine h.ends ho (mintEffect k.arg.reserveId k.arg.idempotencyKey k.arg.amount k.now block)
        hop (atRest_mint hrec) rfl rfl rfl (fun s hr => ?_) hspares
      rw [run_awaitTopup hr, hm]
  · cases hs

theorem Placed.step (h : Placed s₀ w J) (ho : Orderly w) {e : Event}
    (hs : w.step e = some (w', o)) : Placed s₀ w' (enter w J e o) := by
  cases e with
  | addReserve arg =>
    simp only [World.step, advance, Option.some.injEq, Prod.mk.injEq] at hs
    obtain ⟨rfl, rfl⟩ := hs
    refine h.at_once (by simp only [Call.run, addReserveImpl_atRest]; rfl) rfl rfl
      fun n op hop hid => ?_
    obtain ⟨record, hrec⟩ := ho.registered hop
    cases hrec.symm.trans (hid ▸ ho.next)
  | updateReserve arg =>
    simp only [World.step, advance, Option.some.injEq, Prod.mk.injEq] at hs
    obtain ⟨rfl, rfl⟩ := hs
    exact h.at_once (by simp only [Call.run, updateReserveImpl_atRest]; rfl) rfl rfl
      fun _ _ _ => trivial
  | removeReserve id => exact h.removes ho hs
  | setGlobalPolicy policy =>
    simp only [World.step, advance, Option.some.injEq, Prod.mk.injEq] at hs
    obtain ⟨rfl, rfl⟩ := hs
    exact h.at_once rfl rfl rfl fun _ _ _ => trivial
  | releaseStuckMintState id key =>
    simp only [World.step, advance, Option.some.injEq, Prod.mk.injEq] at hs
    obtain ⟨rfl, rfl⟩ := hs
    refine h.still ?_ rfl rfl
    rw [tick_state, releaseStuckMintStateImpl_state, atRest_drop]
  | rebalance id => exact h.begins_rebalance ho hs
  | manualTopup arg now => exact h.begins_topup ho hs
  | balanceReply n reply now => exact h.weighs ho hs
  | transferReply n reply => exact h.settled ho hs
  | lose n =>
    simp only [World.step, advance, tick_ops] at hs
    split at hs
    · cases hs
      exact h.lost
    · cases hs

theorem Orderly.of_run {ledgerId : Principal} {tr : List Event}
    (hrun : Run Step ReleasesIdle (init ledgerId) tr w) (hadds : tr.countP Event.adds < 2 ^ 64) :
    Orderly w := by
  have hbase : Fresh w ∧ (∀ r, Exclusive r w) ∧ KeysPending w := by
    refine hrun.invariant (I := fun w => Fresh w ∧ (∀ r, Exclusive r w) ∧ KeysPending w)
      (fun w e w' hi hI hs => ?_)
      ⟨fresh_init ledgerId, fun r => exclusive_init r ledgerId, fun n op k h => by simp [init] at h⟩
    obtain ⟨hf, hx, hp⟩ := hI
    exact ⟨hf.step hs, fun r => (hx r).step (hi r) hs, hp.step hi hx hs⟩
  have hwell := wellFormed_run (countsUp_run (hrun.mono fun _ _ _ => trivial)
    (by simpa [init, State.default, UInt64.size] using hadds))
  refine ⟨hbase.1, hbase.2.1, hbase.2.2,
    Option.eq_none_iff_forall_ne_some.mpr fun record hrec => ?_⟩
  exact UInt64.lt_irrefl _ (hwell.below _ _ hrec)

end

/-! ## The answers of a run -/

/-- The answer ends a call that was not refused at its begin. -/
def settles : Event × Output → Bool
  | (.releaseStuckMintState _ _, _) => false
  | (.lose _, _) => false
  | (.balanceReply _ _ _, o) => !o.calls
  | (.transferReply _ _, o) => !o.calls
  | (_, o) => !o.calls && !o.busy

section
variable {s₀ : State} {w w' : World} {J : Journal} {a : Call} {o : Output} {n : OpId} {op : Op}

/-- A step enters its answer if it settles a call. -/
theorem Placed.enter_answers (h : Placed s₀ w J) {e : Event} (hs : w.step e = some (w', o)) :
    ((enter w J e o).filterMap Slot.answer?).Perm
      (J.filterMap Slot.answer? ++ if settles (e, o) then [o] else []) := by
  cases e with
  | addReserve | updateReserve | setGlobalPolicy =>
    simp only [World.step, advance, Option.some.injEq, Prod.mk.injEq] at hs
    obtain ⟨-, rfl⟩ := hs
    rw [enter, done_answers]
    exact List.Perm.refl _
  | removeReserve id =>
    simp only [World.step, advance, Option.some.injEq, Prod.mk.injEq] at hs
    obtain ⟨-, rfl⟩ := hs
    simp only [enter, settles, Output.calls, tick_state]
    by_cases hb : (Output.removed (removeReserveImpl w.state id).2).busy = true
    · simp [hb]
    · simp [hb, -List.filterMap_append]
  | releaseStuckMintState | lose => simp [enter, settles]
  | rebalance | manualTopup =>
    simp only [enter, settles]
    split
    · next hc => simp [hc, -List.filterMap_append]
    · next hc =>
      split
      · next hb => simp [hb]
      · next hb => simp [hb, hc, -List.filterMap_append]
  | balanceReply n reply now =>
    simp only [World.step, advance, tick_ops] at hs
    split at hs
    · next id snap hop =>
      simp only [enter, hop, settles]
      split
      · next hc => simp [hc]
      · next hc =>
        simp only [hc]
        exact close_answers (h.opened n _ hop)
    · cases hs
  | transferReply n reply =>
    simp only [World.step, advance, tick_ops] at hs
    split at hs
    · next k hop =>
      cases hs
      simp only [enter, hop, settles, Output.calls]
      exact close_answers (h.opened n _ hop)
    · next k hop =>
      cases hs
      simp only [enter, hop, settles, Output.calls]
      exact close_answers (h.opened n _ hop)
    · cases hs

theorem placed_init (ledgerId : Principal) :
    Placed (State.default ledgerId) (init ledgerId) [] where
  sound := trivial
  state := by
    refine (State.ext_getElem? rfl rfl (fun _ => rfl) rfl (fun k => ?_) rfl)
    simp [atRest_getElem?, init, State.default, System.replay]
  opened n op h := by simp [init] at h
  below n h := by simp at h

theorem Placed.run {tr : List Event} (h : Placed s₀ w J)
    (hrun : Run Step (fun w _ => Orderly w) w tr w') :
    Placed s₀ w' (journal w J tr) ∧
    ((journal w J tr).filterMap Slot.answer?).Perm
      (J.filterMap Slot.answer? ++ ((outputs World.step w tr).filter settles).map Prod.snd) := by
  induction hrun generalizing J with
  | nil w => exact ⟨h, by simp [journal, outputs]⟩
  | cons ho hs hrun ih =>
    obtain ⟨o, hs⟩ := hs
    have hperm := h.enter_answers hs
    obtain ⟨hplaced, hrest⟩ := ih (h.step ho hs)
    simp only [journal, outputs, hs]
    refine ⟨hplaced, hrest.trans ((hperm.append_right _).trans ?_)⟩
    rw [List.filter_cons]
    split <;> simp

end

theorem NoLeftover.atRest {w : World} (h : NoLeftover w) (hops : ∀ n, w.ops n = none) :
    w.state.atRest = w.state := by
  refine State.ext_getElem? rfl rfl (fun _ => rfl) rfl (fun k => ?_) ?_
  · rw [atRest_getElem?]
    cases hk : w.state.idempotency[k]? with
    | none => rfl
    | some r =>
      cases r with
      | completed e => rfl
      | pending id =>
        obtain ⟨n, op, hop, -⟩ := h.key k id hk
        cases (hops n).symm.trans hop
  · refine Std.ExtTreeSet.ext_mem fun r => ⟨fun hr => ?_, fun hr => ?_⟩
    · exact (Std.ExtTreeSet.not_mem_empty hr).elim
    · obtain ⟨n, op, hop, -⟩ := h.lock r hr
      cases (hops n).symm.trans hop

/-- The journal of a run fits its last state, and holds its answers. -/
theorem serial_run {ledgerId : Principal} {tr : List Event} {w : World}
    (hrun : Run Step ReleasesIdle (init ledgerId) tr w) (hadds : tr.countP Event.adds < 2 ^ 64) :
    Placed (State.default ledgerId) w (journal (init ledgerId) [] tr) ∧
    ((journal (init ledgerId) [] tr).filterMap Slot.answer?).Perm
      (((outputs World.step (init ledgerId) tr).filter settles).map Prod.snd) := by
  have hordered : Run Step (fun w _ => Orderly w) (init ledgerId) tr w := by
    refine hrun.of_steps fun tr₁ e tr₂ u v htr hpre hs => Orderly.of_run hpre ?_
    rw [htr, List.countP_append] at hadds
    omega
  obtain ⟨hplaced, hperm⟩ := (placed_init ledgerId).run hordered
  exact ⟨hplaced, by simpa using hperm⟩

/-- A top-up of reserve 1 begins while reserve 0 is rebalanced, and ends first; the
policy, the reserve and a refused call come in between. -/
def serialSample : List Event :=
  [.addReserve Sample.reserve, .addReserve { Sample.reserve with account := ⟨⟨[3]⟩, none⟩ },
    .rebalance 0, .manualTopup ⟨1, 5, some "k"⟩ 1, .rebalance 1, .updateReserve Sample.update,
    .balanceReply 0 (.answered 40) 2, .transferReply 1 (.answered (.ok 7)),
    .removeReserve 1, .transferReply 0 (.answered (.ok 8))]

def serialJournal : Journal :=
  [.done (.addReserve Sample.reserve) (.added (.ok 0)),
    .done (.addReserve { Sample.reserve with account := ⟨⟨[3]⟩, none⟩ }) (.added (.ok 1)),
    .done (.rebalance 0 ⟨.answered 40, 2, .answered (.ok 8)⟩) (.rebalanced (.ok
      { reserveId := 0, action := .minted, balanceBefore := 40, mintedAmount := 60,
        ledgerBlockIndex := some 8 })),
    .done (.manualTopup ⟨1, 5, some "k"⟩ 1 (.answered (.ok 7))) (.toppedUp (.ok
      { reserveId := 1, mintedAmount := 5, ledgerBlockIndex := 7 })),
    .done (.updateReserve Sample.update) (.updated (.ok ())),
    .done (.removeReserve 1) (.removed (.ok
      { Sample.reserve.config with account := ⟨⟨[3]⟩, none⟩ }))]

end World

end ViciMinter
