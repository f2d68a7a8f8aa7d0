import ViciMinter.Service

/-!
# What a segment of a task does

`Ran` says once what a segment can do: it leaves the minter alone, it is one segment of
the minter, or it goes on with a loop. A loop changes the minter in its last round at
most, because a round that answers at once takes no lock (`sweepOn_cases`).
-/

namespace ViciMinter

open Lts

/-! ## Segments of the minter -/

/-- The segment of the minter that a message runs. -/
def Message.event? (now : Nat) : Message → Option Event
  | .addReserve arg => some (.addReserve arg)
  | .updateReserve arg => some (.updateReserve arg)
  | .removeReserve id => some (.removeReserve id)
  | .setGlobalPolicy policy => some (.setGlobalPolicy policy)
  | .releaseStuckMintState id key => some (.releaseStuckMintState id key)
  | .rebalanceReserve id => some (.rebalance id)
  | .manualTopupReserve arg => some (.manualTopup arg now)
  | _ => none

/-- The segment of the minter that a reply runs. -/
def TaskEvent.reply? (n : OpId) : TaskEvent → Option Event
  | .balanceReply reply now => some (.balanceReply n reply now)
  | .transferReply reply => some (.transferReply n reply)
  | _ => none

/-- The operation that a segment leaves waiting. -/
def Output.op? : Output → Option OpId
  | .balanceCall n _ _ => some n
  | .transferCall n _ _ => some n
  | _ => none

/-- What the task that ran the segment shows. -/
def Output.reaction : Output → Reaction
  | .balanceCall _ ledgerId account => .balanceCall ledgerId account
  | .transferCall _ ledgerId arg => .transferCall ledgerId arg
  | o => .answer (.minter o)

theorem settle_eq (w : World) (o : Output) :
    settle (w, o) = (w, o.op?.map .single, o.reaction) := by
  cases o <;> rfl

theorem TaskEvent.reply?_resumes {e : TaskEvent} {n : OpId} {ev : Event}
    (h : e.reply? n = some ev) : ev.resumes = some n := by
  cases e <;> cases h <;> rfl

theorem Message.event?_resumes {m : Message} {now : Nat} {ev : Event}
    (h : m.event? now = some ev) : ev.resumes = none := by
  cases m <;> cases h <;> rfl

theorem callerIsController_ok {controllers : List Principal} {caller : Principal} :
    callerIsController controllers caller = .ok () ↔ caller ∈ controllers := by
  unfold callerIsController
  split <;> simp_all

/-! ## Rounds -/

/-- What `rebalance_one` of `id` can return. -/
inductive Rebalanced (id : ReserveId) : Except MinterError RebalanceResponse → Prop where
  | notFound : Rebalanced id (.error (.reserveNotFound id))
  | busy : Rebalanced id (.error (.reserveOperationInProgress id))
  | disabled : Rebalanced id (.error .mintingDisabled)
  | ledger (message : String) : Rebalanced id (.error (.ledgerError message))
  | missing : Rebalanced id (.error reserveMissing)
  | idle {action : RebalanceAction} (balance : Nat) : action ≠ .minted →
      Rebalanced id (.ok (noMintResponse id action balance))
  | minted (balance amount block : Nat) :
      Rebalanced id (.ok ⟨id, .minted, balance, amount, some block⟩)

/-- What `rebalance_one` of `id` can return without an await. -/
inductive Refused (id : ReserveId) : Except MinterError RebalanceResponse → Prop where
  | notFound : Refused id (.error (.reserveNotFound id))
  | busy : Refused id (.error (.reserveOperationInProgress id))

theorem Refused.rebalanced {id : ReserveId} {r : Except MinterError RebalanceResponse}
    (h : Refused id r) : Rebalanced id r := by
  cases h with
  | notFound => exact .notFound
  | busy => exact .busy

/-- What `preview_inner` of `id` can return. -/
inductive Previewed (id : ReserveId) : Except MinterError PreviewRebalanceResponse → Prop where
  | notFound : Previewed id (.error (.reserveNotFound id))
  | disabled : Previewed id (.error .mintingDisabled)
  | ledger (message : String) : Previewed id (.error (.ledgerError message))
  | ok {r : PreviewRebalanceResponse} : r.reserveId = id → Previewed id (.ok r)

section
variable {w w' : World} {id : ReserveId}

theorem rebalanceStart_inl {r : Except MinterError RebalanceResponse}
    (h : rebalanceStart w id = (w', .inl r)) : w' = w ∧ Refused id r := by
  unfold rebalanceStart rebalanceBegin at h
  cases hrec : w.state.reserves[id]? with
  | none =>
    simp only [hrec] at h
    cases h
    exact ⟨rfl, .notFound⟩
  | some record =>
    cases hlock : w.state.reserveMintInflight.contains id with
    | true =>
      simp only [hrec, hlock, if_true] at h
      cases h
      exact ⟨rfl, .busy⟩
    | false =>
      simp only [hrec, hlock] at h
      cases h

/-- A round that waits has run the first segment of a rebalance. -/
theorem rebalanceStart_inr {n : OpId} {snap : MintSnapshot}
    (h : rebalanceStart w id = (w', .inr (n, snap))) : n = w.nextOp ∧
      w'.ops = Function.update w.ops n (some (.awaitBalance id snap)) ∧
      w.step (.rebalance id) =
        some (w', .balanceCall n snap.ledgerId snap.config.account) := by
  unfold rebalanceStart at h
  cases hbegin : rebalanceBegin w.state id with
  | mk s started =>
    simp only [hbegin] at h
    cases started with
    | error e => cases h
    | ok snap' =>
      cases h
      refine ⟨rfl, rfl, ?_⟩
      unfold World.step World.advance
      simp only [World.tick_state, hbegin]
      rfl

theorem previewStart_inl {s s' : State} {r : Except MinterError PreviewRebalanceResponse}
    (h : previewStart s id = (s', .inl r)) : s' = s ∧ Previewed id r := by
  unfold previewStart previewBegin at h
  cases hrec : s.reserves[id]? with
  | none =>
    simp only [hrec] at h
    cases h
    exact ⟨rfl, .notFound⟩
  | some record =>
    simp only [hrec] at h
    cases h

theorem previewEnd_previewed (id : ReserveId) (snap : MintSnapshot) (reply : Reply Nat)
    (now : Nat) : Previewed id (previewEnd id snap reply now) := by
  unfold previewEnd
  cases reply with
  | answered balance =>
    simp only [getBalanceResult]
    cases hc : computeRebalance snap.config balance snap.lifetimeMinted snap.policy with
    | error e =>
      rw [computeRebalance_error hc]
      exact .disabled
    | ok computed => exact .ok rfl
  | callFailed message => exact .ledger _
  | decodeFailed message => exact .ledger _

theorem mintToResult_ledger {reply : Reply (Except TransferError Nat)} {e : MinterError}
    (h : mintToResult reply = .error e) : ∃ message, e = .ledgerError message := by
  unfold mintToResult at h
  split at h <;> cases h <;> exact ⟨_, rfl⟩

/-- The loop of `rebalance_all` is through, and has not changed the minter, or its last
round waits. -/
theorem sweepOn_cases (w : World) (results : List (Except MinterError RebalanceResponse))
    (rest : List ReserveId) :
    (∃ more, sweepOn w results rest = (w, none, .answer (.rebalancedAll (results ++ more))) ∧
      Await.Passed Refused rest more []) ∨
    ∃ w' more id snap rest', sweepOn w results rest =
        (w', some (.sweep (results ++ more) w.nextOp rest'),
          .balanceCall snap.ledgerId snap.config.account) ∧
      w'.ops = Function.update w.ops w.nextOp (some (.awaitBalance id snap)) ∧
      w.step (.rebalance id) =
        some (w', .balanceCall w.nextOp snap.ledgerId snap.config.account) ∧
      Await.Passed Refused rest more (id :: rest') := by
  have hstart : ∀ v id v' r, v = w → rebalanceStart v id = (v', .inl r) →
      v' = w ∧ Refused id r := by
    rintro v id v' r rfl hround
    exact rebalanceStart_inl hround
  unfold sweepOn
  rcases Await.loop_cases hstart rfl results rest with ⟨w', more, hloop, rfl, hp⟩ |
    ⟨_, w', more, id, ⟨n, snap⟩, rest', hloop, rfl, hround, hp⟩
  · exact .inl ⟨more, by rw [hloop], hp⟩
  · obtain ⟨rfl, hops, hstep⟩ := rebalanceStart_inr hround
    exact .inr ⟨w', more, id, snap, rest', by rw [hloop], hops, hstep, hp⟩

/-- The loop of the previews never changes the minter. -/
theorem previewOn_cases (w : World) (results : List (Except MinterError PreviewRebalanceResponse))
    (rest : List ReserveId) :
    (∃ more, previewOn w results rest = (w, none, .answer (.previewedAll (results ++ more))) ∧
      Await.Passed Previewed rest more []) ∨
    ∃ more id snap rest', previewOn w results rest =
        (w, some (.previews (results ++ more) id snap rest'),
          .balanceCall snap.ledgerId snap.config.account) ∧
      Await.Passed Previewed rest more (id :: rest') := by
  have hstart : ∀ v id v' r, v = w.state → previewStart v id = (v', .inl r) →
      v' = w.state ∧ Previewed id r := by
    rintro v id v' r rfl hround
    exact previewStart_inl hround
  unfold previewOn
  rcases Await.loop_cases hstart rfl results rest with ⟨s', more, hloop, -, hp⟩ |
    ⟨_, s', more, id, snap, rest', hloop, -, hround, hp⟩
  · exact .inl ⟨more, by rw [hloop], hp⟩
  · exact .inr ⟨more, id, snap, rest', by rw [hloop], hp⟩

end

/-- A decision not to mint is a result. -/
theorem rebalanceDecision_rebalanced {id : ReserveId} {snap : MintSnapshot} {reply : Reply Nat}
    {now : Nat} {r : Except MinterError RebalanceResponse}
    (h : rebalanceDecision id snap reply now = .inl r) : Rebalanced id r := by
  unfold rebalanceDecision at h
  cases reply with
  | answered balance =>
    simp only [getBalanceResult] at h
    cases hc : computeRebalance snap.config balance snap.lifetimeMinted snap.policy with
    | error e =>
      rw [hc, computeRebalance_error hc] at h
      cases h
      exact .disabled
    | ok computed =>
      simp only [hc] at h
      cases ha : computed.action with
      | minted =>
        simp only [ha] at h
        split at h <;> cases h
        exact .idle balance nofun
      | alreadyFunded | skipped =>
        simp only [ha] at h
        cases h
        exact .idle balance nofun
  | callFailed message | decodeFailed message =>
    cases h
    exact .ledger _

/-- What a reply makes of the operation that waits for it. -/
inductive Resumed (w : World) (n : OpId) (w' : World) : Op → Output → Prop where
  | toppedUp {k : TopupMint} {r : Except MinterError ManualTopupResponse} :
      w'.ops = Function.update w.ops n none → Resumed w n w' (.awaitTopup k) (.toppedUp r)
  | rebalanced {op : Op} {r : Except MinterError RebalanceResponse} :
      Rebalanced op.reserveId r → w'.ops = Function.update w.ops n none →
      Resumed w n w' op (.rebalanced r)
  | issued {id : ReserveId} {snap : MintSnapshot} {k : RebalanceMint} {ledgerId : Principal}
      {arg : TransferArg} : k.id = id →
      w'.ops = Function.update w.ops n (some (.awaitRebalance k)) →
      Resumed w n w' (.awaitBalance id snap) (.transferCall n ledgerId arg)

theorem step_resumed {w w' : World} {n : OpId} {e : TaskEvent} {ev : Event} {o : Output}
    (he : e.reply? n = some ev) (h : w.step ev = some (w', o)) :
    ∃ op, w.ops n = some op ∧ Resumed w n w' op o := by
  cases e with
  | balanceReply reply now =>
    cases he
    simp only [World.step, World.advance, World.tick_ops, World.tick_state] at h
    split at h
    · next id snap hop =>
      refine ⟨_, hop, ?_⟩
      rw [rebalanceIssue_eq] at h
      cases hd : rebalanceDecision id snap reply now with
      | inl r =>
        rw [hd] at h
        cases h
        exact .rebalanced (rebalanceDecision_rebalanced hd) rfl
      | inr k =>
        rw [hd] at h
        cases h
        exact .issued (rebalanceDecision_id hd) rfl
    · cases h
  | transferReply reply =>
    cases he
    simp only [World.step, World.advance, World.tick_ops, World.tick_state] at h
    split at h
    · next k hop =>
      refine ⟨_, hop, ?_⟩
      rcases rebalanceCommit_cases w.state k reply with
        ⟨err, hr, hcommit⟩ | ⟨block, hr, hrec, hcommit⟩ | ⟨block, record, hr, hrec, hcommit⟩ <;>
        rw [hcommit] at h <;> cases h
      · obtain ⟨message, rfl⟩ := mintToResult_ledger hr
        exact .rebalanced (.ledger message) rfl
      · exact .rebalanced .missing rfl
      · exact .rebalanced (.minted k.balance k.mintAmount block) rfl
    · next k hop =>
      cases h
      exact ⟨_, hop, .toppedUp rfl⟩
    · cases h
  | call | tick | lose => cases he

/-! ## Segments -/

/-- The task runs the segment `ev` of the minter. -/
inductive Runs : TaskId → Option Task → TaskEvent → Event → Prop where
  | called {n : Nat} {caller : Principal} {m : Message} {controllers : List Principal} {now : Nat}
      {ev : Event} : caller ∈ controllers → m.event? now = some ev →
      Runs (.message n caller) none (.call m controllers now) ev
  | resumed {t : TaskId} {n : OpId} {e : TaskEvent} {ev : Event} : e.reply? n = some ev →
      Runs t (some (.single n)) e ev

/-- The loop of `rebalance_all` goes on in the minter `w₁`. -/
inductive Sweeps (w : World) : TaskId → Option Task → TaskEvent → World →
    List (Except MinterError RebalanceResponse) → List ReserveId → Prop where
  | called {n : Nat} {caller : Principal} {controllers : List Principal} {now : Nat} :
      caller ∈ controllers →
      Sweeps w (.message n caller) none (.call .rebalanceAllReserves controllers now) w []
        w.state.reserves.keys
  | ticked : Sweeps w .timer none .tick w [] w.state.reserves.keys
  | resumed {t : TaskId} {results : List (Except MinterError RebalanceResponse)} {n : OpId}
      {rest : List ReserveId} {e : TaskEvent} {ev : Event} {w₁ : World}
      {r : Except MinterError RebalanceResponse} : e.reply? n = some ev →
      w.step ev = some (w₁, .rebalanced r) →
      Sweeps w t (some (.sweep results n rest)) e w₁ (results ++ [r]) rest

/-- The loop of the previews goes on. -/
inductive Previews (w : World) : TaskId → Option Task → TaskEvent →
    List (Except MinterError PreviewRebalanceResponse) → List ReserveId → Prop where
  | called {n : Nat} {caller : Principal} {controllers : List Principal} {now : Nat} :
      Previews w (.message n caller) none (.call .previewRebalanceAllReserves controllers now) []
        w.state.reserves.keys
  | resumed {t : TaskId} {results : List (Except MinterError PreviewRebalanceResponse)}
      {id : ReserveId} {snap : MintSnapshot} {rest : List ReserveId} {reply : Reply Nat}
      {now : Nat} :
      Previews w t (some (.previews results id snap rest)) (.balanceReply reply now)
        (results ++ [previewEnd id snap reply now]) rest

/-- Neither a result of the minter nor of a sweep. -/
def Answer.apart : Answer → Bool
  | .minter _ => false
  | .rebalancedAll _ => false
  | .previewedAll _ => false
  | _ => true

/-- What a segment does, by cases. -/
inductive Ran (w : World) : TaskId → Option Task → TaskEvent → World → Option Task → Reaction →
    Prop where
  /-- A message is rejected, or a query answered. -/
  | replied {n : Nat} {caller : Principal} {m : Message} {controllers : List Principal} {now : Nat}
      {a : Answer} : a.apart = true →
      Ran w (.message n caller) none (.call m controllers now) w none (.answer a)
  | asked {n : Nat} {caller : Principal} {id : ReserveId} {controllers : List Principal}
      {now : Nat} {snap : MintSnapshot} :
      Ran w (.message n caller) none (.call (.previewRebalanceReserve id) controllers now) w
        (some (.preview id snap)) (.balanceCall snap.ledgerId snap.config.account)
  | previewed {t : TaskId} {id : ReserveId} {snap : MintSnapshot} {reply : Reply Nat} {now : Nat} :
      Ran w t (some (.preview id snap)) (.balanceReply reply now) w none
        (.answer (.previewed (previewEnd id snap reply now)))
  | previews {t : TaskId} {task task' : Option Task} {e : TaskEvent} {w' : World} {r : Reaction}
      {results : List (Except MinterError PreviewRebalanceResponse)} {ids : List ReserveId} :
      Previews w t task e results ids → previewOn w results ids = (w', task', r) →
      Ran w t task e w' task' r
  | skipped {task : Task} : Ran w .timer (some task) .tick w (some task) .skipped
  | ran {t : TaskId} {task : Option Task} {e : TaskEvent} {ev : Event} {w' : World} {o : Output} :
      Runs t task e ev → w.step ev = some (w', o) →
      Ran w t task e w' (o.op?.map .single) o.reaction
  | sweeping {t : TaskId} {results : List (Except MinterError RebalanceResponse)} {n m : OpId}
      {rest : List ReserveId} {e : TaskEvent} {ev : Event} {w' : World} {ledgerId : Principal}
      {arg : TransferArg} : e.reply? n = some ev →
      w.step ev = some (w', .transferCall m ledgerId arg) →
      Ran w t (some (.sweep results n rest)) e w' (some (.sweep results m rest))
        (.transferCall ledgerId arg)
  | swept {t : TaskId} {task task' : Option Task} {e : TaskEvent} {w₁ w' : World} {r : Reaction}
      {results : List (Except MinterError RebalanceResponse)} {ids : List ReserveId} :
      Sweeps w t task e w₁ results ids → sweepOn w₁ results ids = (w', task', r) →
      Ran w t task e w' task' r
  | lost {t : TaskId} {task : Task} : task.op? = none → Ran w t (some task) .lose w none .lost
  | dropped {t : TaskId} {task : Task} {n : OpId} {w' : World} {o : Output} :
      task.op? = some n → w.step (.lose n) = some (w', o) → Ran w t (some task) .lose w' none .lost

theorem handle_ran {w w' : World} {n : Nat} {caller : Principal} {m : Message}
    {controllers : List Principal} {now : Nat} {task' : Option Task} {r : Reaction}
    (hguard : m.guard controllers caller = .ok ()) (h : handle w now m = some (w', task', r)) :
    Ran w (.message n caller) none (.call m controllers now) w' task' r := by
  have hcall : ∀ {ev}, caller ∈ controllers → m.event? now = some ev →
      (w.step ev).map settle = some (w', task', r) →
      Ran w (.message n caller) none (.call m controllers now) w' task' r := by
    intro ev hcaller hev h
    obtain ⟨⟨v, o⟩, hs, hset⟩ := Option.map_eq_some_iff.mp h
    rw [settle_eq] at hset
    cases hset
    exact .ran (.called hcaller hev) hs
  cases m with
  | addReserve | updateReserve | removeReserve | setGlobalPolicy | releaseStuckMintState |
    rebalanceReserve | manualTopupReserve => exact hcall (callerIsController_ok.mp hguard) rfl h
  | rebalanceAllReserves =>
    exact .swept (.called (callerIsController_ok.mp hguard)) (Option.some.inj h)
  | previewRebalanceReserve id =>
    simp only [handle] at h
    split at h <;> cases h
    · exact .replied rfl
    · exact .asked
  | previewRebalanceAllReserves => exact .previews .called (Option.some.inj h)
  | listReserves | getReserve | getGlobalPolicy | getLedgerId =>
    cases h
    exact .replied rfl

/-- The loop of `rebalance_all` awaits rebalances. -/
def SweepsOnly (w : World) (task : Option Task) : Prop :=
  ∀ results n rest, task = some (.sweep results n rest) → ∀ k, w.ops n ≠ some (.awaitTopup k)

theorem segment_ran {w w' : World} {t : TaskId} {task task' : Option Task} {e : TaskEvent}
    {r : Reaction} (hsweeps : SweepsOnly w task) (h : segment w t task e = some (w', task', r)) :
    Ran w t task e w' task' r := by
  have hran : ∀ {ev}, Runs t task e ev → (w.step ev).map settle = some (w', task', r) →
      Ran w t task e w' task' r := by
    intro ev hruns h
    obtain ⟨⟨v, o⟩, hs, hset⟩ := Option.map_eq_some_iff.mp h
    rw [settle_eq] at hset
    cases hset
    exact .ran hruns hs
  have hsweep : ∀ {results n rest ev}, task = some (.sweep results n rest) → e.reply? n = some ev →
      (w.step ev).map (settleSweep results rest) = some (w', task', r) →
      Ran w t task e w' task' r := by
    rintro results n rest ev rfl he h
    obtain ⟨⟨v, o⟩, hs, hset⟩ := Option.map_eq_some_iff.mp h
    obtain ⟨op, hop, hres⟩ := step_resumed he hs
    cases hres with
    | toppedUp => exact (hsweeps results n rest rfl _ hop).elim
    | rebalanced => exact .swept (.resumed he hs) hset
    | issued =>
      cases hset
      exact .sweeping he hs
  unfold segment at h
  split at h
  · next m controllers now =>
    split at h
    · cases h
      exact .replied rfl
    · next hguard => exact handle_ran hguard h
  · exact .swept .ticked (Option.some.inj h)
  · cases h
    exact .skipped
  · exact hran (.resumed rfl) h
  · exact hran (.resumed rfl) h
  · exact hsweep rfl rfl h
  · exact hsweep rfl rfl h
  · cases h
    exact .previewed
  · exact .previews .resumed (Option.some.inj h)
  · split at h
    · next n hop =>
      obtain ⟨⟨v, o⟩, hs, hset⟩ := Option.map_eq_some_iff.mp h
      cases hset
      exact .dropped hop hs
    · next hop =>
      cases h
      exact .lost hop
  · cases h

end ViciMinter
