import ViciMinter.Calls
import ViciMinter.Idempotency
import ViciMinter.Lib.Escrow
import ViciMinter.Sweeps

/-!
# Every mint is reported once

A mint that commits is reported to whoever called for it: at once by a call for one
reserve, at its end by a sweep over all of them. Sweeps hold what they have to report
while they wait, and lose it with their task. So the mints that have been committed are
those reported and those held, each once (`mints_reported_once`); answers given without
a reply repeat reports of the past.
-/

namespace ViciMinter

open Lts Await Escrow

/-! ## Receipts -/

/-- What is reported of a mint. -/
structure Receipt where
  reserveId : ReserveId
  amount : Nat
  blockIndex : Nat
  deriving DecidableEq, Repr

def Commit.receipt (c : Commit) : Receipt := ⟨c.reserveId, c.event.amount, c.blockIndex⟩

def rebalanceReceipts : Except MinterError RebalanceResponse → List Receipt
  | .ok { ledgerBlockIndex := some block, mintedAmount, reserveId, .. } =>
    [⟨reserveId, mintedAmount, block⟩]
  | _ => []

def topupReceipts : Except MinterError ManualTopupResponse → List Receipt
  | .ok r => [⟨r.reserveId, r.mintedAmount, r.ledgerBlockIndex⟩]
  | .error _ => []

def Output.receipts : Output → List Receipt
  | .rebalanced r => rebalanceReceipts r
  | .toppedUp r => topupReceipts r
  | _ => []

def Answer.receipts : Answer → List Receipt
  | .minter o => o.receipts
  | .rebalancedAll results => results.flatMap rebalanceReceipts
  | _ => []

def Reaction.receipts : Reaction → List Receipt
  | .answer a => a.receipts
  | _ => []

/-- What a task has still to report. -/
def taskReceipts : Option Task → List Receipt
  | some (.sweep results _ _) => results.flatMap rebalanceReceipts
  | _ => []

/-! ## What a segment commits and reports -/

section
variable {w w' : World} {t : TaskId} {task task' : Option Task} {e : TaskEvent} {r : Reaction}
  {n : OpId} {ev : Event} {o : Output}

theorem rebalanceDecision_receipts {id : ReserveId} {snap : MintSnapshot} {reply : Reply Nat}
    {now : Nat} {r : Except MinterError RebalanceResponse}
    (h : rebalanceDecision id snap reply now = .inl r) : rebalanceReceipts r = [] := by
  unfold rebalanceDecision at h
  repeat' split at h
  all_goals cases h <;> rfl

theorem rebalanceCommits_receipts (n : OpId) (k : RebalanceMint)
    (r : Except MinterError RebalanceResponse) :
    (World.rebalanceCommits n k r).map Commit.receipt = rebalanceReceipts r := by
  cases r with
  | error err => rfl
  | ok response =>
    obtain ⟨id, action, balance, amount, block⟩ := response
    cases block <;> rfl

theorem topupCommits_receipts (n : OpId) (k : TopupMint)
    (r : Except MinterError ManualTopupResponse) :
    (World.topupCommits n k r).map Commit.receipt = topupReceipts r := by
  cases r <;> rfl

/-- A reply commits what its segment reports. -/
theorem World.reply_commits (he : e.reply? n = some ev) (h : w.step ev = some (w', o)) :
    w'.commits.map Commit.receipt = w.commits.map Commit.receipt ++ o.receipts := by
  cases e with
  | balanceReply reply now =>
    cases he
    simp only [step, advance, tick_ops, tick_state] at h
    split at h
    · next id snap hop =>
      rw [rebalanceIssue_eq] at h
      cases hd : rebalanceDecision id snap reply now with
      | inl r =>
        rw [hd] at h
        cases h
        simp [Output.receipts, rebalanceDecision_receipts hd]
      | inr k =>
        rw [hd] at h
        cases h
        simp [Output.receipts]
    · cases h
  | transferReply reply =>
    cases he
    simp only [step, advance, tick_ops, tick_state] at h
    split at h
    · next k hop =>
      cases h
      simp [Output.receipts, rebalanceCommits_receipts]
    · next k hop =>
      cases h
      simp [Output.receipts, topupCommits_receipts]
    · cases h
  | call | tick | lose => cases he

/-- Other segments commit nothing. -/
theorem World.other_commits (hno : ∀ n reply, ev ≠ .transferReply n reply)
    (h : w.step ev = some (w', o)) : w'.commits = w.commits := by
  cases step_did h with
  | committed => exact (hno _ _ rfl).elim
  | dropped | missed | lost => exact List.append_nil _
  | _ => rfl

theorem refused_receipts {rest rest' : List ReserveId}
    {more : List (Except MinterError RebalanceResponse)} (h : Passed Refused rest more rest') :
    more.flatMap rebalanceReceipts = [] := by
  obtain ⟨past, -, hall⟩ := h
  induction hall with
  | nil => rfl
  | cons hr _ ih =>
    rw [List.flatMap_cons, ih]
    cases hr <;> rfl

/-- A sweep that goes on commits nothing, and has to report what it had. -/
theorem sweepOn_receipts {results : List (Except MinterError RebalanceResponse)}
    {ids : List ReserveId} (h : sweepOn w results ids = (w', task', r)) :
    w'.commits = w.commits ∧ r ≠ .lost ∧
    results.flatMap rebalanceReceipts = taskReceipts task' ++ r.receipts := by
  rcases sweepOn_cases w results ids with ⟨more, hon, hmore⟩ |
    ⟨v, more, id, snap, rest', hon, -, hs, hmore⟩ <;> cases hon.symm.trans h
  · refine ⟨rfl, nofun, ?_⟩
    simp [taskReceipts, Reaction.receipts, Answer.receipts, refused_receipts hmore]
  · refine ⟨World.other_commits (by simp) hs, nofun, ?_⟩
    simp [taskReceipts, Reaction.receipts, refused_receipts hmore]

theorem previewOn_receipts {results : List (Except MinterError PreviewRebalanceResponse)}
    {ids : List ReserveId} (h : previewOn w results ids = (w', task', r)) :
    w'.commits = w.commits ∧ r ≠ .lost ∧ taskReceipts task' = [] ∧ r.receipts = [] := by
  rcases previewOn_cases w results ids with ⟨more, hon, -⟩ | ⟨more, id, snap, rest', hon, -⟩ <;>
    cases hon.symm.trans h <;> exact ⟨rfl, nofun, rfl, rfl⟩

theorem reaction_receipts (o : Output) : o.reaction.receipts = o.receipts := by
  cases o <;> rfl

theorem reaction_ne_lost (o : Output) : o.reaction ≠ .lost := by cases o <;> nofun

theorem single_receipts (o : Option OpId) : taskReceipts (o.map .single) = [] := by
  cases o <;> rfl

/-- What a reaction reports for the first time. -/
def Reaction.reports (e : TaskEvent) (r : Reaction) : List Receipt :=
  if e.isReply then r.receipts else []

theorem Ran.lost_of_lose (h : Ran w t task .lose w' task' r) : r = .lost := by
  cases h with
  | lost | dropped => rfl
  | previews hp => cases hp
  | ran hruns =>
    cases hruns with
    | resumed he => cases he
  | sweeping he => cases he
  | swept hsw =>
    cases hsw with
    | resumed he => cases he

/-- What a task had to report and what it commits is reported, or still to be reported. -/
theorem Ran.receipts (h : Ran w t task e w' task' r) : ∃ more,
    w'.commits.map Commit.receipt = w.commits.map Commit.receipt ++ more ∧
    (r ≠ .lost → taskReceipts task ++ more = taskReceipts task' ++ r.reports e) ∧
    (r = .lost → more = [] ∧ task' = none ∧ e = .lose) := by
  cases h with
  | replied | asked => exact ⟨[], by simp, fun _ => rfl, nofun⟩
  | previewed => exact ⟨[], by simp, fun _ => rfl, nofun⟩
  | skipped => exact ⟨[], by simp, fun _ => rfl, nofun⟩
  | lost => exact ⟨[], by simp, fun h => (h rfl).elim, fun _ => ⟨rfl, rfl, rfl⟩⟩
  | dropped hop hs =>
    have hc := World.other_commits (by simp) hs
    exact ⟨[], by simp [hc], fun h => (h rfl).elim, fun _ => ⟨rfl, rfl, rfl⟩⟩
  | previews hp hon =>
    obtain ⟨hc, hlost, htask, hr⟩ := previewOn_receipts hon
    refine ⟨[], by simp [hc], fun _ => ?_, fun h => (hlost h).elim⟩
    rw [htask, Reaction.reports, hr, ite_self]
    cases hp <;> rfl
  | @ran _ _ _ _ _ o hruns hs =>
    cases hruns with
    | called _ hev =>
      have hres := Message.event?_resumes hev
      have hc := World.other_commits (fun n reply heq => by rw [heq] at hres; cases hres) hs
      refine ⟨[], by simp [hc], fun _ => ?_, fun h => (reaction_ne_lost o h).elim⟩
      rw [single_receipts]
      rfl
    | resumed he =>
      refine ⟨o.receipts, World.reply_commits he hs, fun _ => ?_,
        fun h => (reaction_ne_lost o h).elim⟩
      rw [single_receipts, Reaction.reports, if_pos (TaskEvent.isReply_of_reply he),
        reaction_receipts]
      rfl
  | @sweeping _ results n _ rest _ _ _ _ _ he hs =>
    refine ⟨[], World.reply_commits he hs, fun _ => ?_, nofun⟩
    rw [Reaction.reports, if_pos (TaskEvent.isReply_of_reply he)]
    rfl
  | swept hsw hon =>
    obtain ⟨hc, hlost, hreports⟩ := sweepOn_receipts hon
    cases hsw with
    | called | ticked =>
      have htask := (List.append_eq_nil_iff.mp hreports.symm).1
      refine ⟨[], by simp [hc], fun _ => ?_, fun h => (hlost h).elim⟩
      rw [htask]
      rfl
    | @resumed _ results _ _ _ _ _ r₀ he hs =>
      refine ⟨rebalanceReceipts r₀, ?_, fun _ => ?_, fun h => (hlost h).elim⟩
      · rw [hc]
        exact World.reply_commits he hs
      · rw [Reaction.reports, if_pos (TaskEvent.isReply_of_reply he), ← hreports]
        simp [taskReceipts]

end

/-! ## Replays -/

/-- The entries of completed keys are those of mints that were committed. -/
def World.Backed (w : World) : Prop :=
  ∀ (k : String) entry, w.state.idempotency[k]? = some (IdempotencyRecord.completed entry) →
    ∃ c ∈ w.commits, c.key = some k ∧ c.entry = entry

theorem World.Backed.did {w w' : World} {e : Event} {o : Output} (h : w.Backed)
    (hd : World.Did w e o w') : w'.Backed := by
  have hdrop : ∀ (id : ReserveId) (key : Option String) (k : String) entry,
      (dropPending w.state.idempotency id key)[k]? = some (IdempotencyRecord.completed entry) →
      ∃ c ∈ w.commits, c.key = some k ∧ c.entry = entry := by
    intro id key k entry hk
    rw [dropPending_getElem?] at hk
    split at hk
    · cases hk
    · exact h k entry hk
  have hnil : w.commits ++ [] = w.commits := List.append_nil _
  intro k entry hk
  cases hd with
  | quiet | added | updated | removed | policySet | issued => exact h k entry hk
  | released => exact hdrop _ _ k entry hk
  | begunRebalance => exact h k entry hk
  | begunTopup =>
    rw [suspend_state, begin_getElem?] at hk
    split at hk
    · cases hk
    · exact h k entry hk
  | dropped | missed =>
    rw [finish_commits, hnil]
    exact hdrop _ _ k entry hk
  | @committed n op m record block _ _ hop hm =>
    rw [finish_state, commit_getElem?] at hk
    rw [finish_commits]
    split at hk
    · next hkey =>
      cases hk
      exact ⟨_, List.mem_append_right _ (List.mem_singleton_self _), hkey, rfl⟩
    · obtain ⟨c, hc, hck⟩ := h k entry hk
      exact ⟨c, List.mem_append_left _ hc, hck⟩
  | lost =>
    rw [finish_commits, hnil]
    exact h k entry hk

theorem World.Backed.step {w w' : World} {e : Event} (h : w.Backed) (hs : World.Step w e w') :
    w'.Backed :=
  let ⟨_, hs⟩ := hs
  World.Backed.did (w := w.tick e) h (step_did hs)

/-- A top-up that mints nothing and still succeeds is a replay. -/
theorem topupDecision_ok {s : State} {arg : ManualTopupArg} {now : Nat} {r : ManualTopupResponse}
    (h : topupDecision s arg now = .inl (.ok r)) : ∃ (k : String) (entry : IdempotencyEntry),
      s.idempotency[k]? = some (.completed entry) ∧ r = entry.response := by
  have hstart : startDecision s arg now ≠ .inl (.ok r) := by
    unfold startDecision
    repeat' split
    all_goals simp
  unfold topupDecision at h
  split at h
  · exact (hstart h).elim
  · next k _ =>
    split at h
    · next entry hk =>
      cases h
      exact ⟨k, entry, hk, rfl⟩
    · cases h
    · exact (hstart h).elim

/-- What a call reports without an await, it repeats. -/
theorem World.call_receipts {w w' : World} {ev : Event} {o : Output} (hb : w.Backed)
    (hev : ev.resumes = none) (h : w.step ev = some (w', o)) :
    ∀ x ∈ o.receipts, x ∈ w.commits.map Commit.receipt := by
  intro x hx
  cases ev with
  | addReserve | updateReserve | removeReserve | setGlobalPolicy | releaseStuckMintState =>
    cases h
    cases hx
  | rebalance id =>
    simp only [step, advance] at h
    split at h <;> cases h <;> cases hx
  | manualTopup arg now =>
    simp only [step, advance, manualTopupIssue_eq, tick_state] at h
    cases hd : topupDecision w.state arg now with
    | inl r =>
      rw [hd] at h
      cases h
      cases r with
      | error e => cases hx
      | ok r =>
        obtain ⟨k, entry, hk, rfl⟩ := topupDecision_ok hd
        obtain ⟨c, hc, -, rfl⟩ := hb k entry hk
        cases List.mem_singleton.mp hx
        exact List.mem_map.mpr ⟨c, hc, rfl⟩
    | inr record =>
      rw [hd] at h
      cases h
      cases hx
  | balanceReply | transferReply | lose => cases hev

theorem Ran.repeats {w w' : World} {t : TaskId} {task task' : Option Task} {e : TaskEvent}
    {r : Reaction} (hb : w.Backed) (he : e.isReply = false) (h : Ran w t task e w' task' r) :
    ∀ x ∈ r.receipts, x ∈ w.commits.map Commit.receipt := by
  intro x hx
  cases h with
  | @replied _ _ _ _ _ a ha =>
    have hnone : a.receipts = [] := by cases a <;> first | rfl | cases ha
    rw [Reaction.receipts, hnone] at hx
    cases hx
  | asked | skipped | lost | dropped => cases hx
  | previewed => cases hx
  | previews _ hon =>
    obtain ⟨-, -, -, hnone⟩ := previewOn_receipts hon
    rw [hnone] at hx
    cases hx
  | @ran _ _ _ _ _ o hruns hs =>
    cases hruns with
    | called _ hev =>
      rw [reaction_receipts] at hx
      exact World.call_receipts hb (Message.event?_resumes hev) hs x hx
    | resumed hreply => cases (TaskEvent.isReply_of_reply hreply).symm.trans he
  | sweeping hreply => cases (TaskEvent.isReply_of_reply hreply).symm.trans he
  | swept hsw hon =>
    obtain ⟨-, -, hreports⟩ := sweepOn_receipts hon
    cases hsw with
    | called | ticked =>
      rw [(List.append_eq_nil_iff.mp hreports.symm).2] at hx
      cases hx
    | resumed hreply => cases (TaskEvent.isReply_of_reply hreply).symm.trans he

/-! ## The balance of the service -/

namespace Service

variable {candid : Candid} {ok : Service → ServiceEvent → Prop} {s s' : Service} {t : TaskId}
  {tr : List ServiceEvent} {ledgerId : Principal} {m : StableMemory}

/-- What task `t` has still to report. -/
def toReport (s : Service) (t : TaskId) : List Receipt := taskReceipts (s.tasks t)

/-- What a step reports for the first time. -/
def reports : ServiceEvent × Reaction → List Receipt
  | (.task _ e, r) => r.reports e
  | (.upgrade _ _, _) => []

/-- What the answers of a run have reported, apart from repetitions. -/
def reported (candid : Candid) (s : Service) (tr : List ServiceEvent) : List Receipt :=
  (outputs (step candid) s tr).flatMap reports

/-- What a step loses: what a lost task has still to report, and at an upgrade what all
tasks have. -/
def Loses (s : Service) : ServiceEvent → List Receipt → Prop
  | .task t .lose, gone => gone = s.toReport t
  | .task _ _, gone => gone = []
  | .upgrade _ _, gone => ∃ ts, Holding s.toReport ts ∧ gone = ts.flatMap s.toReport

/-- What the steps of a run lose. -/
abbrev Lost (candid : Candid) : Service → List ServiceEvent → List Receipt → Prop :=
  Collects (step candid) Loses

/-- No report is lost. -/
def Careful (s : Service) : ServiceEvent → Prop
  | .task t e => e = .lose → s.toReport t = []
  | .upgrade _ _ => ∀ t, s.toReport t = []

theorem Careful.loses {e : ServiceEvent} {gone : List Receipt} (h : Careful s e)
    (hgone : Loses s e gone) : gone = [] := by
  cases e with
  | task t ev =>
    cases ev with
    | lose => exact hgone.trans (h rfl)
    | _ => exact hgone
  | upgrade limit arg =>
    obtain ⟨ts, -, rfl⟩ := hgone
    exact List.flatMap_eq_nil_iff.mpr fun t _ => h t

/-- The mints of a run are reported, held or lost, each once. -/
structure Reported (candid : Candid) (s₀ : Service) (tr : List ServiceEvent) (s : Service)
    (lost : List Receipt) : Prop where
  balanced : Balanced (s.world.commits.map Commit.receipt) (reported candid s₀ tr ++ lost)
    s.toReport
  lost : Lost candid s₀ tr lost

theorem outputs_last {r : Reaction} {s₀ : Service} {e : ServiceEvent}
    (hrun : Run (Step candid) ok s₀ tr s) (hs : s.step candid e = some (s', r)) :
    outputs (step candid) s₀ (tr ++ [e]) = outputs (step candid) s₀ tr ++ [(e, r)] := by
  rw [outputs_append hrun]
  simp [outputs, hs]

theorem Reported.step {s₀ : Service} {e : ServiceEvent} {r : Reaction} {lost : List Receipt}
    (htied : Tied s) (hrun : Run (Step candid) ok s₀ tr s)
    (h : Reported candid s₀ tr s lost) (hs : s.step candid e = some (s', r)) :
    ∃ lost', Reported candid s₀ (tr ++ [e]) s' lost' := by
  have hrep : reported candid s₀ (tr ++ [e]) = reported candid s₀ tr ++ reports (e, r) := by
    rw [reported, outputs_last hrun hs, List.flatMap_append, List.flatMap_singleton]
    rfl
  have hlost : ∀ {gone}, Loses s e gone → Lost candid s₀ (tr ++ [e]) (lost ++ gone) := by
    intro gone hgone
    have hlast := Collects.cons hs hgone (.nil s')
    rw [List.append_nil] at hlast
    exact h.lost.append hrun hlast
  rcases step_cases hs with ⟨t, ev, w, task, rfl, hseg, rfl⟩ | ⟨limit, arg, c, rfl, hup, rfl, -⟩
  · have hran := htied.ran hseg
    obtain ⟨more, hc, hkeep, hlose⟩ := hran.receipts
    have hput : (s.put t w task).toReport = Function.update s.toReport t (taskReceipts task) :=
      put_each taskReceipts t w task
    have hworld : (s.put t w task).world.commits.map Commit.receipt =
        s.world.commits.map Commit.receipt ++ more := hc
    by_cases hev : ev = .lose
    · -- the task is gone, with what it held
      subst hev
      obtain rfl := hran.lost_of_lose
      obtain ⟨rfl, rfl, -⟩ := hlose rfl
      have hnew : s.toReport t ++ [] = [] ++ s.toReport t := List.append_nil _
      refine ⟨lost ++ s.toReport t, ?_, hlost rfl⟩
      rw [hrep, hput, hworld]
      refine (h.balanced.pass hnew).given_perm ?_
      have hnone : reports (.task t .lose, .lost) = [] := rfl
      rw [hnone, List.append_nil, List.append_assoc]
    · have hgone : Loses s (.task t ev) [] := by
        cases ev with
        | lose => exact (hev rfl).elim
        | _ => rfl
      refine ⟨lost ++ [], ?_, hlost hgone⟩
      rw [List.append_nil, hrep, hput, hworld]
      refine (h.balanced.pass (hkeep fun hr => hev (hlose hr).2.2)).given_perm ?_
      rw [List.append_assoc, List.append_assoc]
      exact List.perm_append_comm.append_left _
  · obtain ⟨mem, s', -, -, rfl⟩ := Canister.step_upgrade hup
    obtain ⟨ts, hts, hdrop⟩ := h.balanced.drop
    refine ⟨lost ++ ts.flatMap s.toReport, ?_, hlost ⟨ts, hts, rfl⟩⟩
    rw [hrep, reports, List.append_nil, ← List.append_assoc]
    exact hdrop

theorem reported_run (h : Run (Step candid) ok (init ledgerId m) tr s) :
    ∃ lost, Reported candid (init ledgerId m) tr s lost := by
  have hinit : Reported candid (init ledgerId m) [] (init ledgerId m) [] :=
    ⟨balanced_nil, .nil _⟩
  refine h.history (P := fun tr s => ∃ lost, Reported candid (init ledgerId m) tr s lost)
    ⟨[], hinit⟩ ?_
  rintro tr u e v hrun ⟨lost, hu⟩ - ⟨r, hs⟩
  exact hu.step (tied_run hrun) hrun hs

/-- What a step keeps of the mints: they stay, and completed keys stand for them. -/
theorem mints_step (hinv : candid.Inverse) (htied : Tied s) {e : ServiceEvent}
    (hs : Step candid s e s') : s.world.commits <+: s'.world.commits ∧
      (s.world.Backed → s'.world.Backed) := by
  obtain ⟨r, hs⟩ := hs
  rcases step_cases hs with ⟨t, ev, w, task, rfl, hseg, rfl⟩ | ⟨limit, arg, c, rfl, hup, rfl, -⟩
  · obtain ⟨tr, hr⟩ : ∃ tr, Run World.Step anyEvent s.world tr w :=
      (htied.ran hseg).run (fun _ _ => trivial) fun _ _ => trivial
    exact ⟨World.commits_run hr, hr.invariant fun _ _ _ _ hb hs => hb.step hs⟩
  · obtain ⟨mem, s', hpre, hpost, rfl⟩ := Canister.step_upgrade hup
    refine ⟨List.prefix_refl _, fun hb => ?_⟩
    rcases postUpgrade_cases hinv hpre hpost with ⟨-, rfl⟩ | ⟨_, -, rfl⟩
    · exact hb
    · intro k entry hk
      simp [world, State.default] at hk

theorem mints_run (hinv : candid.Inverse) {u : Service} (htied : Tied u) (hb : u.world.Backed)
    (h : Run (Step candid) ok u tr s) :
    Tied s ∧ s.world.Backed ∧ u.world.commits <+: s.world.commits := by
  refine h.invariant (I := fun s => Tied s ∧ s.world.Backed ∧ u.world.commits <+: s.world.commits)
    ?_ ⟨htied, hb, List.prefix_refl _⟩
  rintro s e s' - ⟨htied, hb, hpre⟩ hs
  obtain ⟨hstay, hkeep⟩ := mints_step hinv htied hs
  exact ⟨htied.step hs, hkeep hb, hpre.trans hstay⟩

theorem backed_init (ledgerId : Principal) (m : StableMemory) :
    (init ledgerId m).world.Backed := by
  intro k entry hk
  simp [init, world, Canister.init, World.init, State.default] at hk

/-- Every mint is reported, held by a sweep that waits, or lost with one, and each once.
An answer without an await only repeats what was committed. -/
theorem mints_reported_once (hinv : candid.Inverse)
    (h : Run (Step candid) ok (init ledgerId m) tr s) :
    (∃ ts lost, Holding s.toReport ts ∧ Lost candid (init ledgerId m) tr lost ∧
      (s.world.commits.map Commit.receipt).Perm
        (reported candid (init ledgerId m) tr ++ lost ++ ts.flatMap s.toReport) ∧
      (Run (Step candid) Careful (init ledgerId m) tr s → lost = [])) ∧
    ∀ t e r, (.task t e, r) ∈ outputs (step candid) (init ledgerId m) tr → e.isReply = false →
      r.receipts ⊆ s.world.commits.map Commit.receipt := by
  refine ⟨?_, fun t e r hr he x hx => ?_⟩
  · obtain ⟨lost, hrep⟩ := reported_run h
    obtain ⟨ts, hts, hp⟩ := hrep.balanced
    exact ⟨ts, lost, hts, hrep.lost, hp, hrep.lost.eq_nil fun _ _ _ => Careful.loses⟩
  · obtain ⟨tr₁, tr₂, u, v, -, hrun, hok, hs, hrest⟩ := h.at_output hr
    obtain ⟨htied, hb, -⟩ := mints_run hinv (tied_init ledgerId m) (backed_init ledgerId m) hrun
    have hstay := (mints_run hinv htied hb (.cons hok ⟨_, hs⟩ hrest)).2.2
    obtain ⟨⟨w, task, r'⟩, hseg, heq⟩ := Option.map_eq_some_iff.mp hs
    cases heq
    exact (hstay.map _).subset ((htied.ran hseg).repeats hb he x hx)

/-- A cycle of the timer has minted for reserve 0 and waits for reserve 1 when the
controller tops up reserve 0, twice with one key. Then the cycle is lost. -/
def halfway : List ServiceEvent :=
  [call 0 (.addReserve Sample.reserve) 1,
   call 1 (.addReserve { Sample.reserve with account := ⟨⟨[3]⟩, none⟩ }) 1,
   .task .timer .tick, .task .timer (.balanceReply (.answered 40) 2),
   .task .timer (.transferReply (.answered (.ok 5))),
   call 2 (.manualTopupReserve ⟨0, 7, some "k"⟩) 3,
   .task (ours 2) (.transferReply (.answered (.ok 6))),
   call 3 (.manualTopupReserve ⟨0, 7, some "k"⟩) 4,
   .task .timer .lose]

theorem mints_reported_once_sample : ∃ s : Service,
    Run (Step (Sample.candid [])) anyEvent fresh halfway s ∧
    s.toReport .timer = [] ∧
    reported (Sample.candid []) fresh halfway = [⟨0, 7, 6⟩] ∧
    s.world.commits.map Commit.receipt = [⟨0, 60, 5⟩, ⟨0, 7, 6⟩] ∧
    ∃ ts lost, Holding s.toReport ts ∧ Lost (Sample.candid []) fresh halfway lost ∧
      (s.world.commits.map Commit.receipt).Perm
        (reported (Sample.candid []) fresh halfway ++ lost ++ ts.flatMap s.toReport) := by
  have hrun : Run (Step (Sample.candid [])) anyEvent fresh halfway _ := run_last_any (by decide)
  obtain ⟨⟨ts, lost, hts, hlost, hp, -⟩, -⟩ :=
    mints_reported_once (Sample.candid_inverse _) hrun
  exact ⟨_, hrun, by decide, by decide, by decide, ts, lost, hts, hlost, hp⟩

end Service

end ViciMinter
