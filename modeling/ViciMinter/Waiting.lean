import ViciMinter.Lib.Holders
import ViciMinter.Lock
import ViciMinter.Tasks

/-!
# Who waits for what

Every live operation of the minter has exactly one task that waits for it, and tasks wait
for live operations only (`waiting_run`). So a reserve is locked if and only if exactly
one task works on it, as long as no task is lost and no reserve is released under a
task's feet (`locked_iff_one_task`).
-/

namespace ViciMinter

open Lts Holders

/-! ## Operations and tasks -/

/-- The operation that a task waits for, if there is a task. -/
def opOf (task : Option Task) : Option OpId := task.bind Task.op?

@[simp] theorem opOf_none : opOf none = none := rfl
@[simp] theorem opOf_some (task : Task) : opOf (some task) = task.op? := rfl
@[simp] theorem opOf_single (o : Option OpId) : opOf (o.map .single) = o := by cases o <;> rfl

section
variable {w w' : World} {t : TaskId} {task task' : Option Task} {e : TaskEvent} {r : Reaction}

theorem World.step_moves {ev : Event} {o : Output} (hfresh : w.Fresh)
    (h : w.step ev = some (w', o)) : Moves w.ops w'.ops ev.resumes o.op? := by
  have hnext : w.ops w.nextOp = none := hfresh _ (Nat.le_refl _)
  have hbegun : ∀ s op, Moves w.ops ((w.tick ev).suspend s op).ops none (some w.nextOp) := by
    intro s op
    refine ⟨fun m _ hm => ?_, nofun, fun m hm => ?_, fun m hm => .inr ?_⟩
    · have hne : m ≠ w.nextOp := fun heq => hm (heq ▸ rfl)
      simp [Function.update_of_ne hne]
    · cases hm
      simp
    · cases hm
      exact hnext
  have hended : ∀ n s l, Moves w.ops ((w.tick ev).finish s n l).ops (some n) none := by
    intro n s l
    refine ⟨fun m hm _ => ?_, fun m hm _ => ?_, nofun, nofun⟩
    · have hne : m ≠ n := fun heq => hm (heq ▸ rfl)
      simp [Function.update_of_ne hne]
    · cases hm
      simp
  have hd := step_did h
  have hquiet : o.calls = false → o.op? = none := by cases o <;> first | exact fun _ => rfl | nofun
  cases hd with
  | quiet he ho =>
    rw [he, hquiet ho.calls]
    exact moves_keep nofun
  | added | updated | removed | policySet | released => exact moves_keep nofun
  | begunRebalance | begunTopup => exact hbegun _ _
  | @issued n id snap _ _ k hop hk =>
    refine ⟨fun m hm _ => ?_, fun m hm hne => (hne hm).elim, fun m hm => ?_, fun m hm => .inl hm⟩
    · have hne : m ≠ n := fun heq => hm (heq ▸ rfl)
      simp [Function.update_of_ne hne]
    · cases hm
      simp
  | dropped hop he ho =>
    rw [hquiet ho.calls]
    rcases he with ⟨_, _, _, _, _, rfl, _⟩ | ⟨_, _, _, rfl, _⟩ <;> exact hended _ _ _
  | committed hop _ _ _ ho =>
    rw [hquiet ho.calls]
    exact hended _ _ _
  | missed hop _ _ _ ho =>
    rw [hquiet ho.calls]
    exact hended _ _ _
  | lost hop => exact hended _ _ _

theorem Runs.resumes {ev : Event} (h : Runs t task e ev) : ev.resumes = opOf task := by
  cases h with
  | called _ hev => exact Message.event?_resumes hev
  | resumed he => exact TaskEvent.reply?_resumes he

theorem sweepOn_moves {results : List (Except MinterError RebalanceResponse)}
    {ids : List ReserveId} (hfresh : w.Fresh)
    (h : sweepOn w results ids = (w', task', r)) : Moves w.ops w'.ops none (opOf task') := by
  rcases sweepOn_cases w results ids with ⟨more, hon, -⟩ | ⟨v, more, id, snap, rest', hon, -, hs, -⟩
  · cases hon.symm.trans h
    exact moves_keep nofun
  · cases hon.symm.trans h
    exact World.step_moves hfresh hs

/-- A segment changes, ends and begins only operations of its own task. -/
theorem Ran.moves (hfresh : w.Fresh) (hfull : ∀ m, opOf task = some m → w.ops m ≠ none)
    (h : Ran w t task e w' task' r) : Moves w.ops w'.ops (opOf task) (opOf task') := by
  cases h with
  | replied | asked | previewed => exact moves_keep nofun
  | skipped => exact moves_keep hfull
  | lost hop =>
    rw [opOf_some, hop]
    exact moves_keep nofun
  | @previews _ _ _ _ _ _ results ids hp hon =>
    have hnone : opOf task = none := by cases hp <;> rfl
    rw [hnone]
    rcases previewOn_cases w results ids with ⟨more, hon', -⟩ | ⟨more, id, snap, rest', hon', -⟩ <;>
      cases hon'.symm.trans hon <;> exact moves_keep nofun
  | ran hruns hs =>
    rw [opOf_single, ← hruns.resumes]
    exact World.step_moves hfresh hs
  | sweeping he hs =>
    rw [opOf_some, Task.op?, ← TaskEvent.reply?_resumes he]
    exact World.step_moves hfresh hs
  | swept hsw hon =>
    cases hsw with
    | called | ticked => exact sweepOn_moves hfresh hon
    | resumed he hs =>
      have hend := World.step_moves hfresh hs
      rw [TaskEvent.reply?_resumes he] at hend
      exact hend.andThen (sweepOn_moves (hfresh.step ⟨_, hs⟩) hon)
  | dropped hop hs =>
    cases (World.step_did hs) with
    | quiet he => cases he
    | dropped _ he => rcases he with ⟨_, _, _, _, _, he, _⟩ | ⟨_, _, _, he, _⟩ <;> cases he
    | lost hn =>
      rw [opOf_some, hop]
      exact World.step_moves hfresh hs

/-! ## Runs of the minter -/

/-- The segment of the minter that a task runs first. -/
def TaskEvent.minter? (t : TaskId) (task : Option Task) : TaskEvent → Option Event
  | .call m controllers now =>
    match t with
    | .message _ caller => if caller ∈ controllers then m.event? now else none
    | .timer => none
  | .tick => none
  | .balanceReply reply now => (opOf task).map fun n => .balanceReply n reply now
  | .transferReply reply => (opOf task).map fun n => .transferReply n reply
  | .lose => (opOf task).map .lose

theorem TaskEvent.minter?_reply {n : OpId} {ev : Event} (hop : opOf task = some n)
    (h : e.reply? n = some ev) : e.minter? t task = some ev := by
  cases e <;> cases h <;> simp [minter?, hop]

theorem Runs.minter {ev : Event} (h : Runs t task e ev) : e.minter? t task = some ev := by
  cases h with
  | called hc hev => simp [TaskEvent.minter?, hc, hev]
  | resumed he => exact TaskEvent.minter?_reply rfl he

theorem sweepOn_run {ok : World → Event → Prop} (hreb : ∀ w id, ok w (.rebalance id))
    {results : List (Except MinterError RebalanceResponse)} {ids : List ReserveId}
    (h : sweepOn w results ids = (w', task', r)) : ∃ tr, Run World.Step ok w tr w' := by
  rcases sweepOn_cases w results ids with ⟨more, hon, -⟩ | ⟨v, more, id, snap, rest', hon, -, hs, -⟩
  · cases hon.symm.trans h
    exact ⟨[], .nil w⟩
  · cases hon.symm.trans h
    exact ⟨[.rebalance id], .cons (hreb w id) ⟨_, hs⟩ (.nil _)⟩

/-- A segment of a task is a run of the minter. -/
theorem Ran.run {ok : World → Event → Prop} (hreb : ∀ w id, ok w (.rebalance id))
    (hok : ∀ ev, e.minter? t task = some ev → ok w ev) (h : Ran w t task e w' task' r) :
    ∃ tr, Run World.Step ok w tr w' := by
  cases h with
  | replied | asked | previewed | skipped | lost => exact ⟨[], .nil w⟩
  | @previews _ _ _ _ _ _ results ids _ hon =>
    rcases previewOn_cases w results ids with ⟨more, hon', -⟩ | ⟨more, id, snap, rest', hon', -⟩ <;>
      cases hon'.symm.trans hon <;> exact ⟨[], .nil w⟩
  | ran hruns hs => exact ⟨[_], .cons (hok _ hruns.minter) ⟨_, hs⟩ (.nil _)⟩
  | sweeping he hs =>
    exact ⟨[_], .cons (hok _ (TaskEvent.minter?_reply rfl he)) ⟨_, hs⟩ (.nil _)⟩
  | swept hsw hon =>
    cases hsw with
    | called | ticked => exact sweepOn_run hreb hon
    | resumed he hs =>
      obtain ⟨tr, hr⟩ := sweepOn_run hreb hon
      exact ⟨_ :: tr, .cons (hok _ (TaskEvent.minter?_reply rfl he)) ⟨_, hs⟩ hr⟩
  | @dropped _ task n _ _ hop hs =>
    have hev : TaskEvent.lose.minter? t (some task) = some (.lose n) := by
      simp [TaskEvent.minter?, hop]
    exact ⟨[.lose n], .cons (hok _ hev) ⟨_, hs⟩ (.nil _)⟩

/-- The loop awaits rebalances, before and after. -/
theorem Ran.sweepsOnly (hsweeps : SweepsOnly w task) (h : Ran w t task e w' task' r) :
    SweepsOnly w' task' := by
  intro results n rest htask k hk
  cases h with
  | replied | asked | previewed | lost | dropped => cases htask
  | skipped => exact hsweeps results n rest htask k hk
  | @previews _ _ _ _ _ _ results' ids _ hon =>
    rcases previewOn_cases w results' ids with ⟨more, hon', -⟩ |
      ⟨more, id, snap, rest', hon', -⟩ <;>
      cases hon'.symm.trans hon <;> cases htask
  | @ran _ _ _ _ _ o =>
    obtain ⟨m, -, hm⟩ := Option.map_eq_some_iff.mp htask
    cases hm
  | sweeping he hs =>
    cases htask
    obtain ⟨op, hop, hres⟩ := step_resumed he hs
    cases hres with
    | issued _ hops => simp [hops] at hk
  | @swept _ _ _ _ w₁ _ _ results' ids _ hon =>
    rcases sweepOn_cases w₁ results' ids with ⟨more, hon', -⟩ |
      ⟨v, more, id, snap, rest', hon', hops, -⟩ <;> cases hon'.symm.trans hon <;> cases htask
    simp [hops] at hk

end

/-! ## The tables of the service -/

namespace Service

variable {candid : Candid} {s s' : Service} {e : ServiceEvent}

structure Tied (s : Service) : Prop where
  fresh : s.world.Fresh
  matched : Matched s.world.ops fun t => opOf (s.tasks t)
  sweeps : ∀ t, SweepsOnly s.world (s.tasks t)

theorem tied_init (ledgerId : Principal) (m : StableMemory) : Tied (init ledgerId m) where
  fresh := World.fresh_init ledgerId
  matched := matched_none
  sweeps _ := nofun

/-- The two kinds of step. -/
theorem step_cases {r : Reaction} (h : s.step candid e = some (s', r)) :
    (∃ t ev w task, e = .task t ev ∧ segment s.world t (s.tasks t) ev = some (w, task, r) ∧
      s' = s.put t w task) ∨
    ∃ limit arg canister, e = .upgrade limit arg ∧
      Canister.Step candid s.canister (.upgrade limit arg) canister ∧
      s' = ⟨canister, fun _ => none⟩ ∧ r = .upgraded := by
  cases e with
  | task t ev =>
    obtain ⟨⟨w, task, r'⟩, hseg, heq⟩ := Option.map_eq_some_iff.mp h
    cases heq
    exact .inl ⟨t, ev, w, task, rfl, hseg, rfl⟩
  | upgrade limit arg =>
    obtain ⟨⟨canister, o⟩, hup, heq⟩ := Option.map_eq_some_iff.mp h
    cases heq
    exact .inr ⟨limit, arg, canister, rfl, ⟨o, hup⟩, rfl, rfl⟩

theorem put_each {α : Type} (f : Option Task → α) (t : TaskId) (w : World) (task : Option Task) :
    (fun t' => f ((s.put t w task).tasks t')) =
      Function.update (fun t' => f (s.tasks t')) t (f task) := by
  funext t'
  by_cases heq : t' = t
  · subst heq
    simp
  · simp [Function.update_of_ne heq]

theorem Tied.ran {t : TaskId} {ev : TaskEvent} {w : World} {task : Option Task} {r : Reaction}
    (h : Tied s) (hseg : segment s.world t (s.tasks t) ev = some (w, task, r)) :
    Ran s.world t (s.tasks t) ev w task r := segment_ran (h.sweeps t) hseg

theorem Tied.moves {t : TaskId} {ev : TaskEvent} {w : World} {task : Option Task} {r : Reaction}
    (h : Tied s) (hran : Ran s.world t (s.tasks t) ev w task r) :
    Moves s.world.ops w.ops (opOf (s.tasks t)) (opOf task) :=
  hran.moves h.fresh (h.matched.full t)

theorem Tied.put {t : TaskId} {ev : TaskEvent} {w : World} {task : Option Task} {r : Reaction}
    (h : Tied s) (hran : Ran s.world t (s.tasks t) ev w task r) : Tied (s.put t w task) where
  fresh := by
    obtain ⟨tr, hr⟩ : ∃ tr, Run World.Step anyEvent s.world tr w :=
      hran.run (fun _ _ => trivial) fun _ _ => trivial
    exact hr.invariant (fun _ _ _ _ hf hs => hf.step hs) h.fresh
  matched := by
    rw [put_each opOf]
    exact h.matched.move (h.moves hran)
  sweeps t' := by
    by_cases heq : t' = t
    · subst heq
      rw [put_tasks, Function.update_self]
      exact hran.sweepsOnly (h.sweeps t')
    · rw [put_tasks, Function.update_of_ne heq]
      intro results n rest ht k hk
      have hother := h.matched.others (h.moves hran) heq (m := n) (by rw [ht]; rfl)
      exact h.sweeps t' results n rest ht k (hother ▸ hk)

theorem Tied.step (h : Tied s) (hs : Step candid s e s') : Tied s' := by
  obtain ⟨r, hs⟩ := hs
  rcases step_cases hs with ⟨t, ev, w, task, -, hseg, rfl⟩ | ⟨limit, arg, c, -, hup, rfl, -⟩
  · exact h.put (h.ran hseg)
  · obtain ⟨m, s', -, -, rfl⟩ := Canister.step_upgrade hup
    exact ⟨fun _ _ => rfl, matched_none, fun _ => nofun⟩

theorem tied_run {ok : Service → ServiceEvent → Prop} {ledgerId : Principal} {m : StableMemory}
    {tr : List ServiceEvent} (h : Run (Step candid) ok (init ledgerId m) tr s) : Tied s :=
  h.invariant (fun _ _ _ _ hi hs => hi.step hs) (tied_init ledgerId m)

/-! ## Locks -/

/-- No task is lost, no reserve with a live operation is released by force, and upgrades
restore the state and find no task waiting. -/
def Guarded (s : Service) : ServiceEvent → Prop
  | .task t e => e ≠ .lose ∧
    ∀ ev, e.minter? t (s.tasks t) = some ev → World.ReleasesIdle s.world ev
  | .upgrade _ arg => arg = .upgrade ∧ ∀ t, s.tasks t = none

theorem minter?_notLost {t : TaskId} {task : Option Task} {e : TaskEvent} (he : e ≠ .lose)
    {w : World} {ev : Event} (h : e.minter? t task = some ev) : World.NotLost w ev := by
  rintro n rfl
  cases e with
  | call m controllers now =>
    cases t with
    | message _ caller =>
      simp only [TaskEvent.minter?] at h
      split at h
      · cases m <;> cases h
      · cases h
    | timer => cases h
  | tick => cases h
  | balanceReply | transferReply =>
    obtain ⟨m, -, hm⟩ := Option.map_eq_some_iff.mp h
    cases hm
  | lose => exact he rfl

/-- Such an upgrade changes nothing. -/
theorem Tied.upgrade_still (hinv : candid.Inverse) (h : Tied s) (hnone : ∀ t, s.tasks t = none)
    {limit : Nat} {c : Canister}
    (hup : Canister.Step candid s.canister (.upgrade limit .upgrade) c) :
    c.world = s.world := by
  obtain ⟨m, s', hpre, hpost, rfl⟩ := Canister.step_upgrade hup
  rcases postUpgrade_cases hinv hpre hpost with ⟨-, rfl⟩ | ⟨_, harg, -⟩
  · have hops : s.world.ops = fun _ => none := by
      funext n
      by_contra hfull
      obtain ⟨t, ht⟩ := h.matched.held n hfull
      simp [hnone t] at ht
    show { s.world with state := s.world.state, ops := fun _ => none } = s.world
    rw [← hops]
  · cases harg

theorem locks_run (hinv : candid.Inverse) {ledgerId : Principal} {m : StableMemory}
    {tr : List ServiceEvent} (h : Run (Step candid) Guarded (init ledgerId m) tr s) :
    Tied s ∧ s.world.Locks := by
  have hinit : Tied (init ledgerId m) ∧ (init ledgerId m).world.Locks :=
    ⟨tied_init ledgerId m, World.locks_init ledgerId⟩
  refine h.invariant (I := fun s => Tied s ∧ s.world.Locks) ?_ hinit
  rintro s e s' hg ⟨htied, hlocks⟩ ⟨r, hs⟩
  refine ⟨htied.step ⟨r, hs⟩, ?_⟩
  rcases step_cases hs with ⟨t, ev, w, task, rfl, hseg, rfl⟩ | ⟨limit, arg, c, rfl, hup, rfl, -⟩
  · obtain ⟨tr, hr⟩ : ∃ tr, Run World.Step World.Guarded s.world tr w := by
      refine (htied.ran hseg).run (fun w id => ⟨fun _ _ => nofun, nofun⟩) fun ev' hev => ?_
      exact ⟨hg.2 ev' hev, minter?_notLost hg.1 hev⟩
    exact hr.invariant (fun _ _ _ hok hi hs => hi.step hok hs) hlocks
  · obtain ⟨rfl, hnone⟩ := hg
    show c.world.Locks
    rw [htied.upgrade_still hinv hnone hup]
    exact hlocks

/-- Task `t` waits for an operation on reserve `id`, with key `key` if it has one. -/
def WorksOn (s : Service) (t : TaskId) (id : ReserveId) (key : Option String) : Prop :=
  ∃ n op, opOf (s.tasks t) = some n ∧ s.world.ops n = some op ∧ op.reserveId = id ∧ op.key = key

/-- The locks and the pending keys are exactly those of the tasks that wait. -/
theorem locked_iff_one_task (hinv : candid.Inverse) {ledgerId : Principal} {m : StableMemory}
    {tr : List ServiceEvent} (h : Run (Step candid) Guarded (init ledgerId m) tr s) :
    (∀ id, id ∈ s.world.state.reserveMintInflight ↔ ∃! t, ∃ key, s.WorksOn t id key) ∧
    (∀ (k : String) id, s.world.state.idempotency[k]? = some (IdempotencyRecord.pending id) ↔
      ∃! t, s.WorksOn t id (some k)) ∧
    ∀ t t' id key key', s.WorksOn t id key → s.WorksOn t' id key' → t = t' := by
  obtain ⟨htied, hlocks⟩ := locks_run hinv h
  have hexact := hlocks.exact
  have hone : ∀ t t' id key key', s.WorksOn t id key → s.WorksOn t' id key' → t = t' := by
    rintro t t' id key key' ⟨n, op, ht, hop, hid, -⟩ ⟨n', op', ht', hop', hid', -⟩
    cases hexact.one n n' op op' hop hop' (hid.trans hid'.symm)
    exact htied.matched.alone t t' n ht ht'
  have hheld : ∀ n op, s.world.ops n = some op → ∃ t, opOf (s.tasks t) = some n := by
    intro n op hop
    exact htied.matched.held n (by simp [hop])
  refine ⟨fun id => ⟨fun hlock => ?_, ?_⟩, fun k id => ⟨fun hk => ?_, ?_⟩, hone⟩
  · obtain ⟨n, ⟨op, hop, hid⟩, -⟩ := (hexact.lock id).mp hlock
    obtain ⟨t, ht⟩ := hheld n op hop
    have hworks : s.WorksOn t id op.key := ⟨n, op, ht, hop, hid, rfl⟩
    refine ⟨t, ⟨_, hworks⟩, ?_⟩
    rintro t' ⟨key', hworks'⟩
    exact hone t' t id key' _ hworks' hworks
  · rintro ⟨t, ⟨key, n, op, -, hop, hid, -⟩, -⟩
    exact (hlocks.exclusive id).locked n op hop hid
  · obtain ⟨n, arg, now, hop, hid, hkey⟩ := (hexact.key k id).mp hk
    obtain ⟨t, ht⟩ := hheld n _ hop
    have hworks : s.WorksOn t id (some k) := ⟨n, _, ht, hop, hid, hkey⟩
    exact ⟨t, hworks, fun t' hworks' => hone t' t id _ _ hworks' hworks⟩
  · rintro ⟨t, ⟨n, op, -, hop, hid, hkey⟩, -⟩
    rw [← hid]
    exact hlocks.pending n op k hop hkey

/-! ## A sample -/

def controller : Principal := ⟨[9]⟩

/-- A task of the controller. -/
def ours (n : Nat) : TaskId := .message n controller

def call (n : Nat) (m : Message) (now : Nat) : ServiceEvent :=
  .task (ours n) (.call m [controller] now)

/-- A cycle of the timer waits for the balance of reserve 0 while the controller tops up
reserve 1. -/
def overlapping : List ServiceEvent :=
  [call 0 (.addReserve Sample.reserve) 1,
   call 1 (.addReserve { Sample.reserve with account := ⟨⟨[3]⟩, none⟩ }) 1,
   .task .timer .tick, call 2 (.manualTopupReserve ⟨1, 5, some "k"⟩) 2]

def guardedTest (s : Service) : ServiceEvent → Bool
  | .task t e => decide (e ≠ .lose) && ((e.minter? t (s.tasks t)).all Event.calm)
  | .upgrade _ _ => false

theorem guarded_of_test (s : Service) (e : ServiceEvent) (h : guardedTest s e = true) :
    Guarded s e := by
  cases e with
  | task t e =>
    simp only [guardedTest, Bool.and_eq_true, decide_eq_true_eq] at h
    refine ⟨h.1, fun ev hev => (World.guarded_of_calm _ _ ?_).1⟩
    simpa [hev] using h.2
  | upgrade limit arg => cases h

/-- A canister without stable memory. -/
def fresh : Service := init Sample.ledgerId ⟨0, fun _ => 0⟩

theorem locked_iff_one_task_sample : ∃ s,
    Run (Step (Sample.candid [])) Guarded fresh overlapping s ∧
    (0 : ReserveId) ∈ s.world.state.reserveMintInflight ∧
    (∃! t, ∃ key, s.WorksOn t 0 key) ∧ ∃! t, s.WorksOn t 1 (some "k") := by
  have hrun : Run (Step (Sample.candid [])) Guarded fresh overlapping _ :=
    run_last guardedTest guarded_of_test (by decide) (by decide)
  obtain ⟨hlock, hkey, -⟩ := locked_iff_one_task (Sample.candid_inverse _) hrun
  have h0 : (0 : ReserveId) ∈ (last (step (Sample.candid [])) fresh
      overlapping).world.state.reserveMintInflight := by decide
  exact ⟨_, hrun, h0, (hlock 0).mp h0, (hkey "k" 1).mp (by decide)⟩

end Service

end ViciMinter
