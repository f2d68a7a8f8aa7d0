import ViciMinter.Isolation
import ViciMinter.Waiting

/-!
# One result for each reserve

A sweep over all reserves, of a rebalance or of previews, awaits the ledger between its
rounds. Meanwhile reserves are registered, removed and locked, and mints commit. Its
answer still has exactly one result for each reserve that was registered when it began,
in ascending order of the ids, and each result is about its own reserve
(`one_result_each`). And a task is answered after at most two replies for each of them
(`answered_in_time`).
-/

namespace ViciMinter

open Lts Await

/-! ## Rounds that are done -/

/-- What a sweep over `ids` has done and has still to do. -/
structure Underway (ids : List ReserveId) (w : World) (task : Option Task) : Prop where
  sweep : ∀ results n rest, task = some (.sweep results n rest) →
    ∃ op, w.ops n = some op ∧ Passed Rebalanced ids results (op.reserveId :: rest)
  previews : ∀ results id snap rest, task = some (.previews results id snap rest) →
    Passed Previewed ids results (id :: rest)

/-- The answer of a sweep over `ids` has a result for each of them. -/
structure Complete (ids : List ReserveId) (r : Reaction) : Prop where
  sweep : ∀ results, r = .answer (.rebalancedAll results) → List.Forall₂ Rebalanced ids results
  previews : ∀ results, r = .answer (.previewedAll results) → List.Forall₂ Previewed ids results

section
variable {ids rest : List ReserveId} {w w' : World} {t : TaskId} {task task' : Option Task}
  {e : TaskEvent} {r : Reaction}

theorem underway_none (ids : List ReserveId) (w : World) : Underway ids w none where
  sweep results n rest h := by cases h
  previews results id snap rest h := by cases h

theorem underway_sweep {results : List (Except MinterError RebalanceResponse)} {n : OpId} {op : Op}
    (hop : w.ops n = some op) (hp : Passed Rebalanced ids results (op.reserveId :: rest)) :
    Underway ids w (some (.sweep results n rest)) where
  sweep results' n' rest' h := by
    cases h
    exact ⟨op, hop, hp⟩
  previews results' id snap rest' h := by cases h

theorem underway_previews {results : List (Except MinterError PreviewRebalanceResponse)}
    {id : ReserveId} {snap : MintSnapshot} (hp : Passed Previewed ids results (id :: rest)) :
    Underway ids w (some (.previews results id snap rest)) where
  sweep results' n' rest' h := by cases h
  previews results' id' snap' rest' h := by
    cases h
    exact hp

theorem complete_call (ids : List ReserveId) (ledgerId : Principal) (account : Account) :
    Complete ids (.balanceCall ledgerId account) where
  sweep results h := by cases h
  previews results h := by cases h

theorem complete_sweep {results : List (Except MinterError RebalanceResponse)}
    (h : List.Forall₂ Rebalanced ids results) :
    Complete ids (.answer (.rebalancedAll results)) where
  sweep results' heq := by
    cases heq
    exact h
  previews results' heq := by cases heq

theorem complete_previews {results : List (Except MinterError PreviewRebalanceResponse)}
    (h : List.Forall₂ Previewed ids results) :
    Complete ids (.answer (.previewedAll results)) where
  sweep results' heq := by cases heq
  previews results' heq := by
    cases heq
    exact h

/-- A segment of the minter answers for itself. -/
theorem complete_output (ids : List ReserveId) (o : Output) : Complete ids o.reaction where
  sweep results h := by cases o <;> cases h
  previews results h := by cases o <;> cases h

theorem sweepOn_underway {results : List (Except MinterError RebalanceResponse)}
    (hp : Passed Rebalanced ids results rest) (h : sweepOn w results rest = (w', task', r)) :
    Underway ids w' task' ∧ Complete ids r := by
  rcases sweepOn_cases w results rest with ⟨more, hon, hmore⟩ |
    ⟨v, more, id, snap, rest', hon, hops, -, hmore⟩ <;> cases hon.symm.trans h
  · have hmore := hmore.mono fun _ _ => Refused.rebalanced
    exact ⟨underway_none ids _, complete_sweep (hp.trans hmore).finished⟩
  · have hmore := hmore.mono fun _ _ => Refused.rebalanced
    have hop : w'.ops w.nextOp = some (.awaitBalance id snap) := by
      rw [hops, Function.update_self]
    exact ⟨underway_sweep hop (hp.trans hmore), complete_call ids _ _⟩

theorem previewOn_underway {results : List (Except MinterError PreviewRebalanceResponse)}
    (hp : Passed Previewed ids results rest) (h : previewOn w results rest = (w', task', r)) :
    Underway ids w' task' ∧ Complete ids r := by
  rcases previewOn_cases w results rest with ⟨more, hon, hmore⟩ |
    ⟨more, id, snap, rest', hon, hmore⟩ <;> cases hon.symm.trans h
  · exact ⟨underway_none ids _, complete_previews (hp.trans hmore).finished⟩
  · exact ⟨underway_previews (hp.trans hmore), complete_call ids _ _⟩

/-- A segment of a sweep goes on where the last one stopped. -/
theorem Ran.underway (hids : task = none → ids = w.state.reserves.keys)
    (hu : Underway ids w task) (h : Ran w t task e w' task' r) :
    Underway ids w' task' ∧ Complete ids r := by
  cases h with
  | @replied _ _ _ _ _ a ha =>
    refine ⟨underway_none ids w, fun results heq => ?_, fun results heq => ?_⟩ <;> cases heq <;>
      cases ha
  | asked =>
    refine ⟨⟨fun _ _ _ h => ?_, fun _ _ _ _ h => ?_⟩, complete_call ids _ _⟩ <;> cases h
  | previewed | lost | dropped =>
    refine ⟨underway_none ids _, fun _ h => ?_, fun _ h => ?_⟩ <;> cases h
  | skipped =>
    refine ⟨hu, fun _ h => ?_, fun _ h => ?_⟩ <;> cases h
  | previews hp hon =>
    cases hp with
    | called => exact previewOn_underway (hids rfl ▸ passed_nil _) hon
    | @resumed _ _ id snap _ reply now =>
      have hpassed := hu.previews _ id snap _ rfl
      exact previewOn_underway (hpassed.next (previewEnd_previewed id snap reply now)) hon
  | @ran _ _ _ _ _ o =>
    refine ⟨⟨fun _ _ _ h => ?_, fun _ _ _ _ h => ?_⟩, complete_output ids o⟩ <;> cases o <;> cases h
  | @sweeping _ results n _ rest _ _ _ _ _ he hs =>
    obtain ⟨op, hop, hpassed⟩ := hu.sweep _ _ _ rfl
    obtain ⟨op', hop', hres⟩ := step_resumed he hs
    cases hop.symm.trans hop'
    cases hres with
    | @issued _ _ k _ _ hid hops =>
      have hop : w'.ops n = some (.awaitRebalance k) := by rw [hops, Function.update_self]
      have hpassed : Passed Rebalanced ids results ((Op.awaitRebalance k).reserveId :: rest) := by
        rw [Op.awaitRebalance_reserveId, hid]
        exact hpassed
      refine ⟨underway_sweep hop hpassed, fun _ h => ?_, fun _ h => ?_⟩ <;> cases h
  | swept hsw hon =>
    cases hsw with
    | called | ticked => exact sweepOn_underway (hids rfl ▸ passed_nil _) hon
    | resumed he hs =>
      obtain ⟨op, hop, hpassed⟩ := hu.sweep _ _ _ rfl
      obtain ⟨op', hop', hres⟩ := step_resumed he hs
      cases hop.symm.trans hop'
      cases hres with
      | rebalanced hr => exact sweepOn_underway (hpassed.next hr) hon

end

/-! ## From the first segment to the answer -/

namespace Service

variable {candid : Candid} {ok : Service → ServiceEvent → Prop} {u s s' : Service} {t : TaskId}
  {tr : List ServiceEvent} {ids : List ReserveId}

/-- The task has not begun. -/
def Idle (t : TaskId) (s : Service) : Prop := s.tasks t = none

/-- What another task does, task `t` does not notice. -/
theorem Tied.underway_put (h : Tied s) (hu : Underway ids s.world (s.tasks t)) {t' : TaskId}
    {ev : TaskEvent} {w : World} {task : Option Task} {r : Reaction}
    (hran : Ran s.world t' (s.tasks t') ev w task r) (hne : t ≠ t') :
    Underway ids (s.put t' w task).world ((s.put t' w task).tasks t) := by
  rw [put_world, put_tasks, Function.update_of_ne hne]
  refine ⟨fun results n rest ht => ?_, hu.previews⟩
  obtain ⟨op, hop, hp⟩ := hu.sweep results n rest ht
  have hother := h.matched.others (h.moves hran) hne (m := n) (by rw [ht]; rfl)
  exact ⟨op, hother.trans hop, hp⟩

theorem spell_underway (htied : Tied u) (h : Spell (Step candid) ok (Idle t) u tr s) :
    Tied s ∧ Underway u.world.state.reserves.keys s.world (s.tasks t) := by
  induction h with
  | rest hidle =>
    refine ⟨htied, ?_⟩
    rw [hidle]
    exact underway_none _ _
  | @step tr s s' e hspell _ hs hwaits ih =>
    obtain ⟨htied, hu⟩ := ih
    refine ⟨htied.step hs, ?_⟩
    obtain ⟨r, hs⟩ := hs
    rcases step_cases hs with ⟨t', ev, w, task, -, hseg, rfl⟩ | ⟨_, _, _, -, -, rfl, -⟩
    · have hran := htied.ran hseg
      by_cases heq : t' = t
      · subst heq
        have hstart : s.tasks t' = none → s = u := fun hidle => (hspell.back hidle).2
        obtain ⟨hu', -⟩ := hran.underway (fun hidle => by rw [hstart hidle]) hu
        rwa [put_world, put_tasks, Function.update_self]
      · exact htied.underway_put hu hran (Ne.symm heq)
    · exact (hwaits rfl).elim

/-- The answer of a sweep has one result for each reserve that was registered when it
began, in ascending order. -/
theorem one_result_each {ledgerId : Principal} {m : StableMemory} {e : TaskEvent} {a : Answer}
    (h : Run (Step candid) ok (init ledgerId m) tr s)
    (hs : s.step candid (.task t e) = some (s', .answer a)) :
    ∃ tr₁ u tr₂, tr = tr₁ ++ tr₂ ∧ Run (Step candid) ok (init ledgerId m) tr₁ u ∧
      Spell (Step candid) ok (Idle t) u tr₂ s ∧
      u.world.state.reserves.keys.Pairwise (· < ·) ∧
      (∀ results, a = .rebalancedAll results →
        List.Forall₂ Rebalanced u.world.state.reserves.keys results) ∧
      ∀ results, a = .previewedAll results →
        List.Forall₂ Previewed u.world.state.reserves.keys results := by
  obtain ⟨tr₁, u, tr₂, htr, hrun, hspell⟩ := h.spell (show Idle t _ from rfl)
  obtain ⟨htied, hu⟩ := spell_underway (tied_run hrun) hspell
  obtain ⟨⟨w, task, r⟩, hseg, heq⟩ := Option.map_eq_some_iff.mp hs
  cases heq
  have hstart : s.tasks t = none → s = u := fun hidle => (hspell.back hidle).2
  obtain ⟨-, hc⟩ := (htied.ran hseg).underway (fun hidle => by rw [hstart hidle]) hu
  refine ⟨tr₁, u, tr₂, htr, hrun, hspell, keys_ascending _, fun results ha => ?_,
    fun results ha => ?_⟩
  · exact hc.sweep results (by rw [ha])
  · exact hc.previews results (by rw [ha])

/-- While a cycle of the timer waits for reserve 0, reserve 1 is removed and reserve 2
registered. -/
def meanwhile : List ServiceEvent :=
  [call 0 (.addReserve Sample.reserve) 1,
   call 1 (.addReserve { Sample.reserve with account := ⟨⟨[3]⟩, none⟩ }) 1,
   .task .timer .tick, call 2 (.removeReserve 1) 2,
   call 3 (.addReserve { Sample.reserve with account := ⟨⟨[4]⟩, none⟩ }) 2]

/-- What the cycle ends with. -/
def meanwhileResults : List (Except MinterError RebalanceResponse) :=
  [.ok (noMintResponse 0 .alreadyFunded 100), .error (.reserveNotFound 1)]

theorem one_result_each_sample : ∃ s s' u : Service,
    Run (Step (Sample.candid [])) anyEvent fresh meanwhile s ∧
    s.step (Sample.candid []) (.task .timer (.balanceReply (.answered 100) 3)) =
      some (s', .answer (.rebalancedAll meanwhileResults)) ∧
    List.Forall₂ Rebalanced u.world.state.reserves.keys meanwhileResults := by
  have hrun : Run (Step (Sample.candid [])) anyEvent fresh meanwhile _ :=
    run_last_any (by decide)
  have hs := step_last_eq (f := step (Sample.candid [])) (s := last (step (Sample.candid [])) fresh
    meanwhile) (e := .task .timer (.balanceReply (.answered 100) 3))
    (o := .answer (.rebalancedAll meanwhileResults)) (by decide)
  obtain ⟨_, u, _, _, _, _, _, hsweep, _⟩ := one_result_each hrun hs
  exact ⟨_, _, u, hrun, hs, hsweep _ rfl⟩

end Service

/-! ## Replies -/

/-- The replies that an operation still waits for, at most. -/
def Op.left : Op → Nat
  | awaitBalance _ _ => 2
  | awaitRebalance _ => 1
  | awaitTopup _ => 1

def World.left (w : World) (n : OpId) : Nat := ((w.ops n).map Op.left).getD 0

/-- The replies that a task still waits for, at most. -/
def Task.left (w : World) : Task → Nat
  | single n => w.left n
  | sweep _ n rest => w.left n + 2 * rest.length
  | preview _ _ => 1
  | previews _ _ _ rest => 1 + rest.length

/-- The replies that a task may wait for in all, with `n` reserves registered. -/
def Task.most (n : Nat) : Task → Nat
  | single _ => 2
  | sweep _ _ _ => 2 * n
  | preview _ _ => 1
  | previews _ _ _ _ => n

def TaskEvent.isReply : TaskEvent → Bool
  | .balanceReply _ _ => true
  | .transferReply _ => true
  | _ => false

section
variable {w w' : World} {n : OpId} {op : Op} {t : TaskId} {task task' : Option Task}
  {e : TaskEvent} {r : Reaction}

@[simp] theorem Task.left_single : (single n).left w = w.left n := rfl
@[simp] theorem Task.left_sweep (results : List (Except MinterError RebalanceResponse))
    (rest : List ReserveId) : (sweep results n rest).left w = w.left n + 2 * rest.length := rfl
@[simp] theorem Task.left_previews (results : List (Except MinterError PreviewRebalanceResponse))
    (id : ReserveId) (snap : MintSnapshot) (rest : List ReserveId) :
    (previews results id snap rest).left w = 1 + rest.length := rfl

theorem World.left_eq (h : w.ops n = some op) : w.left n = op.left := by simp [World.left, h]

theorem Op.left_pos (op : Op) : 1 ≤ op.left := by cases op <;> simp [Op.left]

theorem Op.left_le (op : Op) : op.left ≤ 2 := by cases op <;> simp [Op.left]

theorem World.left_le (w : World) (n : OpId) : w.left n ≤ 2 := by
  unfold World.left
  cases w.ops n with
  | none => exact Nat.zero_le 2
  | some op => exact op.left_le

theorem TaskEvent.isReply_of_reply {ev : Event} (h : e.reply? n = some ev) : e.isReply = true := by
  cases e <;> cases h <;> rfl

theorem sweepOn_left {results : List (Except MinterError RebalanceResponse)} {ids : List ReserveId}
    {new : Task} (h : sweepOn w results ids = (w', some new, r)) :
    new.left w' ≤ 2 * ids.length ∧ ∀ n, new.most n = 2 * n := by
  rcases sweepOn_cases w results ids with ⟨more, hon, -⟩ |
    ⟨v, more, id, snap, rest', hon, hops, -, hp⟩ <;> cases hon.symm.trans h
  refine ⟨?_, fun _ => rfl⟩
  have hlen := hp.length
  have hleft := w'.left_le w.nextOp
  rw [List.length_cons] at hlen
  rw [Task.left_sweep]
  omega

theorem previewOn_left {results : List (Except MinterError PreviewRebalanceResponse)}
    {ids : List ReserveId} {new : Task} (h : previewOn w results ids = (w', some new, r)) :
    new.left w' ≤ ids.length ∧ ∀ n, new.most n = n := by
  rcases previewOn_cases w results ids with ⟨more, hon, -⟩ |
    ⟨more, id, snap, rest', hon, hp⟩ <;> cases hon.symm.trans h
  refine ⟨?_, fun _ => rfl⟩
  have hlen := hp.length
  rw [List.length_cons] at hlen
  rw [Task.left_previews]
  omega

/-- The first segment of a task. -/
theorem Ran.left_first {new : Task} (h : Ran w t none e w' (some new) r) :
    new.left w' ≤ new.most w.state.reserves.keys.length := by
  generalize htask : some new = task' at h
  cases h with
  | replied => cases htask
  | asked =>
    cases htask
    exact Nat.le_refl 1
  | previews hp hon =>
    subst htask
    cases hp with
    | called =>
      obtain ⟨hleft, hmost⟩ := previewOn_left hon
      rwa [hmost]
  | @ran _ _ _ _ _ o hruns hs =>
    obtain ⟨n, -, rfl⟩ := Option.map_eq_some_iff.mp htask.symm
    exact w'.left_le n
  | swept hsw hon =>
    subst htask
    cases hsw with
    | called | ticked =>
      obtain ⟨hleft, hmost⟩ := sweepOn_left hon
      rwa [hmost]

/-- Every reply leaves less to wait for. -/
theorem Ran.left_next {old new : Task} (hfull : ∀ n, old.op? = some n → w.ops n ≠ none)
    (h : Ran w t (some old) e w' (some new) r) :
    new.left w' + e.isReply.toNat ≤ old.left w ∧ ∀ n, new.most n = old.most n := by
  generalize htask : some new = task' at h
  cases h with
  | previewed | lost | dropped => cases htask
  | skipped =>
    cases htask
    exact ⟨Nat.le_refl _, fun _ => rfl⟩
  | previews hp hon =>
    subst htask
    cases hp with
    | resumed =>
      obtain ⟨hleft, hmost⟩ := previewOn_left hon
      refine ⟨?_, hmost⟩
      rw [Task.left_previews, TaskEvent.isReply, Bool.toNat_true]
      omega
  | @ran _ _ _ _ _ o hruns hs =>
    obtain ⟨m, hm, rfl⟩ := Option.map_eq_some_iff.mp htask.symm
    cases hruns with
    | resumed he =>
      obtain ⟨op, hop, hres⟩ := step_resumed he hs
      cases hres with
      | toppedUp | rebalanced => cases hm
      | @issued _ _ k _ _ _ hops =>
        cases hm
        have hop' : w'.ops m = some (.awaitRebalance k) := by rw [hops, Function.update_self]
        refine ⟨?_, fun _ => rfl⟩
        rw [Task.left_single, Task.left_single, World.left_eq hop, World.left_eq hop',
          TaskEvent.isReply_of_reply he]
        exact Nat.le_refl 2
  | @sweeping _ _ n _ _ _ _ _ _ _ he hs =>
    cases htask
    obtain ⟨op, hop, hres⟩ := step_resumed he hs
    cases hres with
    | @issued _ _ k _ _ _ hops =>
      have hop' : w'.ops n = some (.awaitRebalance k) := by rw [hops, Function.update_self]
      refine ⟨?_, fun _ => rfl⟩
      rw [Task.left_sweep, Task.left_sweep, World.left_eq hop, World.left_eq hop',
        TaskEvent.isReply_of_reply he, Op.left, Op.left, Bool.toNat_true]
      omega
  | swept hsw hon =>
    subst htask
    cases hsw with
    | @resumed _ _ n _ _ _ _ _ he hs =>
      obtain ⟨hleft, hmost⟩ := sweepOn_left hon
      obtain ⟨op, hop⟩ := Option.ne_none_iff_exists'.mp (hfull n rfl)
      have hpos := op.left_pos
      refine ⟨?_, hmost⟩
      rw [Task.left_sweep, World.left_eq hop, TaskEvent.isReply_of_reply he, Bool.toNat_true]
      omega

theorem Ran.first_call (h : Ran w t none e w' task' r) : e.isReply = false := by
  cases h with
  | replied | asked => rfl
  | previews hp => cases hp; rfl
  | ran hruns => cases hruns; rfl
  | swept hsw => cases hsw <;> rfl

theorem Task.left_congr (task : Task) (h : ∀ n, task.op? = some n → w'.ops n = w.ops n) :
    task.left w' = task.left w := by
  cases task with
  | single n | sweep _ n _ => simp [World.left, h n rfl]
  | preview | previews => rfl

theorem Task.left_pos (task : Task) (h : ∀ n, task.op? = some n → w.ops n ≠ none) :
    0 < task.left w := by
  have hpos : ∀ n, w.ops n ≠ none → 0 < w.left n := by
    intro n hn
    obtain ⟨op, hop⟩ := Option.ne_none_iff_exists'.mp hn
    rw [World.left_eq hop]
    exact op.left_pos
  cases task with
  | single n => exact hpos n (h n rfl)
  | sweep _ n _ => exact Nat.add_pos_left (hpos n (h n rfl)) _
  | preview | previews => simp [left]

/-- A live operation takes every reply of the kind that it waits for. -/
theorem World.step_accepts (hop : w.ops n = some op) :
    (∀ reply now, (w.step (.balanceReply n reply now)).isSome = true) ∨
    ∀ reply, (w.step (.transferReply n reply)).isSome = true := by
  cases op with
  | awaitBalance id snap =>
    refine .inl fun reply now => ?_
    simp only [World.step, World.advance, World.tick_ops, hop, rebalanceIssue_eq]
    cases rebalanceDecision id snap reply now <;> rfl
  | awaitRebalance k | awaitTopup k =>
    refine .inr fun reply => ?_
    simp only [World.step, World.advance, World.tick_ops, hop]
    rfl

end

namespace Service

variable {candid : Candid} {ok : Service → ServiceEvent → Prop} {u s : Service} {t : TaskId}
  {tr : List ServiceEvent}

/-- Event `e` answers a call of task `t`. -/
def repliesTo (t : TaskId) : ServiceEvent → Bool
  | .task t' e => decide (t' = t) && e.isReply
  | .upgrade _ _ => false

theorem step_isSome (e : TaskEvent) : (s.step candid (.task t e)).isSome =
    (segment s.world t (s.tasks t) e).isSome := Option.isSome_map

/-- A task that waits is resumed by whatever the ledger replies. -/
theorem Tied.accepts (h : Tied s) {task : Task} (ht : s.tasks t = some task) :
    (∀ reply now, (s.step candid (.task t (.balanceReply reply now))).isSome = true) ∨
    ∀ reply, (s.step candid (.task t (.transferReply reply))).isSome = true := by
  simp only [step_isSome, ht]
  have hop : ∀ n, task.op? = some n → ∃ op, s.world.ops n = some op := fun n hn =>
    Option.ne_none_iff_exists'.mp (h.matched.full t n (by rw [ht]; exact hn))
  cases task with
  | single n | sweep _ n _ =>
    obtain ⟨op, hop⟩ := hop n rfl
    refine (World.step_accepts hop).imp (fun hacc reply now => ?_) fun hacc reply => ?_
    · simpa [segment] using hacc reply now
    · simpa [segment] using hacc reply
  | preview id snap | previews results id snap rest =>
    exact .inl fun reply now => by simp [segment]

theorem spell_left (htied : Tied u) (h : Spell (Step candid) ok (Idle t) u tr s) :
    Tied s ∧ ∀ task, s.tasks t = some task →
      tr.countP (repliesTo t) + task.left s.world ≤
        task.most u.world.state.reserves.keys.length := by
  induction h with
  | rest hidle => exact ⟨htied, fun task ht => by cases hidle.symm.trans ht⟩
  | @step tr s s' e hspell _ hs hwaits ih =>
    obtain ⟨htied, hle⟩ := ih
    refine ⟨htied.step hs, fun new ht => ?_⟩
    obtain ⟨r, hs⟩ := hs
    rcases step_cases hs with ⟨t', ev, w, task, rfl, hseg, rfl⟩ | ⟨_, _, _, -, -, rfl, -⟩
    · have hran := htied.ran hseg
      have hfull := htied.matched.full
      rw [List.countP_append, List.countP_singleton]
      by_cases heq : t' = t
      · subst heq
        rw [put_tasks, Function.update_self] at ht
        subst ht
        cases hold : s.tasks t' with
        | none =>
          rw [hold] at hran
          obtain ⟨rfl, rfl⟩ := hspell.back hold
          have hfirst := hran.left_first
          have hno : ev.isReply = false := hran.first_call
          simpa [repliesTo, hno] using hfirst
        | some old =>
          rw [hold] at hran
          obtain ⟨hleft, hmost⟩ := hran.left_next fun n hn => hfull t' n (by rw [hold]; exact hn)
          have hbefore := hle old hold
          have hthis : repliesTo t' (.task t' ev) = ev.isReply := by simp [repliesTo]
          rw [hthis, hmost, put_world]
          cases hreply : ev.isReply with
          | true =>
            rw [hreply, Bool.toNat_true] at hleft
            rw [if_pos rfl]
            omega
          | false =>
            rw [if_neg Bool.false_ne_true]
            omega
      · have hother : repliesTo t (.task t' ev) = false := by simp [repliesTo, heq]
        rw [put_tasks, Function.update_of_ne (Ne.symm heq)] at ht
        have hbefore := hle new ht
        have hleft : new.left w = new.left s.world := by
          refine new.left_congr fun n hn => ?_
          exact htied.matched.others (htied.moves hran) (Ne.symm heq) (by rw [ht]; exact hn)
        simpa [hother, hleft] using hbefore
    · exact (hwaits rfl).elim

/-- Whatever the ledger replies resumes a task that waits, and since it began it has had
fewer replies than it may wait for in all. -/
theorem answered_in_time {ledgerId : Principal} {m : StableMemory} {task : Task}
    (h : Run (Step candid) ok (init ledgerId m) tr s) (ht : s.tasks t = some task) :
    ((∀ reply now, (s.step candid (.task t (.balanceReply reply now))).isSome = true) ∨
      ∀ reply, (s.step candid (.task t (.transferReply reply))).isSome = true) ∧
    ∃ tr₁ u tr₂, tr = tr₁ ++ tr₂ ∧ Run (Step candid) ok (init ledgerId m) tr₁ u ∧
      Spell (Step candid) ok (Idle t) u tr₂ s ∧
      tr₂.countP (repliesTo t) < task.most u.world.state.reserves.keys.length := by
  obtain ⟨tr₁, u, tr₂, htr, hrun, hspell⟩ := h.spell (show Idle t _ from rfl)
  obtain ⟨htied, hle⟩ := spell_left (tied_run hrun) hspell
  refine ⟨htied.accepts ht, tr₁, u, tr₂, htr, hrun, hspell, ?_⟩
  have hpos := task.left_pos fun n hn => htied.matched.full t n (by rw [ht]; exact hn)
  exact Nat.lt_of_lt_of_le (Nat.lt_add_of_pos_right hpos) (hle task ht)

theorem answered_in_time_sample : ∃ (s : Service) (task : Task) (u : Service),
    Run (Step (Sample.candid [])) anyEvent fresh meanwhile s ∧ s.tasks .timer = some task ∧
    ∃ tr₂, Spell (Step (Sample.candid [])) anyEvent (Idle .timer) u tr₂ s ∧
      tr₂.countP (repliesTo .timer) < task.most u.world.state.reserves.keys.length := by
  have hrun : Run (Step (Sample.candid [])) anyEvent fresh meanwhile _ :=
    run_last_any (by decide)
  have ht : (last (step (Sample.candid [])) fresh meanwhile).tasks .timer =
      some (.sweep [] 0 [1]) := by decide
  obtain ⟨_, _, u, tr₂, _, _, hspell, hlt⟩ := answered_in_time hrun ht
  exact ⟨_, _, u, hrun, ht, tr₂, hspell, hlt⟩

end Service

end ViciMinter
