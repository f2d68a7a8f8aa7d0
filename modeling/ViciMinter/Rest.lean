import Mathlib.Algebra.BigOperators.Group.List.Basic
import ViciMinter.Sweeps

/-!
# The service comes to rest

When no more messages arrive and the timer stands still, the ledger has a bounded number
of replies to give, whatever they are and in whatever order they come, and the tasks are
not through before it has given them all. Then all tasks have been answered, and nothing
is locked or pending (`comes_to_rest`).
-/

namespace ViciMinter

open Lts

namespace Service

variable {candid : Candid} {ok : Service → ServiceEvent → Prop} {s s' : Service} {t : TaskId}
  {tr : List ServiceEvent} {ts : List TaskId} {ledgerId : Principal} {m : StableMemory}

/-! ## The tasks that wait -/

/-- Only tasks of `ts` wait. -/
structure Among (ts : List TaskId) (s : Service) : Prop where
  nodup : ts.Nodup
  mem : ∀ t, s.tasks t ≠ none → t ∈ ts

theorem Among.put (h : Among ts s) (ht : t ∈ ts) (w : World) (task : Option Task) :
    Among ts (s.put t w task) := by
  refine ⟨h.nodup, fun t' ht' => ?_⟩
  by_cases heq : t' = t
  · exact heq ▸ ht
  · rw [put_tasks, Function.update_of_ne heq] at ht'
    exact h.mem t' ht'

/-- Finitely many tasks wait at a time. -/
theorem among_run (h : Run (Step candid) ok (init ledgerId m) tr s) : ∃ ts, Among ts s := by
  refine h.invariant (I := fun s => ∃ ts, Among ts s) ?_ ⟨[], .nil, fun _ h => (h rfl).elim⟩
  rintro s e s' - ⟨ts, hts⟩ ⟨r, hs⟩
  rcases step_cases hs with ⟨t, ev, w, task, -, -, rfl⟩ | ⟨_, _, _, -, -, rfl, -⟩
  · by_cases ht : t ∈ ts
    · exact ⟨ts, hts.put ht w task⟩
    · have hmore : Among (t :: ts) s :=
        ⟨List.nodup_cons.mpr ⟨ht, hts.nodup⟩, fun t' h' => List.mem_cons_of_mem t (hts.mem t' h')⟩
      exact ⟨t :: ts, hmore.put List.mem_cons_self w task⟩
  · exact ⟨[], .nil, fun _ h => (h rfl).elim⟩

/-! ## The replies they wait for -/

/-- The replies that task `t` still waits for, at most. -/
def left (s : Service) (t : TaskId) : Nat := ((s.tasks t).map (Task.left s.world)).getD 0

theorem left_none (h : s.tasks t = none) : s.left t = 0 := by simp [left, h]

theorem left_some {task : Task} (h : s.tasks t = some task) : s.left t = task.left s.world := by
  simp [left, h]

/-- The ledger replies to some call. -/
def Replies (_ : Service) (e : ServiceEvent) : Prop := ∃ t ev, e = .task t ev ∧ ev.isReply = true

/-- A reply lowers what its task waits for, and leaves the others alone. -/
theorem Tied.reply_left (h : Tied s) {ev : TaskEvent} {w : World} {task : Option Task}
    {r : Reaction} (hran : Ran s.world t (s.tasks t) ev w task r) (hev : ev.isReply = true) :
    s.tasks t ≠ none ∧ (s.put t w task).left t < s.left t ∧
    ∀ t', t' ≠ t → (s.put t w task).left t' = s.left t' := by
  have hfull : ∀ t' (old : Task), s.tasks t' = some old →
      ∀ n, old.op? = some n → opOf (s.tasks t') = some n := by
    intro t' old hold n hn
    rw [hold]
    exact hn
  cases hold : s.tasks t with
  | none =>
    rw [hold] at hran
    cases hran.first_call.symm.trans hev
  | some old =>
    have hlive : ∀ n, old.op? = some n → s.world.ops n ≠ none := fun n hn =>
      h.matched.full t n (hfull t old hold n hn)
    refine ⟨nofun, ?_, fun t' hne => ?_⟩
    · rw [left_some hold]
      cases task with
      | none =>
        rw [left_none (by rw [put_tasks, Function.update_self])]
        exact old.left_pos hlive
      | some new =>
        rw [hold] at hran
        rw [left_some (show (s.put t w (some new)).tasks t = some new by
          rw [put_tasks, Function.update_self]), put_world]
        have hlow := (hran.left_next hlive).1
        rw [hev, Bool.toNat_true] at hlow
        exact hlow
    · have hsame : (s.put t w task).tasks t' = s.tasks t' := by
        rw [put_tasks, Function.update_of_ne hne]
      cases hother : s.tasks t' with
      | none => rw [left_none hother, left_none (hsame.trans hother)]
      | some other =>
        rw [left_some hother, left_some (hsame.trans hother), put_world]
        exact other.left_congr fun n hn =>
          h.matched.others (h.moves hran) hne (hfull t' other hother n hn)

/-- All replies that are still to come, at most. -/
def allLeft (ts : List TaskId) (s : Service) : Nat := (ts.map s.left).sum

theorem Tied.allLeft_lt (h : Tied s) (hts : Among ts s) {e : ServiceEvent} (he : Replies s e)
    (hs : Step candid s e s') : Among ts s' ∧ allLeft ts s' < allLeft ts s := by
  obtain ⟨t, ev, rfl, hev⟩ := he
  obtain ⟨r, hs⟩ := hs
  obtain ⟨⟨w, task, r'⟩, hseg, heq⟩ := Option.map_eq_some_iff.mp hs
  cases heq
  obtain ⟨hwaits, hlt, hothers⟩ := h.reply_left (h.ran hseg) hev
  have ht := hts.mem t hwaits
  refine ⟨hts.put ht w task, ?_⟩
  have hsum : ∀ s : Service, allLeft ts s = s.left t + allLeft (ts.erase t) s := by
    intro s
    have hperm := (List.perm_cons_erase ht).map s.left
    rw [allLeft, hperm.sum_eq, List.map_cons, List.sum_cons, allLeft]
  have hrest : allLeft (ts.erase t) (s.put t w task) = allLeft (ts.erase t) s := by
    refine congrArg List.sum (List.map_congr_left fun t' ht' => hothers t' ?_)
    rintro rfl
    exact hts.nodup.not_mem_erase ht'
  rw [hsum, hsum s, hrest]
  omega

/-! ## Rest -/

theorem Tied.replies_le (h : Tied s) (hts : Among ts s) (hr : Run (Step candid) Replies s tr s') :
    tr.length + allLeft ts s' ≤ allLeft ts s := by
  refine hr.length_le_rank (I := fun s => Tied s ∧ Among ts s) ?_ ⟨h, hts⟩
  rintro s e s' he ⟨htied, hts⟩ hs
  obtain ⟨hts', hlt⟩ := htied.allLeft_lt hts he hs
  exact ⟨⟨htied.step hs, hts'⟩, hlt⟩

/-- A task that waits can be replied to. -/
theorem Tied.replied (candid : Candid) (h : Tied s) (ht : s.tasks t ≠ none) :
    ∃ e s', e.isReply = true ∧ Step candid s (.task t e) s' := by
  obtain ⟨task, ht⟩ := Option.ne_none_iff_exists'.mp ht
  have hstep : ∀ e : TaskEvent, e.isReply = true → (s.step candid (.task t e)).isSome = true →
      ∃ e s', e.isReply = true ∧ Step candid s (.task t e) s' := by
    intro e he hsome
    obtain ⟨⟨s', r⟩, hs⟩ := Option.isSome_iff_exists.mp hsome
    exact ⟨e, s', he, r, hs⟩
  rcases h.accepts ht with hacc | hacc
  · exact hstep (.balanceReply (.callFailed "") 0) rfl (hacc _ _)
  · exact hstep (.transferReply (.callFailed "")) rfl (hacc _)

theorem Replies.guarded {e : ServiceEvent} (h : Replies s e) : Guarded s e := by
  obtain ⟨t, ev, rfl, hev⟩ := h
  refine ⟨?_, fun ev' hev' id key hrelease => ?_⟩
  · rintro rfl
    cases hev
  subst hrelease
  cases ev with
  | balanceReply | transferReply =>
    obtain ⟨n, -, hn⟩ := Option.map_eq_some_iff.mp hev'
    cases hn
  | call | tick | lose => cases hev

/-- Where no task waits, no operation is left to hold a lock or a key. -/
theorem Tied.unlocked (h : Tied s) (hlocks : World.Locks s.world) (hnone : ∀ t, s.tasks t = none) :
    (∀ id, id ∉ s.world.state.reserveMintInflight) ∧
      ∀ (k : String) id,
        s.world.state.idempotency[k]? ≠ some (IdempotencyRecord.pending id) := by
  have hops : ∀ n op, s.world.ops n ≠ some op := by
    intro n op hop
    obtain ⟨t, ht⟩ := h.matched.held n (by rw [hop]; nofun)
    rw [hnone t] at ht
    cases ht
  refine ⟨fun id hid => ?_, fun k id hk => ?_⟩
  · obtain ⟨n, op, hop, -⟩ := hlocks.rest.lock id hid
    exact hops n op hop
  · obtain ⟨n, op, hop, -⟩ := hlocks.rest.key k id hk
    exact hops n op hop

/-- From every state in reach the ledger has a bounded number of replies to give, and every
task that waits can take one. When none waits nothing is locked or pending, as long as
nothing was lost or cut off and no live operation released. -/
theorem comes_to_rest (hinv : candid.Inverse) (h : Run (Step candid) ok (init ledgerId m) tr s) :
    ∃ N, ∀ tr' s', Run (Step candid) Replies s tr' s' → tr'.length ≤ N ∧
      (∀ t, s'.tasks t ≠ none →
        ∃ e s'', e.isReply = true ∧ Step candid s' (.task t e) s'') ∧
      (Run (Step candid) Guarded (init ledgerId m) tr s → (∀ t, s'.tasks t = none) →
        (∀ id, id ∉ s'.world.state.reserveMintInflight) ∧
        ∀ (k : String) id,
          s'.world.state.idempotency[k]? ≠ some (IdempotencyRecord.pending id)) := by
  obtain ⟨ts, hts⟩ := among_run h
  refine ⟨allLeft ts s, fun tr' s' hr => ⟨?_, fun t ht => ?_, fun hguarded hnone => ?_⟩⟩
  · have hlen := (tied_run h).replies_le hts hr
    omega
  · have htied : Tied s' := hr.invariant (fun _ _ _ _ hi hs => hi.step hs) (tied_run h)
    exact htied.replied candid ht
  · obtain ⟨htied, hlocks⟩ :=
      locks_run hinv (hguarded.append (hr.mono fun _ _ he => he.guarded))
    exact htied.unlocked hlocks hnone

theorem comes_to_rest_sample : ∃ s N,
    Run (Step (Sample.candid [])) Guarded fresh overlapping s ∧
    s.tasks .timer ≠ none ∧ s.tasks (ours 2) ≠ none ∧
    ∀ tr' s', Run (Step (Sample.candid [])) Replies s tr' s' → tr'.length ≤ N ∧
      ((∀ t, s'.tasks t = none) → ∀ id, id ∉ s'.world.state.reserveMintInflight) := by
  have hrun : Run (Step (Sample.candid [])) Guarded fresh overlapping _ :=
    run_last guardedTest guarded_of_test (by decide) (by decide)
  obtain ⟨N, hN⟩ := comes_to_rest (Sample.candid_inverse _) hrun
  refine ⟨_, N, hrun, by decide, by decide, fun tr' s' hr => ?_⟩
  obtain ⟨hlen, -, hrest⟩ := hN tr' s' hr
  exact ⟨hlen, fun hnone => (hrest hrun hnone).1⟩

end Service

end ViciMinter
