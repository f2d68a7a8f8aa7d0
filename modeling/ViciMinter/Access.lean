import ViciMinter.Lib.Purge
import ViciMinter.Waiting

/-!
# What other callers can do

Outsiders are callers that are not controllers when their messages arrive. They may read
and preview, and their previews wait for the ledger between the segments of everybody
else. Take all they do out of a run: the canister, the tasks of the controllers and of
the timer, and all answers these got are the same (`outsiders_unnoticed`).
-/

namespace ViciMinter

open Lts

/-- A segment leaves the minter alone if no controller called it and its task waits for
no operation. -/
theorem Ran.idle {w w' : World} {n : Nat} {caller : Principal} {task task' : Option Task}
    {e : TaskEvent} {r : Reaction} (hop : opOf task = none)
    (hcall : ∀ m controllers now, e = .call m controllers now → caller ∉ controllers)
    (h : Ran w (.message n caller) task e w' task' r) : w' = w ∧ opOf task' = none := by
  cases h with
  | replied | asked | previewed | lost => exact ⟨rfl, rfl⟩
  | @previews _ _ _ _ _ _ results ids _ hon =>
    rcases previewOn_cases w results ids with ⟨more, hon', -⟩ | ⟨more, id, snap, rest', hon', -⟩ <;>
      cases hon'.symm.trans hon <;> exact ⟨rfl, rfl⟩
  | ran hruns =>
    cases hruns with
    | called hc => exact (hcall _ _ _ rfl hc).elim
    | resumed => cases hop
  | sweeping => cases hop
  | swept hsw =>
    cases hsw with
    | called hc => exact (hcall _ _ _ rfl hc).elim
    | resumed => cases hop
  | dropped hn => cases hop.symm.trans hn

namespace Service

variable {outsider : Principal → Bool} {candid : Candid} {s s' q : Service}

/-- A task of an outsider. -/
def outside (outsider : Principal → Bool) : TaskId → Bool
  | .message _ caller => outsider caller
  | .timer => false

/-- An event of a task of an outsider. -/
def fromOutside (outsider : Principal → Bool) : ServiceEvent → Bool
  | .task t _ => outside outsider t
  | .upgrade _ _ => false

/-- No outsider is a controller. -/
def NoControl (outsider : Principal → Bool) (_ : Service) (e : ServiceEvent) : Prop :=
  ∀ n caller m controllers now, e = .task (.message n caller) (.call m controllers now) →
    outsider caller = true → caller ∉ controllers

/-- `q` is `s` without the tasks of the outsiders, and these wait for no operation. -/
structure Without (outsider : Principal → Bool) (s q : Service) : Prop where
  canister : q.canister = s.canister
  inside : ∀ t, outside outsider t = false → q.tasks t = s.tasks t
  idle : ∀ t, outside outsider t = true → opOf (s.tasks t) = none

theorem without_init (outsider : Principal → Bool) (ledgerId : Principal) (m : StableMemory) :
    Without outsider (init ledgerId m) (init ledgerId m) :=
  ⟨rfl, fun _ _ => rfl, fun _ _ => rfl⟩

theorem sweepsOnly_of_idle {w : World} {task : Option Task} (h : opOf task = none) :
    SweepsOnly w task := by
  rintro results n rest rfl
  cases h

theorem Without.outside_step (hv : Without outsider s q) {t : TaskId} {ev : TaskEvent} {w : World}
    {task : Option Task} {r : Reaction} (ht : outside outsider t = true)
    (hno : NoControl outsider s (.task t ev))
    (hseg : segment s.world t (s.tasks t) ev = some (w, task, r)) :
    Without outsider (s.put t w task) q := by
  cases t with
  | timer => cases ht
  | message n caller =>
    have hidle := hv.idle _ ht
    obtain ⟨rfl, htask⟩ := (segment_ran (sweepsOnly_of_idle hidle) hseg).idle hidle
      fun m controllers now he => hno n caller m controllers now (he ▸ rfl) ht
    refine ⟨hv.canister, fun t' ht' => ?_, fun t' ht' => ?_⟩
    · have hne : t' ≠ .message n caller := fun heq => by simp [heq, ht] at ht'
      rw [put_tasks, Function.update_of_ne hne]
      exact hv.inside t' ht'
    · by_cases heq : t' = .message n caller
      · rw [heq, put_tasks, Function.update_self]
        exact htask
      · rw [put_tasks, Function.update_of_ne heq]
        exact hv.idle t' ht'

theorem Without.inside_put (hv : Without outsider s q) {t : TaskId} {w : World}
    {task : Option Task} (ht : outside outsider t = false) :
    Without outsider (s.put t w task) (q.put t w task) := by
  refine ⟨?_, fun t' ht' => ?_, fun t' ht' => ?_⟩
  · show { q.canister with world := w } = { s.canister with world := w }
    rw [hv.canister]
  · by_cases heq : t' = t
    · simp [heq]
    · simp only [put_tasks, Function.update_of_ne heq]
      exact hv.inside t' ht'
  · have hne : t' ≠ t := fun heq => by simp [heq, ht] at ht'
    rw [put_tasks, Function.update_of_ne hne]
    exact hv.idle t' ht'

theorem outsiders_unwind : Unwinding (step candid) (NoControl outsider) (fromOutside outsider)
    (Without outsider) where
  unseen s e s' r q hno he hv hs := by
    rcases step_cases hs with ⟨t, ev, w, task, rfl, hseg, rfl⟩ | ⟨_, _, _, rfl, -⟩
    · exact hv.outside_step he hno hseg
    · cases he
  seen s e s' r q _ he hv hs := by
    have hworld : q.world = s.world := congrArg Canister.world hv.canister
    cases e with
    | task t ev =>
      obtain ⟨⟨w, task, r'⟩, hseg, heq⟩ := Option.map_eq_some_iff.mp hs
      cases heq
      refine ⟨q.put t w task, ?_, hv.inside_put he⟩
      simp only [step, hworld, hv.inside t he, hseg, Option.map_some]
    | upgrade limit arg =>
      obtain ⟨⟨c, o⟩, hup, heq⟩ := Option.map_eq_some_iff.mp hs
      cases heq
      refine ⟨⟨c, fun _ => none⟩, ?_, ⟨rfl, fun _ _ => rfl, fun _ _ => rfl⟩⟩
      simp only [step, hv.canister, hup, Option.map_some]

/-- Whatever outsiders do, and however their previews interleave with the rest, nobody
else notices. -/
theorem outsiders_unnoticed {ledgerId : Principal} {m : StableMemory} {tr : List ServiceEvent}
    (h : Run (Step candid) (NoControl outsider) (init ledgerId m) tr s) :
    ∃ s', Run (Step candid) anyEvent (init ledgerId m) (tr.filter (!fromOutside outsider ·)) s' ∧
      s'.canister = s.canister ∧
      (∀ t, outside outsider t = false → s'.tasks t = s.tasks t) ∧
      outputs (step candid) (init ledgerId m) (tr.filter (!fromOutside outsider ·)) =
        (outputs (step candid) (init ledgerId m) tr).filter (!fromOutside outsider ·.1) := by
  obtain ⟨s', hr, hv, hout⟩ := outsiders_unwind.purge h (without_init outsider ledgerId m)
  exact ⟨s', hr, hv.canister, hv.inside, hout⟩

/-- A preview of an outsider waits while the controller rebalances. -/
def onlooker : List ServiceEvent :=
  [call 0 (.addReserve Sample.reserve) 1,
   .task (.message 0 ⟨[7]⟩) (.call (.previewRebalanceReserve 0) [controller] 1),
   call 1 (.rebalanceReserve 0) 1,
   .task (.message 1 ⟨[7]⟩) (.call (.releaseStuckMintState 0 none) [controller] 2),
   .task (ours 1) (.balanceReply (.answered 30) 2),
   .task (.message 0 ⟨[7]⟩) (.balanceReply (.answered 30) 3),
   .task (ours 1) (.transferReply (.answered (.ok 6)))]

def noControlTest (outsider : Principal → Bool) (_ : Service) : ServiceEvent → Bool
  | .task (.message _ caller) (.call _ controllers _) =>
    !outsider caller || decide (caller ∉ controllers)
  | _ => true

theorem outsiders_unnoticed_sample : ∃ s s',
    Run (Step (Sample.candid [])) (NoControl (· == ⟨[7]⟩)) fresh onlooker s ∧
    Run (Step (Sample.candid [])) anyEvent fresh
      (onlooker.filter (!fromOutside (· == ⟨[7]⟩) ·)) s' ∧
    s'.canister = s.canister ∧ s.world.commits.length = 1 := by
  have hok : ∀ (s : Service) (e : ServiceEvent), noControlTest (· == ⟨[7]⟩) s e = true →
      NoControl (· == ⟨[7]⟩) s e := by
    rintro s e h n caller m controllers now rfl hout
    simp only [noControlTest, hout, Bool.not_true, Bool.false_or] at h
    exact of_decide_eq_true h
  have hrun : Run (Step (Sample.candid [])) (NoControl (· == ⟨[7]⟩)) fresh onlooker _ :=
    run_last (noControlTest (· == ⟨[7]⟩)) hok (by decide) (by decide)
  obtain ⟨s', hr, hcanister, -⟩ := outsiders_unnoticed hrun
  exact ⟨_, s', hrun, hr, hcanister, by decide⟩

end Service

end ViciMinter
