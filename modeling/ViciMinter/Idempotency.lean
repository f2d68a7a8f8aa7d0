import ViciMinter.Lock

/-!
# Idempotency keys

While a top-up is live its key is pending, so no second one gets past its first
segment; once it commits, the key is completed and nothing removes or replaces a
completed entry. `Recorded` says this of the commits so far, and every later
call with the key is answered from the entry.
-/

namespace ViciMinter

open Lts

namespace World

/-- A top-up that finds its key completed answers from the entry and does nothing. -/
theorem step_completed {w : World} {arg : ManualTopupArg} {k : String} {e : IdempotencyEntry}
    (hkey : arg.idempotencyKey = some k)
    (hk : w.state.idempotency[k]? = some (IdempotencyRecord.completed e)) (now : Nat) :
    w.step (.manualTopup arg now) =
      some (w.tick (.manualTopup arg now), .toppedUp (.ok e.response)) := by
  have h := manualTopupIssue_completed hkey hk now
  unfold step advance
  simp only [tick_state, h]
  rfl

/-- Every commit with a key is its key's only one, and the entry of the key. -/
structure Recorded (w : World) : Prop where
  once : w.commits.Pairwise fun c c' => ∀ k : String, c.key = some k → c'.key ≠ some k
  done : ∀ c ∈ w.commits, ∀ k : String, c.key = some k →
    w.state.idempotency[k]? = some (IdempotencyRecord.completed c.entry)

theorem Recorded.did {w w' : World} {e : Event} {o : Output} (hp : KeysPending w)
    (h : Recorded w) (hd : Did w e o w') : Recorded w' := by
  obtain ⟨honce, hdone⟩ := h
  cases hd with
  | quiet | added | updated | removed | policySet | issued => exact ⟨honce, hdone⟩
  | released =>
    exact ⟨honce, fun c hc k hk => dropPending_completed (hdone c hc k hk)⟩
  | begunRebalance => exact ⟨honce, fun c hc k hk => hdone c hc k hk⟩
  | begunTopup _ _ hfree =>
    refine ⟨honce, fun c hc k hk => ?_⟩
    have hck := hdone c hc k hk
    rw [suspend_state, begin_getElem?, if_neg]
    · exact hck
    · intro he
      simp [hfree k he] at hck
  | dropped | missed =>
    refine ⟨by simpa using honce, fun c hc k hk => ?_⟩
    exact dropPending_completed (hdone c (by simpa using hc) k hk)
  | @committed n op m record block _ _ hop =>
    -- the key of the new commit was pending, so no earlier commit has it
    have hnew : ∀ c ∈ w.commits, ∀ k : String, c.key = some k → op.key ≠ some k := by
      intro c hc k hk hk'
      have h1 := hdone c hc k hk
      rw [hp n op k hop hk'] at h1
      cases h1
    constructor
    · rw [finish_commits, List.pairwise_append]
      refine ⟨honce, List.pairwise_singleton _ _, fun c hc c' hc' k hk => ?_⟩
      rw [List.mem_singleton] at hc'
      subst hc'
      exact hnew c hc k hk
    · intro c hc k hk
      rw [finish_commits, List.mem_append, List.mem_singleton] at hc
      rw [finish_state, commit_getElem?]
      rcases hc with hc | rfl
      · rw [if_neg (hnew c hc k hk)]
        exact hdone c hc k hk
      · rw [if_pos hk]
        rfl
  | lost => exact ⟨by simpa using honce, fun c hc k hk => hdone c (by simpa using hc) k hk⟩

/-- What the runs of this module keep. -/
structure Keyed (w : World) : Prop where
  exclusive : ∀ r, Exclusive r w
  pending : KeysPending w
  recorded : Recorded w

theorem keyed_init (ledgerId : Principal) : Keyed (init ledgerId) where
  exclusive r := exclusive_init r ledgerId
  pending n op k h := by simp [init] at h
  recorded := ⟨.nil, by simp [init]⟩

theorem Keyed.step {w w' : World} {e : Event} (hi : ReleasesIdle w e) (h : Keyed w)
    (hs : Step w e w') : Keyed w' :=
  let ⟨_, hs'⟩ := hs
  { exclusive := fun r => (h.exclusive r).step (hi r) hs
    pending := h.pending.step hi h.exclusive hs
    recorded := Recorded.did (w := w.tick e) h.pending ⟨h.recorded.once, h.recorded.done⟩
      (step_did hs') }

theorem commits_step {w w' : World} {e : Event} (hs : Step w e w') : w.commits <+: w'.commits := by
  obtain ⟨o, hs⟩ := hs
  cases step_did hs with
  | committed | dropped | missed | lost => exact List.prefix_append _ _
  | _ => exact List.prefix_refl _

theorem commits_run {ok : World → Event → Prop} {w w' : World} {tr : List Event}
    (h : Run Step ok w tr w') : w.commits <+: w'.commits := by
  induction h with
  | nil => exact List.prefix_refl _
  | cons _ hs _ ih => exact (commits_step hs).trans ih

/-- The call whose top-up commits is itself answered with the entry. -/
theorem commit_answered {w w' : World} {e : Event} {o : Output} {c : Commit} {k : String}
    (hs : w.step e = some (w', o)) (hc : w'.commits = w.commits ++ [c]) (hk : c.key = some k) :
    o = .toppedUp (.ok c.entry.response) := by
  have hd := step_did hs
  cases hd with
  | @committed n op m record block _ _ hop hm _ _ ho =>
    rw [finish_commits, tick_commits, List.append_cancel_left_eq, List.cons.injEq] at hc
    obtain rfl := hc.1
    cases op with
    | awaitTopup t =>
      cases hm
      cases o with
      | toppedUp r => obtain ⟨_, ⟨⟩, rfl⟩ := ho; rfl
      | rebalanced r => obtain ⟨_, h, _⟩ := ho; cases h
      | _ => cases ho
    | awaitBalance | awaitRebalance => cases hk
  | _ => simp at hc

/-- A key commits at most once. The call that commits it and every call with the
key in any later state are answered alike, and the later ones do nothing else. -/
theorem key_commits_once {ledgerId : Principal} {tr : List Event} {w : World}
    (h : Run Step ReleasesIdle (init ledgerId) tr w) (k : String) :
    (w.commits.filter fun c => c.key = some k).length ≤ 1 ∧
    (∀ e w' o c, w.step e = some (w', o) → w'.commits = w.commits ++ [c] → c.key = some k →
      o = .toppedUp (.ok c.entry.response)) ∧
    ∀ c ∈ w.commits, c.key = some k → ∀ tr' w', Run Step ReleasesIdle w tr' w' →
      w'.state.idempotency[k]? = some (IdempotencyRecord.completed c.entry) ∧
      ∀ arg now, arg.idempotencyKey = some k → ∃ w'',
        w'.step (.manualTopup arg now) = some (w'', .toppedUp (.ok c.entry.response)) ∧
        w''.state = w'.state ∧ w''.ops = w'.ops ∧ w''.commits = w'.commits := by
  have hk := h.invariant (fun _ _ _ hi hk hs => Keyed.step hi hk hs) (keyed_init ledgerId)
  refine ⟨?_, fun e w' o c hs hc hck => commit_answered hs hc hck, ?_⟩
  · have hpair := (hk.recorded.once.filter fun c => c.key = some k).imp_of_mem
      (S := fun _ _ => False) fun ha hb hne =>
        hne k (of_decide_eq_true (List.mem_filter.mp ha).2)
          (of_decide_eq_true (List.mem_filter.mp hb).2)
    match hl : w.commits.filter fun c => c.key = some k with
    | [] | [_] => simp [hl]
    | a :: b :: l =>
      rw [hl, List.pairwise_cons] at hpair
      exact (hpair.1 b (by simp)).elim
  · intro c hc hck tr' w' h'
    have hk' := h'.invariant (fun _ _ _ hi hk hs => Keyed.step hi hk hs) hk
    have hdone := hk'.recorded.done c ((commits_run h').subset hc) k hck
    exact ⟨hdone, fun arg now harg =>
      ⟨w'.tick _, step_completed harg hdone now, rfl, rfl, rfl⟩⟩

/-- A top-up commits, and its reserve is removed. -/
def replaySample : List Event :=
  [.addReserve Sample.reserve, .manualTopup ⟨0, 5, some "k"⟩ 1,
    .transferReply 0 (.answered (.ok 7)), .removeReserve 0]

theorem key_commits_once_sample : ∃ w, Run Step ReleasesIdle (init Sample.ledgerId) replaySample w ∧
    w.commits = [⟨0, 0, some "k", ⟨1, 5⟩, 7⟩] ∧ w.state.reserves[(0 : ReserveId)]? = none ∧
    ∃ w', w.step (.manualTopup ⟨0, 5, some "k"⟩ 9) = some (w', .toppedUp (.ok ⟨0, 5, 7⟩)) ∧
      w'.state = w.state ∧ w'.ops = w.ops ∧ w'.commits = w.commits := by
  have h : Run Step ReleasesIdle (init Sample.ledgerId) replaySample
      (last step (init Sample.ledgerId) replaySample) :=
    run_last _ (fun w e h => (guarded_of_calm w e h).1) (by decide) (by decide)
  have hk := (key_commits_once h "k").2.2 ⟨0, 0, some "k", ⟨1, 5⟩, 7⟩ (by decide) rfl [] _ (.nil _)
  exact ⟨_, h, by decide, by decide, hk.2 ⟨0, 5, some "k"⟩ 9 rfl⟩

end World

end ViciMinter
