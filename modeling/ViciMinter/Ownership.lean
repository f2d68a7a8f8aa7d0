import ViciMinter.Lock

/-!
# Who owns a lock

After a forced release of a live operation its continuation still runs. The lock
is a bare reserve id and a pending entry names only the reserve, so the last
segment of such a stale operation releases whatever it finds there: `stale_ends`
is a run in which it takes the lock away from its successor.

`kept_iff_spares` says that this is the only way to lose it: an operation keeps
its lock and its pending key throughout exactly if no other operation on its
reserve ends, and no other top-up commits its key, while it is live.
-/

namespace ViciMinter

open Lts

namespace World

/-- No forced release of `r`, whatever is live. -/
def Unreleased (r : ReserveId) (_ : World) (e : Event) : Prop :=
  ∀ key, e ≠ .releaseStuckMintState r key

theorem unreleased_of_calm {r : ReserveId} (w : World) (e : Event) (h : e.calm = true) :
    Unreleased r w e := by
  rintro key rfl
  cases h

/-- If `n` is live, it holds its lock, its key is pending for it, and nothing
else begins on its reserve. -/
structure Kept (n : OpId) (w : World) : Prop where
  held : ∀ op, w.ops n = some op → op.reserveId ∈ w.state.reserveMintInflight
  pending : ∀ op (k : String), w.ops n = some op → op.key = some k →
    w.state.idempotency[k]? = some (IdempotencyRecord.pending op.reserveId)
  alone : ∀ op e w' o, w.ops n = some op → e.begins = some op.reserveId →
    w.step e = some (w', o) → w'.ops = w.ops ∧ w'.state = w.state

/-- While `n` is live, no other operation on its reserve ends and no other one
commits its key. -/
def Spares (n : OpId) (w : World) (e : Event) : Prop :=
  ∀ m op op', m ≠ n → w.ops n = some op → w.ops m = some op' →
    (op'.reserveId = op.reserveId → ¬ Ends m op' e) ∧
    ∀ k, op.key = some k → op'.key = some k → ¬ Commits w m op' e

theorem spares_of_resumes {n : OpId} (w : World) (e : Event)
    (h : e.resumes.all (· == n) = true) : Spares n w e := by
  intro m op op' hne _ _
  have hm : e.resumes ≠ some m := by
    intro he
    simp [he, hne] at h
  refine ⟨fun _ he => ?_, fun k _ _ hc => ?_⟩
  · rcases he with ⟨_, _, _, _, _, rfl, _⟩ | ⟨_, _, rfl⟩ <;> exact hm rfl
  · obtain ⟨_, _, _, rfl, _⟩ := hc
    exact hm rfl

/-- Operation `n` was on `r` with `key`, if it is still live. -/
def IsOn (n : OpId) (r : ReserveId) (key : Option String) (w : World) : Prop :=
  n < w.nextOp ∧ ∀ op, w.ops n = some op → op.reserveId = r ∧ op.key = key

theorem IsOn.did {n : OpId} {r : ReserveId} {key : Option String} {w w' : World} {e : Event}
    {o : Output} (h : IsOn n r key w) (hd : Did w e o w') : IsOn n r key w' := by
  refine ⟨Nat.lt_of_lt_of_le h.1 hd.nextOp_le, fun op hop => ?_⟩
  rcases hd.origin hop with ⟨old, hold, hid, hkey⟩ | hb
  · rw [← hid, ← hkey]
    exact h.2 old hold
  · exact (Nat.lt_irrefl _ (hb.next ▸ h.1)).elim

theorem IsOn.step {n : OpId} {r : ReserveId} {key : Option String} {w w' : World} {e : Event}
    (h : IsOn n r key w) (hs : Step w e w') : IsOn n r key w' :=
  let ⟨_, hs⟩ := hs
  IsOn.did (w := w.tick e) h (step_did hs)

/-- The lock and the key, without what follows from them. -/
structure Holds (n : OpId) (w : World) : Prop where
  held : ∀ op, w.ops n = some op → op.reserveId ∈ w.state.reserveMintInflight
  pending : ∀ op (k : String), w.ops n = some op → op.key = some k →
    w.state.idempotency[k]? = some (IdempotencyRecord.pending op.reserveId)

theorem Holds.did {n : OpId} {r : ReserveId} {key : Option String} {w w' : World} {e : Event}
    {o : Output} (hu : Unreleased r w e) (hs : Spares n w e) (hon : IsOn n r key w)
    (h : Holds n w) (hd : Did w e o w') : Holds n w' := by
  have hrel : ∀ old, w.ops n = some old → ∀ key, e ≠ .releaseStuckMintState old.reserveId key :=
    fun old hold key => (hon.2 old hold).1 ▸ hu key
  have hne : ∀ op m, w'.ops n = some op → w'.ops m = none → m ≠ n := by
    rintro op m hop hend rfl
    simp [hop] at hend
  refine ⟨fun op hop => ?_, fun op k hop hk => ?_⟩
  · rcases hd.origin hop with ⟨old, hold, hid, -⟩ | hb
    · rw [← hid]
      rcases hd.unlocked (h.held old hold) with hr | ⟨key, he⟩ | ⟨m, op', hop', hid', hends, hend⟩
      · exact hr
      · exact (hrel old hold key he).elim
      · exact ((hs m old op' (hne op m hop hend) hold hop').1 hid' hends).elim
    · exact hb.locked
  · rcases hd.origin hop with ⟨old, hold, hid, hkey⟩ | hb
    · rw [← hid]
      have hk := hkey.trans hk
      rcases hd.unpended (h.pending old k hold hk) with
        hp | ⟨key, he⟩ | ⟨m, op', hop', hk', hend, hends⟩
      · exact hp
      · exact (hrel old hold key he).elim
      · have hspare := hs m old op' (hne op m hop hend) hold hop'
        rcases hends with ⟨hid', hends⟩ | hcommits
        · exact (hspare.1 hid' hends).elim
        · exact (hspare.2 k hk hk' hcommits).elim
    · exact hb.pending k hk

/-- A held lock refuses every operation on its reserve. -/
theorem Did.refused_of_locked {w w' : World} {e : Event} {o : Output} {r : ReserveId}
    (hd : Did w e o w') (hl : r ∈ w.state.reserveMintInflight) (hb : e.begins = some r) :
    o.calls = false ∧ w'.ops = w.ops ∧ w'.state = w.state := by
  cases hd with
  | quiet _ ho => exact ⟨ho.calls, rfl, rfl⟩
  | begunRebalance _ hfree | begunTopup _ hfree => cases hb; exact (hfree hl).elim
  | dropped _ h => rcases h with ⟨_, _, _, _, _, rfl, _⟩ | ⟨_, _, _, rfl, _⟩ <;> cases hb
  | added | updated | removed | policySet | released | issued | committed | missed | lost =>
    cases hb

theorem kept_iff_holds {n : OpId} {w : World} : Kept n w ↔ Holds n w :=
  ⟨fun h => ⟨h.held, h.pending⟩,
    fun h => ⟨h.held, h.pending, fun op _ _ _ hop hb hs =>
      ((step_did hs).refused_of_locked (h.held op hop) hb).2⟩⟩

theorem Holds.tick {n : OpId} {w : World} {e : Event} (h : Holds n w) : Holds n (w.tick e) :=
  ⟨h.held, h.pending⟩

theorem Kept.step {n : OpId} {r : ReserveId} {key : Option String} {w w' : World} {e : Event}
    (hu : Unreleased r w e) (hs : Spares n w e) (hon : IsOn n r key w) (h : Kept n w)
    (hstep : Step w e w') : Kept n w' :=
  let ⟨_, hstep⟩ := hstep
  kept_iff_holds.mpr
    (Holds.did (w := w.tick e) hu hs hon (kept_iff_holds.mp h).tick (step_did hstep))

theorem unlocked_of_ends {w w' : World} {e : Event} {o : Output} {m : OpId} {op : Op}
    (hop : w.ops m = some op) (he : Ends m op e) (hd : Did w e o w') :
    op.reserveId ∉ w'.state.reserveMintInflight ∧ ∀ n, n ≠ m → w'.ops n = w.ops n := by
  have hm : e.resumes = some m := by
    rcases he with ⟨_, _, _, _, _, rfl, _⟩ | ⟨_, _, rfl⟩ <;> rfl
  cases hd with
  | quiet h => simp [hm] at h
  | added | updated | removed | policySet | released | begunRebalance | begunTopup => cases hm
  | issued hop' hk =>
    cases hm
    rw [hop] at hop'
    cases hop'
    rcases he with ⟨_, _, _, _, h1, h2, h3⟩ | ⟨_, h, _⟩
    · cases h1
      cases h2
      exact (h3 _ hk.decided).elim
    · cases h
  | @dropped m' op' _ _ hop' h =>
    have : m' = m := by
      rcases h with ⟨_, _, _, _, _, rfl, _⟩ | ⟨_, _, _, rfl, _⟩ <;> cases hm <;> rfl
    subst this
    cases hop.symm.trans hop'
    exact ⟨by simp, fun n hn => by simp [hn]⟩
  | committed hop' | missed hop' =>
    cases hm
    cases hop.symm.trans hop'
    exact ⟨by simp, fun n hn => by simp [hn]⟩
  | lost => rcases he with ⟨_, _, _, _, _, h, _⟩ | ⟨_, _, h⟩ <;> cases h

theorem completed_of_commits {w w' : World} {e : Event} {o : Output} {m : OpId} {op : Op}
    {k : String} (hop : w.ops m = some op) (hk : op.key = some k) (hc : Commits w m op e)
    (hd : Did w e o w') : ∃ entry, w'.state.idempotency[k]? =
      some (IdempotencyRecord.completed entry) := by
  obtain ⟨reply, block, -, rfl, hr, record, hrec⟩ := hc
  cases hd with
  | quiet h => cases h
  | dropped _ h =>
    rcases h with ⟨_, _, _, _, _, h, _⟩ | ⟨_, _, _, h, hr'⟩
    · cases h
    · cases h
      simp [hr] at hr'
  | committed hop' =>
    cases hop.symm.trans hop'
    exact ⟨_, by rw [finish_state, commit_getElem?, if_pos hk]⟩
  | missed hop' _ hnone =>
    cases hop.symm.trans hop'
    simp [hrec] at hnone

/-- Conversely, a step that does not spare `n` takes its lock or its key away. -/
theorem spares_of_kept {n : OpId} {w w' : World} {e : Event} (hstep : Step w e w')
    (h : Kept n w') : Spares n w e := by
  intro m op op' hne hop hop'
  obtain ⟨o, hstep⟩ := hstep
  have hd := step_did hstep
  refine ⟨fun hid he => ?_, fun k hk hk' hc => ?_⟩
  · obtain ⟨hfree, hops⟩ := unlocked_of_ends (w := w.tick e) hop' he hd
    have := h.held op ((hops n hne.symm).trans hop)
    exact hfree (hid ▸ this)
  · have he : Ends m op' e := by
      obtain ⟨reply, _, hm, rfl, -⟩ := hc
      exact .inr ⟨reply, hm, rfl⟩
    obtain ⟨-, hops⟩ := unlocked_of_ends (w := w.tick e) hop' he hd
    have hp := h.pending op k ((hops n hne.symm).trans hop) hk
    obtain ⟨entry, hentry⟩ := completed_of_commits (w := w.tick e) hop' hk' hc hd
    simp [hp] at hentry

theorem holds_of_begun {w w' : World} {e : Event} {op : Op} (hf : Fresh w) (hs : Step w e w')
    (hop : w'.ops w.nextOp = some op) :
    Holds w.nextOp w' ∧ IsOn w.nextOp op.reserveId op.key w' := by
  have hf' := hf.step hs
  obtain ⟨o, hs⟩ := hs
  have hd := step_did hs
  rcases hd.origin hop with ⟨old, hold, -⟩ | hb
  · cases (hf w.nextOp (Nat.le_refl _)).symm.trans hold
  · refine ⟨⟨fun op' hop' => ?_, fun op' k hop' hk => ?_⟩, ?_, fun op' hop' => ?_⟩
    · cases hop.symm.trans hop'
      exact hb.locked
    · cases hop.symm.trans hop'
      exact hb.pending k hk
    · refine Nat.lt_of_not_le fun hle => ?_
      cases (hf' w.nextOp hle).symm.trans hop
    · cases hop.symm.trans hop'
      exact ⟨rfl, rfl⟩

/-- From the step that begins an operation on, and while its reserve is not
force-released, the operation keeps its lock and key in every state exactly if
every step spares it. -/
theorem kept_iff_spares {ledgerId : Principal} {tr₀ tr : List Event} {w₀ w₁ w : World} {e : Event}
    {op : Op} (h₀ : Run Step anyEvent (init ledgerId) tr₀ w₀) (hb : Step w₀ e w₁)
    (hop : w₁.ops w₀.nextOp = some op) (h : Run Step (Unreleased op.reserveId) w₁ tr w) :
    Run Step (fun w _ => Kept w₀.nextOp w) w₁ tr w ∧ Kept w₀.nextOp w ↔
      Run Step (Spares w₀.nextOp) w₁ tr w := by
  have hf : Fresh w₀ := h₀.invariant (fun _ _ _ _ hf hs => hf.step hs) (fresh_init ledgerId)
  constructor
  · rintro ⟨hr, hk⟩
    exact (hr.around hk).mono fun _ _ ⟨_, hs, _, hk⟩ => spares_of_kept hs hk
  · intro hr
    obtain ⟨hh, hon⟩ := holds_of_begun hf hb hop
    have hstep : ∀ s e t, Unreleased op.reserveId s e ∧ Spares w₀.nextOp s e →
        (Kept w₀.nextOp s ∧ IsOn w₀.nextOp op.reserveId op.key s) → Step s e t →
        Kept w₀.nextOp t ∧ IsOn w₀.nextOp op.reserveId op.key t := by
      rintro s e t ⟨hu, hsp⟩ ⟨hk, hon⟩ hs
      exact ⟨hk.step hu hsp hon hs, hon.step hs⟩
    have hrun := h.and hr
    have hstart := And.intro (kept_iff_holds.mpr hh) hon
    exact ⟨(hrun.strengthen hstep hstart).mono fun _ _ h => h.2.1,
      (hrun.invariant hstep hstart).1⟩

/-- A rebalance begins and is force-released. -/
def staleSample : List Event :=
  [.addReserve Sample.reserve, .rebalance 0, .releaseStuckMintState 0 none]

def staleReleased : World := last step (init Sample.ledgerId) staleSample

def staleSuccessor : World := last step staleReleased [.rebalance 0]

def staleOp : Op :=
  .awaitBalance 0 ⟨Sample.ledgerId, Sample.reserve.config, 0, [], GlobalPolicy.default⟩

/-- The force-released rebalance ends and takes the lock of its successor. -/
theorem stale_ends : ∃ w, Run Step anyEvent (init Sample.ledgerId) staleSample staleReleased ∧
    Step staleReleased (.rebalance 0) staleSuccessor ∧
    staleSuccessor.ops staleReleased.nextOp = some staleOp ∧
    Run Step (Unreleased 0) staleSuccessor [.balanceReply 0 (.callFailed "timeout") 1] w ∧
    w.ops staleReleased.nextOp = some staleOp ∧
    staleOp.reserveId ∉ w.state.reserveMintInflight :=
  ⟨_, run_last_any (by decide), step_last (by decide), by decide,
    run_last _ unreleased_of_calm (by decide) (by decide), by decide, by decide⟩

/-- While the stale operation waits, its successor keeps the lock. -/
theorem kept_iff_spares_sample : ∃ w,
    Run Step (Unreleased 0) staleSuccessor [.balanceReply 1 (.answered 40) 1] w ∧
    w.ops 0 = some staleOp ∧ Kept staleReleased.nextOp w := by
  have h : Run Step (Unreleased staleOp.reserveId) staleSuccessor
      [.balanceReply 1 (.answered 40) 1] _ := run_last _ unreleased_of_calm (by decide) (by decide)
  have hs : Run Step (Spares staleReleased.nextOp) staleSuccessor
      [.balanceReply 1 (.answered 40) 1] _ := run_last _ spares_of_resumes (by decide) (by decide)
  exact ⟨_, h, by decide,
    ((kept_iff_spares (run_last_any (by decide)) (step_last (by decide)) (by decide) h).mpr hs).2⟩

end World

end ViciMinter
