import ViciMinter.Ownership
import ViciMinter.Solo

/-!
# Failed operations

An operation that fails undoes what it did: a call that is refused changes
nothing, and the last segment of a failed operation releases a lock and drops a
pending key. When nothing ran in between they are its own, and the state is
again what it was.

When others ran, they are its own if they were there all the time. After an
operation has lost its lock another one can take it, and `stale_fails` is a run
in which the first one then fails and takes it away. `traceless_iff` says that
this is the only way.
-/

namespace ViciMinter

open Lts

/-- The result of an operation that failed, or found nothing to mint. -/
def Output.unminted : Output → Prop
  | .rebalanced (.ok r) => r.action ≠ .minted
  | .rebalanced (.error e) => e.isFault = false
  | .toppedUp (.error e) => e.isFault = false
  | _ => False

instance (o : Output) : Decidable o.unminted :=
  match o with
  | .rebalanced (.ok r) => inferInstanceAs (Decidable (r.action ≠ .minted))
  | .rebalanced (.error e) | .toppedUp (.error e) =>
    inferInstanceAs (Decidable (e.isFault = false))
  | .toppedUp (.ok _) | .added _ | .updated _ | .removed _ | .policySet _ | .released _
  | .balanceCall _ _ _ | .transferCall _ _ _ | .lost => .isFalse id

namespace World

section
variable {w w' : World} {e : Event} {o : Output}

theorem Did.refused (hd : Did w e o w') (he : e.resumes = none) (ho : o.unminted) :
    w'.state = w.state := by
  cases hd with
  | quiet => rfl
  | added | updated | removed | policySet | released | begunRebalance | begunTopup => exact ho.elim
  | dropped _ h => rcases h with ⟨_, _, _, _, _, rfl, _⟩ | ⟨_, _, _, rfl, _⟩ <;> cases he
  | issued | committed | missed | lost => cases he

theorem Did.undone {n : OpId} {op : Op} (hd : Did w e o w') (hop : w.ops n = some op)
    (hend : w'.ops n = none) (ho : o.unminted) :
    w'.state = w.state.drop op.reserveId op.key := by
  cases hd with
  | quiet | added | updated | removed | policySet | released => cases hop.symm.trans hend
  | begunRebalance | begunTopup | issued => exact ho.elim
  | @dropped m op' _ _ hop' =>
    by_cases hn : n = m
    · subst hn
      cases hop.symm.trans hop'
      rfl
    · simp [hn, hop] at hend
  | committed _ _ _ _ hm =>
    cases o with
    | rebalanced | toppedUp =>
      obtain ⟨_, _, rfl⟩ := hm
      first
        | exact (ho rfl).elim
        | exact ho.elim
    | _ => exact ho.elim
  | missed _ _ _ _ hm =>
    cases o with
    | rebalanced | toppedUp =>
      cases hm
      cases ho
    | _ => exact ho.elim
  | lost => exact ho.elim

theorem Did.midway {n : OpId} (hd : Did w e o w') (he : e.resumes = some n)
    (hlive : w'.ops n ≠ none) : w'.state = w.state := by
  cases hd with
  | quiet h => cases h.symm.trans he
  | added | updated | removed | policySet | released | begunRebalance | begunTopup => cases he
  | issued => rfl
  | dropped _ h =>
    rcases h with ⟨_, _, _, _, _, rfl, _⟩ | ⟨_, _, _, rfl, _⟩ <;> cases he <;> simp at hlive
  | committed | missed | lost =>
    cases he
    simp at hlive

theorem refused_of_pending {r : ReserveId} {k : String} (hd : Did w e o w')
    (hk : w.state.idempotency[k]? = some (IdempotencyRecord.pending r)) (hkey : e.key = some k) :
    o.calls = false := by
  cases hd with
  | quiet _ ho => exact ho.calls
  | begunTopup _ _ hfree =>
    cases (hfree k hkey).symm.trans hk
  | dropped _ _ ho => exact ho.calls
  | committed _ _ _ _ ho => exact ho.calls
  | missed _ _ _ _ ho => exact ho.calls
  | added | updated | removed | policySet | released | lost => rfl
  | begunRebalance | issued => cases hkey

end

def NoBegin (r : ReserveId) (w : World) (e : Event) : Prop :=
  e.begins = some r → ∀ w' o, w.step e = some (w', o) → o.calls = false

def NoBeginKey (r : ReserveId) (k : String) (w : World) (e : Event) : Prop :=
  e.begins = some r → e.key = some k → ∀ w' o, w.step e = some (w', o) → o.calls = false

/-- Lock and pending key, if they are there at the end, were there all along. -/
structure OwnAtEnd (r : ReserveId) (key : Option String) (w₁ : World) (tr : List Event)
    (w : World) : Prop where
  lock : r ∈ w.state.reserveMintInflight →
    Run Step (fun v _ => r ∈ v.state.reserveMintInflight) w₁ tr w
  key : ∀ k : String, key = some k →
    w.state.idempotency[k]? = some (IdempotencyRecord.pending r) →
    Run Step (fun v _ => v.state.idempotency[k]? = some (IdempotencyRecord.pending r)) w₁ tr w

/-- If lock or pending key are there at the end, no other operation has taken them. -/
structure NotTaken (r : ReserveId) (key : Option String) (w₁ : World) (tr : List Event)
    (w : World) : Prop where
  lock : r ∈ w.state.reserveMintInflight → Run Step (NoBegin r) w₁ tr w
  key : ∀ k : String, key = some k →
    w.state.idempotency[k]? = some (IdempotencyRecord.pending r) →
    Run Step (NoBeginKey r k) w₁ tr w

theorem ownAtEnd_iff {r : ReserveId} {key : Option String} {w₁ w : World} {tr : List Event} :
    OwnAtEnd r key w₁ tr w ↔ NotTaken r key w₁ tr w := by
  constructor
  · intro ho
    refine ⟨fun hr => (ho.lock hr).mono ?_, fun k hkey hk => (ho.key k hkey hk).mono ?_⟩
    · exact fun v e hv hb v' o hs => ((step_did hs).refused_of_locked hv hb).1
    · exact fun v e hv _ hkey v' o hs => refused_of_pending (w := v.tick e) (step_did hs) hv hkey
  · intro hn
    refine ⟨fun hr => (hn.lock hr).backward ?_ hr, fun k hkey hk => (hn.key k hkey hk).backward ?_ hk⟩
    · rintro v e v' hno ⟨o, hs⟩ hv'
      rcases (step_did hs).relocked hv' with hv | ⟨-, hb, hc⟩
      · exact hv
      · cases (hno hb v' o hs).symm.trans hc
    · rintro v e v' hno ⟨o, hs⟩ hv'
      rcases (step_did hs).pended hv' with hv | ⟨-, hb, hkey', hc⟩
      · exact hv
      · cases (hno hb hkey' v' o hs).symm.trans hc

/-- What operation `n` on `r` with `key` has done: it took lock and key from `w₀`
to `w₁`, and gave back no others from `w` to `w'`. -/
structure Traceless (n : OpId) (r : ReserveId) (key : Option String) (w₀ w₁ : World)
    (tr : List Event) (w w' : World) : Prop where
  unlocked : r ∉ w₀.state.reserveMintInflight
  free : ∀ k ∈ key, w₀.state.idempotency[k]? = none
  begun : w₁.state = w₀.state.begin r key
  midway : ∀ v e v', Step v e v' → e.resumes = some n → v'.ops n ≠ none → v'.state = v.state
  undone : w'.state = w.state.drop r key
  own : OwnAtEnd r key w₁ tr w

theorem Did.begun {w w' : World} {e : Event} {o : Output} {op : Op} (hd : Did w e o w')
    (hn : w.ops w.nextOp = none) (hop : w'.ops w.nextOp = some op) :
    op.reserveId ∉ w.state.reserveMintInflight ∧
    (∀ k ∈ op.key, w.state.idempotency[k]? = none) ∧
    w'.state = w.state.begin op.reserveId op.key := by
  have hnew : ∀ {s : State} {op' : Op}, (w.suspend s op').ops w.nextOp = some op → op' = op := by
    intro s op' h
    simpa using h
  cases hd with
  | quiet | added | updated | removed | policySet | released => cases hn.symm.trans hop
  | begunRebalance _ hlock =>
    obtain rfl := hnew hop
    exact ⟨hlock, nofun, rfl⟩
  | begunTopup _ hlock hkey =>
    obtain rfl := hnew hop
    exact ⟨hlock, hkey, rfl⟩
  | issued hop' =>
    rcases update_eq_some.mp hop with ⟨rfl, -⟩ | ⟨-, h⟩
    · cases hn.symm.trans hop'
    · cases hn.symm.trans h
  | dropped | committed | missed | lost => cases hn.symm.trans (finish_ops_some.mp hop).2

/-- Failed calls and operations leave the state as it was. An operation that is
interrupted and fails has given back no lock and no key but its own, exactly if
those it finds in the end were not taken by an operation that began after it. -/
theorem traceless_iff {ledgerId : Principal} {tr₀ tr : List Event} {w₀ w₁ w w' : World}
    {e e' : Event} {op op' : Op} {o : Output} (h₀ : Run Step anyEvent (init ledgerId) tr₀ w₀)
    (hb : Step w₀ e w₁) (hop : w₁.ops w₀.nextOp = some op) (h : Run Step anyEvent w₁ tr w)
    (hlive : w.ops w₀.nextOp = some op') (hs : w.step e' = some (w', o))
    (hend : w'.ops w₀.nextOp = none) (ho : o.unminted) :
    ((∀ s arg s' err, addReserveImpl s arg = (s', .error err) → s' = s) ∧
      (∀ s arg s' err, updateReserveImpl s arg = (s', .error err) → s' = s) ∧
      ∀ s id s' err, removeReserveImpl s id = (s', .error err) → s' = s) ∧
    ((∀ env s id, (∀ r, (rebalanceOne env s id).2 = .ok r → r.action ≠ .minted) →
        (rebalanceOne env s id).1 = s) ∧
      ∀ s arg now reply s' err, manualTopupReserveImpl s arg now reply = (s', .error err) →
        s' = s) ∧
    (∀ (v : World) ev v' out, v.step ev = some (v', out) → ev.resumes = none → out.unminted →
      v'.state = v.state) ∧
    (Traceless w₀.nextOp op.reserveId op.key w₀ w₁ tr w w' ↔
      NotTaken op.reserveId op.key w₁ tr w) := by
  have hf : Fresh w₀ := h₀.invariant (fun _ _ _ _ hf hs => hf.step hs) (fresh_init ledgerId)
  refine ⟨⟨fun s arg s' err he => ?_, fun s arg s' err he => ?_, fun s id s' err he => ?_⟩,
    ⟨fun env s id hno => ?_, fun s arg now reply s' err he => manualTopupReserveImpl_error he⟩,
    fun v ev v' out hv hres hout => Did.refused (w := v.tick ev) (step_did hv) hres hout,
    fun ht => ownAtEnd_iff.mp ht.own, fun hn => ?_⟩
  · rcases addReserveImpl_cases s arg with ⟨err', h'⟩ | ⟨h', -⟩ <;> cases he.symm.trans h'
    rfl
  · rcases updateReserveImpl_cases s arg with ⟨err', h'⟩ | ⟨record, updated, -, -, -, h'⟩ <;>
      cases he.symm.trans h'
    rfl
  · rcases removeReserveImpl_cases s id with ⟨err', h'⟩ | ⟨record, -, -, -, h'⟩ <;>
      cases he.symm.trans h'
    rfl
  · rcases rebalanceOne_cases env s id with h' | ⟨record, k, block, -, h'⟩
    · exact h'
    · exact (hno _ (congrArg Prod.snd h') rfl).elim
  · obtain ⟨-, hon⟩ := holds_of_begun hf hb hop
    have hon : IsOn w₀.nextOp op.reserveId op.key w :=
      h.invariant (fun _ _ _ _ hon hs => hon.step hs) hon
    obtain ⟨hid, hkey⟩ := hon.2 op' hlive
    obtain ⟨o₁, hb⟩ := hb
    obtain ⟨hlock, hfree, hbegun⟩ :=
      Did.begun (w := w₀.tick e) (step_did hb) (hf _ (Nat.le_refl _)) hop
    have hundone := Did.undone (w := w.tick e') (step_did hs) hlive hend ho
    rw [hid, hkey] at hundone
    exact ⟨hlock, hfree, hbegun, fun v ev v' ⟨_, hv⟩ => (step_did hv).midway, hundone,
      ownAtEnd_iff.mpr hn⟩

/-- A stale rebalance fails and frees the lock of its successor, and a third
rebalance takes it. -/
def staleThird : List Event := [.balanceReply 0 (.callFailed "timeout") 1, .rebalance 0]

/-- The successor fails and takes the lock away from the third rebalance. -/
theorem stale_fails : ∃ w w' o,
    Run Step anyEvent (init Sample.ledgerId) staleSample staleReleased ∧
    Step staleReleased (.rebalance 0) staleSuccessor ∧
    staleSuccessor.ops staleReleased.nextOp = some staleOp ∧
    Run Step (Unreleased 0) staleSuccessor staleThird w ∧
    w.ops staleReleased.nextOp = some staleOp ∧
    w.step (.balanceReply 1 (.callFailed "timeout") 2) = some (w', o) ∧
    w'.ops staleReleased.nextOp = none ∧ o.unminted ∧
    ¬ Traceless staleReleased.nextOp 0 none staleReleased staleSuccessor staleThird w w' ∧
    w.ops 2 = some staleOp ∧ w'.ops 2 = some staleOp ∧
    0 ∈ w.state.reserveMintInflight ∧ 0 ∉ w'.state.reserveMintInflight := by
  refine ⟨last step staleSuccessor staleThird, _, _, run_last_any (by decide),
    step_last (by decide), by decide, run_last _ unreleased_of_calm (by decide) (by decide),
    by decide, step_last_eq (o := .rebalanced (.error (.ledgerError
      "Balance query failed: timeout"))) (by decide), by decide, by decide, fun h => ?_, by decide,
    by decide, by decide, by decide⟩
  have hheld := h.own.lock (by decide)
  have htest : okAlong step (fun v _ => decide ((0 : ReserveId) ∈ v.state.reserveMintInflight))
      staleSuccessor staleThird = true := okAlong_of_run (hheld.mono fun _ _ => decide_eq_true)
  revert htest
  decide

theorem noBegin_of_begins {r : ReserveId} (w : World) (e : Event)
    (h : decide (e.begins ≠ some r) = true) : NoBegin r w e :=
  fun hb => (of_decide_eq_true h hb).elim

def begunSample : World := last step (Sample.registered Sample.reserve) [.rebalance 0]

def updateSample : List Event := [.updateReserve { Sample.update with targetBalance := some 50 }]

theorem traceless_iff_sample : ∃ w w', Run Step anyEvent begunSample updateSample w ∧
    Step w (.balanceReply 0 (.callFailed "timeout") 1) w' ∧
    Traceless 0 0 none (Sample.registered Sample.reserve) begunSample updateSample w w' := by
  have h₀ : Run Step anyEvent (init Sample.ledgerId) [.addReserve Sample.reserve]
      (Sample.registered Sample.reserve) := run_last_any (by decide)
  have hb : Step (Sample.registered Sample.reserve) (.rebalance 0) begunSample :=
    step_last (by decide)
  have hop : begunSample.ops 0 = some staleOp := by decide
  have hr : Run Step (NoBegin 0) begunSample updateSample (last step begunSample updateSample) :=
    run_last _ noBegin_of_begins (by decide) (by decide)
  have hany : Run Step anyEvent begunSample updateSample _ := hr.mono fun _ _ _ => trivial
  have hs : (last step begunSample updateSample).step (.balanceReply 0 (.callFailed "timeout") 1) =
      some (_, .rebalanced (.error (.ledgerError "Balance query failed: timeout"))) :=
    step_last_eq (by decide)
  exact ⟨_, _, hany, ⟨_, hs⟩, (traceless_iff h₀ hb hop hany hop hs (by decide)
    (by decide)).2.2.2.mpr ⟨fun _ => hr, nofun⟩⟩

end World

end ViciMinter
