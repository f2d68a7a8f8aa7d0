import ViciMinter.Lock

/-!
# Recovery from lost operations

Operations that are lost leave the lock of their reserve and their keys behind;
`release_stuck_mint_state` without a key frees the lock alone, so lost keys pile
up. Once the keys pending for a reserve are released one by one, in any order,
nothing of it is taken any more (`Unstuck`), and nothing else has changed
(`OnlyReleased`).
-/

namespace ViciMinter

open Lts

/-! ## Pending keys -/

theorem IdempotencyRecord.isPendingFor_iff {id : ReserveId} {r : IdempotencyRecord} :
    r.isPendingFor id = true ↔ r = .pending id := by
  cases r <;> simp [isPendingFor]

/-- The keys that are pending for `id`. -/
def State.pendingKeys (s : State) (id : ReserveId) : List String :=
  (s.idempotency.toList.filter fun p => p.2.isPendingFor id).map Prod.fst

theorem mem_pendingKeys {s : State} {id : ReserveId} {k : String} :
    k ∈ s.pendingKeys id ↔ s.idempotency[k]? = some (IdempotencyRecord.pending id) := by
  simp only [State.pendingKeys, List.mem_map, List.mem_filter, Prod.exists, exists_and_right,
    exists_eq_right, IdempotencyRecord.isPendingFor_iff, exists_eq_right,
    Std.ExtTreeMap.mem_toList_iff_getElem?_eq_some]

theorem pendingKeys_nodup (s : State) (id : ReserveId) : (s.pendingKeys id).Nodup := by
  unfold State.pendingKeys
  refine List.pairwise_map.mpr (List.Pairwise.filter _ ?_)
  refine Std.ExtTreeMap.distinct_keys_toList.imp fun hne heq => hne ?_
  exact Std.LawfulEqCmp.compare_eq_iff_eq.mpr heq

/-! ## What a release leaves -/

/-- `s'` differs from `s` in the lock of `id` and the keys pending for it at most. -/
structure OnlyReleased (id : ReserveId) (s s' : State) : Prop where
  ledgerId : s'.ledgerId = s.ledgerId
  nextReserveId : s'.nextReserveId = s.nextReserveId
  reserves : s'.reserves = s.reserves
  globalPolicy : s'.globalPolicy = s.globalPolicy
  inflight : ∀ r, r ≠ id → (r ∈ s'.reserveMintInflight ↔ r ∈ s.reserveMintInflight)
  idempotency : ∀ (k : String) r, r ≠ IdempotencyRecord.pending id →
    (s'.idempotency[k]? = some r ↔ s.idempotency[k]? = some r)

/-- Neither the lock of `id` nor a key is taken for it. -/
structure Unstuck (id : ReserveId) (s : State) : Prop where
  lock : id ∉ s.reserveMintInflight
  keys : ∀ k : String, s.idempotency[k]? ≠ some (IdempotencyRecord.pending id)

section
variable {s s' s'' : State} {id : ReserveId} {record : ReserveRecord}

theorem OnlyReleased.refl (id : ReserveId) (s : State) : OnlyReleased id s s :=
  ⟨rfl, rfl, rfl, rfl, fun _ _ => Iff.rfl, fun _ _ _ => Iff.rfl⟩

theorem OnlyReleased.trans (h : OnlyReleased id s s') (h' : OnlyReleased id s' s'') :
    OnlyReleased id s s'' where
  ledgerId := h'.ledgerId.trans h.ledgerId
  nextReserveId := h'.nextReserveId.trans h.nextReserveId
  reserves := h'.reserves.trans h.reserves
  globalPolicy := h'.globalPolicy.trans h.globalPolicy
  inflight r hr := (h'.inflight r hr).trans (h.inflight r hr)
  idempotency k r hr := (h'.idempotency k r hr).trans (h.idempotency k r hr)

theorem onlyReleased_drop (s : State) (id : ReserveId) (key : Option String) :
    OnlyReleased id s (s.drop id key) where
  ledgerId := rfl
  nextReserveId := rfl
  reserves := rfl
  globalPolicy := rfl
  inflight r hr := by
    rw [mem_drop]
    exact and_iff_right hr.symm
  idempotency k r hr := by
    rw [drop_idempotency, dropPending_getElem?]
    split
    · next h =>
      rw [h.2, Option.some.injEq]
      constructor
      · intro hnone
        cases hnone
      · intro heq
        exact (hr heq.symm).elim
    · rfl

/-- A key that was pending for `id` is free. -/
theorem Unstuck.free (h : Unstuck id s') (hr : OnlyReleased id s s') {k : String}
    (hk : s.idempotency[k]? = some (IdempotencyRecord.pending id)) : s'.idempotency[k]? = none := by
  cases hk' : s'.idempotency[k]? with
  | none => rfl
  | some r =>
    have hne : r ≠ IdempotencyRecord.pending id := by
      rintro rfl
      exact h.keys k hk'
    rw [hr.idempotency k r hne, hk, Option.some.injEq] at hk'
    exact (hne hk'.symm).elim

theorem Unstuck.removeReserveImpl (h : Unstuck id s) (hrec : s.reserves[id]? = some record) :
    removeReserveImpl s id = ({ s with reserves := s.reserves.erase id }, .ok record.config) := by
  have hpend : (s.idempotency.toList.any fun p => p.2.isPendingFor id) = false := by
    rw [List.any_eq_false]
    rintro ⟨k, r⟩ hmem hr
    rw [IdempotencyRecord.isPendingFor_iff] at hr
    rw [Std.ExtTreeMap.mem_toList_iff_getElem?_eq_some] at hmem
    exact h.keys k (hmem.trans (congrArg some hr))
  simp [ViciMinter.removeReserveImpl, h.lock, hpend, hrec]

theorem Unstuck.rebalanceBegin (h : Unstuck id s) (hrec : s.reserves[id]? = some record) :
    rebalanceBegin s id = (s.begin id none, .ok (s.snapshot record)) := by
  simp [ViciMinter.rebalanceBegin, hrec, h.lock, State.begin, State.setKey]

theorem Unstuck.manualTopupBegin (h : Unstuck id s) (hrec : s.reserves[id]? = some record)
    {k : String} (hk : s.idempotency[k]? = none) (amount : Nat) :
    manualTopupBegin s ⟨id, amount, some k⟩ =
      (s.begin id (some k), .ok (.started (s.snapshot record))) := by
  simp [ViciMinter.manualTopupBegin, manualTopupStart, hk, hrec, h.lock, State.begin]

/-- A key that is not pending for another reserve is released. -/
theorem releaseStuckMintStateImpl_ok {key : Option String}
    (h : ∀ k ∈ key, ∀ r, s.idempotency[k]? = some (IdempotencyRecord.pending r) → r = id) :
    releaseStuckMintStateImpl s id key = (s.drop id key, .ok ()) := by
  refine Prod.ext (releaseStuckMintStateImpl_state s id key) ?_
  cases key with
  | none => rfl
  | some k =>
    show (releaseStuckMintStateImpl s id (some k)).2 = .ok ()
    unfold releaseStuckMintStateImpl
    simp only [releaseMintLock]
    cases hk : s.idempotency[k]? with
    | none => rfl
    | some r =>
      cases r with
      | completed e => rfl
      | pending r => simp only [h k rfl r hk, if_true]

end

/-! ## Releasing one key after the other -/

namespace World

/-- The call is a forced release that answers `Ok`. -/
def Released (w : World) (e : Event) : Prop := ∃ w', w.step e = some (w', .released (.ok ()))

/-- One call for every stuck key, or one without a key if there is none. -/
def recoveryCalls (id : ReserveId) (keys : List String) : List Event :=
  if keys = [] then [.releaseStuckMintState id none]
  else keys.map fun k => .releaseStuckMintState id (some k)

theorem step_release {w : World} {id : ReserveId} {key : Option String}
    (h : ∀ k ∈ key, ∀ r, w.state.idempotency[k]? = some (IdempotencyRecord.pending r) → r = id) :
    w.step (.releaseStuckMintState id key) =
      some ({ w with state := w.state.drop id key }, .released (.ok ())) := by
  unfold step advance
  simp only [tick_state, releaseStuckMintStateImpl_ok h]
  rfl

/-- Each call takes one key off the pending ones, so that all of them answer `Ok`. -/
theorem release_run {id : ReserveId} {keys : List String} {w : World} (hnodup : keys.Nodup)
    (hkeys : ∀ k : String,
      k ∈ keys ↔ w.state.idempotency[k]? = some (IdempotencyRecord.pending id)) :
    ∃ w', Run Step Released w (keys.map fun k => .releaseStuckMintState id (some k)) w' ∧
      w'.ops = w.ops ∧ OnlyReleased id w.state w'.state ∧
      (∀ k : String, w'.state.idempotency[k]? ≠ some (IdempotencyRecord.pending id)) ∧
      (id ∈ w'.state.reserveMintInflight → keys = [] ∧ id ∈ w.state.reserveMintInflight) := by
  induction keys generalizing w with
  | nil =>
    refine ⟨w, .nil w, rfl, .refl id w.state, fun k hk => ?_, fun hid => ⟨rfl, hid⟩⟩
    exact List.not_mem_nil ((hkeys k).mpr hk)
  | cons k keys ih =>
    obtain ⟨hnotin, hnodup⟩ := List.nodup_cons.mp hnodup
    have hstep : w.step (.releaseStuckMintState id (some k)) =
        some ({ w with state := w.state.drop id (some k) }, .released (.ok ())) := by
      refine step_release ?_
      rintro k' ⟨⟩ r hr
      rw [(hkeys k).mp List.mem_cons_self] at hr
      cases hr
      rfl
    -- the keys that are left are those still pending
    have hrest : ∀ k' : String, k' ∈ keys ↔
        (w.state.drop id (some k)).idempotency[k']? = some (IdempotencyRecord.pending id) := by
      intro k'
      rw [drop_idempotency, dropPending_getElem?]
      by_cases hk : k = k'
      · subst hk
        simp [hnotin]
      · simp [hk, ← hkeys k', Ne.symm hk]
    obtain ⟨w', hrun, hops, honly, hpend, hlock⟩ := ih (w := { w with state := _ }) hnodup hrest
    refine ⟨w', .cons ⟨_, hstep⟩ ⟨_, hstep⟩ hrun, hops, (onlyReleased_drop _ _ _).trans honly, hpend,
      fun hid => ?_⟩
    exact ((mem_drop.mp (hlock hid).2).1 rfl).elim

/-- The calls succeed, and leave the reserve unstuck and the rest as it was. -/
theorem recovery_run {w : World} {id : ReserveId} {keys : List String}
    (hkeys : keys.Perm (w.state.pendingKeys id)) :
    ∃ w', Run Step Released w (recoveryCalls id keys) w' ∧ w'.ops = w.ops ∧
      OnlyReleased id w.state w'.state ∧ Unstuck id w'.state := by
  have hnodup : keys.Nodup := hkeys.nodup_iff.mpr (pendingKeys_nodup w.state id)
  obtain ⟨w', hrun, hops, honly, hpend, hlock⟩ := release_run (w := w) hnodup
    fun k => hkeys.mem_iff.trans mem_pendingKeys
  unfold recoveryCalls
  by_cases hnil : keys = []
  · -- no key to release: one call for the lock
    subst hnil
    have hstep : w.step (.releaseStuckMintState id none) =
        some ({ w with state := w.state.drop id none }, .released (.ok ())) :=
      step_release (by simp)
    cases hrun
    refine ⟨_, .cons ⟨_, hstep⟩ ⟨_, hstep⟩ (.nil _), rfl, onlyReleased_drop w.state id none,
      ⟨fun hid => (mem_drop.mp hid).1 rfl, hpend⟩⟩
  · rw [if_neg hnil]
    exact ⟨w', hrun, hops, honly, ⟨fun hid => hnil (hlock hid).1, hpend⟩⟩

/-- Operations on `id` may be lost at any await, any number of times. When none
is live, releasing the keys pending for `id` one by one, in any order, answers
`Ok` each time. Then `id` can be removed, rebalanced and topped up with any of
these keys, its operations exclude each other again, and nothing else has changed. -/
theorem recovery_complete {w : World} {id : ReserveId} {record : ReserveRecord}
    (hrec : w.state.reserves[id]? = some record) (hidle : ¬ w.Live id) {keys : List String}
    (hkeys : keys.Perm (w.state.pendingKeys id)) :
    ∃ w', Run Step Released w (recoveryCalls id keys) w' ∧
      (∃ s, removeReserveImpl w'.state id = (s, .ok record.config)) ∧
      (∃ s, rebalanceBegin w'.state id = (s, .ok (w'.state.snapshot record))) ∧
      (∀ k ∈ keys, ∀ amount, ∃ s, manualTopupBegin w'.state ⟨id, amount, some k⟩ =
        (s, .ok (.started (w'.state.snapshot record)))) ∧
      Exclusive id w' ∧ w'.ops = w.ops ∧ OnlyReleased id w.state w'.state := by
  obtain ⟨w', hrun, hops, honly, hun⟩ := recovery_run hkeys
  have hrec' : w'.state.reserves[id]? = some record := by
    rw [honly.reserves, hrec]
  have hnone : ∀ n op, w'.ops n = some op → op.reserveId ≠ id := by
    intro n op hop hid
    rw [hops] at hop
    exact hidle ⟨n, op, hop, hid⟩
  refine ⟨w', hrun, ⟨_, hun.removeReserveImpl hrec'⟩, ⟨_, hun.rebalanceBegin hrec'⟩,
    fun k hk amount => ?_, ?_, hops, honly⟩
  · have hfree := hun.free honly (mem_pendingKeys.mp (hkeys.mem_iff.mp hk))
    exact ⟨_, hun.manualTopupBegin hrec' hfree amount⟩
  · exact ⟨fun n op hop hid => (hnone n op hop hid).elim,
      fun n n' op op' hop _ hid => (hnone n op hop hid).elim,
      fun n op hop hid => (hnone n op hop hid).elim⟩

/-- Two top-ups are lost, with a release of the lock alone in between. -/
def stuckSample : List Event :=
  [.addReserve Sample.reserve, .manualTopup ⟨0, 5, some "a"⟩ 1, .lose 0,
    .releaseStuckMintState 0 none, .manualTopup ⟨0, 5, some "b"⟩ 2, .lose 1]

theorem recovery_complete_sample : ∃ w w' s,
    Run Step anyEvent (init Sample.ledgerId) stuckSample w ∧ 0 ∈ w.state.reserveMintInflight ∧
    Run Step Released w
      [.releaseStuckMintState 0 (some "b"), .releaseStuckMintState 0 (some "a")] w' ∧
    removeReserveImpl w'.state 0 = (s, .ok Sample.reserve.config) := by
  have h : Run Step anyEvent (init Sample.ledgerId) stuckSample
      (last step (init Sample.ledgerId) stuckSample) := run_last_any (by decide)
  have hfresh : Fresh (last step (init Sample.ledgerId) stuckSample) :=
    h.invariant (fun _ _ _ _ hf hs => hf.step hs) (fresh_init _)
  have hidle : ¬ (last step (init Sample.ledgerId) stuckSample).Live 0 := by
    rintro ⟨n, op, hop, -⟩
    have hnone : (last step (init Sample.ledgerId) stuckSample).ops n = none := by
      match n with
      | 0 | 1 => decide
      | n + 2 => exact hfresh (n + 2) (Nat.le_add_left 2 n)
    rw [hnone] at hop
    cases hop
  obtain ⟨w', hrun, ⟨s, hremove⟩, -⟩ := @recovery_complete
    (last step (init Sample.ledgerId) stuckSample) 0 ⟨Sample.reserve.config, 0, []⟩
    (by decide) hidle ["b", "a"] (by decide)
  exact ⟨_, w', s, h, by decide, hrun, hremove⟩

end World

end ViciMinter
