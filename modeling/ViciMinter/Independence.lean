import ViciMinter.Serializable

/-!
# Reserves of their own

Rebalances and top-ups of other reserves may be left out of the serial run, as long as no
idempotency key is used for two reserves: all other calls answer the same, the
configurations are the same, and a reserve has the same counter and the same events
(`reserves_independent`). So what is minted for a reserve is never at the expense of another.
-/

namespace ViciMinter

open Lts Serial

/-! ## States that are the same for one reserve -/

/-- `t` is like `s`, except for what rebalances and top-ups of reserves other than `r` have
recorded. Every key belongs to one reserve. -/
structure SameFor (owner : String → ReserveId) (r : ReserveId) (s t : State) : Prop where
  ledgerId : t.ledgerId = s.ledgerId
  next : t.nextReserveId = s.nextReserveId
  policy : t.globalPolicy = s.globalPolicy
  inflight : t.reserveMintInflight = s.reserveMintInflight
  config : ∀ id : ReserveId, t.reserves[id]?.map (·.config) = s.reserves[id]?.map (·.config)
  record : t.reserves[r]? = s.reserves[r]?
  key : ∀ k, owner k = r → t.idempotency[k]? = s.idempotency[k]?
  settled : ∀ (k : String) id, s.idempotency[k]? ≠ some (IdempotencyRecord.pending id)
  settled' : ∀ (k : String) id, t.idempotency[k]? ≠ some (IdempotencyRecord.pending id)

/-- A top-up uses a key of its reserve. -/
def Call.OwnKey (owner : String → ReserveId) : Call → Prop
  | manualTopup arg _ _ => ∀ k ∈ arg.idempotencyKey, owner k = arg.reserveId
  | _ => True

/-- All calls but the rebalances and top-ups of other reserves than `r`. -/
def Call.concerns (r : ReserveId) : Call → Bool
  | rebalance id _ => id = r
  | manualTopup arg _ _ => arg.reserveId = r
  | _ => true

section
variable {owner : String → ReserveId} {r : ReserveId} {s t : State} {e : Effect} {f : Footprint}

theorem SameFor.refl (owner : String → ReserveId) (r : ReserveId)
    (h : ∀ (k : String) id, s.idempotency[k]? ≠ some (IdempotencyRecord.pending id)) :
    SameFor owner r s s :=
  ⟨rfl, rfl, rfl, rfl, fun _ => rfl, rfl, fun _ _ => rfl, h, h⟩

theorem apply_settled
    (h : ∀ (k : String) id, s.idempotency[k]? ≠ some (IdempotencyRecord.pending id))
    (k : String) (id : ReserveId) :
    (e.apply s).idempotency[k]? ≠ some (IdempotencyRecord.pending id) := by
  cases hrec : s.reserves[e.target.id]? with
  | none =>
    unfold Effect.apply
    cases e.mint <;> simp [hrec, h]
  | some record =>
    rw [apply_getElem? e s hrec, Effect.entry]
    split
    · cases e.mint <;> simp [h]
    · exact h k id

/-- A mint for `r` comes to the same in both states. -/
theorem SameFor.apply (h : SameFor owner r s t) (hr : e.target.id = r) :
    SameFor owner r (e.apply s) (e.apply t) where
  ledgerId := by simp [h.ledgerId]
  next := by simp [h.next]
  policy := by simp [h.policy]
  inflight := by simp [h.inflight]
  config id := by rw [apply_config, apply_config, h.config]
  record := by rw [apply_record, apply_record, h.record]
  key k hk := by
    subst hr
    cases hrec : s.reserves[e.target.id]? with
    | none =>
      have hrec' := h.record.trans hrec
      unfold Effect.apply
      cases e.mint <;> simp [hrec, hrec', h.key k hk]
    | some record =>
      rw [apply_getElem? e s hrec, apply_getElem? e t (h.record.trans hrec), h.key k hk]
  settled := apply_settled h.settled
  settled' := apply_settled h.settled'

/-- A mint for another reserve makes no difference to `r`. -/
theorem SameFor.left_out (h : SameFor owner r s t) (hr : e.target.id ≠ r)
    (hkey : ∀ k, e.target.key = some k → owner k ≠ r) : SameFor owner r (e.apply s) t where
  ledgerId := by simp [h.ledgerId]
  next := by simp [h.next]
  policy := by simp [h.policy]
  inflight := by simp [h.inflight]
  config id := by rw [apply_config, h.config]
  record := by rw [apply_other hr.symm, h.record]
  key k hk := by rw [apply_key fun hk' => hkey k hk' hk, h.key k hk]
  settled := apply_settled h.settled
  settled' := h.settled'

theorem SameFor.alike (h : SameFor owner r s t) (hr : f.id = r)
    (hkey : ∀ k, f.key = some k → owner k = r) : f.Alike s t where
  ledgerId := h.ledgerId
  record := hr ▸ h.record
  globalPolicy := h.policy
  key k hk := h.key k (hkey k hk)
  inflight := h.inflight

/-- An operation on `r` does the same in both states. -/
theorem SameFor.acts {ρ : Type} {run : State → State × ρ} (h : SameFor owner r s t)
    (ha : ActsBy f run s) (hr : f.id = r) (hkey : ∀ k, f.key = some k → owner k = r) :
    SameFor owner r (run s).1 (run t).1 ∧ (run t).2 = (run s).2 := by
  obtain ⟨e, rfl, he⟩ := ha
  rw [he s (.refl _ s), he t (h.alike hr hkey)]
  exact ⟨h.apply hr, rfl⟩

theorem SameFor.drops {ρ : Type} {run : State → State × ρ} (h : SameFor owner r s t)
    (ha : ActsBy f run s) (hr : f.id ≠ r) (hkey : ∀ k, f.key = some k → owner k ≠ r) :
    SameFor owner r (run s).1 t := by
  obtain ⟨e, rfl, he⟩ := ha
  rw [he s (.refl _ s)]
  exact h.left_out hr hkey

/-! ### The admin calls -/

/-- A record is written to both states. -/
theorem SameFor.insert (h : SameFor owner r s t) (id : ReserveId) {x y : ReserveRecord}
    (hconfig : y.config = x.config) (hrec : id = r → y = x) :
    SameFor owner r { s with reserves := s.reserves.insert id x }
      { t with reserves := t.reserves.insert id y } where
  ledgerId := h.ledgerId
  next := h.next
  policy := h.policy
  inflight := h.inflight
  config id' := by
    simp only [Std.ExtTreeMap.getElem?_insert]
    split
    · exact congrArg some hconfig
    · exact h.config id'
  record := by
    simp only [Std.ExtTreeMap.getElem?_insert, Std.LawfulEqCmp.compare_eq_iff_eq]
    split
    · next hid => rw [hrec hid]
    · exact h.record
  key := h.key
  settled := h.settled
  settled' := h.settled'

theorem SameFor.erase (h : SameFor owner r s t) (id : ReserveId) :
    SameFor owner r { s with reserves := s.reserves.erase id }
      { t with reserves := t.reserves.erase id } where
  ledgerId := h.ledgerId
  next := h.next
  policy := h.policy
  inflight := h.inflight
  config id' := by
    simp only [Std.ExtTreeMap.getElem?_erase]
    split
    · rfl
    · exact h.config id'
  record := by simp only [Std.ExtTreeMap.getElem?_erase, h.record]
  key := h.key
  settled := h.settled
  settled' := h.settled'

theorem SameFor.addReserveImpl (h : SameFor owner r s t) (arg : AddReserveArg) :
    SameFor owner r (addReserveImpl s arg).1 (addReserveImpl t arg).1 ∧
      (addReserveImpl t arg).2 = (addReserveImpl s arg).2 := by
  unfold ViciMinter.addReserveImpl
  cases validateAddReserveArg arg with
  | error err => exact ⟨h, rfl⟩
  | ok u =>
    simp only [accountTaken_congr h.config, h.next]
    split
    · exact ⟨h, rfl⟩
    · exact ⟨{ h.insert s.nextReserveId rfl fun _ => rfl with next := rfl }, rfl⟩

/-- Both states have a record for `id`, with one configuration, or neither has. -/
theorem SameFor.record_cases (h : SameFor owner r s t) (id : ReserveId) :
    s.reserves[id]? = none ∧ t.reserves[id]? = none ∨
    ∃ x y, s.reserves[id]? = some x ∧ t.reserves[id]? = some y ∧ y.config = x.config ∧
      (id = r → y = x) := by
  have hconfig := h.config id
  cases hs : s.reserves[id]? with
  | none =>
    rw [hs, Option.map_none, Option.map_eq_none_iff] at hconfig
    exact .inl ⟨rfl, hconfig⟩
  | some x =>
    rw [hs, Option.map_some, Option.map_eq_some_iff] at hconfig
    obtain ⟨y, hy, hconfig⟩ := hconfig
    refine .inr ⟨x, y, rfl, hy, hconfig, ?_⟩
    rintro rfl
    exact Option.some.inj (hy.symm.trans (h.record.trans hs))

theorem SameFor.updateReserveImpl (h : SameFor owner r s t) (arg : UpdateReserveArg) :
    SameFor owner r (updateReserveImpl s arg).1 (updateReserveImpl t arg).1 ∧
      (updateReserveImpl t arg).2 = (updateReserveImpl s arg).2 := by
  unfold ViciMinter.updateReserveImpl
  rcases h.record_cases arg.id with ⟨hs, ht⟩ | ⟨x, y, hs, ht, hconfig, hxy⟩
  · rw [hs, ht]
    exact ⟨h, rfl⟩
  rw [hs, ht]
  simp only [hconfig]
  cases arg.apply x.config with
  | error err => exact ⟨h, rfl⟩
  | ok updated =>
    simp only
    cases validateReserveConfig updated with
    | error err => exact ⟨h, rfl⟩
    | ok u => exact ⟨h.insert arg.id rfl fun hid => by rw [hxy hid], rfl⟩

theorem SameFor.removeReserveImpl (h : SameFor owner r s t) (id : ReserveId) :
    SameFor owner r (removeReserveImpl s id).1 (removeReserveImpl t id).1 ∧
      (removeReserveImpl t id).2 = (removeReserveImpl s id).2 := by
  -- at rest no key is pending
  have hno : ∀ u : State,
      (∀ (k : String) id, u.idempotency[k]? ≠ some (IdempotencyRecord.pending id)) →
      (u.idempotency.toList.any fun p => p.2.isPendingFor id) = false := by
    intro u hu
    simp only [List.any_eq_false, Prod.forall, Std.ExtTreeMap.mem_toList_iff_getElem?_eq_some,
      IdempotencyRecord.isPendingFor_iff]
    rintro k _ hk rfl
    exact hu k id hk
  have hlock : t.reserveMintInflight.contains id = s.reserveMintInflight.contains id := by
    rw [h.inflight]
  unfold ViciMinter.removeReserveImpl
  rw [hno s h.settled, hno t h.settled', hlock]
  split
  · exact ⟨h, rfl⟩
  simp only [Bool.false_eq_true, if_false]
  rcases h.record_cases id with ⟨hs, ht⟩ | ⟨x, y, hs, ht, hconfig, -⟩
  · rw [hs, ht]
    exact ⟨h, rfl⟩
  · rw [hs, ht]
    exact ⟨h.erase id, congrArg Except.ok hconfig⟩

/-! ## Calls -/

/-- A call that concerns `r` answers the same in both states. -/
theorem SameFor.run {a : Call} (h : SameFor owner r s t) (hown : a.OwnKey owner)
    (ha : a.concerns r = true) :
    SameFor owner r (a.run s).1 (a.run t).1 ∧ (a.run t).2 = (a.run s).2 := by
  cases a with
  | addReserve arg =>
    obtain ⟨hstate, hanswer⟩ := h.addReserveImpl arg
    exact ⟨hstate, congrArg Output.added hanswer⟩
  | updateReserve arg =>
    obtain ⟨hstate, hanswer⟩ := h.updateReserveImpl arg
    exact ⟨hstate, congrArg Output.updated hanswer⟩
  | removeReserve id =>
    obtain ⟨hstate, hanswer⟩ := h.removeReserveImpl id
    exact ⟨hstate, congrArg Output.removed hanswer⟩
  | setGlobalPolicy policy => exact ⟨{ h with policy := rfl }, rfl⟩
  | rebalance id env =>
    obtain ⟨hstate, hanswer⟩ := h.acts (rebalanceOne_actsBy env s id) (of_decide_eq_true ha)
      fun _ hk => by cases hk
    exact ⟨hstate, congrArg Output.rebalanced hanswer⟩
  | manualTopup arg now reply =>
    have hr : arg.reserveId = r := of_decide_eq_true ha
    obtain ⟨hstate, hanswer⟩ := h.acts (manualTopupReserveImpl_actsBy s arg now reply) hr
      fun k hk => (hown k hk).trans hr
    exact ⟨hstate, congrArg Output.toppedUp hanswer⟩

theorem SameFor.run_left_out {a : Call} (h : SameFor owner r s t) (hown : a.OwnKey owner)
    (ha : a.concerns r = false) : SameFor owner r (a.run s).1 t := by
  cases a with
  | rebalance id env =>
    have hr : id ≠ r := of_decide_eq_false ha
    have hdrop : SameFor owner r (rebalanceOne env s id).1 t :=
      h.drops (rebalanceOne_actsBy env s id) hr fun _ hk => by cases hk
    exact hdrop
  | manualTopup arg now reply =>
    have hr : arg.reserveId ≠ r := of_decide_eq_false ha
    have hdrop : SameFor owner r (manualTopupReserveImpl s arg now reply).1 t :=
      h.drops (manualTopupReserveImpl_actsBy s arg now reply) hr
        fun k hk hk' => hr ((hown k hk).symm.trans hk')
    exact hdrop
  | _ => cases ha

end

/-! ## Along a run -/

namespace World

/-- Every top-up uses a key of its reserve, if any. -/
def OwnKeys (owner : String → ReserveId) (_ : World) (e : Event) : Prop :=
  ∀ arg now, e = .manualTopup arg now → ∀ k ∈ arg.idempotencyKey, owner k = arg.reserveId

/-- Whatever waits or has ended uses a key of its reserve. -/
structure Owned (owner : String → ReserveId) (w : World) (J : Journal) : Prop where
  waiting : ∀ n k, w.ops n = some (.awaitTopup k) →
    ∀ key ∈ k.arg.idempotencyKey, owner key = k.arg.reserveId
  ended : ∀ a o, .done a o ∈ J → a.OwnKey owner

section
variable {owner : String → ReserveId} {w w' : World} {J : Journal} {e : Event} {o : Output}

theorem Owned.enter (h : Owned owner w J) (hok : OwnKeys owner w e) :
    ∀ a p, .done a p ∈ w.enter J e o → a.OwnKey owner := by
  have hnew : ∀ {b : Call}, b.OwnKey owner → ∀ a p,
      Slot.done a p ∈ J ++ [.done b o] → a.OwnKey owner := by
    intro b hb a p ha
    rcases List.mem_append.mp ha with ha | ha
    · exact h.ended a p ha
    · cases List.mem_singleton.mp ha
      exact hb
  have hopened : ∀ {n : OpId} a p, Slot.done a p ∈ J ++ [.opened n] → a.OwnKey owner := by
    intro n a p ha
    rcases List.mem_append.mp ha with ha | ha
    · exact h.ended a p ha
    · cases List.mem_singleton.mp ha
  have hclose : ∀ {n : OpId} {b : Call}, b.OwnKey owner → ∀ a p,
      Slot.done a p ∈ close n b o J → a.OwnKey owner := by
    intro n b hb a p ha
    rcases done_close ha with ha | rfl
    · exact h.ended a p ha
    · exact hb
  unfold World.enter
  cases e with
  | addReserve | updateReserve | setGlobalPolicy => exact hnew trivial
  | releaseStuckMintState | lose => exact h.ended
  | removeReserve id =>
    simp only
    split
    · exact h.ended
    · exact hnew trivial
  | rebalance id =>
    simp only
    split
    · exact hopened
    split
    · exact h.ended
    · exact hnew trivial
  | manualTopup arg now =>
    simp only
    split
    · exact hopened
    split
    · exact h.ended
    · exact hnew (hok arg now rfl)
  | balanceReply n reply now =>
    simp only
    split
    · split
      · exact h.ended
      · exact hclose trivial
    · exact h.ended
  | transferReply n reply =>
    simp only
    split
    · exact hclose trivial
    · next k hop => exact hclose (h.waiting n k hop)
    · exact h.ended

theorem Owned.step (h : Owned owner w J) (hok : OwnKeys owner w e)
    (hs : w.step e = some (w', o)) : Owned owner w' (w.enter J e o) where
  waiting n k hop := by
    cases (step_did hs).became hop with
    | kept hold => exact h.waiting n k hold
    | topup => exact hok _ _ rfl
  ended := h.enter hok

theorem Owned.run {tr : List Event} (h : Owned owner w J) (hrun : Run Step (OwnKeys owner) w tr w') :
    Owned owner w' (journal w J tr) := by
  induction hrun generalizing J with
  | nil => exact h
  | cons hok hs _ ih =>
    obtain ⟨o, hs⟩ := hs
    simp only [journal, hs]
    exact ih (h.step hok hs)

end

/-- Of the serial run with the answers of a run, those calls that are not rebalances and
top-ups of other reserves answer the same on their own. They leave the same registry and
policy, and for `r` the same counter, the same events and the same completed keys. -/
theorem reserves_independent {ledgerId : Principal} {tr : List Event} {w : World}
    {owner : String → ReserveId}
    (hrun : Run Step (fun w e => ReleasesIdle w e ∧ OwnKeys owner w e) (init ledgerId) tr w)
    (hadds : tr.countP Event.adds < 2 ^ 64) (r : ReserveId) :
    ((journal (init ledgerId) [] tr).filterMap Slot.answer?).Perm
      (((outputs World.step (init ledgerId) tr).filter settles).map Prod.snd) ∧
    calls.Answers (State.default ledgerId)
      ((journal (init ledgerId) [] tr).filter (Slot.among (Call.concerns r))) ∧
    SameFor owner r w.state.atRest (calls.replay (State.default ledgerId)
      ((journal (init ledgerId) [] tr).filter (Slot.among (Call.concerns r)))) := by
  obtain ⟨hplaced, hperm⟩ := serial_run (hrun.mono fun _ _ h => h.1) hadds
  have howned : Owned owner w (journal (init ledgerId) [] tr) :=
    Owned.run ⟨fun n k h => by simp [init] at h, fun _ _ h => by cases h⟩
      (hrun.mono fun _ _ h => h.2)
  have hrefl : SameFor owner r (State.default ledgerId) (State.default ledgerId) :=
    .refl owner r fun k id => by simp [State.default]
  obtain ⟨hanswers, hsame⟩ := System.Answers.without (R := SameFor owner r) (p := Call.concerns r)
    (fun a o _ _ hm ha h => h.run (howned.ended a o hm) ha)
    (fun a o _ _ hm ha h => h.run_left_out (howned.ended a o hm) ha)
    hrefl hplaced.sound.answers
  rw [hplaced.state] at hsame
  exact ⟨hperm, hanswers, hsame⟩

def ownKeysTest (owner : String → ReserveId) : Event → Bool
  | .manualTopup arg _ => arg.idempotencyKey.all fun k => owner k = arg.reserveId
  | _ => true

/-- Without the top-up of reserve 1, the rebalance of reserve 0 mints 60 all the same. -/
theorem reserves_independent_sample : ∃ w,
    Run Step (fun w e => ReleasesIdle w e ∧ OwnKeys (fun _ => 1) w e) (init Sample.ledgerId)
      serialSample w ∧
    (w.state.reserves[(0 : ReserveId)]?).map (·.lifetimeMinted) = some 60 ∧
    calls.Answers (State.default Sample.ledgerId)
      (serialJournal.filter (Slot.among (Call.concerns 0))) ∧
    SameFor (fun _ => 1) 0 w.state.atRest (calls.replay (State.default Sample.ledgerId)
      (serialJournal.filter (Slot.among (Call.concerns 0)))) := by
  have hok : ∀ (w : World) e, (e.calm && ownKeysTest (fun _ => 1) e) = true →
      ReleasesIdle w e ∧ OwnKeys (fun _ => 1) w e := by
    intro w e h
    obtain ⟨hcalm, hown⟩ := (Bool.and_eq_true _ _).mp h
    refine ⟨(guarded_of_calm w e hcalm).1, ?_⟩
    rintro arg now rfl k hk
    rw [ownKeysTest, Option.mem_def.mp hk] at hown
    exact of_decide_eq_true hown
  have h : Run Step (fun w e => ReleasesIdle w e ∧ OwnKeys (fun _ => 1) w e)
      (init Sample.ledgerId) serialSample (last step (init Sample.ledgerId) serialSample) :=
    run_last (fun _ e => e.calm && ownKeysTest (fun _ => 1) e) hok (by decide) (by decide)
  have hjournal : journal (init Sample.ledgerId) [] serialSample = serialJournal := by rfl
  obtain ⟨-, hanswers, hsame⟩ := reserves_independent h (by decide) 0
  rw [hjournal] at hanswers hsame
  exact ⟨_, h, by decide, hanswers, hsame⟩

end World

end ViciMinter
