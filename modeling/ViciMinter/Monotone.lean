import ViciMinter.Registry

/-!
# What only grows

The lifetime minimum of a reserve, its counter and the id counter only grow, and
so no later lifetime maximum is below an earlier minimum. All of it rests on ids
not being given out again. `next_reserve_id += 1` wraps in the release build:
`counter_wraps` is a run that brings it back to 0, and `monotone_iff` says that
nothing else can go wrong.
-/

namespace ViciMinter

open Lts

/-- A record of the same reserve, later. -/
structure Grows (record record' : ReserveRecord) : Prop where
  minimum : ∀ m ∈ record.config.lifetimeReceivedMinimum,
    ∃ m' ∈ record'.config.lifetimeReceivedMinimum, m ≤ m'
  minted : record.lifetimeMinted ≤ record'.lifetimeMinted

theorem Grows.refl (record : ReserveRecord) : Grows record record :=
  ⟨fun m hm => ⟨m, hm, Nat.le_refl m⟩, Nat.le_refl _⟩

theorem Grows.trans {a b c : ReserveRecord} (h : Grows a b) (h' : Grows b c) : Grows a c where
  minimum m hm := by
    obtain ⟨m', hm', hle⟩ := h.minimum m hm
    obtain ⟨m'', hm'', hle'⟩ := h'.minimum m' hm'
    exact ⟨m'', hm'', hle.trans hle'⟩
  minted := h.minted.trans h'.minted

/-- An update does not clear the lifetime minimum and does not lower it. -/
theorem UpdateReserveArg.apply_minimum {arg : UpdateReserveArg} {config updated : ReserveConfig}
    (h : arg.apply config = .ok updated) : ∀ m ∈ config.lifetimeReceivedMinimum,
    ∃ m' ∈ updated.lifetimeReceivedMinimum, m ≤ m' := by
  intro m hm
  unfold UpdateReserveArg.apply at h
  simp only at h
  split at h
  · cases h
    exact ⟨m, hm, Nat.le_refl m⟩
  · next new current _ hcur =>
    obtain rfl : current = m := Option.some.inj (hcur.symm.trans hm)
    split at h
    · cases h
    · next hge =>
      cases h
      exact ⟨new, rfl, Nat.le_of_not_lt hge⟩
  · next hnone =>
    cases hnone.symm.trans hm

namespace World

theorem Did.grows {r : ReserveId} {w w' : World} {e : Event} {o : Output} (hd : Did w e o w')
    (ho : o ≠ .added (.ok r)) {record record' : ReserveRecord}
    (hrec : w.state.reserves[r]? = some record) (hrec' : w'.state.reserves[r]? = some record') :
    Grows record record' := by
  cases hd.wrote hrec' with
  | kept hold =>
    cases hrec.symm.trans hold
    exact .refl _
  | added => exact (ho rfl).elim
  | updated _ hold hap =>
    cases hrec.symm.trans hold
    exact ⟨UpdateReserveArg.apply_minimum hap, Nat.le_refl _⟩
  | minted hm =>
    cases hrec.symm.trans hm.before
    exact ⟨(Grows.refl record).minimum, Nat.le_add_right _ _⟩

/-- Along a run that counts up, a record that is there again has grown. -/
theorem grows_run {r : ReserveId} {w w' : World} {tr : List Event} {record record' : ReserveRecord}
    (h : Run Step CountsUp w tr w') (hlt : r < w.state.nextReserveId)
    (hrec : w.state.reserves[r]? = some record) (hrec' : w'.state.reserves[r]? = some record') :
    Grows record record' := by
  have hinv : r < w'.state.nextReserveId ∧
      ∀ now, w'.state.reserves[r]? = some now → Grows record now := by
    refine h.invariant (I := fun v => r < v.state.nextReserveId ∧
      ∀ now, v.state.reserves[r]? = some now → Grows record now) ?_ ⟨hlt, fun now hnow => ?_⟩
    · rintro v e v' hc ⟨hlt, hg⟩ ⟨o, hs⟩
      have hd := step_did hs
      refine ⟨UInt64.lt_of_lt_of_le hlt (next_le hc hs), fun now hnow => ?_⟩
      -- the new id is not `r`, which is below the counter
      have ho : o ≠ .added (.ok r) := by
        intro heq
        subst heq
        obtain ⟨_, _, hid, -⟩ := hd.added_ok
        exact UInt64.lt_irrefl _ (hid ▸ hlt)
      obtain ⟨before, hbefore⟩ := hd.registered ho hnow
      exact (hg before hbefore).trans (hd.grows ho hbefore hnow)
    · cases hrec.symm.trans hnow
      exact .refl _
  exact hinv.2 record' hrec'

/-- From `w` to `w'`, over the steps `tr`, the counters did not shrink, no reserve that stayed
registered lost its lifetime minimum, and no later maximum is below an earlier minimum. -/
structure NotShrunk (w : World) (tr : List Event) (w' : World) : Prop where
  next : w.state.nextReserveId ≤ w'.state.nextReserveId
  record : ∀ (r : ReserveId) record record',
    Run Step (fun v _ => ∃ record, v.state.reserves[r]? = some record) w tr w' →
    w.state.reserves[r]? = some record → w'.state.reserves[r]? = some record' →
    Grows record record' ∧
    ∀ m ∈ record.config.lifetimeReceivedMinimum, Within record'.config.lifetimeReceivedMaximum m

theorem notShrunk_of_countsUp {w w' : World} {tr : List Event} (hw : WellFormed w)
    (h : Run Step CountsUp w tr w') : NotShrunk w tr w' := by
  have hw' : WellFormed w' := h.invariant (fun _ _ _ hc hw hs => hw.step hc hs) hw
  refine ⟨next_le_run h, fun r record record' _ hrec hrec' => ?_⟩
  have hg := grows_run h (hw.below r record hrec) hrec hrec'
  refine ⟨hg, fun m hm => ?_⟩
  obtain ⟨m', hm', hle⟩ := hg.minimum m hm
  exact ((validateReserveConfig_ok.mp (hw'.valid r record' hrec')).lifetime m' hm').mono hle

theorem countsUp_of_next_le {w w' : World} {e : Event} (hs : Step w e w')
    (hle : w.state.nextReserveId ≤ w'.state.nextReserveId) : CountsUp w e := by
  rintro v id hv
  obtain ⟨o, hs⟩ := hs
  cases hs.symm.trans hv
  rcases (step_did hs).next_cases with ⟨hno, -⟩ | ⟨-, -, hn⟩
  · exact (hno id rfl).elim
  · rw [hn, tick_state, UInt64.le_iff_toNat_le, UInt64.toNat_add] at hle
    have hlt := w.state.nextReserveId.toNat_lt
    have hone : UInt64.toNat 1 = 1 := rfl
    simp only [UInt64.size] at hlt ⊢
    omega

/-- Nothing shrinks between two states of a run, exactly if the id counter is
never exhausted by a new reserve. -/
theorem monotone_iff {ledgerId : Principal} {tr : List Event} {w : World}
    (h : Run Step anyEvent (init ledgerId) tr w) :
    (∀ tr₁ tr₂ tr₃ w₁ w₂, tr = tr₁ ++ tr₂ ++ tr₃ → Run Step anyEvent (init ledgerId) tr₁ w₁ →
      Run Step anyEvent w₁ tr₂ w₂ → NotShrunk w₁ tr₂ w₂) ↔
    Run Step CountsUp (init ledgerId) tr w := by
  constructor
  · intro hall
    refine h.of_steps fun tr₁ e tr₂ u v htr hu hs => countsUp_of_next_le hs ?_
    exact (hall tr₁ [e] tr₂ u v (by simpa using htr) hu (.cons trivial hs (.nil v))).next
  · rintro hup tr₁ tr₂ tr₃ w₁ w₂ rfl h₁ h₂
    rw [List.append_assoc] at hup
    obtain ⟨hup₁, hup'⟩ := hup.split h₁
    exact notShrunk_of_countsUp (wellFormed_run hup₁) (hup'.split h₂).1

/-! ## The counter wraps -/

/-- A second reserve. -/
def second : AddReserveArg := { Sample.reserve with account := ⟨⟨[3]⟩, none⟩ }

/-- The first reserve is registered, and the counter stands at `n`. -/
def standing (n : UInt64) : World :=
  { init Sample.ledgerId with
    state := { State.default Sample.ledgerId with
      nextReserveId := n
      reserves := Std.ExtTreeMap.insert ∅ 0 ⟨Sample.reserve.config, 0, []⟩ } }

theorem standing_record {n r : UInt64} : (standing n).state.reserves[r]? =
    if 0 = r then some ⟨Sample.reserve.config, 0, []⟩ else none := by
  simp [standing, Std.ExtTreeMap.getElem?_insert]

/-- The first reserve is registered. -/
def FirstStays (w : World) : Prop :=
  w.state.reserves[(0 : ReserveId)]? = some ⟨Sample.reserve.config, 0, []⟩

theorem standing_first (n : UInt64) : FirstStays (standing n) := standing_record

theorem standing_add (n : UInt64) : (standing n).step (.addReserve second) =
    some ({ standing n with state := (standing n).state.register second }, .added (.ok n)) := by
  have hvalid : validateAddReserveArg second = .ok () := by decide
  have hnew : (standing n).state.reserves.toList.any
      (fun p => p.2.config.account.eq second.account) = false := by
    change (standing 0).state.reserves.toList.any
      (fun p => p.2.config.account.eq second.account) = false
    decide
  unfold step advance addReserveImpl
  simp only [tick_state, hvalid, hnew]
  rfl

/-- A second reserve is registered and removed again. -/
theorem standing_cycle {n : UInt64} (hn : n ≠ 0) : Run Step (fun v _ => FirstStays v) (standing n)
    [.addReserve second, .removeReserve n] (standing (n + 1)) := by
  have herase : ((standing n).state.register second).reserves.erase n =
      (standing (n + 1)).state.reserves := by
    refine Std.ExtTreeMap.ext_getElem? fun {r} => ?_
    rw [Std.ExtTreeMap.getElem?_erase, register_record, standing_record, standing_record]
    simp only [Std.LawfulEqCmp.compare_eq_iff_eq]
    by_cases hr : n = r
    · subst hr
      simp [hn.symm]
    · have hr' : ¬ (standing n).state.nextReserveId = r := hr
      simp only [hr, hr', if_false]
  have hrec : ((standing n).state.register second).reserves[n]? =
      some ⟨second.config, 0, []⟩ := by
    rw [register_record]
    exact if_pos rfl
  have hremove : removeReserveImpl ((standing n).state.register second) n =
      ((standing (n + 1)).state, .ok second.config) := by
    have hlock : ((standing n).state.register second).reserveMintInflight.contains n = false := by
      simp [standing, State.register, State.default]
    have hpend : ((standing n).state.register second).idempotency.toList = [] := by
      simp [standing, State.register, State.default]
    simp only [removeReserveImpl, hlock, hpend, hrec, herase, List.any_nil, Bool.false_eq_true,
      if_false]
    rfl
  have hs : World.step { standing n with state := (standing n).state.register second }
      (.removeReserve n) = some (standing (n + 1), .removed (.ok second.config)) := by
    unfold step advance
    simp only [tick_state, hremove]
    rfl
  have hfirst : FirstStays { standing n with state := (standing n).state.register second } := by
    unfold FirstStays
    rw [register_record, standing_record]
    exact if_neg hn
  exact .cons (standing_first n) ⟨_, standing_add n⟩ (.cons hfirst ⟨_, hs⟩ (.nil _))

/-- Any number of such cycles, as long as the counter does not wrap. -/
theorem standing_cycles (k : Nat) (hk : k + 1 < UInt64.size) :
    ∃ tr, Run Step (fun v _ => FirstStays v) (standing 1) tr (standing (UInt64.ofNat (k + 1))) := by
  induction k with
  | zero => exact ⟨[], .nil _⟩
  | succ k ih =>
    obtain ⟨tr, htr⟩ := ih (by omega)
    have hne : UInt64.ofNat (k + 1) ≠ 0 := by
      intro h0
      have := congrArg UInt64.toNat h0
      rw [UInt64.toNat_ofNat_of_lt' (by omega)] at this
      cases this
    have hsucc : UInt64.ofNat (k + 1) + 1 = UInt64.ofNat (k + 1 + 1) :=
      UInt64.ofNat_add (k + 1) 1 |>.symm
    exact ⟨_, htr.append (hsucc ▸ standing_cycle hne)⟩

/-- The first reserve stays registered, 2^64 - 1 times a second one is registered, and all
but once it is removed again: the counter stands at 0. -/
theorem counter_wraps : ∃ tr₁ tr₂ w, Run Step anyEvent (init Sample.ledgerId) tr₁ (standing 1) ∧
    Run Step (fun v _ => FirstStays v) (standing 1) tr₂ w ∧ FirstStays w ∧
    (standing 1).state.nextReserveId = 1 ∧ w.state.nextReserveId = 0 ∧
    ¬ NotShrunk (standing 1) tr₂ w := by
  have h₁ : Step (init Sample.ledgerId) (.addReserve Sample.reserve) (standing 1) := by
    have hadd : addReserveImpl (init Sample.ledgerId).state Sample.reserve =
        ((standing 1).state, .ok 0) := by
      have hvalid : validateAddReserveArg Sample.reserve = .ok () := by decide
      unfold addReserveImpl
      simp only [hvalid]
      rfl
    refine ⟨.added (.ok 0), ?_⟩
    unfold step advance
    simp only [tick_state, hadd]
    rfl
  obtain ⟨tr, htr⟩ := standing_cycles (UInt64.size - 2) (by decide)
  have hlast := htr.append (.cons (standing_first _) ⟨_, standing_add _⟩ (.nil _))
  refine ⟨_, _, _, .cons trivial h₁ (.nil _), hlast, ?_, rfl, by decide, fun h => ?_⟩
  · unfold FirstStays
    rw [register_record, standing_record]
    decide
  · have := h.next
    revert this
    decide

/-- The lifetime minimum is set and raised, with a rebalance in between. -/
def raisedSample : List Event :=
  [.updateReserve { Sample.update with lifetimeReceivedMinimum := some 50 }, .rebalance 0,
    .balanceReply 0 (.answered 0) 1, .transferReply 0 (.answered (.ok 7)),
    .updateReserve { Sample.update with lifetimeReceivedMinimum := some 60 }]

theorem monotone_iff_sample : ∃ w, Run Step anyEvent (Sample.registered Sample.reserve)
    raisedSample w ∧ NotShrunk (Sample.registered Sample.reserve) raisedSample w := by
  have h₁ : Run Step anyEvent (init Sample.ledgerId) [.addReserve Sample.reserve]
      (Sample.registered Sample.reserve) := run_last_any (by decide)
  have h₂ : Run Step anyEvent (Sample.registered Sample.reserve) raisedSample _ :=
    run_last_any (by decide)
  have h := h₁.append h₂
  have hall := (monotone_iff h).mpr (countsUp_run h (by decide))
  exact ⟨_, h₂, hall _ _ [] _ _ (List.append_nil _).symm h₁ h₂⟩

end World

end ViciMinter
