import ViciMinter.Amount
import ViciMinter.Solo

/-!
# The preview and the rebalance

`preview_inner` and `rebalance_one` combine the same two computations: the
amount, and the budget of the rate limits. The preview answers the action of the
first and the lesser of the two amounts. The rebalance has one more exit, when
the budget is exhausted, and `preview_agrees_iff` says that they differ exactly
there: the preview then announces a mint of nothing.
-/

namespace ViciMinter

open Lts

/-- Both fail with the same error, or both take the same action for the same amount. -/
def SameOutcome : Except MinterError PreviewRebalanceResponse →
    Except MinterError RebalanceResponse → Prop
  | .error e, .error e' => e = e'
  | .ok p, .ok r => p.action = r.action ∧ p.wouldMint = r.mintedAmount
  | _, _ => False

/-- The preview changes nothing and answers what the rebalance then does. -/
def PreviewAgrees (s : State) (id : ReserveId) (env : Replies) : Prop :=
  (previewInner s id env.balance env.now).1 = s ∧
  SameOutcome (previewInner s id env.balance env.now).2 (rebalanceOne env s id).2

instance (p : Except MinterError PreviewRebalanceResponse)
    (r : Except MinterError RebalanceResponse) : Decidable (SameOutcome p r) :=
  match p, r with
  | .error e, .error e' => inferInstanceAs (Decidable (e = e'))
  | .ok _, .ok _ => inferInstanceAs (Decidable (_ ∧ _))
  | .error _, .ok _ | .ok _, .error _ => .isFalse nofun

/-- There is an amount to mint, and the limit of a configured window is used up. -/
def Starved (record : ReserveRecord) (policy : GlobalPolicy) (env : Replies) : Prop :=
  ∃ b, env.balance = .answered b ∧ AutoAllowed record.config policy ∧
    0 < least (deficit record.config b record.lifetimeMinted)
      (capRooms record.config b record.lifetimeMinted policy) ∧
    0 ∈ windowRooms record.config.rateLimits record.mintEvents env.now

theorem previewClamp_eq (rooms : List Nat) (a : Nat) :
    (match rooms.min? with
      | some b => if a > b then b else a
      | none => a) = least a rooms := by
  cases rooms with
  | nil => rfl
  | cons r rooms =>
    simp only [min?_eq_least, least_cons, least_min]
    split <;> omega

theorem previewInner_state (s : State) (id : ReserveId) (reply : Reply Nat) (now : Nat) :
    (previewInner s id reply now).1 = s := by
  simp only [previewInner]
  repeat' split
  all_goals rfl

section
variable {s : State} {id : ReserveId} {env : Replies} {record : ReserveRecord} {b : Nat}
  {c : ComputedRebalance}

theorem previewInner_computed (hrec : s.reserves[id]? = some record)
    (hb : env.balance = .answered b)
    (hc : computeRebalance record.config b record.lifetimeMinted s.globalPolicy = .ok c) :
    ∃ p, (previewInner s id env.balance env.now).2 = .ok p ∧ p.action = c.action ∧
      p.wouldMint = least c.mintAmount
        (windowRooms record.config.rateLimits record.mintEvents env.now) := by
  unfold previewInner
  simp only [hrec, hb, getBalanceResult, State.snapshot, hc, availableMintBudget_eq]
  exact ⟨_, rfl, rfl, previewClamp_eq _ _⟩

/-- A computed amount is starved by a window without room. -/
theorem starved_iff (hb : env.balance = .answered b)
    (hc : computeRebalance record.config b record.lifetimeMinted s.globalPolicy = .ok c) :
    Starved record s.globalPolicy env ↔ c.action = .minted ∧ least c.mintAmount
      (windowRooms record.config.rateLimits record.mintEvents env.now) = 0 := by
  constructor
  · rintro ⟨b', hb', hauto, hpos, hzero⟩
    obtain rfl : b = b' := Reply.answered.inj (hb.symm.trans hb')
    obtain ⟨c', hc', ha, -, hact⟩ := computeRebalance_eq hauto b record.lifetimeMinted
    cases hc.symm.trans hc'
    exact ⟨hact.mpr (ha ▸ hpos), least_eq_zero hzero⟩
  · rintro ⟨hm, hzero⟩
    obtain ⟨hpos, hok⟩ := computeRebalance_minted hc hm
    have hauto : AutoAllowed record.config s.globalPolicy :=
      ⟨hok.mintingEnabled, hok.enabled, hok.allowAutoRebalance⟩
    obtain ⟨c', hc', ha, -⟩ := computeRebalance_eq hauto b record.lifetimeMinted
    cases hc.symm.trans hc'
    refine ⟨b, hb, hauto, ha ▸ hpos, ?_⟩
    by_contra hno
    have hlt : 0 < least c.mintAmount
        (windowRooms record.config.rateLimits record.mintEvents env.now) := by
      refine (lt_least_iff _ _).mpr ⟨hpos, fun a ha => Nat.pos_of_ne_zero ?_⟩
      intro heq
      subst heq
      exact hno ha
    omega

theorem rebalanceOne_computed {block : Nat} (hrec : s.reserves[id]? = some record)
    (hlock : id ∉ s.reserveMintInflight) (hledger : mintToResult env.transfer = .ok block)
    (hb : env.balance = .answered b)
    (hc : computeRebalance record.config b record.lifetimeMinted s.globalPolicy = .ok c) :
    ∃ r, (rebalanceOne env s id).2 = .ok r ∧
      (¬ Starved record s.globalPolicy env → r.action = c.action ∧ r.mintedAmount =
        least c.mintAmount (windowRooms record.config.rateLimits record.mintEvents env.now)) ∧
      (Starved record s.globalPolicy env → r.action ≠ c.action) := by
  rw [starved_iff hb hc, rebalanceOne_eq]
  simp only [hrec, if_neg hlock, rebalanceDecision, hb, getBalanceResult, State.snapshot, hc,
    availableMintBudget_eq]
  cases ha : c.action with
  | minted =>
    simp only [clampToBudget_eq (computeRebalance_minted hc ha).1]
    by_cases hpos : 0 < least c.mintAmount
        (windowRooms record.config.rateLimits record.mintEvents env.now)
    · simp only [if_pos hpos, settleRebalance, hledger]
      exact ⟨_, rfl, fun _ => ⟨rfl, rfl⟩, fun h => (hpos.ne' h.2).elim⟩
    · simp only [if_neg hpos]
      refine ⟨_, rfl, fun h => (h ⟨trivial, Nat.eq_zero_of_not_pos hpos⟩).elim, fun _ h => ?_⟩
      cases h
  | alreadyFunded | skipped =>
    have hm : c.mintAmount = 0 := computeRebalance_unminted hc (by simp [ha])
    simp only [hm, least_zero]
    refine ⟨_, rfl, fun _ => ⟨rfl, rfl⟩, fun h => ?_⟩
    cases h.1

end

/-- The preview of an idle reserve agrees with the rebalance unless it is starved. -/
theorem preview_agrees_iff {s : State} {id : ReserveId} {env : Replies} {record : ReserveRecord}
    {block : Nat} (hrec : s.reserves[id]? = some record) (hlock : id ∉ s.reserveMintInflight)
    (hledger : mintToResult env.transfer = .ok block) :
    PreviewAgrees s id env ↔ ¬ Starved record s.globalPolicy env := by
  unfold PreviewAgrees
  simp only [previewInner_state, true_and]
  cases hb : getBalanceResult env.balance with
  | error e =>
    have hno : ¬ Starved record s.globalPolicy env := by
      rintro ⟨b, hb', -⟩
      rw [hb'] at hb
      cases hb
    simp [hno, previewInner, rebalanceOne_eq, rebalanceDecision, hrec, hlock, hb, SameOutcome]
  | ok b =>
    have hb' := getBalanceResult_ok hb
    cases hc : computeRebalance record.config b record.lifetimeMinted s.globalPolicy with
    | error e =>
      have hno : ¬ Starved record s.globalPolicy env := by
        rintro ⟨b', hb'', hauto, -⟩
        obtain rfl : b = b' := Reply.answered.inj (hb'.symm.trans hb'')
        obtain ⟨c, hc', -⟩ := computeRebalance_eq hauto b record.lifetimeMinted
        cases hc.symm.trans hc'
      simp [hno, previewInner, rebalanceOne_eq, rebalanceDecision, hrec, hlock, hb, State.snapshot,
        hc, SameOutcome]
    | ok c =>
      obtain ⟨p, hp, hpa, hpm⟩ := previewInner_computed hrec hb' hc
      obtain ⟨r, hr, hagree, hdiffer⟩ := rebalanceOne_computed hrec hlock hledger hb' hc
      rw [hp, hr, SameOutcome, hpa, hpm]
      constructor
      · exact fun h hs => hdiffer hs h.1.symm
      · exact fun hno => ⟨(hagree hno).1.symm, (hagree hno).2.symm⟩

def accepting (balance : Nat) : Replies where
  balance := .answered balance
  now := 2
  transfer := .answered (.ok 8)

def starvedSample : State :=
  (last World.step (World.init Sample.ledgerId)
    [.addReserve { Sample.reserve with rateLimits := some ⟨some 50, none, none, none, none⟩ },
      .rebalance 0, .balanceReply 0 (.answered 0) 1, .transferReply 0 (.answered (.ok 7))]).state

/-- The preview announces a mint that the rebalance skips. -/
theorem preview_announces : ∃ record block, starvedSample.reserves[(0 : ReserveId)]? = some record ∧
    0 ∉ starvedSample.reserveMintInflight ∧ mintToResult (accepting 50).transfer = .ok block ∧
    ¬ PreviewAgrees starvedSample 0 (accepting 50) :=
  ⟨⟨{ Sample.reserve with rateLimits := some ⟨some 50, none, none, none, none⟩ }.config, 50,
      [⟨1, 50⟩]⟩, 8, by decide, by decide, rfl, fun h => absurd h.2 (by decide)⟩

theorem preview_agrees_iff_sample :
    PreviewAgrees (Sample.registered Sample.reserve).state 0 (accepting 40) := by
  have hno : ¬ Starved ⟨Sample.reserve.config, 0, []⟩
      (Sample.registered Sample.reserve).state.globalPolicy (accepting 40) :=
    fun ⟨_, _, _, _, h⟩ => nomatch h
  have hrec : (Sample.registered Sample.reserve).state.reserves[(0 : ReserveId)]? =
      some ⟨Sample.reserve.config, 0, []⟩ := by decide
  have hledger : mintToResult (accepting 40).transfer = .ok 8 := rfl
  exact (preview_agrees_iff hrec (by decide) hledger).mpr hno

end ViciMinter
