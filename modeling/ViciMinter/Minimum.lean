import ViciMinter.Amount
import ViciMinter.Lib.Visits
import ViciMinter.Quota
import ViciMinter.Solo

/-!
# The lifetime minimum in time

Caps on one operation, rate limits and a ledger that fails may put a mint off. As long as
the configuration allows `Q` in each window, rebalances that succeed at most `G` apart
still mint at least `Q` in every `W + G` that passes, until the lifetime minimum is
reached (`minimum_in_time`). A visit either mints what is missing, or it finds or leaves
`Q` in the window behind it.
-/

namespace ViciMinter

open Lts

/-! ## What a rebalance mints -/

/-- The configuration lets a rebalance mint up to `goal`: no cap is below `Q`, no limit of
a window is, no window is longer than `W`, and there is room for `Q` above a balance of
`B`. -/
structure Obliging (Q W B goal : Nat) (config : ReserveConfig) (policy : GlobalPolicy) :
    Prop where
  auto : AutoAllowed config policy
  minimum : ∃ min ∈ config.lifetimeReceivedMinimum, goal ≤ min
  maximum : Within config.lifetimeReceivedMaximum goal
  topup : Within config.maxTopupPerRebalance Q
  operation : Within policy.maxMintPerOperation Q
  balance : Within config.maxBalance (B + Q)
  windows : ∀ limits ∈ config.rateLimits, ∀ p ∈ limits.windows, ∀ limit ∈ p.2,
    p.1 ≤ W ∧ Q ≤ limit

section
variable {Q W B goal b m a now : Nat} {config : ReserveConfig} {policy : GlobalPolicy}
  {events : List MintEvent}

theorem mem_windowRooms {rateLimits : Option RateLimits} {x : Nat}
    (h : x ∈ windowRooms rateLimits events now) : ∃ limits ∈ rateLimits, ∃ p ∈ limits.windows,
      ∃ limit ∈ p.2, x = limit - usageInWindow events now p.1 := by
  cases rateLimits with
  | none => cases h
  | some limits =>
    obtain ⟨p, hp, hx⟩ := List.mem_flatMap.mp h
    obtain ⟨limit, hlimit, rfl⟩ := mem_room.mp hx
    exact ⟨limits, rfl, p, hp, limit, hlimit, rfl⟩

theorem usageInWindow_mono {W' : Nat} (h : W' ≤ W) (events : List MintEvent) (now : Nat) :
    usageInWindow events now W' ≤ usageInWindow events now W := by
  rw [usageInWindow_eq, usageInWindow_eq]
  refine Window.total_filter_le fun e _ he => ?_
  have he := of_decide_eq_true he
  exact decide_eq_true (by omega)

/-- A rebalance mints what is missing, or it leaves `Q` in the window. -/
theorem Obliging.mints (h : Obliging Q W B goal config policy) (hb : b ≤ B) (m : Nat)
    (events : List MintEvent) (now : Nat) :
    goal ≤ m + mintAmount config b m policy events now ∨
      Q ≤ usageInWindow events now W + mintAmount config b m policy events now := by
  generalize ha : mintAmount config b m policy events now = a
  by_contra hno
  obtain ⟨hmissing, hlow⟩ := not_or.mp hno
  obtain ⟨min, hmin, hgoal⟩ := h.minimum
  have hdeficit : a < deficit config b m := by
    rw [deficit, hmin, Option.getD_some]
    omega
  -- so the amount is one of the rooms
  have hroom : ∃ x ∈ capRooms config b m policy ++ windowRooms config.rateLimits events now,
      x ≤ a := by
    by_contra hall
    have hless := (lt_least_iff _ _).mpr ⟨hdeficit, fun x hx => Nat.lt_of_not_le fun hle =>
      hall ⟨x, hx, hle⟩⟩
    exact Nat.lt_irrefl a (ha ▸ hless)
  obtain ⟨x, hx, hxa⟩ := hroom
  simp only [capRooms, List.mem_append] at hx
  rcases hx with (((hx | hx) | hx) | hx) | hx
  · obtain ⟨c, hc, rfl⟩ := mem_room.mp hx
    have hcap := h.topup
    rw [hc, within_some] at hcap
    omega
  · obtain ⟨c, hc, rfl⟩ := mem_room.mp hx
    have hcap := h.balance
    rw [hc, within_some] at hcap
    omega
  · obtain ⟨c, hc, rfl⟩ := mem_room.mp hx
    have hcap := h.maximum
    rw [hc, within_some] at hcap
    omega
  · obtain ⟨c, hc, rfl⟩ := mem_room.mp hx
    have hcap := h.operation
    rw [hc, within_some] at hcap
    omega
  · obtain ⟨limits, hl, p, hp, limit, hlimit, rfl⟩ := mem_windowRooms hx
    obtain ⟨hlen, hQ⟩ := h.windows limits hl p hp limit hlimit
    have hmono := usageInWindow_mono hlen events now
    omega

theorem decides_iff {snap : MintSnapshot} (hauto : AutoAllowed snap.config snap.policy) :
    Decides snap (.answered b) now a ↔ 0 < a ∧
      a = mintAmount snap.config b snap.lifetimeMinted snap.policy snap.mintEvents now := by
  obtain ⟨c, hc, hamount, -, hminted⟩ := computeRebalance_eq hauto b snap.lifetimeMinted
  rw [mintAmount, least_append, ← hamount]
  constructor
  · rintro ⟨b', c', ⟨⟩, hc', hm, hclamp⟩
    cases hc.symm.trans hc'
    rw [availableMintBudget_eq, clampToBudget_eq (hminted.mp hm),
      Option.ite_none_right_eq_some] at hclamp
    obtain ⟨hpos, ha⟩ := hclamp
    cases ha
    exact ⟨hpos, rfl⟩
  · rintro ⟨hpos, rfl⟩
    have hm := hpos.trans_le (least_le _ _)
    refine ⟨b, c, rfl, hc, hminted.mpr hm, ?_⟩
    rw [availableMintBudget_eq, clampToBudget_eq hm, if_pos hpos]

theorem rebalanceDecision_ok {id : ReserveId} {snap : MintSnapshot} {reply : Reply Nat}
    {resp : RebalanceResponse} (h : rebalanceDecision id snap reply now = .inl (.ok resp)) :
    resp.reserveId = id ∧ reply = .answered resp.balanceBefore ∧
      ∀ a, ¬ Decides snap reply now a := by
  unfold rebalanceDecision at h
  cases hbal : getBalanceResult reply with
  | error e =>
    rw [hbal] at h
    cases h
  | ok balance =>
    obtain rfl := getBalanceResult_ok hbal
    simp only [getBalanceResult] at h
    cases hc : computeRebalance snap.config balance snap.lifetimeMinted snap.policy with
    | error e =>
      rw [hc] at h
      cases h
    | ok c =>
      simp only [hc] at h
      cases ha : c.action with
      | minted =>
        simp only [ha] at h
        split at h
        · next hclamp =>
          cases h
          refine ⟨rfl, rfl, fun a hd => ?_⟩
          obtain ⟨_, c', hb, hc', -, hclamp'⟩ := hd
          cases hb
          cases hc.symm.trans hc'
          cases hclamp.symm.trans hclamp'
        · cases h
      | alreadyFunded | skipped =>
        simp only [ha] at h
        cases h
        refine ⟨rfl, rfl, fun a hd => ?_⟩
        obtain ⟨_, c', hb, hc', hm, -⟩ := hd
        cases hb
        cases hc.symm.trans hc'
        cases ha.symm.trans hm

end

namespace World

section
variable {Q W B goal c now b : Nat} {r : ReserveId} {n : OpId} {w w' : World} {e : Event}
  {o : Output} {snap : MintSnapshot}

/-! ## Visits -/

/-- The time of a rebalance of `r` that succeeds in this step, if it has found a balance of
at most `B`. -/
def visit? (r : ReserveId) (B : Nat) (w : World) : Event × Output → Option Nat
  | (.balanceReply _ _ now, .rebalanced (.ok resp)) =>
    if resp.reserveId = r ∧ resp.balanceBefore ≤ B then some now else none
  | (.transferReply n _, .rebalanced (.ok resp)) =>
    if resp.reserveId = r ∧ resp.balanceBefore ≤ B then
      ((w.ops n).bind Op.mint).map MintEvent.timestampNs
    else none
  | _ => none

def visits (r : ReserveId) (B : Nat) : World → List Event → List Nat
  | _, [] => []
  | w, e :: tr =>
    match w.step e with
    | some (w', o) => (w.visit? r B (e, o)).toList ++ visits r B w' tr
    | none => []

theorem visits_append {ok : World → Event → Prop} {tr : List Event} (h : Run Step ok w tr w')
    (tr' : List Event) :
    visits r B w (tr ++ tr') = visits r B w tr ++ visits r B w' tr' := by
  induction h with
  | nil => rfl
  | cons _ hs _ ih =>
    obtain ⟨o, hs⟩ := hs
    simp only [List.cons_append, visits, hs, ih, List.append_assoc]

/-! ## What is owed -/

/-- Every rebalance of `r` under way began with an obliging configuration, and its mint
will pay. -/
structure Paying (r : ReserveId) (Q W B goal : Nat) (w : World) : Prop where
  snap : ∀ n snap, w.ops n = some (.awaitBalance r snap) →
    Obliging Q W B goal snap.config snap.policy
  mint : ∀ n k, w.ops n = some (.awaitRebalance k) → k.id = r → k.balance ≤ B →
    goal ≤ minted (w.history r) + k.mintAmount ∨
      Q ≤ usageInWindow (w.history r) k.now W + k.mintAmount

theorem Recent.usage_le (h : Recent r c w) {record : ReserveRecord}
    (hrec : w.state.reserves[r]? = some record) (now W : Nat) :
    usageInWindow record.mintEvents now W ≤ usageInWindow (w.history r) now W := by
  rw [h.kept record hrec, usageInWindow_eq, usageInWindow_eq]
  exact Window.total_le_of_sublist (List.filter_sublist.filter _)

/-- What a rebalance mints is counted against the whole history. -/
theorem Tracked.mints (ht : Tracked r w) (hc : Recent r c w) (hp : Paying r Q W B goal w)
    (hop : w.ops n = some (.awaitBalance r snap)) (hb : b ≤ B) (now : Nat) :
    goal ≤ minted (w.history r) +
        mintAmount snap.config b snap.lifetimeMinted snap.policy snap.mintEvents now ∨
      Q ≤ usageInWindow (w.history r) now W +
        mintAmount snap.config b snap.lifetimeMinted snap.policy snap.mintEvents now := by
  obtain ⟨record, hrec⟩ := ht.exclusive.registered n _ hop rfl
  obtain ⟨hlife, hevents⟩ := ht.snapshot n snap record hop hrec
  have hused := hc.usage_le hrec now W
  rw [← hevents] at hused
  rw [← ht.tally record hrec, ← hlife]
  refine ((hp.snap n snap hop).mints hb _ _ now).imp_right fun h => ?_
  omega

theorem Did.history_kept {op op' : Op} (hd : Did w e o w') (hx : Exclusive r w)
    (hold : w.ops n = some op) (hid : op.reserveId = r) (hop : w'.ops n = some op') :
    w'.history r = w.history r := by
  rcases hd.history_cases r with hh | ⟨m, live, _, _, hm⟩
  · exact hh
  · cases hx.one n m _ _ hold hm.live hid hm.reserve
    cases hm.ended.symm.trans hop

theorem Paying.did (hp : Paying r Q W B goal w) (ht : Tracked r w) (hc : Recent r c w)
    (hob : ∀ record, w.state.reserves[r]? = some record →
      Obliging Q W B goal record.config w.state.globalPolicy)
    (hd : Did w e o w') : Paying r Q W B goal w' := by
  refine ⟨fun n snap hop => ?_, fun n k hop hid hb => ?_⟩
  · cases hd.became hop with
    | kept hold => exact hp.snap n snap hold
    | rebalance _ hrec => exact hob _ hrec
  · cases hd.became hop with
    | kept hold =>
      rw [hd.history_kept ht.exclusive hold hid hop]
      exact hp.mint n k hold hid hb
    | @issued _ snap _ now _ hold hk =>
      have hid' := hk.reserve.symm.trans hid
      subst hid'
      rw [hd.history_kept ht.exclusive hold rfl hop]
      have hdec := hk.decided
      rw [hk.balance, decides_iff (hp.snap n snap hold).auto] at hdec
      rw [hdec.2, hk.time]
      exact ht.mints hc hp hold hb now

theorem usage_within {l : List MintEvent} (hpast : ∀ m ∈ l, m.timestampNs ≤ now) (W : Nat) :
    usageInWindow l now W =
      minted (Window.within MintEvent.timestampNs (now - W) now l) := by
  rw [usageInWindow_eq, Window.usage, Window.since, Window.within]
  refine congrArg _ (List.filter_congr fun m hm => ?_)
  simp [hpast m hm]

/-- A visit finds or leaves the window filled, unless the goal is reached. -/
theorem visit_pays (ht : Tracked r w) (hc : Recent r c w) (hp : Paying r Q W B goal w)
    (hm : ClockMonotone w e) (hs : w.step e = some (w', o)) {v : Nat}
    (hv : w.visit? r B (e, o) = some v) :
    goal ≤ minted (w'.history r) ∨
      Q ≤ minted (Window.within MintEvent.timestampNs (v - W) v (w'.history r)) := by
  cases e with
  | balanceReply n reply now =>
    simp only [step, advance, tick_ops, tick_state] at hs
    split at hs
    · next id snap hop =>
      rw [rebalanceIssue_eq] at hs
      cases hd : rebalanceDecision id snap reply now with
      | inl res =>
        rw [hd] at hs
        cases hs
        cases res with
        | error err => cases hv
        | ok resp =>
          simp only [visit?, Option.ite_none_right_eq_some, Option.some.injEq] at hv
          obtain ⟨⟨hid, hb⟩, rfl⟩ := hv
          obtain ⟨hid', hreply, hno⟩ := rebalanceDecision_ok hd
          obtain rfl := hid'.symm.trans hid
          have hpast : ∀ m ∈ w.history id, m.timestampNs ≤ now := fun m hmem =>
            (hc.past m hmem).trans (hm now rfl)
          have hzero : mintAmount snap.config resp.balanceBefore snap.lifetimeMinted snap.policy
              snap.mintEvents now = 0 := by
            by_contra hne
            have hauto := (hp.snap n snap hop).auto
            exact hno _ (hreply ▸ (decides_iff hauto).mpr ⟨Nat.pos_of_ne_zero hne, rfl⟩)
          have hpay := ht.mints hc hp hop hb now
          rw [hzero, Nat.add_zero, Nat.add_zero, usage_within hpast] at hpay
          rw [history_finish_nil]
          exact hpay
      | inr k =>
        rw [hd] at hs
        cases hs
        cases hv
    · cases hs
  | transferReply n reply =>
    simp only [step, advance, tick_ops, tick_state] at hs
    split at hs
    · next k hop =>
      rcases rebalanceCommit_cases w.state k reply with
        ⟨err, -, he⟩ | ⟨block, -, -, he⟩ | ⟨block, record, -, -, he⟩ <;> rw [he] at hs <;> cases hs
      · cases hv
      · cases hv
      · simp only [visit?, hop, Option.bind_some, Op.mint, Option.map_some,
          Option.ite_none_right_eq_some, Option.some.injEq] at hv
        obtain ⟨⟨hid, hb⟩, rfl⟩ := hv
        obtain ⟨-, -, hpast⟩ := hc.live n _ _ hop hid rfl
        have hpay := hp.mint n k hop hid hb
        rw [usage_within hpast] at hpay
        simpa [rebalanceCommits, history_finish, hid, minted, Window.within_append,
          Window.within_singleton] using hpay
    · cases hs
      simp [visit?] at hv
    · cases hs
  | _ => simp [visit?] at hv

/-! ## Along a run -/

/-- What the minimum of `r` rests on. -/
structure Obliged (r : ReserveId) (Q W B goal : Nat) (w : World) (e : Event) : Prop where
  adds : AddsOther r w e
  releases : ReleaseIdle r w e
  clock : ClockMonotone w e
  config : ∀ record, w.state.reserves[r]? = some record →
    Obliging Q W B goal record.config w.state.globalPolicy

/-- The history so far is the history in `u` and what came since, and the visits since then
have paid. -/
structure Paid (r : ReserveId) (Q W B goal : Nat) (u : World) (tr : List Event) (w : World) :
    Prop where
  timed : Timed r w
  paying : Paying r Q W B goal w
  since : u.history r <+: w.history r
  visits : ∀ v ∈ u.visits r B tr, goal ≤ minted (w.history r) ∨
    Q ≤ minted (Window.within MintEvent.timestampNs (v - W) v (w.history r))

theorem Paid.step {u : World} {tr : List Event} (h : Paid r Q W B goal u tr w)
    (hr : Run Step (Obliged r Q W B goal) u tr w) (hok : Obliged r Q W B goal w e)
    (hs : Step w e w') : Paid r Q W B goal u (tr ++ [e]) w' := by
  obtain ⟨o, hs'⟩ := id hs
  have ht := h.timed
  obtain ⟨c, hc⟩ := ht.recent
  have hd := step_did hs'
  have hstay : w.history r <+: w'.history r := by
    rcases hd.history_cases r with hh | ⟨_, _, m, _, hm⟩
    · exact hh ▸ List.prefix_refl _
    · exact hm.history ▸ List.prefix_append _ [m]
  refine ⟨ht.step hok.adds hok.releases hok.clock hs, ?_, h.since.trans hstay, fun v hv => ?_⟩
  · have ht : Tracked r (w.tick e) := ⟨ht.fresh, ht.exclusive.tick, ht.snapshot, ht.tally⟩
    have hp : Paying r Q W B goal (w.tick e) := ⟨h.paying.snap, h.paying.mint⟩
    exact hp.did ht (hc.tick hok.clock) hok.config hd
  · rw [visits_append hr, List.mem_append] at hv
    rcases hv with hv | hv
    · refine (h.visits v hv).imp (fun hgoal => hgoal.trans ?_) fun hfilled => hfilled.trans ?_
      · exact Window.total_le_of_sublist hstay.sublist
      · exact Window.total_le_of_sublist (hstay.sublist.filter _)
    · simp only [World.visits, hs', List.append_nil, Option.mem_toList] at hv
      exact visit_pays ht.toTracked hc h.paying hok.clock hs' hv

end

/-- With rebalances that succeed at most `G` apart, the lifetime minimum is reached: each
`W + G` that passes brings `Q` more. -/
theorem minimum_in_time {Q W B G goal n : Nat} {ledgerId : Principal} {arg : AddReserveArg}
    {r : ReserveId} {tr tr' : List Event} {w₁ u w : World} {record₀ record : ReserveRecord}
    (h : Since ledgerId arg r (fun w e => ReleaseIdle r w e ∧ ClockMonotone w e) w₁ tr u)
    (hfree : r ∉ u.state.reserveMintInflight) (hrec₀ : u.state.reserves[r]? = some record₀)
    (hrun : Run Step (Obliged r Q W B goal) u tr' w)
    (hclose : Window.Close G u.clock (u.visits r B tr'))
    (hlater : ∃ v ∈ u.visits r B tr', u.clock + n * (W + G) < v)
    (hgoal : goal ≤ record₀.lifetimeMinted + n * Q)
    (hrec : w.state.reserves[r]? = some record) : goal ≤ record.lifetimeMinted := by
  have ht := h.timed
  obtain ⟨c, hc⟩ := ht.recent
  have hidle : ∀ n op, u.ops n = some op → op.reserveId ≠ r := fun n op hop hid =>
    hfree (ht.exclusive.locked n op hop hid)
  have hpaying : Paying r Q W B goal u :=
    ⟨fun n snap hop => (hidle n _ hop rfl).elim, fun n k hop hid => (hidle n _ hop hid).elim⟩
  have hpaid : Paid r Q W B goal u tr' w := by
    refine hrun.history (P := fun tr w => Paid r Q W B goal u tr w)
      ⟨ht, hpaying, List.prefix_refl _, fun v hv => by cases hv⟩ ?_
    intro tr v e v' hr hp hok hs
    exact hp.step hr hok hs
  rw [ht.tally record₀ hrec₀, minted] at hgoal
  rw [hpaid.timed.tally record hrec]
  by_contra hmissing
  have hfilled : Window.Filled MintEvent.timestampNs MintEvent.amount W Q (u.visits r B tr')
      (w.history r) := fun v hv => (hpaid.visits v hv).resolve_left hmissing
  have hle := hfilled.le_total hclose n hlater
  -- nothing of the history in `u` is younger than its clock
  obtain ⟨more, hmore⟩ := hpaid.since
  have hold : Window.within MintEvent.timestampNs (u.clock + 1) (u.clock + n * (W + G))
      (u.history r) = [] := by
    refine List.filter_eq_nil_iff.mpr fun m hm => ?_
    have hpast := hc.past m hm
    simp only [decide_eq_true_eq]
    omega
  rw [← hmore, Window.within_append, hold, List.nil_append] at hle
  have hnew : Window.total MintEvent.amount (Window.within MintEvent.timestampNs (u.clock + 1)
      (u.clock + n * (W + G)) more) ≤ Window.total MintEvent.amount more :=
    Window.total_le_of_sublist List.filter_sublist
  rw [← hmore, minted, Window.total_append] at hmissing
  exact hmissing (by omega)

def owedArg : AddReserveArg :=
  { Sample.reserve with
    targetBalance := 0
    lifetimeReceivedMinimum := some 40
    rateLimits := some ⟨some 20, none, none, none, none⟩ }

def hourly : List Event :=
  [.rebalance 0, .balanceReply 0 (.answered 0) nanosPerHour, .transferReply 0 (.answered (.ok 7)),
    .rebalance 0, .balanceReply 1 (.answered 20) (2 * nanosPerHour),
    .rebalance 0, .balanceReply 2 (.answered 20) (3 * nanosPerHour),
    .transferReply 2 (.answered (.ok 8)),
    .rebalance 0, .balanceReply 3 (.answered 40) (4 * nanosPerHour),
    .rebalance 0, .balanceReply 4 (.answered 40) (5 * nanosPerHour)]

def obligedTest (w : World) (e : Event) : Bool :=
  decide (e.calm ∧ AddsOther 0 w e ∧ ClockMonotone w e ∧
    w.state.globalPolicy = GlobalPolicy.default) &&
  (w.state.reserves[(0 : ReserveId)]?).all fun record => decide (record.config = owedArg.config)

theorem owed_obliging : Obliging 20 nanosPerHour 40 40 owedArg.config GlobalPolicy.default where
  auto := by decide
  minimum := ⟨40, rfl, Nat.le_refl 40⟩
  maximum := trivial
  topup := trivial
  operation := by decide
  balance := trivial
  windows := by
    rintro limits ⟨⟩
    decide

theorem minimum_in_time_sample : ∃ w record,
    Run Step (Obliged 0 20 nanosPerHour 40 40) (Sample.registered owedArg) hourly w ∧
    (Sample.registered owedArg).visits 0 40 hourly =
      [1, 2, 3, 4, 5].map (· * nanosPerHour) ∧
    w.state.reserves[(0 : ReserveId)]? = some record ∧ 40 ≤ record.lifetimeMinted := by
  have hok : ∀ w e, obligedTest w e = true → Obliged 0 20 nanosPerHour 40 40 w e := by
    intro w e h
    obtain ⟨hcalm, hconfig⟩ := (Bool.and_eq_true _ _).mp h
    obtain ⟨hc, ha, hm, hpolicy⟩ := of_decide_eq_true hcalm
    refine ⟨ha, releaseIdle_of_calm hc, hm, fun record hrec => ?_⟩
    rw [hrec, Option.all_some] at hconfig
    rw [hpolicy, of_decide_eq_true hconfig]
    exact owed_obliging
  have hrun : Run Step (Obliged 0 20 nanosPerHour 40 40) (Sample.registered owedArg) hourly _ :=
    run_last obligedTest hok (by decide) (by decide)
  have hvisits : (Sample.registered owedArg).visits 0 40 hourly =
      [1, 2, 3, 4, 5].map (· * nanosPerHour) := by decide
  have hsince : Since Sample.ledgerId owedArg 0 (fun w e => ReleaseIdle 0 w e ∧ ClockMonotone w e)
      (Sample.registered owedArg) [] (Sample.registered owedArg) :=
    since_last (fun _ _ => false) (fun _ _ h => by cases h) (by decide) (by decide) (by decide)
  obtain ⟨record, hrec⟩ : ∃ record, (last step (Sample.registered owedArg)
      hourly).state.reserves[(0 : ReserveId)]? = some record :=
    Option.isSome_iff_exists.mp (by decide)
  have hrec₀ : (Sample.registered owedArg).state.reserves[(0 : ReserveId)]? =
      some ⟨owedArg.config, 0, []⟩ := by decide
  refine ⟨_, record, hrun, hvisits, hrec, ?_⟩
  refine minimum_in_time (G := nanosPerHour) (n := 2) hsince (by decide) hrec₀ hrun ?_ ?_
    (by decide) hrec
  · rw [hvisits]
    decide
  · rw [hvisits]
    exact ⟨5 * nanosPerHour, by decide, by decide⟩

end World

end ViciMinter
