import ViciMinter.Quota
import ViciMinter.Registry

/-!
# Total emission

What the minter mints in all, over every reserve that was ever registered. A
registration brings its reserve a budget for each interval: its lifetime maximum,
or the limit of a window as often as the interval takes it (`Budget`). As long as
no update loosens a maximum or a limit, the interval holds at most the sum of the
budgets: `emission_bounded`.
-/

namespace ViciMinter

open Lts

/-! ## Budgets -/

namespace ReserveConfig

def CapAtMost (config : ReserveConfig) (M : Nat) : Prop :=
  ∃ M' ≤ M, config.lifetimeReceivedMaximum = some M'

def LimitAtMost (config : ReserveConfig) (W L : Nat) : Prop :=
  ∃ limits, config.rateLimits = some limits ∧ ∃ L' ≤ L, (W, some L') ∈ limits.windows

/-- What `c` bounds, `c'` bounds at least as tightly. -/
structure Tightens (c c' : ReserveConfig) : Prop where
  cap : ∀ M, c.CapAtMost M → c'.CapAtMost M
  limit : ∀ W L, c.LimitAtMost W L → c'.LimitAtMost W L

/-- `B` bounds what a reserve receives from `lo` to `hi`. -/
inductive Budget (config : ReserveConfig) (lo hi B : Nat) : Prop where
  | lifetime : config.CapAtMost B → Budget config lo hi B
  | rate {W L n : Nat} : config.LimitAtMost W L → hi ≤ lo + (n + 1) * W → (n + 1) * L ≤ B →
      Budget config lo hi B

end ReserveConfig

def Event.mints : Event → Bool
  | rebalance _ => true
  | balanceReply _ _ _ => true
  | manualTopup _ _ => true
  | transferReply _ _ => true
  | _ => false

namespace World

/-- No update loosens a lifetime maximum or a rate limit. -/
def NoLoosening (w : World) (e : Event) : Prop :=
  ∀ (r : ReserveId) record record' w', Step w e w' → w.state.reserves[r]? = some record →
    w'.state.reserves[r]? = some record' → record.config.Tightens record'.config

/-- What the emission of a run rests on. -/
structure Steady (w : World) (e : Event) : Prop where
  releases : ReleasesIdle w e
  clock : ClockMonotone w e
  limits : NoLoosening w e

theorem steady_of_mints {w : World} {e : Event} (h : e.mints = true) (hc : ClockMonotone w e) :
    Steady w e := by
  refine ⟨fun r key heq => ?_, hc, fun r record record' w' hs hrec hrec' => ?_⟩
  · subst heq
    cases h
  · obtain ⟨o, hs⟩ := hs
    have hsame : record'.config = record.config := by
      cases (step_did hs).wrote hrec' with
      | kept hrec' => rw [Option.some.inj (hrec.symm.trans hrec')]
      | added => cases h
      | updated => cases h
      | minted hm => rw [Option.some.inj (hrec.symm.trans hm.before), ReserveRecord.mint]
    rw [hsame]
    exact ⟨fun _ hcap => hcap, fun _ _ hlimit => hlimit⟩

/-- Calls of `add_reserve` are steady as long as the counter holds. -/
theorem steady_of_adds {ledgerId : Principal} {tr : List Event} {w : World}
    (h : Run Step CountsUp (init ledgerId) tr w) (hadds : ∀ e ∈ tr, e.adds = true) :
    Run Step (fun w e => CountsUp w e ∧ Steady w e) (init ledgerId) tr w := by
  have hlast : ∀ e ∈ tr, ∃ arg, e = .addReserve arg := by
    intro e he
    have hadd := hadds e he
    cases e with
    | addReserve arg => exact ⟨arg, rfl⟩
    | _ => cases hadd
  refine h.and (h.of_steps fun tr₁ e tr₂ u v htr hpre hs => ?_)
  obtain ⟨arg, rfl⟩ := hlast e (by simp [htr])
  have hwell : WellFormed u := wellFormed_run hpre
  refine ⟨nofun, nofun, fun r record record' w' hs hrec hrec' => ?_⟩
  obtain ⟨o, hs⟩ := hs
  cases (step_did hs).wrote hrec' with
  | kept hrec' =>
    cases hrec.symm.trans hrec'
    exact ⟨fun _ h => h, fun _ _ h => h⟩
  | added hid =>
    exact (UInt64.lt_irrefl _ (hid ▸ hwell.below r record hrec)).elim

section
variable {ledgerId : Principal} {arg : AddReserveArg} {r : ReserveId} {w₁ w : World}
  {tr : List Event}

def setting (Q : ReserveConfig → Prop) [DecidablePred Q] (config : ReserveConfig) : Option Unit :=
  if Q config then some () else none

theorem setting_eq {Q : ReserveConfig → Prop} [DecidablePred Q] {config : ReserveConfig}
    {c : Unit} : setting Q config = some c ↔ Q config := by
  simp [setting]

/-- What every admitted mint keeps holds of a history, as long as updates keep what
the admission rests on. -/
theorem history_good (Q : ReserveConfig → Prop) (adm : List MintEvent → MintEvent → Prop)
    (Good : List MintEvent → Prop) (happend : ∀ l m, Good l → adm l m → Good (l ++ [m]))
    (hnil : Good []) (hQ : Q arg.config)
    (hkeep : ∀ w e, Steady w e → ∀ record record' w', Step w e w' →
      w.state.reserves[r]? = some record → w'.state.reserves[r]? = some record' →
      Q record.config → Q record'.config)
    (hadm : ∀ w e c record config m, Steady w e → Tracked r w → Recent r c w →
      w.state.reserves[r]? = some record → e.time = some m.timestampNs → Q config →
      Fits config record.lifetimeMinted record.mintEvents m → adm (w.history r) m)
    (h : Since ledgerId arg r Steady w₁ tr w) : Good (w.history r) := by
  classical
  have h₁ := h.registered
  obtain ⟨_, _, _, _, hr⟩ := h
  have hinv := hr.strengthen (I := Timed r)
    (fun _ _ _ ⟨ha, hs⟩ ht hstep => ht.step ha (hs.releases r) hs.clock hstep) h₁.timed
  have hslot : ∃ q, Shows (setting Q) (fun _ _ => True) r w q ∧
      TwoPhase.Sound (fun _ => adm) (fun _ => Good) q ∧ True := by
    refine slot_run (fun _ => trivial) (fun _ _ => trivial)
      ⟨fun hg ha => happend _ _ hg ha, fun _ hg => hg, fun _ ha => ha⟩ ?_ ?_ hinv h₁
      (setting_eq (c := ()).mpr hQ) hnil
    · rintro w e ⟨⟨ha, hs⟩, ht⟩
      refine ⟨ht.fresh, ht.exclusive, ht.snapshot, ha, ?_⟩
      intro w' record record' c hw' hrec hrec' hc
      have hold := setting_eq.mp hc
      exact ⟨(), setting_eq.mpr (hkeep w e hs record record' w' hw' hrec hrec' hold), trivial⟩
    · rintro w e record config c m ⟨⟨-, hs⟩, ht⟩ hrec htime hc hfits
      obtain ⟨c', hc'⟩ := ht.recent
      exact hadm w e c' record config m hs ht.toTracked hc' hrec htime (setting_eq.mp hc) hfits
  obtain ⟨q, hq, ⟨hgood, -⟩, -⟩ := hslot
  rw [← hq.log]
  exact hgood

theorem lifetime_history {M : Nat} (hM : arg.config.CapAtMost M)
    (h : Since ledgerId arg r Steady w₁ tr w) : minted (w.history r) ≤ M := by
  refine history_good (fun config => config.CapAtMost M)
    (fun l m => minted l + m.amount ≤ M) (fun l => minted l ≤ M)
    (fun l m _ hm => ?_) (Nat.zero_le M) hM ?_ ?_ h
  · simpa [minted] using hm
  · intro w e hs record record' w' hw' hrec hrec' hcap
    exact (hs.limits r record record' w' hw' hrec hrec').cap M hcap
  · rintro w e c record config m - ht - hrec - ⟨M', hle, hcap⟩ hfits
    have hroom := hfits.lifetime
    rw [hcap, ht.tally record hrec, within_some] at hroom
    exact hroom.trans hle

theorem rate_history {W L : Nat} (hL : arg.config.LimitAtMost W L)
    (h : Since ledgerId arg r Steady w₁ tr w) :
    Window.Capped MintEvent.timestampNs MintEvent.amount W L (w.history r) := by
  refine history_good (fun config => config.LimitAtMost W L)
    (fun l m => (∀ m' ∈ l, m'.timestampNs ≤ m.timestampNs) ∧
      Window.usage MintEvent.timestampNs MintEvent.amount m.timestampNs W l + m.amount ≤ L)
    (Window.Capped MintEvent.timestampNs MintEvent.amount W L)
    (fun l m hl hm => hl.append hm.1 hm.2) (Window.Capped.nil W L) hL ?_ ?_ h
  · intro w e hs record record' w' hw' hrec hrec' hlimit
    exact (hs.limits r record record' w' hw' hrec hrec').limit W L hlimit
  · rintro w e c record config m hs - hc hrec htime ⟨limits, hlimits, L', hle, hW⟩ hfits
    obtain ⟨hpast, hroom⟩ := limitsAdmit_of_fits hs.clock hc hrec htime hlimits hfits
    exact ⟨hpast, (hroom W L' hW).trans hle⟩

theorem budget_history {lo hi B : Nat} (hB : arg.config.Budget lo hi B)
    (h : Since ledgerId arg r Steady w₁ tr w) :
    minted (Window.within MintEvent.timestampNs lo hi (w.history r)) ≤ B := by
  cases hB with
  | lifetime hcap =>
    exact (Window.total_le_of_sublist List.filter_sublist).trans (lifetime_history hcap h)
  | @rate W L n hlimit hhi hle =>
    refine le_trans (Window.total_filter_le fun m _ hm => ?_)
      (((rate_history hlimit h).span n lo).trans hle)
    have hm := of_decide_eq_true hm
    exact decide_eq_true ⟨hm.1, hm.2.trans hhi⟩

end

/-! ## Registrations -/

def registration? : Event × Output → Option (ReserveId × AddReserveArg)
  | (.addReserve arg, .added (.ok id)) => some (id, arg)
  | _ => none

/-- The reserves that the steps `tr` from `w` register. -/
def registrations (w : World) (tr : List Event) : List (ReserveId × AddReserveArg) :=
  (outputs step w tr).filterMap registration?

section
variable {ok : World → Event → Prop} {ledgerId : Principal} {w w' : World} {tr tr' : List Event}
  {r : ReserveId} {arg : AddReserveArg}

theorem registration?_eq {p : Event × Output} :
    registration? p = some (r, arg) ↔ p = (.addReserve arg, .added (.ok r)) := by
  unfold registration?
  split
  · simp [and_comm]
  · next hne =>
    simp only [reduceCtorEq, false_iff]
    rintro rfl
    exact hne arg r rfl

theorem mem_registrations :
    (r, arg) ∈ registrations w tr ↔ (.addReserve arg, .added (.ok r)) ∈ outputs step w tr := by
  simp [registrations, registration?_eq]

theorem registrations_append (h : Run Step ok w tr w') (tr' : List Event) :
    registrations w (tr ++ tr') = registrations w tr ++ registrations w' tr' := by
  rw [registrations, outputs_append h, List.filterMap_append, registrations, registrations]

theorem registrations_cons {e : Event} {o : Output} (hs : w.step e = some (w', o)) :
    registrations w (e :: tr) =
      (registration? (e, o)).toList ++ registrations w' tr := by
  simp only [registrations, outputs, hs, List.filterMap_cons]
  cases registration? (e, o) <;> rfl

theorem addsOther_of_registrations (h : Run Step ok w tr w')
    (hr : ∀ arg, (r, arg) ∉ registrations w tr) :
    Run Step (fun w e => AddsOther r w e ∧ ok w e) w tr w' := by
  induction h with
  | nil => exact .nil _
  | @cons w v w' e tr ho hs hrun ih =>
    obtain ⟨o, hs⟩ := hs
    simp only [registrations_cons hs, List.mem_append, Option.mem_toList, not_or,
      registration?_eq, Prod.mk.injEq] at hr
    refine .cons ⟨fun v' hadd => ?_, ho⟩ ⟨o, hs⟩ (ih fun arg => (hr arg).2)
    cases hs.symm.trans hadd
    obtain ⟨arg, rfl, -⟩ := (step_did hs).added_ok
    exact (hr arg).1 ⟨rfl, rfl⟩

/-- The ids of the registrations ascend between the two states of the counter. -/
theorem registrations_ascend (h : Run Step CountsUp w tr w') :
    (∀ p ∈ registrations w tr, w.state.nextReserveId ≤ p.1 ∧ p.1 < w'.state.nextReserveId) ∧
    ((registrations w tr).map Prod.fst).Pairwise (· < ·) := by
  induction h with
  | nil => exact ⟨fun p hp => absurd hp List.not_mem_nil, .nil⟩
  | @cons w v w' e tr hc hs hrun ih =>
    obtain ⟨o, hs⟩ := hs
    have hle := next_le hc hs
    rw [registrations_cons hs]
    cases hreg : registration? (e, o) with
    | none =>
      refine ⟨fun p hp => ?_, ih.2⟩
      exact ⟨UInt64.le_trans hle (ih.1 p hp).1, (ih.1 p hp).2⟩
    | some p =>
      obtain ⟨id, arg⟩ := p
      cases registration?_eq.mp hreg
      obtain ⟨-, -, hid, -, -⟩ := (step_did hs).added_ok
      have hnext : v.state.nextReserveId.toNat = id.toNat + 1 := by
        rcases (step_did hs).next_cases with ⟨hno, -⟩ | ⟨-, -, hn⟩
        · exact (hno id rfl).elim
        · rw [hn, ← hid]
          exact toNat_succ (hc v id hs)
      have hafter : ∀ n : ReserveId, v.state.nextReserveId ≤ n → id < n := by
        intro n hn
        rw [UInt64.le_iff_toNat_le] at hn
        rw [UInt64.lt_iff_toNat_lt]
        omega
      have hstart : w.state.nextReserveId = id := hid
      refine ⟨fun p hp => ?_, ?_⟩
      · rcases List.mem_cons.mp hp with rfl | hp
        · exact ⟨hstart ▸ UInt64.le_refl _, hafter _ (next_le_run hrun)⟩
        · exact ⟨UInt64.le_trans hle (ih.1 p hp).1, (ih.1 p hp).2⟩
      · refine List.pairwise_cons.mpr ⟨fun id' hid' => ?_, ih.2⟩
        obtain ⟨p, hp, rfl⟩ := List.mem_map.mp hid'
        exact hafter _ (ih.1 p hp).1

theorem since_registration (h : Run Step (fun w e => CountsUp w e ∧ ok w e) (init ledgerId) tr w)
    (hr : (r, arg) ∈ registrations (init ledgerId) tr) :
    ∃ w₁ tr₁, Since ledgerId arg r ok w₁ tr₁ w := by
  obtain ⟨tr₁, tr₂, u, v, rfl, h₁, hok, hs, h₂⟩ := h.at_output (mem_registrations.mp hr)
  have hcount : Run Step CountsUp (init ledgerId) tr₁ u :=
    (h.split h₁).1.mono fun _ _ hok => hok.1
  have hnext : u.state.nextReserveId = r := (step_did hs).added_ok.choose_spec.2.1
  have hafter : r < v.state.nextReserveId := by
    rcases (step_did hs).next_cases with ⟨hno, -⟩ | ⟨-, -, hn⟩
    · exact (hno r rfl).elim
    · rw [UInt64.lt_iff_toNat_lt, hn, tick_state, toNat_succ (hok.1 v r hs), hnext]
      exact Nat.lt_succ_self _
  refine ⟨v, tr₂, tr₁, u, ?_, hs, ?_⟩
  · refine (addsOther_of_registrations hcount fun arg' hmem => ?_).mono fun _ _ hok => hok.1
    have hlt := ((registrations_ascend hcount).1 _ hmem).2
    rw [hnext] at hlt
    exact UInt64.lt_irrefl _ hlt
  · refine addsOther_of_registrations (h₂.mono fun _ _ hok => hok.2) fun arg' hmem => ?_
    have hge := ((registrations_ascend (h₂.mono fun _ _ hok => hok.1)).1 _ hmem).1
    exact UInt64.lt_irrefl _ (UInt64.lt_of_lt_of_le hafter hge)

theorem commit_registered (h : Run Step ok (init ledgerId) tr w) {c : Commit}
    (hc : c ∈ w.commits) : ∃ arg, (c.reserveId, arg) ∈ registrations (init ledgerId) tr := by
  by_contra hno
  have hother : Run Step (AddsOther c.reserveId) (init ledgerId) tr w :=
    (addsOther_of_registrations h fun arg hmem => hno ⟨arg, hmem⟩).mono fun _ _ hok => hok.1
  have hmem : c.event ∈ w.history c.reserveId :=
    List.mem_map.mpr ⟨c, List.mem_filter.mpr ⟨hc, decide_eq_true rfl⟩, rfl⟩
  rw [(untouched_run hother).uncommitted] at hmem
  cases hmem

end

/-! ## The bound -/

/-- What the minter minted in all from `lo` to `hi`. -/
def emitted (w : World) (lo hi : Nat) : Nat :=
  minted (Window.within MintEvent.timestampNs lo hi (w.commits.map Commit.event))

def commitAmount (c : Commit) : Nat := c.event.amount

def commitsWithin (lo hi : Nat) (l : List Commit) : List Commit :=
  l.filter fun c => lo ≤ c.event.timestampNs ∧ c.event.timestampNs ≤ hi

theorem minted_within (lo hi : Nat) (l : List Commit) :
    minted (Window.within MintEvent.timestampNs lo hi (l.map Commit.event)) =
      Window.total commitAmount (commitsWithin lo hi l) := by
  simp only [minted, Window.within, Window.total, commitsWithin, List.filter_map, List.map_map]
  rfl

theorem emitted_le {ok : World → Event → Prop} {ledgerId : Principal} {tr : List Event} {w : World}
    (h : Run Step ok (init ledgerId) tr w) (lo hi : Nat) :
    w.emitted lo hi ≤ ((registrations (init ledgerId) tr).map fun p =>
      minted (Window.within MintEvent.timestampNs lo hi (w.history p.1))).sum := by
  have hgroups : Window.total commitAmount (commitsWithin lo hi w.commits) ≤
      (((registrations (init ledgerId) tr).map Prod.fst).map fun r =>
        Window.total commitAmount
          ((commitsWithin lo hi w.commits).filter fun c => c.reserveId = r)).sum := by
    refine Window.total_le_groups Commit.reserveId fun c hc => ?_
    obtain ⟨arg, hmem⟩ := commit_registered h (List.mem_filter.mp hc).1
    exact List.mem_map.mpr ⟨_, hmem, rfl⟩
  rw [emitted, minted_within]
  refine hgroups.trans (Nat.le_of_eq ?_)
  rw [List.map_map]
  refine congrArg List.sum (List.map_congr_left fun p _ => ?_)
  simp only [Function.comp_apply, World.history, minted_within, commitsWithin,
    List.filter_filter, Bool.and_comm]

theorem emitted_le_budgets {ledgerId : Principal} {tr : List Event} {w : World}
    (h : Run Step (fun w e => CountsUp w e ∧ Steady w e) (init ledgerId) tr w) {lo hi : Nat}
    {budget : ReserveId × AddReserveArg → Nat}
    (hbudget : ∀ p ∈ registrations (init ledgerId) tr, p.2.config.Budget lo hi (budget p)) :
    w.emitted lo hi ≤ ((registrations (init ledgerId) tr).map budget).sum := by
  refine (emitted_le h lo hi).trans (List.sum_le_sum fun p hp => ?_)
  obtain ⟨w₁, tr₁, hsince⟩ := since_registration h hp
  exact budget_history (hbudget p hp) hsince

/-- In every interval the minter mints at most the sum of the budgets of the
reserves that were ever registered. -/
theorem emission_bounded {ledgerId : Principal} {tr : List Event} {w : World}
    (h : Run Step Steady (init ledgerId) tr w) (hadds : tr.countP Event.adds < 2 ^ 64)
    {lo hi : Nat} (budget : ReserveId × AddReserveArg → Nat)
    (hbudget : ∀ p ∈ registrations (init ledgerId) tr, p.2.config.Budget lo hi (budget p)) :
    w.emitted lo hi ≤ ((registrations (init ledgerId) tr).map budget).sum := by
  have hcount : Run Step CountsUp (init ledgerId) tr w := countsUp_run (h.mono fun _ _ _ => trivial)
    (by simpa [init, State.default, UInt64.size] using hadds)
  exact emitted_le_budgets (hcount.and h) hbudget

def emissionArgs : List AddReserveArg :=
  [{ Sample.reserve with lifetimeReceivedMaximum := some 100 },
    { Sample.reserve with
      account := ⟨⟨[3]⟩, none⟩, rateLimits := some ⟨some 50, none, none, none, none⟩ }]

def emissionSample : List Event :=
  [.manualTopup ⟨0, 90, none⟩ 1, .manualTopup ⟨1, 50, none⟩ 1,
    .transferReply 1 (.answered (.ok 7)), .transferReply 0 (.answered (.ok 8)),
    .manualTopup ⟨1, 50, none⟩ (2 * nanosPerHour), .transferReply 2 (.answered (.ok 9))]

theorem emission_bounded_sample : ∃ w,
    Run Step Steady (init Sample.ledgerId) (emissionArgs.map .addReserve ++ emissionSample) w ∧
    w.emitted 0 (2 * nanosPerHour) = 190 ∧ w.emitted 0 (2 * nanosPerHour) ≤ 200 := by
  let w₂ := last step (init Sample.ledgerId) (emissionArgs.map .addReserve)
  have hadd : Run Step anyEvent (init Sample.ledgerId) (emissionArgs.map .addReserve) w₂ :=
    run_last_any (by decide)
  have hadds : ∀ e ∈ emissionArgs.map Event.addReserve, e.adds = true := by decide
  have hstart := steady_of_adds (countsUp_run hadd (by decide)) hadds
  have hmint : Run Step Steady w₂ emissionSample (last step w₂ emissionSample) := by
    refine run_last (fun w e => e.mints && decide (ClockMonotone w e)) ?_ (by decide) (by decide)
    intro w e hok
    rw [Bool.and_eq_true] at hok
    exact steady_of_mints hok.1 (of_decide_eq_true hok.2)
  have h := (hstart.mono fun _ _ hok => hok.2).append hmint
  have hregs : registrations (init Sample.ledgerId)
      (emissionArgs.map .addReserve ++ emissionSample) =
        [((0 : ReserveId), emissionArgs[0]), ((1 : ReserveId), emissionArgs[1])] := by decide
  have hbudget : ∀ p ∈ registrations (init Sample.ledgerId)
      (emissionArgs.map .addReserve ++ emissionSample),
        p.2.config.Budget 0 (2 * nanosPerHour) 100 := by
    rw [hregs]
    intro p hp
    simp only [List.mem_cons, List.not_mem_nil, or_false] at hp
    rcases hp with rfl | rfl
    · exact .lifetime ⟨100, by decide, by decide⟩
    · have hlimit : emissionArgs[1].config.LimitAtMost nanosPerHour 50 :=
        ⟨_, rfl, 50, Nat.le_refl _, by decide⟩
      have hspan : 2 * nanosPerHour ≤ 0 + (1 + 1) * nanosPerHour := by decide
      exact .rate hlimit hspan (by decide)
  have hle := emission_bounded h (by decide) (fun _ => 100) hbudget
  rw [hregs] at hle
  exact ⟨_, h, by decide, hle⟩

end World

end ViciMinter
