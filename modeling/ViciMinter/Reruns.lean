import ViciMinter.Schedule

/-!
# Running the script again

As long as no reserve is removed, `add_reserve` accepts an account once
(`registrations_apart`). So the script may be run again after any run of the minter, also
with other decimals: it registers only the buckets that it has not registered before, and
after a complete first run it changes nothing (`rerun_registers_nothing`).
-/

namespace ViciMinter

open Lts

namespace InitReserves

theorem account_of_call {mult : Int64} {principal : Bucket → Principal} {b : Bucket}
    {arg : AddReserveArg} (h : addReserveCall mult principal b = some arg) :
    arg.account = ⟨principal b, none⟩ := by
  have hauto : ∀ {label purpose p c d m}, callAddAutoReserve label purpose p c d m = some arg →
      arg.account = ⟨p, none⟩ := by
    intro label purpose p c d m h
    simp only [callAddAutoReserve, Option.bind_eq_bind, Option.bind_eq_some_iff, Option.pure_def,
      Option.some.injEq] at h
    obtain ⟨_, _, _, _, _, _, _, _, _, _, rfl⟩ := h
    rfl
  cases b with
  | buffer =>
    simp only [addReserveCall, callAddManualReserve, Option.bind_eq_bind, Option.bind_eq_some_iff,
      Option.pure_def, Option.some.injEq] at h
    obtain ⟨_, _, rfl⟩ := h
    rfl
  | _ => exact hauto h

/-- What registers nothing changes nothing. -/
theorem registerReserves_unchanged {mult : Int64} {principal : Bucket → Principal}
    {buckets : List Bucket} {s : State}
    (h : (registerReserves mult principal s buckets).2 = []) :
    registerReserves mult principal s buckets = (s, []) := by
  induction buckets generalizing s with
  | nil => rfl
  | cons b rest ih =>
    cases hcall : addReserveCall mult principal b with
    | none => exact registerReserves_end hcall rest
    | some arg =>
      rw [registerReserves_cons hcall] at h ⊢
      rcases addReserveImpl_cases s arg with ⟨e, he⟩ | ⟨he, -⟩
      · rw [he] at h ⊢
        rw [ih h]
        rfl
      · simp [he] at h

theorem registered_account {decimals : String} {principals : Bucket → Option Principal} {s : State}
    {p : Bucket × AddReserveArg} (h : p ∈ (initReserves decimals principals s).2) :
    p.2.account = ⟨(principals p.1).getD ⟨[]⟩, none⟩ := by
  rcases initReserves_cases decimals principals s with hq | hq
  · rw [hq] at h
    cases h
  · rw [hq] at h
    exact account_of_call (mem_registered h)

theorem initReserves_unchanged {decimals : String} {principals : Bucket → Option Principal}
    {s : State} (h : (initReserves decimals principals s).2 = []) :
    initReserves decimals principals s = (s, []) := by
  rcases initReserves_cases decimals principals s with hq | hq
  · exact hq
  · rw [hq] at h ⊢
    exact registerReserves_unchanged h

end InitReserves

namespace World

/-- No call of `remove_reserve` succeeds. -/
def RemovesNone (w : World) (e : Event) : Prop :=
  ∀ w' config, w.step e ≠ some (w', .removed (.ok config))

def Taken (account : Principal × Subaccount) (w : World) : Prop :=
  ∃ (id : ReserveId) (record : ReserveRecord), w.state.reserves[id]? = some record ∧
    record.config.account.canon = account

section
variable {w w' : World} {e : Event} {o : Output} {account : Principal × Subaccount}

theorem Taken.step (h : Taken account w) (hw : WellFormed w) (hr : RemovesNone w e)
    (hs : Step w e w') : Taken account w' := by
  obtain ⟨id, record, hrec, hacc⟩ := h
  obtain ⟨o, hs⟩ := hs
  have hd := step_did hs
  cases hrec' : w'.state.reserves[id]? with
  | some record' =>
    rcases hd.account_cases hrec' with ⟨old, hold, heq⟩ | ⟨hid, -⟩
    · cases hrec.symm.trans hold
      exact ⟨id, record', hrec', heq ▸ hacc⟩
    · exact (UInt64.lt_irrefl id (hid ▸ hw.below id record hrec)).elim
  | none =>
    rcases hd.still_or_removed hrec with ⟨record', hstill⟩ | ⟨rfl, -⟩
    · cases hrec'.symm.trans hstill
    · -- the removal was refused, and changed nothing
      have hstep : w.step (.removeReserve id) = some
          ({ w with state := (removeReserveImpl w.state id).1 },
            .removed (removeReserveImpl w.state id).2) := rfl
      rcases removeReserveImpl_cases w.state id with ⟨err, he⟩ | ⟨old, -, -, -, he⟩
      · rw [he] at hstep
        cases hs.symm.trans hstep
        cases hrec.symm.trans hrec'
      · rw [he] at hstep
        exact (hr _ _ hstep).elim

theorem registration_takes {p : ReserveId × AddReserveArg} (hs : w.step e = some (w', o))
    (hp : registration? (e, o) = some p) :
    ¬ Taken p.2.account.canon w ∧ Taken p.2.account.canon w' := by
  obtain ⟨r, arg⟩ := p
  cases registration?_eq.mp hp
  have hstep : w.step (.addReserve arg) = some
      ({ w with state := (addReserveImpl w.state arg).1 },
        .added (addReserveImpl w.state arg).2) := rfl
  rcases addReserveImpl_cases w.state arg with ⟨err, he⟩ | ⟨he, -, hfree⟩
  · rw [he] at hstep
    cases hs.symm.trans hstep
  · rw [he] at hstep
    cases hs.symm.trans hstep
    refine ⟨?_, w.state.nextReserveId, _, (register_record _ _ _).trans (if_pos rfl), rfl⟩
    rintro ⟨id, record, hrec, hacc⟩
    exact hfree id record hrec hacc

/-- The registrations of a run without removals are of different accounts, that were free
before. -/
theorem registrations_apart {tr : List Event} (hw : WellFormed w)
    (h : Run Step (fun w e => CountsUp w e ∧ RemovesNone w e) w tr w') :
    (∀ p ∈ registrations w tr, ¬ Taken p.2.account.canon w) ∧
    (registrations w tr).Pairwise fun p q => p.2.account.canon ≠ q.2.account.canon := by
  induction h with
  | nil => exact ⟨fun p hp => absurd hp List.not_mem_nil, .nil⟩
  | @cons w v w' e tr hok hs _ ih =>
    obtain ⟨hfree, hapart⟩ := ih (hw.step hok.1 hs)
    have hrest : ∀ p ∈ registrations v tr, ¬ Taken p.2.account.canon w := fun p hp htaken =>
      hfree p hp (htaken.step hw hok.2 hs)
    obtain ⟨o, hs⟩ := hs
    rw [registrations_cons hs]
    cases hreg : registration? (e, o) with
    | none => exact ⟨hrest, hapart⟩
    | some p =>
      obtain ⟨hno, hyes⟩ := registration_takes hs hreg
      refine ⟨?_, .cons (fun q hq heq => hfree q hq (heq ▸ hyes)) hapart⟩
      rintro q (_ | ⟨_, hq⟩)
      · exact hno
      · exact hrest q hq

end

theorem removesNone_of_adds {w : World} {e : Event} (h : e.adds = true) : RemovesNone w e := by
  intro w' config hs
  cases e with
  | addReserve arg =>
    simp only [step, advance, Option.some.injEq, Prod.mk.injEq, reduceCtorEq, and_false] at hs
  | _ => cases h

/-- Unless a reserve was removed, another run of the script, with these or other decimals,
registers only what the first one did not register: nothing, if that was all. -/
theorem rerun_registers_nothing {ledgerId : Principal} {tr₀ tr : List Event} {w w' : World}
    {decimals decimals' : String} {principals : InitReserves.Bucket → Option Principal}
    (h₀ : Run Step anyEvent (init ledgerId) tr₀ w)
    (h : Run Step RemovesNone (afterScript decimals principals w) tr w')
    (hadds : tr₀.countP Event.adds + tr.countP Event.adds + 12 < 2 ^ 64) :
    (∀ p ∈ (InitReserves.initReserves decimals' principals w'.state).2,
      p.1 ∉ (InitReserves.initReserves decimals principals w.state).2.map Prod.fst) ∧
    ((InitReserves.initReserves decimals principals w.state).2.map Prod.fst =
        InitReserves.Bucket.all →
      InitReserves.initReserves decimals' principals w'.state = (w'.state, [])) := by
  obtain ⟨t₁, hfew₁, hadds₁, hrun₁, hreg₁⟩ := script_run decimals principals w
  obtain ⟨t₂, hfew₂, hadds₂, hrun₂, hreg₂⟩ := script_run decimals' principals w'
  have hany := hrun₁.append ((h.mono fun _ _ _ => trivial).append hrun₂)
  have hremoves : Run Step RemovesNone w (t₁ ++ (tr ++ t₂)) _ :=
    (hrun₁.of_steps fun _ e _ _ _ htr _ _ => removesNone_of_adds (hadds₁ e (by simp [htr]))).append
      (h.append (hrun₂.of_steps fun _ e _ _ _ htr _ _ =>
        removesNone_of_adds (hadds₂ e (by simp [htr]))))
  have hups : Run Step CountsUp (init ledgerId) (tr₀ ++ (t₁ ++ (tr ++ t₂)))
      (afterScript decimals' principals w') := by
    refine countsUp_run (h₀.append hany) ?_
    have hzero : (init ledgerId).state.nextReserveId.toNat = 0 := rfl
    simp only [hzero, UInt64.size, List.countP_append]
    omega
  obtain ⟨hup₀, hup⟩ := hups.split h₀
  obtain ⟨-, hapart⟩ := registrations_apart (wellFormed_run hup₀) (hup.and hremoves)
  rw [registrations_append hrun₁, registrations_append h, List.pairwise_append] at hapart
  have hnew : ∀ p ∈ (InitReserves.initReserves decimals' principals w'.state).2,
      p.1 ∉ (InitReserves.initReserves decimals principals w.state).2.map Prod.fst := by
    intro p hp hold
    obtain ⟨q, hq, hqp⟩ := List.mem_map.mp hold
    obtain ⟨x, hx, hxq⟩ := List.mem_map.mp (hreg₁ ▸ List.mem_map_of_mem (f := Prod.snd) hq)
    obtain ⟨y, hy, hyp⟩ := List.mem_map.mp (hreg₂ ▸ List.mem_map_of_mem (f := Prod.snd) hp)
    refine hapart.2.2 x hx y (List.mem_append_right _ hy) ?_
    rw [hxq, hyp, InitReserves.registered_account hq, InitReserves.registered_account hp, hqp]
  refine ⟨hnew, fun hall => InitReserves.initReserves_unchanged ?_⟩
  refine List.eq_nil_iff_forall_not_mem.mpr fun p hp => hnew p hp ?_
  rw [hall]
  cases p.1 <;> decide

def removesNoneTest (w : World) (e : Event) : Bool :=
  match w.step e with
  | some (_, .removed (.ok _)) => false
  | _ => true

/-- A top-up of the buffer, that cannot be removed meanwhile. -/
def bufferSample : List Event := [.manualTopup ⟨5, 7, none⟩ 1, .removeReserve 5]

/-- After the script in full the same script with other decimals changes nothing. -/
theorem rerun_registers_nothing_sample : ∃ w',
    Run Step RemovesNone (afterScript "4" InitReserves.samplePrincipals (init Sample.ledgerId))
      bufferSample w' ∧
    w'.state.reserves.keys = [0, 1, 2, 3, 4, 5] ∧
    InitReserves.initReserves "6" InitReserves.samplePrincipals w'.state = (w'.state, []) := by
  have hok : ∀ w e, removesNoneTest w e = true → RemovesNone w e := by
    intro w e h w' config hs
    rw [removesNoneTest, hs] at h
    cases h
  have h : Run Step RemovesNone
      (afterScript "4" InitReserves.samplePrincipals (init Sample.ledgerId)) bufferSample _ :=
    run_last removesNoneTest hok (by decide) (by decide)
  exact ⟨_, h, by decide, (rerun_registers_nothing (.nil _) h (by decide)).2 (by decide)⟩

end World

end ViciMinter
