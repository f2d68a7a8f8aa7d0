import Mathlib.Logic.Basic

/-!
# Runs of labelled transition systems

A system is a relation `step : σ → ε → σ → Prop`; the event `ε` carries every
choice of the environment. `Run step ok s tr t` is a run over the events `tr` in
which every event satisfies `ok` in the state it happens in, so assumptions
about the environment are step predicates.

`Run.invariant` is the only induction an invariant needs, `Run.strengthen` lets
one invariant use another, and `Run.simulate` carries a run over to a system
that matches it step by step or stands still.
-/

namespace Lts

variable {σ ε : Type}

inductive Run (step : σ → ε → σ → Prop) (ok : σ → ε → Prop) : σ → List ε → σ → Prop where
  | nil (s : σ) : Run step ok s [] s
  | cons {s t u : σ} {e : ε} {tr : List ε} : ok s e → step s e t → Run step ok t tr u →
      Run step ok s (e :: tr) u

def anyEvent : σ → ε → Prop := fun _ _ => True

section
variable {step : σ → ε → σ → Prop} {ok ok' : σ → ε → Prop} {I : σ → Prop}
  {s t : σ} {tr : List ε}

/-- An assumption that every step of a run meets may replace that of the run. -/
theorem Run.weaken (hok : ∀ s e t, ok s e → step s e t → ok' s e) (h : Run step ok s tr t) :
    Run step ok' s tr t := by
  induction h with
  | nil => exact .nil _
  | cons ho hs _ ih => exact .cons (hok _ _ _ ho hs) hs ih

theorem Run.mono (hok : ∀ s e, ok s e → ok' s e) (h : Run step ok s tr t) :
    Run step ok' s tr t := h.weaken fun s e _ ho _ => hok s e ho

theorem Run.append {u : σ} {tr' : List ε} (h : Run step ok s tr t) (h' : Run step ok t tr' u) :
    Run step ok s (tr ++ tr') u := by
  induction h with
  | nil => exact h'
  | cons ho hs _ ih => exact .cons ho hs (ih h')

theorem Run.length_le_rank {rank : σ → Nat}
    (hstep : ∀ s e t, ok s e → I s → step s e t → I t ∧ rank t < rank s)
    (h : Run step ok s tr t) (h0 : I s) : tr.length + rank t ≤ rank s := by
  induction h with
  | nil => exact Nat.le_of_eq (Nat.zero_add _)
  | cons ho hs _ ih =>
    obtain ⟨hI, hlt⟩ := hstep _ _ _ ho h0 hs
    have hle := ih hI
    rw [List.length_cons]
    omega

/-- What holds of every step of a run may be added to it. -/
theorem Run.of_steps (h : Run step ok s tr t)
    (hall : ∀ tr₁ e tr₂ u v, tr = tr₁ ++ e :: tr₂ → Run step ok s tr₁ u → step u e v → ok' u e) :
    Run step ok' s tr t := by
  induction h with
  | nil => exact .nil _
  | @cons s u t e tr ho hs hr ih =>
    refine .cons (hall [] e tr s u rfl (.nil s) hs) hs (ih ?_)
    rintro tr₁ e' tr₂ v v' rfl hrun hs'
    exact hall (e :: tr₁) e' tr₂ v v' rfl (.cons ho hs hrun) hs'

/-- Induction on a run from its end, for what depends on the events so far. -/
theorem Run.history {P : List ε → σ → Prop} (h : Run step ok s tr t) (h0 : P [] s)
    (hstep : ∀ tr u e v, Run step ok s tr u → P tr u → ok u e → step u e v → P (tr ++ [e]) v) :
    P tr t := by
  have hgo : ∀ {u tr₂ t}, Run step ok u tr₂ t → ∀ tr₁, Run step ok s tr₁ u → P tr₁ u →
      P (tr₁ ++ tr₂) t := by
    intro u tr₂ t h
    induction h with
    | nil => exact fun tr₁ _ hp => (List.append_nil tr₁).symm ▸ hp
    | @cons u v _ e tr ho hs _ ih =>
      intro tr₁ hrun hp
      have := ih (tr₁ ++ [e]) (hrun.append (.cons ho hs (.nil v))) (hstep tr₁ u e v hrun hp ho hs)
      rwa [List.append_assoc] at this
  exact hgo h [] (.nil s) h0

/-- A property of the start that every allowed step keeps holds at the end. -/
theorem Run.invariant (hstep : ∀ s e t, ok s e → I s → step s e t → I t)
    (h : Run step ok s tr t) (h0 : I s) : I t := by
  induction h with
  | nil => exact h0
  | cons ho hs _ ih => exact ih (hstep _ _ _ ho h0 hs)

/-- Along a run an invariant may be added to the step predicate. -/
theorem Run.strengthen (hstep : ∀ s e t, ok s e → I s → step s e t → I t)
    (h : Run step ok s tr t) (h0 : I s) : Run step (fun s e => ok s e ∧ I s) s tr t := by
  induction h with
  | nil => exact .nil _
  | cons ho hs _ ih => exact .cons ⟨ho, h0⟩ hs (ih (hstep _ _ _ ho h0 hs))

/-- A property of the end that every allowed step hands back holds all along. -/
theorem Run.backward (hstep : ∀ s e t, ok s e → step s e t → I t → I s)
    (h : Run step ok s tr t) (ht : I t) : Run step (fun s _ => I s) s tr t := by
  have hboth : Run step (fun s _ => I s) s tr t ∧ I s := by
    induction h with
    | nil => exact ⟨.nil _, ht⟩
    | cons ho hs _ ih =>
      obtain ⟨hr, hI⟩ := ih ht
      have hI := hstep _ _ _ ho hs hI
      exact ⟨.cons hI hs hr, hI⟩
  exact hboth.1

/-- A property of every state of a run holds before and after each of its steps. -/
theorem Run.around (h : Run step (fun s _ => I s) s tr t) (ht : I t) :
    Run step (fun s e => ∃ t, step s e t ∧ I s ∧ I t) s tr t := by
  have hstart : ∀ {s tr}, Run step (fun s _ => I s) s tr t → I s := by
    rintro s tr (_ | ⟨hs, _, _⟩)
    · exact ht
    · exact hs
  induction h with
  | nil => exact .nil _
  | cons hs hstep hr ih => exact .cons ⟨_, hstep, hs, hstart hr⟩ hstep (ih ht hstart)

end

/-! ## Spells

A spell starts in an idle state and does not come back to one. -/

section
variable {step : σ → ε → σ → Prop} {ok : σ → ε → Prop} {idle : σ → Prop} {s t : σ}
  {tr : List ε}

inductive Spell (step : σ → ε → σ → Prop) (ok : σ → ε → Prop) (idle : σ → Prop) (s : σ) :
    List ε → σ → Prop where
  | rest : idle s → Spell step ok idle s [] s
  | step {tr : List ε} {t u : σ} {e : ε} : Spell step ok idle s tr t → ok t e → step t e u →
      ¬ idle u → Spell step ok idle s (tr ++ [e]) u

/-- The only idle state of a spell is its first. -/
theorem Spell.back (h : Spell step ok idle s tr t) (ht : idle t) : tr = [] ∧ t = s := by
  cases h with
  | rest => exact ⟨rfl, rfl⟩
  | step _ _ _ hbusy => exact (hbusy ht).elim

/-- Every state of a run from an idle state is in a spell. -/
theorem Run.spell (h : Run step ok s tr t) (hs : idle s) : ∃ tr₁ u tr₂, tr = tr₁ ++ tr₂ ∧
    Run step ok s tr₁ u ∧ Spell step ok idle u tr₂ t := by
  refine h.history (P := fun tr t => ∃ tr₁ u tr₂, tr = tr₁ ++ tr₂ ∧ Run step ok s tr₁ u ∧
    Spell step ok idle u tr₂ t) ⟨[], s, [], rfl, .nil s, .rest hs⟩ ?_
  rintro tr u e v hrun ⟨tr₁, u₁, tr₂, rfl, hrun₁, hspell⟩ ho hstep
  by_cases hv : idle v
  · exact ⟨tr₁ ++ tr₂ ++ [e], v, [], (List.append_nil _).symm,
      hrun.append (.cons ho hstep (.nil v)), .rest hv⟩
  · exact ⟨tr₁, u₁, tr₂ ++ [e], List.append_assoc _ _ _, hrun₁, hspell.step ho hstep hv⟩

end

/-! ## Simulation -/

section
variable {σ' ε' : Type} {step : σ → ε → σ → Prop} {ok : σ → ε → Prop}
  {step' : σ' → ε' → σ' → Prop} {ok' : σ' → ε' → Prop} {R : σ → σ' → Prop}
  {s t : σ} {tr : List ε}

/-- Related states stay related: every allowed step of the first system is
matched by a run of the second. -/
theorem Run.simulate_run
    (hsim : ∀ s e t q, ok s e → step s e t → R s q → ∃ tr q', Run step' ok' q tr q' ∧ R t q')
    (h : Run step ok s tr t) {q : σ'} (h0 : R s q) : ∃ tr' q', Run step' ok' q tr' q' ∧ R t q' := by
  induction h generalizing q with
  | nil => exact ⟨[], q, .nil q, h0⟩
  | cons ho hs _ ih =>
    obtain ⟨tr₁, q', hr₁, hR⟩ := hsim _ _ _ _ ho hs h0
    obtain ⟨tr₂, q'', hr₂, hR'⟩ := ih hR
    exact ⟨tr₁ ++ tr₂, q'', hr₁.append hr₂, hR'⟩

/-- The steps of the first system are matched by single steps, or by none. -/
theorem Run.simulate
    (hsim : ∀ s e t q, ok s e → step s e t → R s q →
      R t q ∨ ∃ a q', ok' q a ∧ step' q a q' ∧ R t q')
    (h : Run step ok s tr t) {q : σ'} (h0 : R s q) :
    ∃ tr' q', Run step' ok' q tr' q' ∧ R t q' := by
  refine h.simulate_run (fun s e t q ho hs hR => ?_) h0
  rcases hsim s e t q ho hs hR with hR | ⟨a, q', hok', hs', hR⟩
  · exact ⟨[], q, .nil q, hR⟩
  · exact ⟨[a], q', .cons hok' hs' (.nil q'), hR⟩

end

/-! ## Running a given list of events -/

section
variable {ο : Type} (f : σ → ε → Option (σ × ο))

/-- The system of a partial step function with answers. -/
def ofFun (s : σ) (e : ε) (t : σ) : Prop := ∃ o, f s e = some (t, o)

/-- The state after the events `tr`, if every one of them is possible. -/
def exec : σ → List ε → Option σ
  | s, [] => some s
  | s, e :: tr => (f s e).bind fun p => exec p.1 tr

/-- `ok` holds of every event of `tr` in the state it happens in. -/
def okAlong (ok : σ → ε → Bool) : σ → List ε → Bool
  | _, [] => true
  | s, e :: tr => ok s e && (f s e).all fun p => okAlong ok p.1 tr

/-- The events `tr` with their answers, up to the first that is impossible. -/
def outputs : σ → List ε → List (ε × ο)
  | _, [] => []
  | s, e :: tr =>
    match f s e with
    | some (t, o) => (e, o) :: outputs t tr
    | none => []

variable {f}

theorem outputs_append {ok : σ → ε → Prop} {s t : σ} {tr : List ε} (h : Run (ofFun f) ok s tr t)
    (tr' : List ε) : outputs f s (tr ++ tr') = outputs f s tr ++ outputs f t tr' := by
  induction h with
  | nil => rfl
  | cons _ hs _ ih =>
    obtain ⟨o, hs⟩ := hs
    simp only [List.cons_append, outputs, hs, ih]

theorem Run.at_output {ok : σ → ε → Prop} {s t : σ} {tr : List ε} {e : ε} {o : ο}
    (h : Run (ofFun f) ok s tr t) (he : (e, o) ∈ outputs f s tr) :
    ∃ tr₁ tr₂ u v, tr = tr₁ ++ e :: tr₂ ∧ Run (ofFun f) ok s tr₁ u ∧ ok u e ∧
      f u e = some (v, o) ∧ Run (ofFun f) ok v tr₂ t := by
  induction h with
  | nil => cases he
  | @cons s u t e' tr ho hs hr ih =>
    obtain ⟨o', hs⟩ := hs
    simp only [outputs, hs, List.mem_cons, Prod.mk.injEq] at he
    rcases he with ⟨rfl, rfl⟩ | he
    · exact ⟨[], tr, s, u, rfl, .nil s, ho, hs, hr⟩
    · obtain ⟨tr₁, tr₂, v, v', rfl, h₁, hok, hv, h₂⟩ := ih he
      exact ⟨e' :: tr₁, tr₂, v, v', rfl, .cons ho ⟨o', hs⟩ h₁, hok, hv, h₂⟩

/-- Two runs of a function over the same events are one run. -/
theorem Run.and {ok ok' : σ → ε → Prop} {s t : σ} {tr : List ε} (h : Run (ofFun f) ok s tr t)
    (h' : Run (ofFun f) ok' s tr t) : Run (ofFun f) (fun s e => ok s e ∧ ok' s e) s tr t := by
  induction h with
  | nil => exact .nil _
  | cons ho hs _ ih =>
    obtain ⟨o, hs⟩ := hs
    cases h' with
    | cons ho' hs' hr' =>
      obtain ⟨o', hs'⟩ := hs'
      cases hs.symm.trans hs'
      exact .cons ⟨ho, ho'⟩ ⟨o, hs⟩ (ih hr')

theorem Run.split {ok ok' : σ → ε → Prop} {s t u : σ} {tr₁ tr₂ : List ε}
    (h : Run (ofFun f) ok s (tr₁ ++ tr₂) t) (h₁ : Run (ofFun f) ok' s tr₁ u) :
    Run (ofFun f) ok s tr₁ u ∧ Run (ofFun f) ok u tr₂ t := by
  induction h₁ with
  | nil => exact ⟨.nil _, h⟩
  | cons _ hs _ ih =>
    obtain ⟨o, hs⟩ := hs
    cases h with
    | cons ho hs' hr =>
      obtain ⟨o', hs'⟩ := hs'
      cases hs.symm.trans hs'
      obtain ⟨h₁, h₂⟩ := ih hr
      exact ⟨.cons ho ⟨o, hs⟩ h₁, h₂⟩

/-- `l` collects, step by step, what `R` allows of each step of the run over `tr`. -/
inductive Collects {α : Type} (f : σ → ε → Option (σ × ο)) (R : σ → ε → List α → Prop) :
    σ → List ε → List α → Prop where
  | nil (s : σ) : Collects f R s [] []
  | cons {s t : σ} {e : ε} {o : ο} {tr : List ε} {a l : List α} : f s e = some (t, o) → R s e a →
      Collects f R t tr l → Collects f R s (e :: tr) (a ++ l)

theorem Collects.append {α : Type} {R : σ → ε → List α → Prop} {ok : σ → ε → Prop} {s t : σ}
    {tr tr' : List ε} {l l' : List α} (h : Collects f R s tr l) (hrun : Run (ofFun f) ok s tr t)
    (h' : Collects f R t tr' l') : Collects f R s (tr ++ tr') (l ++ l') := by
  induction h with
  | nil =>
    cases hrun
    exact h'
  | cons hs ha _ ih =>
    cases hrun with
    | cons _ hs' hr =>
      obtain ⟨o', hs'⟩ := hs'
      cases hs.symm.trans hs'
      rw [List.append_assoc]
      exact .cons hs ha (ih hr)

/-- Nothing is collected where no allowed step adds anything. -/
theorem Collects.eq_nil {α : Type} {R : σ → ε → List α → Prop} {ok : σ → ε → Prop} {s t : σ}
    {tr : List ε} {l : List α} (hnone : ∀ s e a, ok s e → R s e a → a = [])
    (h : Collects f R s tr l) (hrun : Run (ofFun f) ok s tr t) : l = [] := by
  induction h with
  | nil => rfl
  | cons hs ha _ ih =>
    cases hrun with
    | cons ho hs' hr =>
      obtain ⟨o', hs'⟩ := hs'
      cases hs.symm.trans hs'
      rw [hnone _ _ _ ho ha, ih hr, List.append_nil]

theorem run_of_exec {ok : σ → ε → Prop} {okb : σ → ε → Bool}
    (hok : ∀ s e, okb s e = true → ok s e) :
    ∀ {tr : List ε} {s t : σ}, exec f s tr = some t → okAlong f okb s tr = true →
      Run (ofFun f) ok s tr t
  | [], s, t, h, _ => by
    simp only [exec, Option.some.injEq] at h
    exact h ▸ .nil s
  | e :: tr, s, t, h, hb => by
    simp only [exec, Option.bind_eq_some_iff] at h
    obtain ⟨⟨u, o⟩, hs, hu⟩ := h
    simp only [okAlong, hs, Bool.and_eq_true, Option.all_some] at hb
    exact .cons (hok _ _ hb.1) ⟨o, hs⟩ (run_of_exec hok hu hb.2)

theorem okAlong_of_run {okb : σ → ε → Bool} {s t : σ} {tr : List ε}
    (h : Run (ofFun f) (fun s e => okb s e = true) s tr t) : okAlong f okb s tr = true := by
  induction h with
  | nil => rfl
  | cons ho hs _ ih =>
    obtain ⟨o, hs⟩ := hs
    simp only [okAlong, ho, hs, Option.all_some, ih, Bool.and_self]

variable (f) in
/-- Where the events `tr` lead, or `s` if one of them is impossible. -/
def last (s : σ) (tr : List ε) : σ := (exec f s tr).getD s

theorem run_last {ok : σ → ε → Prop} (okb : σ → ε → Bool)
    (hok : ∀ s e, okb s e = true → ok s e) {tr : List ε} {s : σ}
    (h : (exec f s tr).isSome = true) (hb : okAlong f okb s tr = true) :
    Run (ofFun f) ok s tr (last f s tr) := by
  obtain ⟨t, ht⟩ := Option.isSome_iff_exists.mp h
  rw [last, ht]
  exact run_of_exec hok ht hb

theorem run_last_any {tr : List ε} {s : σ} (h : (exec f s tr).isSome = true) :
    Run (ofFun f) anyEvent s tr (last f s tr) := by
  have hb : ∀ (tr : List ε) (s : σ), okAlong f (fun _ _ => true) s tr = true := by
    intro tr
    induction tr with
    | nil => exact fun _ => rfl
    | cons e tr ih => intro s; cases hs : f s e <;> simp [okAlong, hs, ih]
  exact run_last _ (fun _ _ _ => trivial) h (hb tr s)

theorem step_last_eq {s : σ} {e : ε} {o : ο} (h : (f s e).map Prod.snd = some o) :
    f s e = some (last f s [e], o) := by
  obtain ⟨⟨t, _⟩, ht, rfl⟩ := Option.map_eq_some_iff.mp h
  simp [last, exec, ht]

theorem step_last {s : σ} {e : ε} (h : (f s e).isSome = true) : ofFun f s e (last f s [e]) := by
  obtain ⟨⟨t, o⟩, ht⟩ := Option.isSome_iff_exists.mp h
  exact ⟨o, step_last_eq (by simp [ht])⟩

end

end Lts
