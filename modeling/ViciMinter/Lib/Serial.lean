import Mathlib.Data.List.Basic
import Mathlib.Logic.Function.Basic

/-!
# Calls in the order in which they began

Calls begin, wait and take effect later, and others run in between. A journal has
one slot for each call, in the order in which they began: it is open as long as
the call waits, and then holds the action that would have done the same in its
place at once, with its answer. `replay` runs the closed slots one after the
other.

A call that ends takes effect before those that began after it, as the journal
has it. `System` says what that rests on: an action that spares the footprint of
a waiting call commutes with its effect. `Sound` is the invariant, and
`Sound.close` the rule for a call that ends: on replay, its slot answers what the
call answered, and the last state gains its effect.
-/

namespace Serial

variable {σ α ο τ ε φ ν : Type}

inductive Slot (ν α ο : Type) where
  | opened (n : ν)
  | done (a : α) (o : ο)
  deriving DecidableEq, Repr

/-- Actions that run at once, and calls that wait and end with an effect. -/
structure System (σ α ο τ ε φ : Type) where
  run : α → σ → σ × ο
  effect : ε → σ → σ
  /-- What a waiting call will change, and what an effect changes. -/
  footprint : τ → φ
  target : ε → φ
  /-- The call could have begun in this state. -/
  ready : τ → σ → Prop
  /-- An effect on the footprint is still possible. -/
  free : φ → σ → Prop
  /-- The action does not meet the footprint. -/
  spares : φ → α → σ → Prop
  apart : φ → φ → Prop

structure System.Lawful (S : System σ α ο τ ε φ) : Prop where
  free_of_ready : ∀ {t s}, S.ready t s → S.free (S.footprint t) s
  free_run : ∀ {f a s}, S.free f s → S.spares f a s → S.free f (S.run a s).1
  commute : ∀ {e a s}, S.free (S.target e) s → S.spares (S.target e) a s →
    S.run a (S.effect e s) = (S.effect e (S.run a s).1, (S.run a s).2)
  spares_effect : ∀ {f a e s}, S.spares f a s → S.spares f a (S.effect e s)
  ready_effect : ∀ {t e s}, S.apart (S.footprint t) (S.target e) → S.ready t s →
    S.ready t (S.effect e s)

namespace System

variable (S : System σ α ο τ ε φ)

/-- The closed slots, one after the other. -/
def replay : σ → List (Slot ν α ο) → σ
  | s, [] => s
  | s, .opened _ :: J => replay s J
  | s, .done a _ :: J => replay (S.run a s).1 J

/-- Every closed slot answers on replay what it holds. -/
def Answers : σ → List (Slot ν α ο) → Prop
  | _, [] => True
  | s, .opened _ :: J => Answers s J
  | s, .done a o :: J => (S.run a s).2 = o ∧ Answers (S.run a s).1 J

/-- No action of the journal meets the footprint. -/
def Passes (f : φ) : σ → List (Slot ν α ο) → Prop
  | _, [] => True
  | s, .opened _ :: J => Passes f s J
  | s, .done a _ :: J => S.spares f a s ∧ Passes f (S.run a s).1 J

/-- The closed slots answer what they hold. The calls that still wait could have
begun at their slots, and no action since then meets them. -/
def Sound (live : ν → Option τ) : σ → List (Slot ν α ο) → Prop
  | _, [] => True
  | s, .opened n :: J =>
    (∀ t, live n = some t → S.ready t s ∧ S.Passes (S.footprint t) s J) ∧ Sound live s J
  | s, .done a o :: J => (S.run a s).2 = o ∧ Sound live (S.run a s).1 J

end System

def Slot.answer? : Slot ν α ο → Option ο
  | .opened _ => none
  | .done _ o => some o

/-- Slot `n` is closed. -/
def close [DecidableEq ν] (n : ν) (a : α) (o : ο) : List (Slot ν α ο) → List (Slot ν α ο)
  | [] => []
  | .opened m :: J => if m = n then .done a o :: J else .opened m :: close n a o J
  | .done b p :: J => .done b p :: close n a o J

section
variable {S : System σ α ο τ ε φ} {live live' : ν → Option τ} {s : σ} {J : List (Slot ν α ο)}
  {a : α} {o : ο} {e : ε} {f : φ} {t : τ} {n : ν}

theorem System.Sound.answers (h : S.Sound live s J) : S.Answers s J := by
  induction J generalizing s with
  | nil => exact trivial
  | cons slot J ih =>
    cases slot with
    | opened n => exact ih h.2
    | done a o => exact ⟨h.1, ih h.2⟩

/-- Calls that wait for something else at the same place still find what they need. -/
theorem System.Sound.mono (hlive : ∀ n t', .opened n ∈ J → live' n = some t' → ∃ t,
      live n = some t ∧ S.footprint t' = S.footprint t ∧ ∀ s, S.ready t s → S.ready t' s)
    (h : S.Sound live s J) : S.Sound live' s J := by
  induction J generalizing s with
  | nil => exact trivial
  | cons slot J ih =>
    have hrest := fun n t' hn => hlive n t' (List.mem_cons_of_mem slot hn)
    cases slot with
    | opened n =>
      refine ⟨fun t' ht' => ?_, ih hrest h.2⟩
      obtain ⟨t, ht, hf, hready⟩ := hlive n t' List.mem_cons_self ht'
      obtain ⟨hr, hp⟩ := h.1 t ht
      exact ⟨hready s hr, hf ▸ hp⟩
    | done a o => exact ⟨h.1, ih hrest h.2⟩

/-! ## Slots -/

@[simp] theorem done_answers :
    (J ++ [Slot.done a o]).filterMap Slot.answer? = J.filterMap Slot.answer? ++ [o] := by
  rw [List.filterMap_append]
  rfl

@[simp] theorem opened_answers :
    (J ++ [Slot.opened n]).filterMap Slot.answer? = J.filterMap Slot.answer? := by
  rw [List.filterMap_append]
  exact List.append_nil _

section
variable [DecidableEq ν]

theorem close_mem {m : ν} (h : .opened m ∈ close n a o J) : .opened m ∈ J := by
  induction J with
  | nil => cases h
  | cons slot J ih =>
    cases slot with
    | opened k =>
      unfold close at h
      split at h
      · exact List.mem_cons_of_mem _ ((List.mem_cons.mp h).resolve_left nofun)
      · rcases List.mem_cons.mp h with heq | h
        · exact heq ▸ List.mem_cons_self
        · exact List.mem_cons_of_mem _ (ih h)
    | done b p =>
      exact List.mem_cons_of_mem _ (ih ((List.mem_cons.mp h).resolve_left nofun))

theorem mem_close {m : ν} (hm : m ≠ n) (h : .opened m ∈ J) : .opened m ∈ close n a o J := by
  induction J with
  | nil => cases h
  | cons slot J ih =>
    cases slot with
    | opened k =>
      unfold close
      rcases List.mem_cons.mp h with heq | h
      · cases heq
        rw [if_neg hm]
        exact List.mem_cons_self
      · split
        · exact List.mem_cons_of_mem _ h
        · exact List.mem_cons_of_mem _ (ih h)
    | done b p =>
      exact List.mem_cons_of_mem _ (ih ((List.mem_cons.mp h).resolve_left nofun))

theorem done_close {b : α} {p : ο} (h : .done b p ∈ close n a o J) :
    .done b p ∈ J ∨ b = a := by
  induction J with
  | nil => cases h
  | cons slot J ih =>
    cases slot with
    | opened k =>
      unfold close at h
      split at h <;> rcases List.mem_cons.mp h with heq | h
      · cases heq
        exact .inr rfl
      · exact .inl (List.mem_cons_of_mem _ h)
      · cases heq
      · exact (ih h).imp_left (List.mem_cons_of_mem _)
    | done c q =>
      rcases List.mem_cons.mp h with heq | h
      · exact .inl (heq ▸ List.mem_cons_self)
      · exact (ih h).imp_left (List.mem_cons_of_mem _)

theorem close_answers (h : .opened n ∈ J) :
    ((close n a o J).filterMap Slot.answer?).Perm (J.filterMap Slot.answer? ++ [o]) := by
  induction J with
  | nil => cases h
  | cons slot J ih =>
    cases slot with
    | opened k =>
      unfold close
      split
      · exact (List.perm_append_singleton _ _).symm
      · next hk =>
        refine ih ((List.mem_cons.mp h).resolve_left fun heq => ?_)
        cases heq
        exact hk rfl
    | done b p => exact (ih ((List.mem_cons.mp h).resolve_left nofun)).cons p

end

/-! ## New slots -/

theorem System.replay_append (J J' : List (Slot ν α ο)) (s : σ) :
    S.replay s (J ++ J') = S.replay (S.replay s J) J' := by
  induction J generalizing s with
  | nil => rfl
  | cons slot J ih => cases slot <;> exact ih _

theorem System.Passes.concat (h : S.Passes f s J) (ha : S.spares f a (S.replay s J)) :
    S.Passes f s (J ++ [.done a o]) := by
  induction J generalizing s with
  | nil => exact ⟨ha, trivial⟩
  | cons slot J ih =>
    cases slot with
    | opened n => exact ih h ha
    | done b p => exact ⟨h.1, ih h.2 ha⟩

theorem System.Passes.concat_opened (h : S.Passes f s J) : S.Passes f s (J ++ [.opened n]) := by
  induction J generalizing s with
  | nil => exact trivial
  | cons slot J ih =>
    cases slot with
    | opened n => exact ih h
    | done b p => exact ⟨h.1, ih h.2⟩

/-- An action runs at once. -/
theorem System.Sound.concat (h : S.Sound live s J) (ho : (S.run a (S.replay s J)).2 = o)
    (ha : ∀ n t, live n = some t → S.spares (S.footprint t) a (S.replay s J)) :
    S.Sound live s (J ++ [.done a o]) := by
  induction J generalizing s with
  | nil => exact ⟨ho, trivial⟩
  | cons slot J ih =>
    cases slot with
    | opened n =>
      refine ⟨fun t ht => ?_, ih h.2 ho ha⟩
      obtain ⟨hr, hp⟩ := h.1 t ht
      exact ⟨hr, hp.concat (ha n t ht)⟩
    | done b p => exact ⟨h.1, ih h.2 ho ha⟩

/-- A call begins and waits. -/
theorem System.Sound.concat_opened (h : S.Sound live s J)
    (hn : ∀ t, live n = some t → S.ready t (S.replay s J)) :
    S.Sound live s (J ++ [.opened n]) := by
  induction J generalizing s with
  | nil => exact ⟨fun t ht => ⟨hn t ht, trivial⟩, trivial⟩
  | cons slot J ih =>
    cases slot with
    | opened m =>
      refine ⟨fun t ht => ?_, ih h.2 hn⟩
      obtain ⟨hr, hp⟩ := h.1 t ht
      exact ⟨hr, hp.concat_opened⟩
    | done b p => exact ⟨h.1, ih h.2 hn⟩

/-! ## Slots that may be left out -/

/-- The slot waits, or its action is one of these. -/
def Slot.among (p : α → Bool) : Slot ν α ο → Bool
  | .opened _ => true
  | .done a _ => p a

/-- Without the actions that are not kept, the others answer the same, if `R` relates the
states with them to those without. -/
theorem System.Answers.without {R : σ → σ → Prop} {p : α → Bool} {s' : σ}
    (hkeep : ∀ a o s s', .done a o ∈ J → p a = true → R s s' →
      R (S.run a s).1 (S.run a s').1 ∧ (S.run a s').2 = (S.run a s).2)
    (hdrop : ∀ a o s s', .done a o ∈ J → p a = false → R s s' → R (S.run a s).1 s')
    (hR : R s s') (h : S.Answers s J) :
    S.Answers s' (J.filter (Slot.among p)) ∧
      R (S.replay s J) (S.replay s' (J.filter (Slot.among p))) := by
  induction J generalizing s s' with
  | nil => exact ⟨trivial, hR⟩
  | cons slot J ih =>
    have ih := fun {s s'} => @ih s s'
      (fun a o s s' hm => hkeep a o s s' (List.mem_cons_of_mem slot hm))
      (fun a o s s' hm => hdrop a o s s' (List.mem_cons_of_mem slot hm))
    cases slot with
    | opened n =>
      rw [List.filter_cons_of_pos rfl]
      exact ih hR h
    | done a o =>
      obtain ⟨ho, h⟩ := h
      cases hk : p a with
      | true =>
        obtain ⟨hR, hsame⟩ := hkeep a o s s' List.mem_cons_self hk hR
        rw [List.filter_cons_of_pos (by simpa [Slot.among] using hk)]
        obtain ⟨hanswers, hreplay⟩ := ih hR h
        exact ⟨⟨hsame.trans ho, hanswers⟩, hreplay⟩
      | false =>
        rw [List.filter_cons_of_neg (by simp [Slot.among, hk])]
        exact ih (hdrop a o s s' List.mem_cons_self hk hR) h

/-! ## An effect that comes earlier -/

namespace System.Lawful

variable (hS : S.Lawful)
include hS

theorem replay_effect (hfree : S.free (S.target e) s) (hp : S.Passes (S.target e) s J) :
    S.replay (S.effect e s) J = S.effect e (S.replay s J) := by
  induction J generalizing s with
  | nil => rfl
  | cons slot J ih =>
    cases slot with
    | opened n => exact ih hfree hp
    | done a o =>
      obtain ⟨ha, hp⟩ := hp
      simp only [System.replay, hS.commute hfree ha]
      exact ih (hS.free_run hfree ha) hp

theorem passes_effect (hfree : S.free (S.target e) s) (hp : S.Passes (S.target e) s J)
    (h : S.Passes f s J) : S.Passes f (S.effect e s) J := by
  induction J generalizing s with
  | nil => exact trivial
  | cons slot J ih =>
    cases slot with
    | opened n => exact ih hfree hp h
    | done a o =>
      obtain ⟨ha, hp⟩ := hp
      obtain ⟨hf, h⟩ := h
      refine ⟨hS.spares_effect hf, ?_⟩
      rw [hS.commute hfree ha]
      exact ih (hS.free_run hfree ha) hp h

theorem sound_effect (hfree : S.free (S.target e) s) (hp : S.Passes (S.target e) s J)
    (hapart : ∀ n t, live n = some t → S.apart (S.footprint t) (S.target e))
    (h : S.Sound live s J) : S.Sound live (S.effect e s) J := by
  induction J generalizing s with
  | nil => exact trivial
  | cons slot J ih =>
    cases slot with
    | opened n =>
      refine ⟨fun t ht => ?_, ih hfree hp h.2⟩
      obtain ⟨hr, ht'⟩ := h.1 t ht
      exact ⟨hS.ready_effect (hapart n t ht) hr, hS.passes_effect hfree hp ht'⟩
    | done a o =>
      obtain ⟨ha, hp⟩ := hp
      refine ⟨?_, ?_⟩
      · rw [hS.commute hfree ha]
        exact h.1
      · rw [hS.commute hfree ha]
        exact ih (hS.free_run hfree ha) hp h.2

/-! ## A slot that is closed -/

variable [DecidableEq ν]

/-- Other calls still wait undisturbed when slot `n` is closed. -/
theorem passes_close (hn : .opened n ∈ J) (ht : live n = some t)
    (hrun : ∀ s, S.ready t s → S.run a s = (S.effect e s, o)) (he : S.target e = S.footprint t)
    (hspares : ∀ s, S.ready t s → S.spares f a s) (h : S.Sound live s J) (hf : S.Passes f s J) :
    S.Passes f s (close n a o J) := by
  induction J generalizing s with
  | nil => cases hn
  | cons slot J ih =>
    cases slot with
    | opened m =>
      by_cases hm : m = n
      · subst hm
        obtain ⟨hr, hp⟩ := h.1 t ht
        rw [close, if_pos rfl]
        refine ⟨hspares s hr, ?_⟩
        rw [hrun s hr]
        exact hS.passes_effect (he ▸ hS.free_of_ready hr) (he ▸ hp) hf
      · rw [close, if_neg hm]
        refine ih ?_ h.2 hf
        rcases List.mem_cons.mp hn with heq | hn
        · cases heq
          exact (hm rfl).elim
        · exact hn
    | done b p =>
      refine ⟨hf.1, ih ?_ h.2 hf.2⟩
      exact (List.mem_cons.mp hn).resolve_left nofun

/-- A call ends: its slot is closed, and the replay gains its effect. -/
theorem close_sound (hn : .opened n ∈ J) (ht : live n = some t)
    (hrun : ∀ s, S.ready t s → S.run a s = (S.effect e s, o)) (he : S.target e = S.footprint t)
    (hother : ∀ m u, m ≠ n → live m = some u → S.apart (S.footprint u) (S.footprint t) ∧
      ∀ s, S.ready t s → S.spares (S.footprint u) a s) (h : S.Sound live s J) :
    S.replay s (close n a o J) = S.effect e (S.replay s J) ∧
    S.Sound (Function.update live n none) s (close n a o J) := by
  have hrest : ∀ m u, Function.update live n none m = some u → m ≠ n ∧ live m = some u := by
    intro m u hu
    by_cases hm : m = n
    · simp [hm] at hu
    · exact ⟨hm, by rwa [Function.update_of_ne hm] at hu⟩
  induction J generalizing s with
  | nil => cases hn
  | cons slot J ih =>
    cases slot with
    | opened m =>
      by_cases hm : m = n
      · subst hm
        obtain ⟨hr, hp⟩ := h.1 t ht
        have hfree : S.free (S.target e) s := he ▸ hS.free_of_ready hr
        have hpass : S.Passes (S.target e) s J := he ▸ hp
        rw [close, if_pos rfl]
        refine ⟨?_, ?_, ?_⟩
        · simp only [System.replay, hrun s hr]
          exact hS.replay_effect hfree hpass
        · rw [hrun s hr]
        · rw [hrun s hr]
          refine hS.sound_effect hfree hpass (fun k u hu => ?_) (h.2.mono fun k u _ hu => ?_)
          · obtain ⟨hk, hu⟩ := hrest k u hu
            exact he ▸ (hother k u hk hu).1
          · exact ⟨u, (hrest k u hu).2, rfl, fun _ hr => hr⟩
      · have hn' : .opened n ∈ J := by
          rcases List.mem_cons.mp hn with heq | hn
          · cases heq
            exact (hm rfl).elim
          · exact hn
        obtain ⟨hreplay, hsound⟩ := ih hn' h.2
        rw [close, if_neg hm]
        refine ⟨hreplay, fun u hu => ?_, hsound⟩
        obtain ⟨-, hu⟩ := hrest m u hu
        obtain ⟨hr, hp⟩ := h.1 u hu
        exact ⟨hr, hS.passes_close hn' ht hrun he (hother m u hm hu).2 h.2 hp⟩
    | done b p =>
      obtain ⟨hreplay, hsound⟩ := ih ((List.mem_cons.mp hn).resolve_left nofun) h.2
      exact ⟨hreplay, h.1, hsound⟩

end System.Lawful

end

end Serial
