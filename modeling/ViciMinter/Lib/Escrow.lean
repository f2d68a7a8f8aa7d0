import Mathlib.Data.List.Perm.Basic
import Mathlib.Data.List.Count
import Mathlib.Logic.Function.Basic

/-!
# What is held is handed on

Things are made and handed out; in between, holders hold them. `Balanced` says that what
was made is what was handed out and what the holders hold, each thing once. A holder that
passes on what it has, and what is made meanwhile, keeps the balance (`Balanced.pass`), and
so do holders who drop what they hold, if that is counted as handed out (`Balanced.drop`).
-/

namespace Escrow

variable {τ α : Type} {made given more out new : List α} {held : τ → List α} {ts : List τ} {t : τ}

/-- `ts` has every holder that holds something. -/
structure Holding (held : τ → List α) (ts : List τ) : Prop where
  nodup : ts.Nodup
  mem : ∀ t, held t ≠ [] → t ∈ ts

def Balanced (made given : List α) (held : τ → List α) : Prop :=
  ∃ ts, Holding held ts ∧ made.Perm (given ++ ts.flatMap held)

theorem balanced_nil : Balanced ([] : List α) [] fun _ : τ => [] :=
  ⟨[], ⟨.nil, fun _ h => (h rfl).elim⟩, .refl _⟩

/-- The list of holders may have more of them. -/
theorem Balanced.with (h : Balanced made given held) (t : τ) : ∃ ts, Holding held ts ∧ t ∈ ts ∧
    made.Perm (given ++ ts.flatMap held) := by
  obtain ⟨ts, hts, hp⟩ := h
  by_cases ht : t ∈ ts
  · exact ⟨ts, hts, ht, hp⟩
  · have hnone : held t = [] := by
      by_contra hne
      exact ht (hts.mem t hne)
    refine ⟨t :: ts, ⟨List.nodup_cons.mpr ⟨ht, hts.nodup⟩, fun t' h' => ?_⟩, List.mem_cons_self, ?_⟩
    · exact List.mem_cons_of_mem t (hts.mem t' h')
    · rw [List.flatMap_cons, hnone]
      exact hp

/-- The holder `t` hands out `out` of what it held and what was made meanwhile. -/
theorem Balanced.pass [DecidableEq τ] [DecidableEq α] (h : Balanced made given held)
    (hnew : held t ++ more = new ++ out) :
    Balanced (made ++ more) (given ++ out) (Function.update held t new) := by
  obtain ⟨ts, hts, ht, hp⟩ := h.with t
  refine ⟨ts, ⟨hts.nodup, fun t' h' => ?_⟩, ?_⟩
  · by_cases heq : t' = t
    · exact heq ▸ ht
    · rw [Function.update_of_ne heq] at h'
      exact hts.mem t' h'
  · have hsplit := List.perm_cons_erase ht
    have hrest : (ts.erase t).flatMap (Function.update held t new) = (ts.erase t).flatMap held := by
      refine List.flatMap_congr fun t' ht' => ?_
      rw [Function.update_of_ne]
      rintro rfl
      exact hts.nodup.not_mem_erase ht'
    have hold : (ts.flatMap held).Perm (held t ++ (ts.erase t).flatMap held) :=
      hsplit.flatMap_right held
    have hnow : (ts.flatMap (Function.update held t new)).Perm
        (new ++ (ts.erase t).flatMap held) := by
      have := hsplit.flatMap_right (Function.update held t new)
      rwa [List.flatMap_cons, Function.update_self, hrest] at this
    rw [List.perm_iff_count] at hp hold hnow ⊢
    intro x
    have hcount := congrArg (List.count x) hnew
    have hp := hp x
    have hold := hold x
    have hnow := hnow x
    simp only [List.count_append] at hp hold hnow hcount ⊢
    omega

/-- All holders drop what they hold. -/
theorem Balanced.drop (h : Balanced made given held) : ∃ ts, Holding held ts ∧
    Balanced made (given ++ ts.flatMap held) fun _ : τ => ([] : List α) := by
  obtain ⟨ts, hts, hp⟩ := h
  refine ⟨ts, hts, [], ⟨.nil, fun _ h => (h rfl).elim⟩, ?_⟩
  rwa [List.flatMap_nil, List.append_nil]

/-- Things handed out in another order. -/
theorem Balanced.given_perm {given' : List α} (h : Balanced made given held)
    (hp : given.Perm given') : Balanced made given' held := by
  obtain ⟨ts, hts, hmade⟩ := h
  exact ⟨ts, hts, hmade.trans (hp.append_right _)⟩

end Escrow
