import Mathlib.Logic.Function.Basic

/-!
# Cells and their holders

A table of holders, each of one cell at most, and the contents of the cells. `Matched`
says that every full cell has exactly one holder, and holders hold full cells only. A
holder may change its cell, empty it, and then take one that was empty (`Moves`): this
keeps the tables matched (`Matched.move`), and the other holders do not notice
(`Matched.others`).
-/

namespace Holders

variable {τ ρ κ : Type} {cells cells' cells₁ : ρ → Option κ} {holds : τ → Option ρ} {t : τ} {m : ρ}
  {old new : Option ρ}

structure Matched (cells : ρ → Option κ) (holds : τ → Option ρ) : Prop where
  full : ∀ t m, holds t = some m → cells m ≠ none
  alone : ∀ t t' m, holds t = some m → holds t' = some m → t = t'
  held : ∀ m, cells m ≠ none → ∃ t, holds t = some m

theorem matched_none : Matched (fun _ : ρ => (none : Option κ)) fun _ : τ => none where
  full := nofun
  alone := nofun
  held _ hm := (hm rfl).elim

/-- What a holder of `old` may do to come to hold `new`. -/
structure Moves (cells cells' : ρ → Option κ) (old new : Option ρ) : Prop where
  frame : ∀ m, old ≠ some m → new ≠ some m → cells' m = cells m
  ended : ∀ m, old = some m → new ≠ some m → cells' m = none
  taken : ∀ m, new = some m → cells' m ≠ none
  origin : ∀ m, new = some m → old = some m ∨ cells m = none

theorem moves_keep (h : ∀ m, old = some m → cells m ≠ none) : Moves cells cells old old where
  frame _ _ _ := rfl
  ended _ ho hne := (hne ho).elim
  taken := h
  origin _ ho := .inl ho

/-- A holder that has emptied its cell may take another one. -/
theorem Moves.andThen (h : Moves cells cells₁ old none) (h' : Moves cells₁ cells' none new) :
    Moves cells cells' old new where
  frame m hold hnew := (h'.frame m nofun hnew).trans (h.frame m hold nofun)
  ended m hold hnew := (h'.frame m nofun hnew).trans (h.ended m hold nofun)
  taken := h'.taken
  origin m hnew := by
    by_cases hold : old = some m
    · exact .inl hold
    · exact .inr ((h.frame m hold nofun).symm.trans ((h'.origin m hnew).resolve_left nofun))

/-- The cells of the others are neither given up nor taken. -/
theorem Matched.apart (h : Matched cells holds) (hm : Moves cells cells' (holds t) new) {t' : τ}
    (hne : t' ≠ t) (ht' : holds t' = some m) : holds t ≠ some m ∧ new ≠ some m := by
  have hold : holds t ≠ some m := fun ht => hne (h.alone t' t m ht' ht)
  refine ⟨hold, fun hnew => ?_⟩
  rcases hm.origin m hnew with ht | hempty
  · exact hold ht
  · exact h.full t' m ht' hempty

theorem Matched.others (h : Matched cells holds) (hm : Moves cells cells' (holds t) new) {t' : τ}
    (hne : t' ≠ t) (ht' : holds t' = some m) : cells' m = cells m :=
  let ⟨hold, hnew⟩ := h.apart hm hne ht'
  hm.frame m hold hnew

theorem Matched.move [DecidableEq τ] (h : Matched cells holds)
    (hm : Moves cells cells' (holds t) new) : Matched cells' (Function.update holds t new) := by
  constructor
  · intro t' m ht'
    by_cases heq : t' = t
    · subst heq
      rw [Function.update_self] at ht'
      exact hm.taken m ht'
    · rw [Function.update_of_ne heq] at ht'
      rw [h.others hm heq ht']
      exact h.full t' m ht'
  · intro t₁ t₂ m h₁ h₂
    by_cases heq₁ : t₁ = t <;> by_cases heq₂ : t₂ = t
    · exact heq₁.trans heq₂.symm
    · subst heq₁
      rw [Function.update_self] at h₁
      rw [Function.update_of_ne heq₂] at h₂
      exact ((h.apart hm heq₂ h₂).2 h₁).elim
    · subst heq₂
      rw [Function.update_self] at h₂
      rw [Function.update_of_ne heq₁] at h₁
      exact ((h.apart hm heq₁ h₁).2 h₂).elim
    · rw [Function.update_of_ne heq₁] at h₁
      rw [Function.update_of_ne heq₂] at h₂
      exact h.alone t₁ t₂ m h₁ h₂
  · intro m hfull
    by_cases hnew : new = some m
    · exact ⟨t, by rw [Function.update_self, hnew]⟩
    · have hold : holds t ≠ some m := fun ht => hfull (hm.ended m ht hnew)
      obtain ⟨t', ht'⟩ := h.held m (by rwa [hm.frame m hold hnew] at hfull)
      have hne : t' ≠ t := fun heq => hold (heq ▸ ht')
      exact ⟨t', by rw [Function.update_of_ne hne, ht']⟩

end Holders
