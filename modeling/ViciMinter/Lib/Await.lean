import Mathlib.Data.List.Forall2

/-!
# Loops that await their rounds

A loop over a list whose rounds answer at once, or leave something to wait for. It
collects the answers, and goes on from where it waited once that round is answered.

`loop_cases` says where a loop stops. The answers it has then are those of the
rounds that it has passed, in order (`Passed`).
-/

namespace Await

variable {σ ι ρ κ : Type}

/-- Where a loop stops: at its end, or at a round that waits. -/
inductive Progress (ι ρ κ : Type) where
  | done (results : List ρ)
  | waits (results : List ρ) (id : ι) (k : κ) (rest : List ι)

def loop (start : σ → ι → σ × (ρ ⊕ κ)) : σ → List ρ → List ι → σ × Progress ι ρ κ
  | s, results, [] => (s, .done results)
  | s, results, id :: rest =>
    match start s id with
    | (s, .inl r) => loop start s (results ++ [r]) rest
    | (s, .inr k) => (s, .waits results id k rest)

/-- `results` are answers to the first of `ids`, and `rest` are those after them. -/
def Passed (about : ι → ρ → Prop) (ids : List ι) (results : List ρ) (rest : List ι) : Prop :=
  ∃ past, ids = past ++ rest ∧ List.Forall₂ about past results

variable {about : ι → ρ → Prop} {start : σ → ι → σ × (ρ ⊕ κ)} {s : σ} {ids rest rest' : List ι}
  {results more : List ρ} {id : ι} {r : ρ}

theorem passed_nil (ids : List ι) : Passed about ids [] ids := ⟨[], rfl, .nil⟩

theorem Passed.trans (h : Passed about ids results rest) (h' : Passed about rest more rest') :
    Passed about ids (results ++ more) rest' := by
  obtain ⟨past, rfl, hall⟩ := h
  obtain ⟨past', rfl, hall'⟩ := h'
  exact ⟨past ++ past', (List.append_assoc _ _ _).symm, List.rel_append hall hall'⟩

theorem passed_one (hr : about id r) (rest : List ι) : Passed about (id :: rest) [r] rest :=
  ⟨[id], rfl, .cons hr .nil⟩

theorem Passed.next (h : Passed about ids results (id :: rest)) (hr : about id r) :
    Passed about ids (results ++ [r]) rest := h.trans (passed_one hr rest)

theorem Passed.mono {about' : ι → ρ → Prop} (h : Passed about ids results rest)
    (hmono : ∀ id r, about id r → about' id r) : Passed about' ids results rest := by
  obtain ⟨past, rfl, hall⟩ := h
  exact ⟨past, rfl, hall.imp hmono⟩

theorem Passed.finished (h : Passed about ids results []) : List.Forall₂ about ids results := by
  obtain ⟨past, rfl, hall⟩ := h
  rwa [List.append_nil]

theorem Passed.length (h : Passed about ids results rest) :
    results.length + rest.length = ids.length := by
  obtain ⟨past, rfl, hall⟩ := h
  rw [List.length_append, hall.length_eq]

/-- An invariant of the rounds holds where a loop stops; at a round that waits it held
before that round. -/
theorem loop_cases {I : σ → Prop}
    (hstart : ∀ s id s' r, I s → start s id = (s', .inl r) → I s' ∧ about id r)
    (hs : I s) (results : List ρ) (rest : List ι) :
    (∃ s' more, loop start s results rest = (s', .done (results ++ more)) ∧ I s' ∧
      Passed about rest more []) ∨
    ∃ s₀ s' more id k rest', loop start s results rest =
        (s', .waits (results ++ more) id k rest') ∧
      I s₀ ∧ start s₀ id = (s', .inr k) ∧ Passed about rest more (id :: rest') := by
  induction rest generalizing s results with
  | nil => exact .inl ⟨s, [], by simp [loop], hs, passed_nil _⟩
  | cons id rest ih =>
    unfold loop
    cases hround : start s id with
    | mk s' answer =>
      cases answer with
      | inl r =>
        obtain ⟨hs', hr⟩ := hstart s id s' r hs hround
        have hp := passed_one hr rest
        rcases ih hs' (results ++ [r]) with ⟨s₁, more, hl, hI, hmore⟩ |
          ⟨s₀, s₁, more, id', k, rest', hl, hI, hk, hmore⟩
        · exact .inl ⟨s₁, r :: more, by simp [hl], hI, hp.trans hmore⟩
        · exact .inr ⟨s₀, s₁, r :: more, id', k, rest', by simp [hl], hI, hk, hp.trans hmore⟩
      | inr k =>
        exact .inr ⟨s, s', [], id, k, rest, by simp, hs, hround, passed_nil _⟩

end Await
