import ViciMinter.Lib.Lts

/-!
# Noninterference

Some events are silent: a view of the state does not see them, and what the other
events do and answer depends on the view alone. Then the silent events can be taken out
of a run, and nobody else notices (`Unwinding.purge`). The view is a relation: `view s q`
says that `q` is `s` without what the silent events have left in it.
-/

namespace Lts

variable {σ ε ο : Type} {f : σ → ε → Option (σ × ο)} {ok : σ → ε → Prop} {silent : ε → Bool}
  {view : σ → σ → Prop} {s t q : σ} {tr : List ε}

structure Unwinding (f : σ → ε → Option (σ × ο)) (ok : σ → ε → Prop) (silent : ε → Bool)
    (view : σ → σ → Prop) : Prop where
  unseen : ∀ s e t o q, ok s e → silent e = true → view s q → f s e = some (t, o) → view t q
  seen : ∀ s e t o q, ok s e → silent e = false → view s q → f s e = some (t, o) →
    ∃ q', f q e = some (q', o) ∧ view t q'

/-- The other events of a run are a run of their own, with the same answers. -/
theorem Unwinding.purge (hu : Unwinding f ok silent view) (h : Run (ofFun f) ok s tr t)
    (hv : view s q) : ∃ q', Run (ofFun f) anyEvent q (tr.filter (!silent ·)) q' ∧ view t q' ∧
      outputs f q (tr.filter (!silent ·)) = (outputs f s tr).filter (!silent ·.1) := by
  induction h generalizing q with
  | nil => exact ⟨q, .nil q, hv, rfl⟩
  | @cons s u t e tr ho hs hr ih =>
    obtain ⟨o, hs⟩ := hs
    cases he : silent e with
    | true =>
      obtain ⟨q', hr', hv', hout⟩ := ih (hu.unseen s e u o q ho he hv hs)
      refine ⟨q', ?_, hv', ?_⟩ <;> simp [outputs, hs, he, hr', hout]
    | false =>
      obtain ⟨q₁, hq, hv₁⟩ := hu.seen s e u o q ho he hv hs
      obtain ⟨q', hr', hv', hout⟩ := ih hv₁
      refine ⟨q', ?_, hv', ?_⟩
      · simpa [he] using Run.cons trivial ⟨o, hq⟩ hr'
      · simp [outputs, hs, hq, he, hout]

end Lts
