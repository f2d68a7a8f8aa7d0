import Mathlib.Data.List.Nodup

/-!
# Operations that each own a part of the state

`op i` reads the part `i` of the state and what all operations share, and
changes no more than the part `i` (`Local`). A sweep runs one operation after
the other. Every operation of a sweep without repetitions answers what it would
answer alone from the start (`Local.sweep_results`), leaves its own part as it
would alone (`Local.sweep_own`), and the order does not matter
(`Local.sweep_perm`).
-/

namespace Sweep

variable {ι σ ρ ν κ : Type}

/-- The operations are local to the parts `view i` of the state, and `rest` is
what they share and leave alone. -/
structure Local (op : ι → σ → σ × ρ) (view : ι → σ → ν) (rest : σ → κ) : Prop where
  result : ∀ i s t, view i s = view i t → rest s = rest t → (op i s).2 = (op i t).2
  own : ∀ i s t, view i s = view i t → rest s = rest t → view i (op i s).1 = view i (op i t).1
  frame : ∀ i j s, j ≠ i → view j (op i s).1 = view j s
  shared : ∀ i s, rest (op i s).1 = rest s

/-- The operations `l`, one after the other, and their results. -/
def sweep (op : ι → σ → σ × ρ) : σ → List ι → σ × List ρ
  | s, [] => (s, [])
  | s, i :: l =>
    let (s', r) := op i s
    let (s'', rs) := sweep op s' l
    (s'', r :: rs)

variable {op : ι → σ → σ × ρ} {view : ι → σ → ν} {rest : σ → κ}

@[simp] theorem sweep_nil (s : σ) : sweep op s [] = (s, []) := rfl

@[simp] theorem sweep_cons (s : σ) (i : ι) (l : List ι) : sweep op s (i :: l) =
    ((sweep op (op i s).1 l).1, (op i s).2 :: (sweep op (op i s).1 l).2) := rfl

namespace Local

theorem sweep_shared (h : Local op view rest) (l : List ι) (s : σ) :
    rest (sweep op s l).1 = rest s := by
  induction l generalizing s with
  | nil => rfl
  | cons i l ih => rw [sweep_cons, ih, h.shared]

/-- A sweep leaves the parts of other operations alone. -/
theorem sweep_frame (h : Local op view rest) {j : ι} {l : List ι} (hj : j ∉ l) (s : σ) :
    view j (sweep op s l).1 = view j s := by
  induction l generalizing s with
  | nil => rfl
  | cons i l ih =>
    rw [List.mem_cons, not_or] at hj
    rw [sweep_cons, ih hj.2, h.frame i j s hj.1]

/-- An operation answers after others as it does before them. -/
theorem result_after (h : Local op view rest) {i j : ι} (hij : j ≠ i) (s : σ) :
    (op j (op i s).1).2 = (op j s).2 :=
  h.result j _ _ (h.frame i j s hij) (h.shared i s)

theorem own_after (h : Local op view rest) {i j : ι} (hij : j ≠ i) (s : σ) :
    view j (op j (op i s).1).1 = view j (op j s).1 :=
  h.own j _ _ (h.frame i j s hij) (h.shared i s)

theorem sweep_results (h : Local op view rest) {l : List ι} (hl : l.Nodup) (s : σ) :
    (sweep op s l).2 = l.map fun i => (op i s).2 := by
  induction l generalizing s with
  | nil => rfl
  | cons i l ih =>
    rw [List.nodup_cons] at hl
    simp only [sweep_cons, ih hl.2, List.map_cons, List.cons.injEq, true_and]
    refine List.map_congr_left fun j hj => h.result_after ?_ s
    intro heq
    subst heq
    exact hl.1 hj

theorem sweep_own (h : Local op view rest) {l : List ι} (hl : l.Nodup) {j : ι} (hj : j ∈ l)
    (s : σ) : view j (sweep op s l).1 = view j (op j s).1 := by
  induction l generalizing s with
  | nil => cases hj
  | cons i l ih =>
    rw [List.nodup_cons] at hl
    rw [sweep_cons]
    rcases List.mem_cons.mp hj with rfl | hjl
    · exact h.sweep_frame hl.1 _
    · have hij : j ≠ i := by
        intro heq
        subst heq
        exact hl.1 hjl
      rw [ih hl.2 hjl, h.own_after hij]

/-- Where the parts and the rest are the whole state, the order does not matter. -/
theorem sweep_perm (h : Local op view rest)
    (hext : ∀ s t, (∀ i, view i s = view i t) → rest s = rest t → s = t) {l l' : List ι}
    (hl : l.Nodup) (hp : l.Perm l') (s : σ) : (sweep op s l).1 = (sweep op s l').1 := by
  have hl' : l'.Nodup := hp.nodup_iff.mp hl
  refine hext _ _ (fun j => ?_) ((h.sweep_shared l s).trans (h.sweep_shared l' s).symm)
  by_cases hj : j ∈ l
  · rw [h.sweep_own hl hj, h.sweep_own hl' (hp.mem_iff.mp hj)]
  · rw [h.sweep_frame hj, h.sweep_frame fun hj' => hj (hp.mem_iff.mpr hj')]

end Local

end Sweep
