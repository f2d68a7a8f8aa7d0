import Mathlib.Data.List.Chain
import Mathlib.Order.Lattice

/-!
# Lists checked by their neighbours

A list whose entries come in order of a key. Comparing neighbours decides a
transitive relation between all entries (`forall_adjacent_iff`): one that holds
of neighbours holds of any two, in order of their keys.
-/

namespace Adjacent

variable {α κ : Type} {R : α → α → Prop} {l : List α}

theorem forall_zip_tail_iff : (∀ p ∈ l.zip l.tail, R p.1 p.2) ↔ l.IsChain R := by
  induction l with
  | nil => simp
  | cons a l ih =>
    cases l with
    | nil => simp
    | cons b l =>
      rw [List.isChain_cons_cons, ← ih]
      simp only [List.tail_cons, List.zip_cons_cons, List.forall_mem_cons]

/-- In a list that is sorted by a key, the order of the list is that of the keys. -/
theorem pairwise_iff_of_sorted [LinearOrder κ] {key : α → κ}
    (hs : l.Pairwise fun a b => key a < key b) :
    l.Pairwise R ↔ ∀ a ∈ l, ∀ b ∈ l, key a < key b → R a b := by
  induction l with
  | nil => simp
  | cons c l ih =>
    obtain ⟨hc, hs⟩ := List.pairwise_cons.mp hs
    rw [List.pairwise_cons, ih hs]
    constructor
    · rintro ⟨hR, hl⟩ a ha b hb hab
      rcases List.mem_cons.mp ha with rfl | hal <;> rcases List.mem_cons.mp hb with rfl | hbl
      · exact (lt_irrefl _ hab).elim
      · exact hR b hbl
      · exact (lt_asymm hab (hc a hal)).elim
      · exact hl a hal b hbl hab
    · intro h
      have hhead : c ∈ c :: l := List.mem_cons_self
      exact ⟨fun b hb => h c hhead b (List.mem_cons_of_mem c hb) (hc b hb),
        fun a ha b hb => h a (List.mem_cons_of_mem c ha) b (List.mem_cons_of_mem c hb)⟩

theorem forall_adjacent_iff [LinearOrder κ] [Trans R R R] {key : α → κ}
    (hs : l.Pairwise fun a b => key a < key b) :
    (∀ p ∈ l.zip l.tail, R p.1 p.2) ↔ ∀ a ∈ l, ∀ b ∈ l, key a < key b → R a b := by
  rw [forall_zip_tail_iff, List.isChain_iff_pairwise, pairwise_iff_of_sorted hs]

end Adjacent
