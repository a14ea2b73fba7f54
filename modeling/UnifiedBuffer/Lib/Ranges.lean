import Mathlib.Data.Multiset.ZeroCons
import Mathlib.Data.Multiset.AddSub
import Mathlib.Order.Interval.Finset.Nat
import Mathlib.Tactic

set_option autoImplicit false

/-! # Disjoint ranges

Ranges that do not overlap have no more room than the space they lie in. -/

namespace Lib

variable {α : Type}

/-- Two ranges, by first address and length, do not overlap. -/
def Apart (start len : α → Nat) (x y : α) : Prop :=
  start x + len x ≤ start y ∨ start y + len y ≤ start x

/-- The lengths of disjoint ranges between `1` and `n` add up to less than `n`. -/
theorem sum_length_lt (start len : α → Nat) {n : Nat} (hn : 0 < n) {l : List α}
    (hapart : l.Pairwise (Apart start len))
    (hin : ∀ x ∈ l, 1 ≤ start x ∧ start x + len x ≤ n) : (l.map len).sum < n := by
  -- the addresses covered by the ranges
  have hcover : ∃ F : Finset Nat, F.card = (l.map len).sum ∧
      ∀ a, a ∈ F ↔ ∃ x ∈ l, start x ≤ a ∧ a < start x + len x := by
    induction l with
    | nil => exact ⟨∅, rfl, fun a => by simp⟩
    | cons x l ih =>
        rw [List.pairwise_cons] at hapart
        obtain ⟨F, hcard, hmem⟩ := ih hapart.2 (fun y hy => hin y (List.mem_cons_of_mem _ hy))
        have hdisj : Disjoint (Finset.Ico (start x) (start x + len x)) F := by
          rw [Finset.disjoint_left]
          intro a ha hF
          rw [Finset.mem_Ico] at ha
          obtain ⟨y, hy, hya⟩ := (hmem a).mp hF
          rcases hapart.1 y hy with h | h <;> omega
        refine ⟨Finset.Ico (start x) (start x + len x) ∪ F, ?_, fun a => ?_⟩
        · rw [Finset.card_union_of_disjoint hdisj, Nat.card_Ico, hcard, List.map_cons,
            List.sum_cons]
          omega
        · rw [Finset.mem_union, Finset.mem_Ico, hmem a]
          simp
  obtain ⟨F, hcard, hmem⟩ := hcover
  have hsub : F ⊆ Finset.Ico 1 n := by
    intro a ha
    obtain ⟨x, hx, hle, hlt⟩ := (hmem a).mp ha
    have := hin x hx
    rw [Finset.mem_Ico]
    omega
  have := Finset.card_le_card hsub
  rw [hcard, Nat.card_Ico] at this
  omega

/-! ## Multisets of pairwise related elements -/

section Pairwise

variable {r : α → α → Prop} [Std.Symm r]

theorem pairwise_cons {x : α} {m : Multiset α} :
    (x ::ₘ m).Pairwise r ↔ (∀ y ∈ m, r x y) ∧ m.Pairwise r := by
  induction m using Quotient.inductionOn with
  | _ l =>
      show Multiset.Pairwise r (x ::ₘ (l : Multiset α)) ↔ _
      rw [Multiset.cons_coe, Multiset.pairwise_coe_iff_pairwise, List.pairwise_cons]
      show _ ↔ (∀ y ∈ (l : Multiset α), r x y) ∧ Multiset.Pairwise r (l : Multiset α)
      rw [Multiset.pairwise_coe_iff_pairwise]
      rfl

theorem pairwise_of_le {m m' : Multiset α} (h : m.Pairwise r) (hle : m' ≤ m) : m'.Pairwise r := by
  obtain ⟨u, rfl⟩ := Multiset.le_iff_exists_add.mp hle
  induction u using Multiset.induction_on with
  | empty =>
      rw [Multiset.add_zero] at h
      exact h
  | cons a u ih =>
      rw [Multiset.add_cons, pairwise_cons] at h
      exact ih h.2 (Multiset.le_add_right _ _)

end Pairwise

end Lib
