import Mathlib.Tactic

set_option autoImplicit false

/-! # Changing a list at one position

How `map`, `countP` and `filterMap` see a list that was changed at one position by `List.modify`
or `List.set`; sums over a part of a list; multisets without one element. -/

namespace Lib

variable {α β : Type}

/-- Mapping after a change at one position, when the map sees the change as `h`. -/
theorem map_modify (g : α → β) (f : α → α) (h : β → β) (hgf : ∀ a, g (f a) = h (g a)) (k : Nat)
    (l : List α) : (l.modify k f).map g = (l.map g).modify k h := by
  apply List.ext_getElem?
  intro j
  rw [List.getElem?_map, List.getElem?_modify, List.getElem?_modify, List.getElem?_map]
  cases l[j]? with
  | none => rfl
  | some a =>
      by_cases hkj : k = j
      · simp [hkj, hgf]
      · simp [hkj]

/-- A change that the map does not see. -/
theorem map_modify_same (g : α → β) (f : α → α) (hgf : ∀ a, g (f a) = g a) (k : Nat)
    (l : List α) : (l.modify k f).map g = l.map g := by
  rw [map_modify g f id hgf]
  exact List.modify_id k _

/-- What is at position `j` of a list that was changed at position `k`. -/
theorem getElem?_modify_some {f : α → α} {k j : Nat} {l : List α} {b : α}
    (h : (l.modify k f)[j]? = some b) :
    ∃ a, l[j]? = some a ∧ b = if k = j then f a else a := by
  rw [List.getElem?_modify] at h
  cases ha : l[j]? with
  | none =>
      rw [ha] at h
      cases h
  | some a =>
      rw [ha] at h
      exact ⟨a, rfl, (Option.some.inj h).symm⟩

/-- A projection does not see an item replaced by one that looks alike. -/
theorem map_set_same (g : α → β) {k : Nat} {l : List α} {a b : α} (h : l[k]? = some a)
    (hg : g b = g a) : (l.set k b).map g = l.map g := by
  obtain ⟨hlt, rfl⟩ := List.getElem?_eq_some_iff.mp h
  have hlt' : k < (l.map g).length := by rwa [List.length_map]
  rw [List.map_set, hg, ← List.getElem_map g (h := hlt'), List.set_getElem_self]

/-- What is at position `j` of a list with one more element. -/
theorem getElem?_concat_some {l : List α} {j : Nat} {a b : α} :
    (l ++ [b])[j]? = some a ↔ l[j]? = some a ∨ j = l.length ∧ a = b := by
  rcases Nat.lt_trichotomy j l.length with hlt | rfl | hgt
  · rw [List.getElem?_append_left hlt]
    exact ⟨Or.inl, fun h => h.resolve_right fun hend => hlt.ne hend.1⟩
  · rw [List.getElem?_concat_length, List.getElem?_eq_none (Nat.le_refl _), Option.some.injEq]
    simp [eq_comm]
  · rw [List.getElem?_eq_none hgt.le, List.getElem?_eq_none (by simpa using hgt)]
    simp [hgt.ne']

/-- The first number with a property that one number has at most. -/
theorem find?_range_eq {n : Nat} {p : Nat → Bool} {o : Option Nat}
    (h : ∀ k, o = some k ↔ k < n ∧ p k = true) : (List.range n).find? p = o := by
  cases hfound : (List.range n).find? p with
  | some k =>
      have hlt : k < n := List.mem_range.mp (List.mem_of_find?_eq_some hfound)
      exact ((h k).mpr ⟨hlt, List.find?_some hfound⟩).symm
  | none =>
      cases o with
      | none => rfl
      | some k =>
          obtain ⟨hlt, hp⟩ := (h k).mp rfl
          exact absurd hp (List.find?_eq_none.mp hfound k (List.mem_range.mpr hlt))

/-- At most one item of the list has the property. -/
theorem countP_le_one {p : α → Bool} {l : List α}
    (h : ∀ (i j : Nat) (a b : α), l[i]? = some a → l[j]? = some b → p a = true → p b = true → i = j) :
    l.countP p ≤ 1 := by
  induction l with
  | nil => exact Nat.zero_le 1
  | cons x l ih =>
      by_cases hx : p x = true
      · -- nothing behind the first item has the property
        have hnone : l.countP p = 0 := by
          rw [List.countP_eq_zero]
          intro a ha hpa
          obtain ⟨i, hi⟩ := List.mem_iff_getElem?.mp ha
          exact absurd (h 0 (i + 1) x a rfl hi hx hpa) (Nat.succ_ne_zero i).symm
        rw [List.countP_cons_of_pos hx, hnone]
      · rw [List.countP_cons_of_neg hx]
        exact ih fun i j a b hi hj ha hb => Nat.succ.inj (h (i + 1) (j + 1) a b hi hj ha hb)

/-- The count after a write at one position. -/
theorem countP_set_add (p : α → Bool) {l : List α} {i : Nat} {a b : α} (h : l[i]? = some a) :
    (l.set i b).countP p + (if p a then 1 else 0) = l.countP p + (if p b then 1 else 0) := by
  obtain ⟨hi, rfl⟩ := List.getElem?_eq_some_iff.mp h
  have hle : (if p l[i] then 1 else 0) ≤ l.countP p := by
    split
    · rename_i hp
      exact List.countP_pos_iff.mpr ⟨l[i], List.getElem_mem hi, hp⟩
    · exact Nat.zero_le _
  rw [List.countP_set hi]
  omega

/-- The multiset `t` with one more element, if there is one. -/
def consOption (o : Option β) (t : Multiset β) : Multiset β :=
  match o with
  | none => t
  | some b => b ::ₘ t

/-- What `filterMap` collects of a list, as a multiset: the part of one position and the rest. -/
theorem filterMap_set (f : α → Option β) {l : List α} {k : Nat} {a : α} (h : l[k]? = some a) :
    ∃ t : Multiset β, (l.filterMap f : Multiset β) = consOption (f a) t ∧
      ∀ b, ((l.set k b).filterMap f : Multiset β) = consOption (f b) t := by
  obtain ⟨hk, rfl⟩ := List.getElem?_eq_some_iff.mp h
  have hset : ∀ b, ((l.set k b).filterMap f : Multiset β)
      = consOption (f b) ((l.take k).filterMap f + (l.drop (k + 1)).filterMap f) := by
    intro b
    rw [List.set_eq_take_append_cons_drop, if_pos hk, List.filterMap_append, List.filterMap_cons]
    cases f b with
    | none => rfl
    | some x =>
        rw [consOption, ← Multiset.coe_add, ← Multiset.cons_coe, Multiset.add_cons]
  refine ⟨_, ?_, hset⟩
  rw [← hset l[k], List.set_getElem_self]

/-- An element is the erased one or remains. -/
theorem eq_or_mem_erase [DecidableEq α] {t : Multiset α} {a b : α} (h : b ∈ t) :
    b = a ∨ b ∈ t.erase a := by
  by_cases heq : b = a
  · exact Or.inl heq
  · exact Or.inr ((Multiset.mem_erase_of_ne heq).mpr h)

/-- A sum over the elements with a property, as a sum over all elements. -/
theorem sum_map_filter (p : α → Bool) (f : α → Nat) (l : List α) :
    ((l.filter p).map f).sum = (l.map (fun a => if p a then f a else 0)).sum := by
  induction l with
  | nil => rfl
  | cons a l ih =>
      rw [List.filter_cons, List.map_cons, List.sum_cons, ← ih]
      cases p a <;> simp

/-- A sum over a list that was changed at one position. -/
theorem sum_map_set {M : Type} [AddCommMonoid M] (f : α → M) {l : List α} {i : Nat} {a : α}
    (h : l[i]? = some a) (b : α) :
    ((l.set i b).map f).sum + f a = (l.map f).sum + f b := by
  induction l generalizing i with
  | nil => cases h
  | cons c l ih =>
      cases i with
      | zero =>
          obtain rfl : c = a := Option.some.inj h
          simp only [List.set_cons_zero, List.map_cons, List.sum_cons]
          abel
      | succ i =>
          simp only [List.set_cons_succ, List.map_cons, List.sum_cons, add_assoc]
          rw [ih h]

end Lib
