import Mathlib.Algebra.Order.BigOperators.Group.List
import Mathlib.Tactic

set_option autoImplicit false

/-! # Finite maps with unique keys

A hash map is modelled by the list of its entries, with a proof that no key occurs twice. The
order of the entries is the order in which the keys were first inserted; it stands for the
unspecified iteration order of a hash map and no result depends on it.

Besides lookup, insertion and erasure the file has the sum of a function over the entries
(`AssocMap.total`), with one law per operation that says how the sum changes.
-/

namespace Lib

/-! ## Association lists -/

section Assoc

variable {K V : Type} [DecidableEq K]

/-- The value of the first entry with key `k`. -/
def assoc (k : K) : List (K × V) → Option V
  | [] => none
  | e :: l => if e.1 = k then some e.2 else assoc k l

/-- Replace the value of the first entry with key `k`, or append a new entry. -/
def upsert (k : K) (v : V) : List (K × V) → List (K × V)
  | [] => [(k, v)]
  | e :: l => if e.1 = k then (k, v) :: l else e :: upsert k v l

theorem mem_of_assoc {k : K} {v : V} {l : List (K × V)} (h : assoc k l = some v) : (k, v) ∈ l := by
  induction l with
  | nil => cases h
  | cons e l ih =>
      simp only [assoc] at h
      by_cases he : e.1 = k
      · rw [if_pos he] at h
        have hv : e.2 = v := by simpa using h
        subst he; subst hv
        exact List.mem_cons_self
      · rw [if_neg he] at h
        exact List.mem_cons_of_mem _ (ih h)

theorem assoc_of_mem {k : K} {v : V} {l : List (K × V)} (hl : (l.map Prod.fst).Nodup)
    (h : (k, v) ∈ l) : assoc k l = some v := by
  induction l with
  | nil => cases h
  | cons e l ih =>
      rw [List.map_cons, List.nodup_cons] at hl
      rcases List.mem_cons.mp h with rfl | h
      · simp [assoc]
      · have hne : e.1 ≠ k := by
          intro he
          exact hl.1 (List.mem_map.mpr ⟨(k, v), h, he.symm⟩)
        simp only [assoc, if_neg hne]
        exact ih hl.2 h

theorem assoc_eq_none_iff {k : K} {l : List (K × V)} :
    assoc k l = none ↔ k ∉ l.map Prod.fst := by
  induction l with
  | nil => simp [assoc]
  | cons e l ih =>
      by_cases he : e.1 = k
      · simp [assoc, he]
      · simp [assoc, he, ih, Ne.symm he]

theorem assoc_upsert (k k' : K) (v : V) (l : List (K × V)) :
    assoc k' (upsert k v l) = if k = k' then some v else assoc k' l := by
  induction l with
  | nil => simp [upsert, assoc]
  | cons e l ih =>
      by_cases he : e.1 = k
      · by_cases hk : k = k'
        · simp [upsert, assoc, he, hk]
        · have hek : e.1 ≠ k' := fun h => hk (he.symm.trans h)
          simp [upsert, assoc, he, hk]
      · by_cases hk : k = k'
        · subst hk
          simp [upsert, assoc, he, ih]
        · simp [upsert, assoc, he, ih, hk]

theorem fst_upsert (k : K) (v : V) (l : List (K × V)) :
    (upsert k v l).map Prod.fst
      = if k ∈ l.map Prod.fst then l.map Prod.fst else l.map Prod.fst ++ [k] := by
  induction l with
  | nil => simp [upsert]
  | cons e l ih =>
      by_cases he : e.1 = k
      · simp [upsert, he]
      · simp only [upsert, if_neg he, List.map_cons, ih, List.mem_cons, Ne.symm he, false_or]
        split <;> rfl

theorem nodup_upsert {k : K} {v : V} {l : List (K × V)} (hl : (l.map Prod.fst).Nodup) :
    ((upsert k v l).map Prod.fst).Nodup := by
  rw [fst_upsert]
  split
  · exact hl
  · rename_i hk
    exact List.Nodup.append hl (List.nodup_singleton k) (by simpa using hk)

theorem assoc_filter_ne (k k' : K) (l : List (K × V)) :
    assoc k' (l.filter (fun e => e.1 ≠ k)) = if k = k' then none else assoc k' l := by
  induction l with
  | nil => simp [assoc]
  | cons e l ih =>
      by_cases he : e.1 = k
      · rw [List.filter_cons_of_neg (by simpa using he), ih]
        by_cases hk : k = k'
        · simp [hk]
        · have hek : e.1 ≠ k' := fun h => hk (he.symm.trans h)
          simp [hk, assoc, hek]
      · rw [List.filter_cons_of_pos (by simpa using he)]
        simp only [assoc, ih]
        by_cases hek : e.1 = k'
        · have hk : k ≠ k' := fun h => he (hek.trans h.symm)
          simp [hek, hk]
        · simp [hek]

/-- Updating an existing entry keeps the entries around it. -/
theorem assoc_split {k : K} {v : V} {l : List (K × V)}
    (h : assoc k l = some v) (v' : V) :
    ∃ l₁ l₂, l = l₁ ++ (k, v) :: l₂ ∧ upsert k v' l = l₁ ++ (k, v') :: l₂ := by
  induction l with
  | nil => cases h
  | cons e l ih =>
      unfold assoc at h
      by_cases he : e.1 = k
      · rw [if_pos he] at h
        have hv : e.2 = v := by simpa using h
        refine ⟨[], l, ?_, ?_⟩
        · rw [List.nil_append, ← he, ← hv]
        · rw [upsert, if_pos he, List.nil_append]
      · rw [if_neg he] at h
        obtain ⟨l₁, l₂, h₁, h₂⟩ := ih h
        exact ⟨e :: l₁, l₂, by rw [h₁, List.cons_append], by rw [upsert, if_neg he, h₂,
          List.cons_append]⟩

theorem upsert_of_none {k : K} {l : List (K × V)}
    (h : assoc k l = none) (v : V) : upsert k v l = l ++ [(k, v)] := by
  induction l with
  | nil => rfl
  | cons e l ih =>
      unfold assoc at h
      by_cases he : e.1 = k
      · rw [if_pos he] at h
        cases h
      · rw [if_neg he] at h
        rw [upsert, if_neg he, ih h, List.cons_append]

/-- The sum over an association list grows by the new value and loses the one it replaces. -/
theorem sum_upsert (f : K → V → Nat) (k : K) (v : V) (l : List (K × V)) :
    ((upsert k v l).map (fun e => f e.1 e.2)).sum + ((assoc k l).map (f k)).getD 0
      = (l.map (fun e => f e.1 e.2)).sum + f k v := by
  induction l with
  | nil => simp [upsert, assoc]
  | cons e l ih =>
      by_cases he : e.1 = k
      · subst he
        simp only [upsert, assoc, if_true, List.map_cons, List.sum_cons, Option.map_some,
          Option.getD_some]
        omega
      · simp only [upsert, assoc, if_neg he, List.map_cons, List.sum_cons]
        omega

theorem sum_filter_ne (f : K → V → Nat) (k : K) {l : List (K × V)}
    (hl : (l.map Prod.fst).Nodup) :
    ((l.filter (fun e => e.1 ≠ k)).map (fun e => f e.1 e.2)).sum + ((assoc k l).map (f k)).getD 0
      = (l.map (fun e => f e.1 e.2)).sum := by
  induction l with
  | nil => simp [assoc]
  | cons e l ih =>
      rw [List.map_cons, List.nodup_cons] at hl
      by_cases he : e.1 = k
      · subst he
        have hall : l.filter (fun e' => e'.1 ≠ e.1) = l := by
          rw [List.filter_eq_self]
          intro a ha
          have : a.1 ≠ e.1 := fun h => hl.1 (List.mem_map.mpr ⟨a, ha, h⟩)
          simpa using this
        rw [List.filter_cons_of_neg (by simp), hall]
        simp only [assoc, if_true, List.map_cons, List.sum_cons, Option.map_some, Option.getD_some]
        omega
      · rw [List.filter_cons_of_pos (by simpa using he)]
        have := ih hl.2
        simp only [assoc, if_neg he, List.map_cons, List.sum_cons]
        omega

end Assoc

/-! ## The map -/

/-- A finite map: its entries, with no key twice. -/
structure AssocMap (K V : Type) where
  entries : List (K × V)
  nodup : (entries.map Prod.fst).Nodup

namespace AssocMap

variable {K V : Type}

def empty : AssocMap K V := ⟨[], List.nodup_nil⟩

instance : Inhabited (AssocMap K V) := ⟨empty⟩

def keys (m : AssocMap K V) : List K := m.entries.map Prod.fst

def size (m : AssocMap K V) : Nat := m.entries.length

/-- The sum of `f` over the entries. -/
def total (m : AssocMap K V) (f : K → V → Nat) : Nat :=
  (m.entries.map (fun e => f e.1 e.2)).sum

def mapValues (m : AssocMap K V) (f : V → V) : AssocMap K V :=
  ⟨m.entries.map (fun e => (e.1, f e.2)), by
    have h : (m.entries.map (fun e => (e.1, f e.2))).map Prod.fst = m.entries.map Prod.fst := by
      simp [Function.comp_def]
    rw [h]
    exact m.nodup⟩

/-- Two maps whose keys correspond to each other have the same size. -/
theorem size_eq_of_keys {L W : Type} {m : AssocMap K V} {m' : AssocMap L W}
    (f : K → L)
    (hinj : ∀ k ∈ m.keys, ∀ k' ∈ m.keys, f k = f k' → k = k')
    (hkeys : ∀ l, l ∈ m'.keys ↔ ∃ k ∈ m.keys, f k = l) : m.size = m'.size := by
  have hperm : (m.keys.map f).Perm m'.keys := by
    refine (List.perm_ext_iff_of_nodup (m.nodup.map_on hinj) m'.nodup).mpr fun l => ?_
    rw [List.mem_map]
    exact (hkeys l).symm
  have hlength := hperm.length_eq
  rw [List.length_map] at hlength
  simpa [keys, size] using hlength

variable [DecidableEq K]

def find? (m : AssocMap K V) (k : K) : Option V := assoc k m.entries

def insert (m : AssocMap K V) (k : K) (v : V) : AssocMap K V :=
  ⟨upsert k v m.entries, nodup_upsert m.nodup⟩

def erase (m : AssocMap K V) (k : K) : AssocMap K V :=
  ⟨m.entries.filter (fun e => e.1 ≠ k),
    (List.filter_sublist.map Prod.fst).nodup m.nodup⟩

theorem mem_entries_iff (m : AssocMap K V) (k : K) (v : V) :
    (k, v) ∈ m.entries ↔ m.find? k = some v :=
  ⟨assoc_of_mem m.nodup, mem_of_assoc⟩

theorem mem_keys_iff (m : AssocMap K V) (k : K) : k ∈ m.keys ↔ ∃ v, m.find? k = some v := by
  constructor
  · intro hk
    obtain ⟨⟨k', v⟩, he, rfl⟩ := List.mem_map.mp hk
    exact ⟨v, (m.mem_entries_iff k' v).mp he⟩
  · rintro ⟨v, hv⟩
    exact List.mem_map.mpr ⟨(k, v), (m.mem_entries_iff k v).mpr hv, rfl⟩

theorem find?_insert (m : AssocMap K V) (k k' : K) (v : V) :
    (m.insert k v).find? k' = if k = k' then some v else m.find? k' :=
  assoc_upsert k k' v m.entries

@[simp] theorem find?_insert_self (m : AssocMap K V) (k : K) (v : V) :
    (m.insert k v).find? k = some v := by
  rw [find?_insert, if_pos rfl]

theorem find?_insert_ne (m : AssocMap K V) {k k' : K} (v : V) (h : k ≠ k') :
    (m.insert k v).find? k' = m.find? k' := by
  rw [find?_insert, if_neg h]

theorem find?_erase (m : AssocMap K V) (k k' : K) :
    (m.erase k).find? k' = if k = k' then none else m.find? k' :=
  assoc_filter_ne k k' m.entries

theorem find?_insert_eq_update (m : AssocMap K V) (k : K) (v : V) :
    (m.insert k v).find? = Function.update m.find? k (some v) := by
  funext k'
  rw [find?_insert, Function.update_apply]
  simp only [eq_comm]

theorem find?_erase_eq_update (m : AssocMap K V) (k : K) :
    (m.erase k).find? = Function.update m.find? k none := by
  funext k'
  rw [find?_erase, Function.update_apply]
  simp only [eq_comm]

/-! ### Sums -/

theorem total_insert (m : AssocMap K V) (f : K → V → Nat) (k : K) (v : V) :
    (m.insert k v).total f + ((m.find? k).map (f k)).getD 0 = m.total f + f k v :=
  sum_upsert f k v m.entries

theorem total_erase (m : AssocMap K V) (f : K → V → Nat) (k : K) :
    (m.erase k).total f + ((m.find? k).map (f k)).getD 0 = m.total f :=
  sum_filter_ne f k m.nodup

omit [DecidableEq K] in
theorem total_eq_zero_iff (m : AssocMap K V) (f : K → V → Nat) :
    m.total f = 0 ↔ ∀ e ∈ m.entries, f e.1 e.2 = 0 := by
  rw [total, List.sum_eq_zero_iff, List.forall_mem_map]

theorem size_insert_new (m : AssocMap K V) {k : K} (v : V) (h : m.find? k = none) :
    (m.insert k v).size = m.size + 1 := by
  have hl := congrArg List.length (fst_upsert k v m.entries)
  rw [if_neg (assoc_eq_none_iff.mp h)] at hl
  simpa [size, insert] using hl

theorem size_erase_of_find (m : AssocMap K V) {k : K} {v : V} (h : m.find? k = some v) :
    (m.erase k).size + 1 = m.size := by
  have hsum := m.total_erase (fun _ _ => 1) k
  rw [h] at hsum
  simpa [total, size] using hsum

end AssocMap

end Lib
