import UnifiedBuffer.Lib.AssocMap
import UnifiedBuffer.Lib.Word
import UnifiedBuffer.Core.Types

set_option autoImplicit false

/-! # The pool of idle backings

The state protected by `pool_mtx_`: a deque of slots per key, the number of slots and their
bytes. `Pool.take` is the search loop of `pool_take`; `Pool.push` is the tail of `pool_put`,
after its limit check. -/

namespace UnifiedBuffer

open Lib

structure Pool where
  slots : AssocMap PoolKey (List PoolSlot) := .empty
  idleBytes : UInt64 := 0
  objectCount : Nat := 0

def Pool.bucket (p : Pool) (key : PoolKey) : List PoolSlot := (p.slots.find? key).getD []

/-- All slots, with the key of their deque. -/
def Pool.all (p : Pool) : List (PoolKey × PoolSlot) :=
  p.slots.entries.flatMap (fun e => e.2.map (fun s => (e.1, s)))

/-- Remove the first slot that is large enough. -/
def takeFirst (minCommitted : UInt64) : List PoolSlot → Option (PoolSlot × List PoolSlot)
  | [] => none
  | s :: rest =>
      if minCommitted ≤ s.backing.committed then some (s, rest)
      else (takeFirst minCommitted rest).map (fun p => (p.1, s :: p.2))

/-- The search of `pool_take`: the first slot of the key's deque whose backing is large
enough, and the pool without it. -/
def Pool.take (p : Pool) (key : PoolKey) (minCommitted : UInt64) : Option (PoolSlot × Pool) :=
  match p.slots.find? key with
  | none => none
  | some dq =>
      match takeFirst minCommitted dq with
      | none => none
      | some (slot, rest) =>
          some (slot,
            { slots := p.slots.insert key rest
              idleBytes := satSub p.idleBytes slot.backing.committed
              objectCount := p.objectCount - 1 })

/-- Append a slot to the key's deque. -/
def Pool.push (p : Pool) (key : PoolKey) (slot : PoolSlot) : Pool :=
  { slots := p.slots.insert key (p.bucket key ++ [slot])
    idleBytes := p.idleBytes + slot.backing.committed
    objectCount := p.objectCount + 1 }

/-- Account for a slot that `pool_trim` removes. -/
def Pool.dropCounts (p : Pool) (committed : UInt64) : Pool :=
  { p with idleBytes := satSub p.idleBytes committed, objectCount := p.objectCount - 1 }

/-- Every deque emptied; the keys stay. -/
def Pool.cleared (p : Pool) : Pool := { p with slots := p.slots.mapValues (fun _ => []) }

/-! ## The slots as a list -/

theorem takeFirst_mem {minCommitted : UInt64} {dq rest : List PoolSlot} {slot : PoolSlot}
    (h : takeFirst minCommitted dq = some (slot, rest)) :
    slot ∈ dq ∧ minCommitted ≤ slot.backing.committed := by
  induction dq generalizing rest with
  | nil => cases h
  | cons s dq ih =>
      unfold takeFirst at h
      split at h
      · rename_i hle
        cases h
        exact ⟨List.mem_cons_self, hle⟩
      · rw [Option.map_eq_some_iff] at h
        obtain ⟨⟨a, b⟩, hab, heq⟩ := h
        cases heq
        obtain ⟨hmem, hle⟩ := ih hab
        exact ⟨List.mem_cons_of_mem _ hmem, hle⟩

/-- What is taken and what is left are a permutation of what was there. -/
theorem takeFirst_perm {minCommitted : UInt64} {dq rest : List PoolSlot} {slot : PoolSlot}
    (h : takeFirst minCommitted dq = some (slot, rest)) : dq.Perm (slot :: rest) := by
  induction dq generalizing rest with
  | nil => cases h
  | cons s dq ih =>
      unfold takeFirst at h
      split at h
      · cases h
        exact List.Perm.refl _
      · rw [Option.map_eq_some_iff] at h
        obtain ⟨⟨a, b⟩, hab, heq⟩ := h
        cases heq
        exact ((ih hab).cons s).trans (List.Perm.swap _ _ _)

/-- Taking a slot removes one slot, filed under the key it was asked for. -/
theorem Pool.take_perm {p p' : Pool} {key : PoolKey} {minCommitted : UInt64} {slot : PoolSlot}
    (h : p.take key minCommitted = some (slot, p')) :
    p.all.Perm ((key, slot) :: p'.all) ∧ minCommitted ≤ slot.backing.committed := by
  unfold Pool.take at h
  cases hf : p.slots.find? key with
  | none =>
      rw [hf] at h
      cases h
  | some dq =>
      rw [hf] at h
      simp only at h
      cases ht : takeFirst minCommitted dq with
      | none =>
          rw [ht] at h
          cases h
      | some q =>
          obtain ⟨slot', rest⟩ := q
          rw [ht] at h
          cases h
          refine ⟨?_, (takeFirst_mem ht).2⟩
          obtain ⟨l₁, l₂, h₁, h₂⟩ := assoc_split hf rest
          have hall : p.all = (l₁ ++ (key, dq) :: l₂).flatMap
              (fun e => e.2.map (fun s => (e.1, s))) := by
            rw [Pool.all, h₁]
          rw [hall]
          show List.Perm _ ((key, slot) :: (upsert key rest p.slots.entries).flatMap
              (fun e => e.2.map (fun s => (e.1, s))))
          rw [h₂, List.flatMap_append, List.flatMap_append, List.flatMap_cons, List.flatMap_cons]
          have hperm := (takeFirst_perm ht).map (fun s => (key, s))
          refine ((hperm.append_right _).append_left _).trans ?_
          rw [List.map_cons, List.cons_append]
          exact List.perm_middle

/-- Pushing a slot adds it, filed under its key. -/
theorem Pool.push_perm (p : Pool) (key : PoolKey) (slot : PoolSlot) :
    (p.push key slot).all.Perm ((key, slot) :: p.all) := by
  unfold Pool.push Pool.all Pool.bucket
  show List.Perm ((upsert key ((p.slots.find? key).getD [] ++ [slot]) p.slots.entries).flatMap
    (fun e => e.2.map (fun s => (e.1, s)))) _
  cases hf : p.slots.find? key with
  | none =>
      rw [upsert_of_none hf, List.flatMap_append]
      simp
  | some dq =>
      obtain ⟨l₁, l₂, h₁, h₂⟩ := assoc_split hf (dq ++ [slot])
      rw [Option.getD_some, h₂, h₁, List.flatMap_append, List.flatMap_append, List.flatMap_cons,
        List.flatMap_cons]
      simp only [List.map_append, List.map_cons, List.map_nil, List.append_assoc,
        List.cons_append, List.nil_append]
      rw [← List.append_assoc, ← List.append_assoc]
      exact List.perm_middle

@[simp] theorem Pool.cleared_all (p : Pool) : p.cleared.all = [] := by
  unfold Pool.cleared Pool.all AssocMap.mapValues
  simp

end UnifiedBuffer
