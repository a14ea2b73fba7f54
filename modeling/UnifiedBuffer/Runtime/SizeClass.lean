import UnifiedBuffer.Lib.Loop
import UnifiedBuffer.Runtime.State

set_option autoImplicit false

/-! # Size classes

The loop of `size_class_for` doubles the smallest class until it holds the size or has reached the
largest class. A shift that lost a bit could make the loop run for ever (a class of `2 ^ 63` would
become `0`), so that it ends depends on the bound on sizes: below `2 ^ 48` the class is doubled only
while it is smaller than that. The result is then the first doubling that is large enough. -/

namespace UnifiedBuffer

open Lib

namespace RuntimeImpl

def minClass (rt : RuntimeImpl) : UInt64 :=
  if rt.cfg.pool.minClassSize ≠ 0 then rt.cfg.pool.minClassSize else 4096

def maxClass (rt : RuntimeImpl) : UInt64 :=
  if rt.cfg.pool.maxClassSize ≠ 0 then rt.cfg.pool.maxClassSize else 256 * 1024 * 1024

theorem minClass_of_ne {rt : RuntimeImpl} (h : rt.cfg.pool.minClassSize ≠ 0) :
    rt.minClass = rt.cfg.pool.minClassSize := if_pos h

theorem maxClass_of_ne {rt : RuntimeImpl} (h : rt.cfg.pool.maxClassSize ≠ 0) :
    rt.maxClass = rt.cfg.pool.maxClassSize := if_pos h

theorem minClass_pos (rt : RuntimeImpl) : 0 < rt.minClass.toNat := by
  unfold minClass
  split
  · rename_i hne
    exact Nat.pos_of_ne_zero fun h => hne ((toNat_eq_zero_iff _).mp h)
  · decide

def growClass (cls : UInt64) : UInt64 := cls <<< 1

def Grows (bytes max cls : UInt64) : Prop := cls < bytes ∧ cls < max

theorem not_grows_iff {bytes max cls : UInt64} :
    ¬ Grows bytes max cls ↔ bytes.toNat ≤ cls.toNat ∨ max.toNat ≤ cls.toNat := by
  unfold Grows
  rw [not_and_or, UInt64.not_lt, UInt64.not_lt, UInt64.le_iff_toNat_le, UInt64.le_iff_toNat_le]

/-- A class below `2 ^ 63` is doubled without loss. -/
theorem toNat_growClass {cls : UInt64} (h : cls.toNat < 2 ^ 63) :
    (growClass cls).toNat = cls.toNat * 2 := by
  rw [growClass, UInt64.toNat_shiftLeft, Nat.shiftLeft_eq]
  show cls.toNat * 2 ^ 1 % 2 ^ 64 = cls.toNat * 2
  omega

theorem Grows.shift {bytes max cls : UInt64} (h : Grows bytes max cls)
    (hbytes : bytes.toNat ≤ 2 ^ 48) : (growClass cls).toNat = cls.toNat * 2 := by
  have hlt := UInt64.lt_iff_toNat_lt.mp h.1
  exact toNat_growClass (by omega)

/-- The rounds of the model are enough: the loop itself ends, with the same class. -/
theorem doubleClass_while {bytes max : UInt64} (hbytes : bytes.toNat ≤ 2 ^ 48) (fuel : Nat)
    {cls : UInt64} (hfuel : bytes.toNat ≤ cls.toNat * 2 ^ fuel) :
    While (Grows bytes max) growClass cls (doubleClass bytes max fuel cls) := by
  induction fuel generalizing cls with
  | zero =>
      rw [Nat.pow_zero, Nat.mul_one] at hfuel
      exact .done (not_grows_iff.mpr (.inl hfuel))
  | succ fuel ih =>
      unfold doubleClass
      split
      · rename_i hgrows
        refine .turn hgrows (ih ?_)
        rw [Grows.shift hgrows hbytes, Nat.mul_assoc, ← Nat.pow_succ']
        exact hfuel
      · rename_i hend
        exact .done hend

theorem sizeClassFor_while (rt : RuntimeImpl) {bytes : UInt64} (hbytes : bytes.toNat ≤ 2 ^ 48) :
    While (Grows bytes rt.maxClass) growClass rt.minClass (rt.sizeClassFor bytes) := by
  refine doubleClass_while hbytes 64 ?_
  have hpos := rt.minClass_pos
  calc bytes.toNat ≤ 1 * 2 ^ 64 := by omega
    _ ≤ rt.minClass.toNat * 2 ^ 64 := Nat.mul_le_mul_right _ hpos

/-- While the loop goes on, its shifts lose no bit. -/
theorem toNat_shifts {bytes max cls : UInt64} (hbytes : bytes.toNat ≤ 2 ^ 48) {k : Nat}
    (hgrows : ∀ j, j < k → Grows bytes max (growClass^[j] cls)) :
    ∀ j, j ≤ k → (growClass^[j] cls).toNat = cls.toNat * 2 ^ j := by
  intro j
  induction j with
  | zero => simp
  | succ j ih =>
      intro hj
      have hprev := ih (Nat.le_of_succ_le hj)
      rw [Function.iterate_succ_apply', (hgrows j hj).shift hbytes, hprev, Nat.mul_assoc,
        ← Nat.pow_succ]

/-- `k` is the first number of doublings of `min` that reach the size or the limit. -/
def FirstFit (bytes min max : UInt64) (k : Nat) : Prop :=
  IsLeast {k | bytes.toNat ≤ min.toNat * 2 ^ k ∨ max.toNat ≤ min.toNat * 2 ^ k} k

/-- What the loop computes. -/
theorem sizeClassFor_spec (rt : RuntimeImpl) {bytes : UInt64} (hbytes : bytes.toNat ≤ 2 ^ 48) :
    ∃ k, FirstFit bytes rt.minClass rt.maxClass k ∧
      (∀ j, j ≤ k → (growClass^[j] rt.minClass).toNat = rt.minClass.toNat * 2 ^ j) ∧
      (rt.sizeClassFor bytes).toNat = rt.minClass.toNat * 2 ^ k := by
  obtain ⟨k, hlast, hgrows, hend⟩ := (rt.sizeClassFor_while hbytes).turns
  have hshifts := toNat_shifts hbytes hgrows
  refine ⟨k, ⟨?_, ?_⟩, hshifts, ?_⟩
  · rw [not_grows_iff, hshifts k (Nat.le_refl k)] at hend
    exact hend
  · intro j hj
    by_contra hlt
    have hlt' : j < k := Nat.lt_of_not_le hlt
    refine not_grows_iff.mpr ?_ (hgrows j hlt')
    rw [hshifts j (Nat.le_of_lt hlt')]
    exact hj
  · rw [hlast]
    exact hshifts k (Nat.le_refl k)

theorem FirstFit.reached {bytes min max cls : UInt64} {k : Nat} (h : FirstFit bytes min max k)
    (hcls : cls.toNat = min.toNat * 2 ^ k) : bytes ≤ cls ∨ max ≤ cls := by
  rw [UInt64.le_iff_toNat_le, UInt64.le_iff_toNat_le, hcls]
  exact h.1

theorem FirstFit.mono {bytes bytes' min max : UInt64} {k k' : Nat} (h : FirstFit bytes min max k)
    (h' : FirstFit bytes' min max k') (hle : bytes ≤ bytes') : k ≤ k' := by
  have hnat := UInt64.le_iff_toNat_le.mp hle
  refine h.2 ?_
  rcases h'.1 with hfit | hfit
  · exact .inl (Nat.le_trans hnat hfit)
  · exact .inr hfit

/-- For every pool configuration and every size of a request, the loop of `size_class_for` ends, in
the class that the model returns and in no other; its shifts lose no bit; the class is the first
doubling of the smallest class that reaches the size or the largest class; and larger sizes have
larger classes. -/
theorem sizeClassFor_least (rt : RuntimeImpl) {bytes : UInt64} (hbytes : bytes.toNat ≤ 2 ^ 48) :
    (∀ cls, While (fun cls => cls < bytes ∧ cls < rt.maxClass) growClass rt.minClass cls ↔
      cls = rt.sizeClassFor bytes) ∧
    (∃ k, (∀ j, j ≤ k → (growClass^[j] rt.minClass).toNat = rt.minClass.toNat * 2 ^ j) ∧
      (rt.sizeClassFor bytes).toNat = rt.minClass.toNat * 2 ^ k ∧
      IsLeast {k | bytes.toNat ≤ rt.minClass.toNat * 2 ^ k ∨
        rt.maxClass.toNat ≤ rt.minClass.toNat * 2 ^ k} k) ∧
    (∀ bytes' : UInt64, bytes ≤ bytes' → bytes'.toNat ≤ 2 ^ 48 →
      rt.sizeClassFor bytes ≤ rt.sizeClassFor bytes') := by
  have hloop := rt.sizeClassFor_while hbytes
  obtain ⟨k, hfirst, hshifts, hclass⟩ := rt.sizeClassFor_spec hbytes
  refine ⟨fun cls => ⟨fun h => h.unique hloop, fun h => h ▸ hloop⟩,
    ⟨k, hshifts, hclass, hfirst⟩, ?_⟩
  intro bytes' hle hbytes'
  obtain ⟨k', hfirst', -, hclass'⟩ := rt.sizeClassFor_spec hbytes'
  rw [UInt64.le_iff_toNat_le, hclass, hclass']
  exact Nat.mul_le_mul_left _ (Nat.pow_le_pow_right Nat.two_pos (hfirst.mono hfirst' hle))

theorem sizeClassFor_least_default : (5000 : UInt64).toNat ≤ 2 ^ 48 ∧
    While (fun cls => cls < 5000 ∧ cls < (init {} {}).maxClass) growClass
      (init {} {}).minClass 8192 :=
  ⟨by decide, ((sizeClassFor_least (init {} {}) (by decide)).1 8192).mpr (by decide)⟩

end RuntimeImpl

end UnifiedBuffer
