import UnifiedBuffer.Safety.Readmission
import UnifiedBuffer.Safety.Recycling

set_option autoImplicit false

/-! # Which buffers return to the pool

Whether a buffer may return to the pool is decided on its size class, not on its size. The class of
a size above `max_class_size` is the first doubling of `min_class_size` that reaches the limit. If
the doublings meet the limit exactly, this class is the limit and the buffer is eligible, however
large it is; otherwise the class is above the limit and it is not. -/

namespace UnifiedBuffer

open Lib

namespace RuntimeImpl

/-! ## The class of a large size -/

/-- The class of a size above the limit is at most the limit exactly if a doubling of the smallest
class is the limit. -/
theorem sizeClassFor_le_maxClass_iff {rt : RuntimeImpl} {size : UInt64} (hover : rt.maxClass < size)
    (hsize : size.toNat ≤ 2 ^ 48) :
    rt.sizeClassFor size ≤ rt.maxClass ↔ ∃ j, rt.minClass.toNat * 2 ^ j = rt.maxClass.toNat := by
  obtain ⟨k, hfirst, -, hclass⟩ := rt.sizeClassFor_spec hsize
  -- whichever bound ends the loop, the limit is reached
  have hreached : rt.maxClass ≤ rt.sizeClassFor size :=
    (hfirst.reached hclass).elim (UInt64.le_of_lt ∘ UInt64.lt_of_lt_of_le hover) id
  constructor
  · intro hle
    exact ⟨k, hclass.symm.trans (congrArg UInt64.toNat (UInt64.le_antisymm hle hreached))⟩
  · rintro ⟨j, hj⟩
    have hkj : k ≤ j := hfirst.2 (.inr hj.ge)
    rw [UInt64.le_iff_toNat_le, hclass, ← hj]
    exact Nat.mul_le_mul_left _ (Nat.pow_le_pow_right Nat.two_pos hkj)

/-- A size above the limit is eligible exactly if a doubling of the smallest class is the limit. -/
theorem poolEligible_over {rt : RuntimeImpl} (hmin : rt.cfg.pool.minClassSize ≠ 0)
    (hle : rt.cfg.pool.minClassSize ≤ rt.cfg.pool.maxClassSize) {size : UInt64}
    (hover : rt.cfg.pool.maxClassSize < size) (hsize : size.toNat ≤ 2 ^ 48) :
    rt.poolEligible size = true ↔ rt.cfg.enablePool = true ∧ rt.cfg.pool.enabled = true ∧
      ∃ j, rt.cfg.pool.minClassSize.toNat * 2 ^ j = rt.cfg.pool.maxClassSize.toNat := by
  have hpos : 0 < rt.cfg.pool.minClassSize.toNat :=
    Nat.pos_of_ne_zero fun h => hmin ((toNat_eq_zero_iff _).mp h)
  have hmax : rt.cfg.pool.maxClassSize ≠ 0 := by
    intro h
    rw [h] at hle
    have hnat := UInt64.le_iff_toNat_le.mp hle
    exact absurd hnat (Nat.not_le_of_lt hpos)
  have hclass : rt.sizeClassFor size ≤ rt.cfg.pool.maxClassSize ↔
      ∃ j, rt.cfg.pool.minClassSize.toNat * 2 ^ j = rt.cfg.pool.maxClassSize.toNat := by
    have hiff := @sizeClassFor_le_maxClass_iff rt size
    rw [minClass_of_ne hmin, maxClass_of_ne hmax] at hiff
    exact hiff hover hsize
  have hsmallest : rt.cfg.pool.minClassSize ≤ size := UInt64.le_trans hle (UInt64.le_of_lt hover)
  unfold poolEligible
  simp only [Bool.and_eq_true, decide_eq_true_eq, hclass, hsmallest, and_true, and_assoc]

end RuntimeImpl

/-! ## Whole runs -/

/-- What is known of a record that may return to the pool. -/
def Core.Sorted (c : Core) : Prop :=
  ∀ k, c.Alive k → (c.control k).record.poolEligible = true →
    (c.control k).record.size.toNat ≤ 2 ^ 48 ∧
      c.rt.poolEligible (c.control k).record.size = true

namespace World

variable {w : World} {op : Op} {base : List BufferId}

theorem sorted_next (hinv : w.RefInv base) (h : w.core.Sorted) (op : Op) :
    (w.next op).core.Sorted := by
  have hcfg := ((sameSetup_effects w op).next hinv (.refl _)).cfg
  intro k hk hpool
  have hrule : ∀ size, (w.next op).core.rt.poolEligible size = w.core.rt.poolEligible size := by
    intro size
    unfold RuntimeImpl.poolEligible RuntimeImpl.sizeClassFor
    rw [hcfg]
  rw [hrule]
  cases (fates hinv op).blocks k hk with
  | kept alive same =>
      rw [same] at hpool ⊢
      exact h k alive hpool
  | fresh _ _ admission _ _ _ same | reused _ _ admission _ _ same =>
      rw [same] at hpool ⊢
      exact ⟨(RuntimeImpl.validateRequest_ok (RuntimeImpl.admits_valid admission)).bounded, hpool⟩
  | moved _ _ _ _ _ same =>
      -- a migrated, wrapped or opened buffer does not return to the pool
      rw [same] at hpool
      cases hpool
  | wrapped _ _ made same =>
      obtain ⟨-, -, dom, id, rfl⟩ := made
      rw [same] at hpool
      cases hpool
  | opened _ _ made same =>
      obtain ⟨-, id, a, -, -, rfl⟩ := made
      rw [same] at hpool
      cases hpool

theorem sorted_reach {ok : World → Op → Prop} {cfg : RuntimeConfig} {plat : RuntimeImpl.Platform}
    (hreach : Reach World.next ok (World.init cfg plat) w) :
    w.core.Sorted ∧ w.core.rt.cfg = cfg := by
  refine hreach.invariant_of (I := fun w => w.core.Sorted ∧ w.core.rt.cfg = cfg)
    (K := fun w => w.RefInv []) (fun _ h => refInv_reach h) ?_ (fun v op hinv h _ => ?_)
  · exact ⟨fun k hk => absurd hk.1 (Nat.not_lt_zero k), rfl⟩
  · exact ⟨sorted_next hinv h.1 op, ((sameSetup_effects v op).next hinv (.refl _)).cfg.trans h.2⟩

/-- The slot is the backing of block `k`, whose last reference the operation drops. -/
structure Shelves (w : World) (op : Op) (k : CtlId) (e : PoolKey × PoolSlot) : Prop where
  released : w.released op = some k
  alive : w.core.Alive k
  slot : e.2 = ⟨(w.core.control k).record.backing, (w.core.control k).record.id,
    (w.core.control k).record.ns⟩

end World

/-- The pool accepts sizes above its limit: it is enabled, and the doublings of `min_class_size`
meet `max_class_size`. -/
def RuntimeConfig.PoolsOversized (cfg : RuntimeConfig) : Prop :=
  cfg.enablePool = true ∧ cfg.pool.enabled = true ∧
    ∃ j, cfg.pool.minClassSize.toNat * 2 ^ j = cfg.pool.maxClassSize.toNat

/-- **Which oversized buffers are pooled.** A size above `max_class_size` is eligible for the pool
exactly if the pool is enabled and `max_class_size` is a doubling of `min_class_size`. If not, then
in every run only buffers within the limit give their backing to the pool. -/
theorem oversized_pooled_iff {cfg : RuntimeConfig} (hmin : cfg.pool.minClassSize ≠ 0)
    (hle : cfg.pool.minClassSize ≤ cfg.pool.maxClassSize) {plat : RuntimeImpl.Platform} {w : World}
    (hreach : Reach World.next (fun _ _ => True) (World.init cfg plat) w) :
    (∀ size, cfg.pool.maxClassSize < size → size.toNat ≤ 2 ^ 48 →
      (w.core.rt.poolEligible size = true ↔ cfg.PoolsOversized)) ∧
      (¬ cfg.PoolsOversized → ∀ op, ∀ e ∈ (w.next op).core.rt.pool.all, e ∈ w.core.rt.pool.all ∨
        ∃ k, w.Shelves op k e ∧ (w.core.control k).record.size ≤ cfg.pool.maxClassSize) := by
  obtain ⟨hsorted, hcfg⟩ := World.sorted_reach hreach
  have hinv := World.refInv_reach hreach
  have hover : ∀ size, cfg.pool.maxClassSize < size → size.toNat ≤ 2 ^ 48 →
      (w.core.rt.poolEligible size = true ↔ cfg.PoolsOversized) := by
    rw [← hcfg] at hmin hle ⊢
    exact fun size hsize hbound => RuntimeImpl.poolEligible_over hmin hle hsize hbound
  refine ⟨hover, fun hnot op e he => ?_⟩
  cases (World.fates hinv op).slots e he with
  | stayed mem => exact Or.inl mem
  | @entered env k _ hrel _ alive eligible _ slot _ _ =>
      obtain ⟨hbound, helig⟩ :=
        hsorted k alive (RuntimeImpl.poolEligible_of_returnsToPool eligible)
      -- a pooled buffer above the limit would have been found eligible when it was allocated
      have hsmall : (w.core.control k).record.size ≤ cfg.pool.maxClassSize :=
        UInt64.not_lt.mp fun hlarge => hnot ((hover _ hlarge hbound).mp helig)
      exact Or.inr ⟨k, ⟨hrel, alive, by rw [slot]⟩, hsmall⟩

/-- A pool whose largest class is three times its smallest. -/
def threePagePool : RuntimeConfig := { pool := { maxClassSize := 12288 } }

/-- The theorem at work: a buffer of four pages is not kept when it is released, and what would be
kept would be within three pages. -/
theorem oversized_pooled_iff_threePages :
    let w := (World.init threePagePool {}).next (.allocate (hostMemoryAt 4096) { size := 16384 })
    (w.core.control 0).record.size = 16384 ∧ (w.next (.release {} 0)).core.rt.pool.all = [] ∧
      w.core.rt.poolEligible 16384 = false ∧
      ∀ e ∈ (w.next (.release {} 0)).core.rt.pool.all, e ∈ w.core.rt.pool.all ∨
        ∃ k, w.Shelves (.release {} 0) k e ∧ (w.core.control k).record.size ≤ 12288 := by
  have hnot : ¬ threePagePool.PoolsOversized := by
    rintro ⟨-, -, j, hj⟩
    have hthree : 4096 * 2 ^ j = 4096 * 3 := hj
    have hpow : 2 ^ j = 3 := Nat.eq_of_mul_eq_mul_left (by decide) hthree
    match j, hpow with
    | 0, h => exact absurd h (by decide)
    | j + 1, h => omega
  have h := @oversized_pooled_iff threePagePool (by decide) (by decide) {} _
    (.next (.allocate (hostMemoryAt 4096) { size := 16384 }) .start trivial)
  refine ⟨by decide, by decide, ?_, h.2 hnot (.release {} 0)⟩
  exact Bool.eq_false_iff.mpr fun helig => hnot ((h.1 16384 (by decide) (by decide)).mp helig)

/-- With classes of one and two pages, a released buffer of four pages stays in the pool. -/
theorem oversized_buffer_pooled :
    let w := (World.init { pool := { maxClassSize := 8192 } } {}).next
      (.allocate (hostMemoryAt 4096) { size := 16384 })
    (w.core.control 0).record.size = 16384 ∧ w.core.rt.pool.all = [] ∧
      (w.next (.release {} 0)).core.rt.pool.all.map (·.2.backing)
        = [(w.core.control 0).record.backing] := by
  decide

end UnifiedBuffer
