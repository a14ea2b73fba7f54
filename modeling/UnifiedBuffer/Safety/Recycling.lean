import UnifiedBuffer.Backends.Native
import UnifiedBuffer.Runtime.SizeClass
import UnifiedBuffer.Safety.Effects

set_option autoImplicit false

/-! # Where the backings of the pool come from

A backing enters the pool under the key of the buffer that gives it up, and leaves it under the key
of the buffer that asks. The two keys are computed separately, from records of different buffers,
and a backing may have passed through many buffers. The invariant behind it: every backing in the
pool, or in a buffer that may return it, was allocated by a backend for a buffer with this very key,
and has exactly the bytes that this first buffer asked for. -/

namespace UnifiedBuffer

open Lib

/-! ## Admitted requests -/

namespace RuntimeImpl

theorem admits_valid {rt : RuntimeImpl} {req : AllocationRequest} {alignment classSize : UInt64}
    {l : Ledger} (h : rt.admits req = some (alignment, classSize, l)) :
    rt.validateRequest req = .ok (alignment, classSize) := by
  unfold admits at h
  split at h
  · cases h
  split at h
  · rename_i a b u hv hr
    split at h
    · cases h
      exact hv
    · cases h
  · cases h

/-- What `validate_request` guarantees. -/
structure ValidSize (size alignment classSize : UInt64) : Prop where
  positive : size ≠ 0
  bounded : size.toNat ≤ 2 ^ 48
  aligned : alignment.toNat ≤ 4096
  up : alignUp size alignment = some classSize

theorem ValidSize.classSize_ne_zero {size alignment classSize : UInt64}
    (h : ValidSize size alignment classSize) : classSize ≠ 0 := by
  rintro rfl
  have hle := le_alignUp h.up
  exact h.positive (UInt64.le_antisymm hle UInt64.zero_le)

theorem validateRequest_ok {rt : RuntimeImpl} {req : AllocationRequest}
    {alignment classSize : UInt64} (h : rt.validateRequest req = .ok (alignment, classSize)) :
    ValidSize req.size alignment classSize := by
  unfold validateRequest at h
  split at h
  · cases h
  rename_i hzero
  split at h
  · cases h
  rename_i hsize
  split at h
  · cases h
  simp only at h
  split at h
  · cases h
  split at h
  · cases h
  rename_i hlarge
  split at h
  · cases h
  split at h
  · cases h
  rename_i hup
  cases h
  exact ⟨hzero, UInt64.le_iff_toNat_le.mp (UInt64.not_lt.mp hsize),
    UInt64.le_iff_toNat_le.mp (UInt64.not_lt.mp hlarge), hup⟩

theorem makePoolKey_of_cfg {rt rt' : RuntimeImpl} (h : rt'.cfg = rt.cfg) :
    rt'.makePoolKey = rt.makePoolKey := by
  unfold makePoolKey sizeClassFor
  rw [h]

/-! ## Size classes -/

/-- A request is not larger than its size class, unless the class has reached the limit. -/
theorem le_sizeClassFor {rt : RuntimeImpl} {n : Nat} (hn : 12 ≤ n)
    (hmin : rt.cfg.pool.minClassSize.toNat = 2 ^ n) {size alignment classSize : UInt64}
    (hvalid : ValidSize size alignment classSize)
    (hmax : rt.sizeClassFor size < rt.cfg.pool.maxClassSize) :
    classSize ≤ rt.sizeClassFor size := by
  have hmaxpos : rt.cfg.pool.maxClassSize ≠ 0 := by
    intro hzero
    rw [hzero] at hmax
    exact absurd hmax UInt64.not_lt_zero
  obtain ⟨m, hfirst, -, hclass⟩ := rt.sizeClassFor_spec hvalid.bounded
  have hfit : size ≤ rt.sizeClassFor size := by
    have hreached := hfirst.reached hclass
    rw [maxClass_of_ne hmaxpos] at hreached
    exact hreached.resolve_right (UInt64.not_le.mpr hmax)
  rw [minClass_of_ne (ne_zero_of_pow hmin), hmin, ← Nat.pow_add] at hclass
  refine alignUp_le hvalid.up ?_ hfit
  -- the alignment is a smaller power of two
  obtain ⟨k, hk, -⟩ := alignUp_spec hvalid.up
  have hkm : k ≤ n + m := by
    have hle := hvalid.aligned
    rw [hk] at hle
    have hk12 : k ≤ 12 := (Nat.pow_le_pow_iff_right Nat.one_lt_two).mp hle
    omega
  rw [hk, hclass]
  exact Nat.pow_dvd_pow 2 hkm

end RuntimeImpl

/-! ## Origins -/

/-- The backing `b` was allocated by the backend of the key's domain for the buffer with the record
`r`, whose key is `key`. -/
structure Core.Supplied (c : Core) (key : PoolKey) (b : NativeAllocation) (r : Record) : Prop where
  call : .allocated key.domain .runtime b ∈ c.os.calls
  tag : r.backing.tag = b.tag
  fresh : r.pooled = false
  key : c.rt.makePoolKey r = key
  valid : RuntimeImpl.ValidSize r.size r.alignment b.committed
  aligned : r.alignment ≤ b.alignment

namespace Core

variable {c c' : Core}

/-- The record is the same in all that the key and the origin depend on. -/
theorem Supplied.same {key : PoolKey} {b : NativeAllocation} {ctl ctl' : Control}
    (h : c.Supplied key b ctl.record) (hcfg : c'.rt.cfg = c.rt.cfg)
    (hcalls : c.os.calls <:+ c'.os.calls) (hctl : ctl.SameBuffer ctl') :
    c'.Supplied key b ctl'.record := by
  rw [hctl.record]
  refine ⟨hcalls.subset h.call, h.tag, h.fresh, ?_, h.valid, h.aligned⟩
  rw [RuntimeImpl.makePoolKey_of_cfg hcfg]
  exact h.key

/-- The backing `b` comes from a buffer that is finalized, or from the buffer `own`. -/
def Comes (c : Core) (own : Option CtlId) (key : PoolKey) (b : NativeAllocation) : Prop :=
  ∃ j, j < c.ctls.length ∧ (own = some j ∨ (c.control j).finalized = true) ∧
    c.Supplied key b (c.control j).record

/-- The block may return its backing to the pool. -/
def Returning (c : Core) (k : CtlId) : Prop :=
  c.Alive k ∧ (c.control k).record.poolEligible = true ∧ (c.control k).record.flags.pooled = true

/-- Every slot, and every backing that may become one, comes from a buffer with its key. -/
structure Recycling (c : Core) : Prop where
  slots : ∀ e ∈ c.rt.pool.all, c.Comes none e.1 e.2.backing
  blocks : ∀ k, c.Returning k →
    c.Comes (some k) (c.rt.makePoolKey (c.control k).record) (c.control k).record.backing

/-- The old blocks are left alone where they matter: those that are finalized, and `own`. -/
structure Keeps (c c' : Core) (own : Option CtlId) : Prop where
  cfg : c'.rt.cfg = c.rt.cfg
  calls : c.os.calls <:+ c'.os.calls
  length : c.ctls.length ≤ c'.ctls.length
  blocks : ∀ j, j < c.ctls.length → own = some j ∨ (c.control j).finalized = true →
    (c.control j).SameBuffer (c'.control j)

theorem Comes.keep {own : Option CtlId} {key : PoolKey} {b : NativeAllocation}
    (h : c.Comes own key b) (hkeep : c.Keeps c' own) : c'.Comes own key b := by
  obtain ⟨j, hj, hown, hsup⟩ := h
  have hsame := hkeep.blocks j hj hown
  refine ⟨j, Nat.lt_of_lt_of_le hj hkeep.length, ?_, hsup.same hkeep.cfg hkeep.calls hsame⟩
  rw [hsame.finalized]
  exact hown

/-- How the invariant passes from one state to the next: old slots and old blocks are kept, and new
ones have an origin. -/
theorem Recycling.pass (h : c.Recycling) (hkeep : c.Keeps c' none)
    (hslots : ∀ e ∈ c'.rt.pool.all, e ∈ c.rt.pool.all ∨ c'.Comes none e.1 e.2.backing)
    (hblocks : ∀ k, c'.Returning k →
      (k < c.ctls.length ∧ (c.control k).SameBuffer (c'.control k)) ∨
      c'.Comes (some k) (c'.rt.makePoolKey (c'.control k).record) (c'.control k).record.backing) :
    c'.Recycling := by
  refine ⟨fun e he => ?_, fun k hk => ?_⟩
  · exact (hslots e he).elim (fun hold => (h.slots e hold).keep hkeep) id
  · rcases hblocks k hk with ⟨hlt, hsame⟩ | hnew
    · obtain ⟨⟨-, halive⟩, heligible, hpooled⟩ := hk
      rw [hsame.finalized] at halive
      rw [hsame.record] at heligible hpooled
      have hkeep' : c.Keeps c' (some k) :=
        ⟨hkeep.cfg, hkeep.calls, hkeep.length, fun j hj hown => by
          rcases hown with hown | hown
          · obtain rfl : k = j := Option.some.inj hown
            exact hsame
          · exact hkeep.blocks j hj (Or.inr hown)⟩
      have hold := (h.blocks k ⟨⟨hlt, halive⟩, heligible, hpooled⟩).keep hkeep'
      rw [RuntimeImpl.makePoolKey_of_cfg hkeep.cfg, hsame.record]
      exact hold
    · exact hnew

theorem keeps_of_ctls {own : Option CtlId} (hcfg : c'.rt.cfg = c.rt.cfg)
    (hcalls : c.os.calls <:+ c'.os.calls) (hctls : c'.ctls = c.ctls) : c.Keeps c' own :=
  ⟨hcfg, hcalls, hctls ▸ Nat.le_refl _, fun j _ _ => control_congr hctls j ▸ .refl _⟩

/-- The buffers are the same, and no slot is new. -/
theorem Recycling.frame (h : c.Recycling) (hcfg : c'.rt.cfg = c.rt.cfg)
    (hcalls : c.os.calls <:+ c'.os.calls) (hctls : c'.ctls = c.ctls)
    (hpool : ∀ e ∈ c'.rt.pool.all, e ∈ c.rt.pool.all) : c'.Recycling :=
  h.pass (keeps_of_ctls hcfg hcalls hctls) (fun e he => Or.inl (hpool e he)) fun k hk =>
    Or.inl ⟨hctls ▸ hk.1.1, control_congr hctls k ▸ .refl _⟩

theorem length_register (c : Core) (r : Record) :
    (c.register r).2.ctls.length = c.ctls.length + 1 := List.length_append

/-- Only what is counted in a block has changed. -/
theorem Recycling.adjust (h : c.Recycling) (k : CtlId) {f : Control → Control}
    (hf : ∀ ctl : Control, ctl.SameBuffer (f ctl)) : (c.modify k f).Recycling := by
  have hsame := c.sameBuffer_modify k hf
  have hlen : (c.modify k f).ctls.length = c.ctls.length := List.length_modify _ _ _
  exact h.pass ⟨rfl, List.suffix_rfl, hlen ▸ Nat.le_refl _, fun j _ _ => hsame j⟩
    (fun e he => Or.inl he) fun j hj => Or.inl ⟨hlen ▸ hj.1.1, hsame j⟩

theorem keeps_register (c : Core) (r : Record) (own : Option CtlId) :
    c.Keeps (c.register r).2 own := by
  refine ⟨rfl, List.suffix_rfl, ?_, fun j hj _ => ?_⟩
  · rw [length_register]
    exact Nat.le_succ _
  · rw [control_register, if_neg (Nat.ne_of_lt hj)]
    exact .refl _

/-- A new buffer. -/
theorem Recycling.register (h : c.Recycling) {r : Record}
    (hnew : r.poolEligible = true → r.flags.pooled = true →
      (c.register r).2.Comes (some c.ctls.length) (c.rt.makePoolKey r) r.backing) :
    (c.register r).2.Recycling := by
  refine h.pass (keeps_register c r none) (fun e he => Or.inl he) fun k hk => ?_
  by_cases hlast : k = c.ctls.length
  · subst hlast
    obtain ⟨-, heligible, hpooled⟩ := hk
    rw [control_register, if_pos rfl] at heligible hpooled ⊢
    exact Or.inr (hnew heligible hpooled)
  · have hlt := (alive_register hk.1).resolve_left hlast
    refine Or.inl ⟨hlt.1, ?_⟩
    rw [control_register, if_neg hlast]
    exact .refl _

theorem Comes.weaken {key : PoolKey} {b : NativeAllocation} (h : c.Comes none key b)
    (own : Option CtlId) : c.Comes own key b := by
  obtain ⟨j, hj, hown, hsup⟩ := h
  exact ⟨j, hj, Or.inr (hown.resolve_left (by simp)), hsup⟩

/-- The slot that a request is offered is filed under its key; the other slots stay. -/
theorem poolOffer_mem {rt : RuntimeImpl} {req : AllocationRequest} {alignment classSize : UInt64}
    {slot : PoolSlot} {pool : Pool}
    (h : rt.poolOffer req alignment classSize = some (slot, pool)) :
    (rt.makePoolKey (rt.requestRecord {} req alignment {}), slot) ∈ rt.pool.all ∧
      (∀ e ∈ pool.all, e ∈ rt.pool.all) ∧ classSize ≤ slot.backing.committed := by
  unfold RuntimeImpl.poolOffer at h
  split at h
  · obtain ⟨hperm, hle⟩ := Pool.take_perm h
    exact ⟨hperm.mem_iff.mpr List.mem_cons_self,
      fun e he => hperm.mem_iff.mpr (List.mem_cons_of_mem _ he), hle⟩
  · cases h

theorem Recycling.allocate (h : c.Recycling) {env : Env} (hnative : env.Native)
    (req : AllocationRequest) : (c.allocate env req).2.Recycling := by
  have hrun := c.rt.allocateRecord_run c.os env req
  unfold Core.allocate
  generalize c.rt.allocateRecord c.os env req = out at hrun ⊢
  cases hrun with
  | refused _ _ state | backendFailed _ _ _ _ state =>
      exact h.frame state.cfg List.suffix_rfl rfl fun e he => state.pool ▸ he
  | commitFailed _ _ _ _ _ state =>
      exact h.frame state.cfg ((List.suffix_cons _ _).trans (List.suffix_cons _ _)) rfl
        fun e he => state.pool ▸ he
  | freshZeroFailed _ _ _ _ _ _ state =>
      refine h.frame state.cfg ?_ rfl fun e he => state.pool ▸ he
      rw [Os.free_calls, RuntimeImpl.zeroed_calls]
      exact (List.suffix_cons _ _).trans (List.suffix_cons _ _)
  | @fresh rt' alignment classSize l l' a admission _ backend _ _ state =>
      have hvalid := RuntimeImpl.validateRequest_ok (RuntimeImpl.admits_valid admission)
      have hgrant := hnative.granted backend
      have hcalls : (c.rt.zeroed (c.os.log (.allocated req.domain .runtime (c.os.stamp a))) env req
          (c.os.stamp a) none).calls = .allocated req.domain .runtime (c.os.stamp a) :: c.os.calls :=
        RuntimeImpl.zeroed_calls ..
      refine Recycling.register (c := ⟨rt', _, c.ctls⟩) (h.frame state.cfg ?_ rfl
        fun e he => state.pool ▸ he) fun _ _ => ?_
      · rw [hcalls]
        exact List.suffix_cons _ _
      · -- the buffer is the first one of its backing
        refine ⟨c.ctls.length, ?_, Or.inl rfl, ?_⟩
        · rw [length_register]
          exact Nat.lt_succ_self _
        · rw [control_register, if_pos rfl]
          refine ⟨?_, rfl, rfl, rfl, ?_, hgrant.alignment⟩
          · exact hcalls ▸ List.mem_cons_self
          · show RuntimeImpl.ValidSize req.size alignment a.committed
            rw [hgrant.committed]
            exact hvalid
  | @pooledZeroFailed _ rt' _ _ _ _ pool _ offer _ state =>
      have hpool : rt'.pool = pool := state.pool
      refine h.frame state.cfg ?_ rfl fun e he => (poolOffer_mem offer).2.1 e (hpool ▸ he)
      rw [RuntimeImpl.zeroed_calls]
  | @pooled rt' alignment classSize l slot pool admission offer _ state =>
      have hcalls : c.os.calls <:+
          (c.rt.zeroed c.os env req slot.backing (some slot.lastOwner)).calls := by
        rw [RuntimeImpl.zeroed_calls]
      have hpool : rt'.pool = pool := state.pool
      obtain ⟨hslot, hrest, -⟩ := poolOffer_mem offer
      refine Recycling.register (c := ⟨rt', _, c.ctls⟩) (h.frame state.cfg hcalls rfl
        fun e he => hrest e (hpool ▸ he)) fun _ _ => ?_
      -- the buffer inherits the origin of the slot
      have hkeep : c.Keeps ⟨rt', _, c.ctls⟩ none := keeps_of_ctls state.cfg hcalls rfl
      have horigin := (((h.slots _ hslot).keep hkeep).keep (keeps_register _
          (c.rt.backedRecord env req alignment slot.backing true) none)).weaken
            (some c.ctls.length)
      rw [RuntimeImpl.makePoolKey_of_cfg state.cfg]
      exact horigin

/-- A buffer from outside never returns to the pool. -/
theorem Recycling.brought (h : c.Recycling) {P : Record → Prop}
    (hP : ∀ r, P r → r.flags.pooled = false) {out : Except Error CtlId × Core}
    (hb : c.Brings P out) : out.2.Recycling := by
  cases hb with
  | failed booked | known booked =>
      exact h.frame booked.cfg booked.grown booked.ctls fun e he => booked.pool ▸ he
  | fresh booked made =>
      refine (h.frame booked.cfg booked.grown booked.ctls fun e he => booked.pool ▸ he).register ?_
      intro _ hpooled
      rw [hP _ made] at hpooled
      cases hpooled

/-- The blocks after one that is not finalized was written. -/
theorem keeps_set {k : CtlId} {ctl : Control} (hcfg : c'.rt.cfg = c.rt.cfg)
    (hcalls : c.os.calls <:+ c'.os.calls) (hctls : c'.ctls = c.ctls.set k ctl) (hk : c.Alive k) :
    c.Keeps c' none := by
  refine ⟨hcfg, hcalls, ?_, fun j hj hown => ?_⟩
  · rw [hctls, List.length_set]
  · have hne : j ≠ k := by
      rintro rfl
      rw [hk.2] at hown
      simp at hown
    rw [control_of_set hctls hk.1, if_neg hne]
    exact .refl _

/-- A block is written that does not return its backing any more. -/
theorem Recycling.retire (h : c.Recycling) {k : CtlId} {ctl : Control} (hk : c.Alive k)
    (hcfg : c'.rt.cfg = c.rt.cfg) (hcalls : c.os.calls <:+ c'.os.calls)
    (hctls : c'.ctls = c.ctls.set k ctl)
    (hctl : ctl.finalized = false → ctl.record.poolEligible = false)
    (hslots : ∀ e ∈ c'.rt.pool.all, e ∈ c.rt.pool.all ∨ c'.Comes none e.1 e.2.backing) :
    c'.Recycling := by
  refine h.pass (keeps_set hcfg hcalls hctls hk) hslots fun j hj => Or.inl ?_
  obtain ⟨⟨hlt, halive⟩, heligible, -⟩ := hj
  have hne : j ≠ k := by
    rintro rfl
    rw [control_of_set hctls hk.1, if_pos rfl] at halive heligible
    rw [hctl halive] at heligible
    cases heligible
  refine ⟨Nat.lt_of_lt_of_eq hlt (by rw [hctls, List.length_set]), ?_⟩
  rw [control_of_set hctls hk.1, if_neg hne]
  exact .refl _

theorem suffix_freeIn (rt : RuntimeImpl) (os : Os) (d : MemoryDomain) (a : NativeAllocation) :
    os.calls <:+ (rt.freeIn os d a).calls := by
  unfold RuntimeImpl.freeIn
  split
  · exact List.suffix_cons _ _
  · exact List.suffix_rfl

/-- A migrated buffer never returns to the pool. -/
theorem Recycling.migrate (h : c.Recycling) (env : Env) {k : CtlId} (hk : c.Alive k)
    (target : MemoryDomain) : (c.migrate env k target).2.Recycling := by
  have hrun := c.rt.migrate_run c.os env (c.control k) target
  unfold Core.migrate
  generalize c.rt.migrate c.os env (c.control k) target = out at hrun ⊢
  have hkept : ∀ (rt : RuntimeImpl) (os : Os), rt.cfg = c.rt.cfg → rt.pool = c.rt.pool →
      c.os.calls <:+ os.calls →
      Recycling { rt := rt, os := os, ctls := c.ctls.set k (c.control k) } := by
    intro rt os hcfg hpool hcalls
    exact h.frame hcfg hcalls (c.set_control k) fun e he => by rw [← hpool]; exact he
  -- a failed migration has given its new backing back
  have hback : ∀ a, c.os.calls <:+
      ((RuntimeImpl.migrateCopy c.os env (c.control k) target a).2.free target
        (c.os.stamp a)).calls := by
    intro a
    rw [Os.free_calls, RuntimeImpl.migrateCopy_calls]
    exact (List.suffix_cons _ _).trans (List.suffix_cons _ _)
  cases hrun with
  | refused _ state | backendFailed _ _ state =>
      exact hkept _ _ state.cfg state.pool List.suffix_rfl
  | stays => exact hkept _ _ rfl rfl List.suffix_rfl
  | copyFailed _ _ _ state | commitFailed _ _ _ _ state | verifyFailed _ _ _ _ _ state =>
      exact hkept _ _ state.cfg state.pool (hback _)
  | @swapped rt' tdom l l' a _ _ _ _ _ state =>
      have hpool : rt'.pool = c.rt.pool := state.pool
      have hcopy : c.os.calls <:+
          (RuntimeImpl.migrateCopy c.os env (c.control k) target a).2.calls := by
        rw [RuntimeImpl.migrateCopy_calls]
        exact List.suffix_cons _ _
      refine h.retire hk state.cfg ?_ rfl (fun _ => rfl) fun e he => Or.inl (hpool ▸ he)
      show c.os.calls <:+ Os.calls (if _ then _ else _)
      split
      · exact hcopy.trans (suffix_freeIn _ _ _ _)
      · exact hcopy

/-- The origin of a backing when its buffer `k` is finalized and the backing is moved out of the
record. -/
theorem Comes.passOn {k : CtlId} {key : PoolKey} {b : NativeAllocation} {ownership : Ownership}
    (h : c.Comes (some k) key b) (hk : k < c.ctls.length) (hcfg : c'.rt.cfg = c.rt.cfg)
    (hcalls : c.os.calls <:+ c'.os.calls)
    (hctls : c'.ctls = c.ctls.set k (RuntimeImpl.finalControl (c.control k)
      (c.control k).record.backing.movedFrom ownership)) : c'.Comes none key b := by
  obtain ⟨j, hj, hown, hsup⟩ := h
  refine ⟨j, Nat.lt_of_lt_of_eq hj (by rw [hctls, List.length_set]), Or.inr ?_, ?_⟩
  · rw [control_of_set hctls hk]
    split
    · rfl
    · rename_i hne
      exact hown.resolve_left fun heq => hne (Option.some.inj heq).symm
  · have hkey : c'.rt.makePoolKey (c.control j).record = key := by
      rw [RuntimeImpl.makePoolKey_of_cfg hcfg]
      exact hsup.key
    rw [control_of_set hctls hk]
    split
    · rename_i heq
      subst heq
      exact ⟨hcalls.subset hsup.call, hsup.tag, hsup.fresh, hkey, hsup.valid, hsup.aligned⟩
    · exact ⟨hcalls.subset hsup.call, hsup.tag, hsup.fresh, hkey, hsup.valid, hsup.aligned⟩

/-- A finalized buffer passes its backing on, together with its origin. -/
theorem Recycling.finalize (h : c.Recycling) (env : Env) {k : CtlId} (hk : c.Alive k) :
    (c.finalize env k true).Recycling := by
  have hrun := c.rt.finalize_run c.os env (c.control k) true
  unfold Core.finalize
  generalize c.rt.finalize c.os env (c.control k) true = out at hrun ⊢
  have hzero := c.rt.zeroOnRelease_calls c.os env (c.control k).record
  cases hrun with
  | again done =>
      rw [hk.2] at done
      cases done
  | @kept rt' _ _ state =>
      have hpool : rt'.pool = c.rt.pool := state.pool
      exact h.retire hk state.cfg List.suffix_rfl rfl Bool.noConfusion fun e he =>
        Or.inl (hpool ▸ he)
  | @evicted rt' _ _ _ _ _ state =>
      have hpool : rt'.pool = c.rt.pool := state.pool
      exact h.retire hk state.cfg (hzero ▸ suffix_freeIn _ _ _ _) rfl Bool.noConfusion fun e he =>
        Or.inl (hpool ▸ he)
  | @freed rt' _ _ _ _ _ state =>
      have hpool : rt'.pool = c.rt.pool := state.pool
      exact h.retire hk state.cfg (suffix_freeIn _ _ _ _) rfl Bool.noConfusion fun e he =>
        Or.inl (hpool ▸ he)
  | @pooled rt' _ _ _ eligible _ state =>
      have hpool : rt'.pool = c.rt.pool.push (c.rt.makePoolKey (c.control k).record)
        ⟨(c.control k).record.backing, (c.control k).record.id, (c.control k).record.ns⟩ := state.pool
      simp only [RuntimeImpl.returnsToPool, Bool.and_eq_true, Bool.true_and] at eligible
      refine h.retire hk state.cfg (hzero ▸ List.suffix_rfl) rfl Bool.noConfusion fun e he => ?_
      -- the new slot has the buffer as its origin, and the others have theirs
      rcases List.mem_cons.mp ((c.rt.pool.push_perm _ _).mem_iff.mp (hpool ▸ he)) with rfl | hold
      · exact Or.inr ((h.blocks k ⟨hk, eligible.1.1.1, eligible.1.1.2⟩).passOn hk.1 state.cfg
          (hzero ▸ List.suffix_rfl) rfl)
      · exact Or.inl hold

theorem suffix_trim (slots : List (PoolKey × PoolSlot)) (s : RuntimeImpl × Os) :
    s.2.calls <:+ (slots.foldl RuntimeImpl.trimSlot s).2.calls := by
  induction slots generalizing s with
  | nil => exact List.suffix_rfl
  | cons e slots ih => exact (suffix_freeIn _ _ _ _).trans (ih (RuntimeImpl.trimSlot s e))

theorem Recycling.poolTrim (h : c.Recycling) : c.poolTrim.Recycling := by
  have hrt : c.poolTrim.rt = (c.rt.poolTrim c.os).1 := rfl
  refine h.frame ?_ (suffix_trim c.rt.pool.all (c.rt, c.os)) rfl fun e he => ?_
  · rw [hrt, c.rt.poolTrim_frame]
  · rw [c.poolTrim_all] at he
    cases he

end Core

/-! ## Runs -/

/-- The allocations of the operation are made by the native backends. -/
def Op.Native : Op → Prop
  | .allocate env _ => env.Native
  | _ => True

namespace World

theorem recycling_effects {w : World} {base : List BufferId} (hinv : w.RefInv base) {op : Op}
    (h : w.core.Recycling) (hop : op.Native) : w.Effects op Core.Recycling where
  noted hb hc := hc.frame hb.cfg hb.grown hb.ctls fun e he => hb.pool ▸ he
  adjusted k f hf hc := hc.adjust k hf
  allocate env req hreq := by
    subst hreq
    exact h.allocate hop req
  wrapExternal desc _ := by
    refine h.brought (fun r hr => ?_) (w.core.wrapExternal_brings desc)
    obtain ⟨-, -, dom, id, rfl⟩ := hr
    rfl
  importBuffer env desc ns label _ := by
    refine h.brought (fun r hr => ?_) (w.core.importDescriptor_brings env desc ns label)
    obtain ⟨-, id, a, -, -, rfl⟩ := hr
    rfl
  migrate env i target k _ hk := h.migrate env (hinv.alive (handle_alive hinv hk).1) target
  copyTo env i dst dstOffset len _ := by
    have hidle := copyTo_idle (w.handle i) w.core env dst dstOffset len
    exact h.frame hidle.quiet.cfg (hidle.calls ▸ List.suffix_rfl) hidle.ctls
      fun e he => hidle.quiet.pool ▸ he
  copyFrom env i src srcOffset len _ := by
    have hidle := copyFrom_idle (w.handle i) w.core env src srcOffset len
    exact h.frame hidle.quiet.cfg (hidle.calls ▸ List.suffix_rfl) hidle.ctls
      fun e he => hidle.quiet.pool ▸ he
  finalize env k _ _ _ hk halive hc := hc.finalize env ⟨hk, halive⟩
  poolTrim _ := h.poolTrim
  shutdown env _ _ := by
    have hclosed : Core.Recycling { w.core with rt := { w.core.rt with closed := true } } :=
      h.frame rfl List.suffix_rfl rfl fun e he => he
    exact hclosed.poolTrim.frame rfl List.suffix_rfl rfl fun e he => he
  createNamespace nsc _ := h.frame rfl List.suffix_rfl rfl fun e he => he

theorem recycling_reach {cfg : RuntimeConfig} {plat : RuntimeImpl.Platform} {w : World}
    (hreach : Reach World.next (fun _ op => op.Native) (World.init cfg plat) w) :
    w.core.Recycling := by
  refine hreach.invariant_of (I := fun w => w.core.Recycling) (K := fun w => w.RefInv [])
    (fun _ h => refInv_reach h) ?_ ?_
  · refine ⟨fun e he => ?_, fun k hk => absurd hk.1.1 (Nat.not_lt_zero k)⟩
    cases he
  · intro w op hinv h hop
    exact (recycling_effects hinv h hop).next hinv h

end World

/-! ## Pool hits -/

/-- The two records agree in what decides whether a backing of one suits the other. -/
structure Record.Suits (o r : Record) : Prop where
  domain : o.domain = r.domain
  backend : o.backend = r.backend
  device : o.device = r.device
  alignment : o.alignment = r.alignment
  exportable : o.flags.exportable = r.flags.exportable

theorem RuntimeImpl.suits_of_key {rt : RuntimeImpl} {o r : Record}
    (h : rt.makePoolKey o = rt.makePoolKey r) (ho : o.alignment ≠ 0) (hr : r.alignment ≠ 0) :
    o.Suits r := by
  simp only [makePoolKey, PoolKey.mk.injEq, if_pos ho, if_pos hr] at h
  exact ⟨h.1, h.2.1, h.2.2.1, h.2.2.2.2.1, h.2.2.2.2.2⟩

theorem alignUp_ne_zero {value alignment up : UInt64} (h : alignUp value alignment = some up) :
    alignment ≠ 0 := by
  rintro rfl
  cases h

/-- What a buffer with the record `r`, made for `req` from the pool of `c`, has got. -/
structure Core.SuitableHit (c : Core) (req : AllocationRequest) (r : Record) : Prop where
  /-- the domain of the request has allocated the backing -/
  allocated : .allocated req.domain .runtime r.backing ∈ c.os.calls
  /-- for a buffer that agrees with the new one -/
  origin : ∃ j, j < c.ctls.length ∧ (c.control j).record.pooled = false ∧
    (c.control j).record.backing.tag = r.backing.tag ∧ (c.control j).record.Suits r
  aligned : r.alignment ≤ r.backing.alignment
  enough : ∃ up, alignUp r.size r.alignment = some up ∧ up ≤ r.backing.committed
  /-- the waste is bounded by the size class -/
  bounded : ∀ n, 12 ≤ n → c.rt.cfg.pool.minClassSize.toNat = 2 ^ n →
    c.rt.sizeClassFor r.size < c.rt.cfg.pool.maxClassSize →
    r.backing.committed ≤ c.rt.sizeClassFor r.size

/-- The block of a successful allocation holds the record that `allocate_record` has filled in. -/
theorem Core.allocate_ok {c c' : Core} {env : Env} {req : AllocationRequest} {k : CtlId}
    (h : c.allocate env req = (.ok k, c')) :
    ∃ rt os, c.rt.allocateRecord c.os env req = (.ok (c'.control k).record, rt, os) := by
  unfold Core.allocate at h
  split at h
  · cases h
  · rename_i r rt os hr
    have hreg : (Core.register { c with rt := rt, os := os } r) = (k, c') := by
      obtain ⟨hk, hc⟩ := Prod.mk.inj h
      exact Prod.ext (Except.ok.inj hk) hc
    have hrecord : (c'.control k).record = r := by
      have hk : k = c.ctls.length := (congrArg Prod.fst hreg).symm
      have hc : (Core.register { c with rt := rt, os := os } r).2 = c' := congrArg Prod.snd hreg
      rw [← hc, control_register, if_pos hk]
    exact ⟨rt, os, by rw [hr, hrecord]⟩

/-- **Pool hits fit**: every buffer that is served from the pool, in every run on the native
backends, gets a backing that its domain allocated for a buffer of the same kind, that is aligned
and large enough, and not larger than the size class. -/
theorem pool_hits_fit {cfg : RuntimeConfig} {plat : RuntimeImpl.Platform} {w : World}
    (hreach : Reach World.next (fun _ op => op.Native) (World.init cfg plat) w) {env : Env}
    {req : AllocationRequest} {k : CtlId} {c : Core} (hok : w.core.allocate env req = (.ok k, c))
    (hhit : (c.control k).record.pooled = true) :
    w.core.SuitableHit req (c.control k).record := by
  obtain ⟨rt, os, hrecord⟩ := Core.allocate_ok hok
  have hrun := w.core.rt.allocateRecord_run w.core.os env req
  rw [hrecord] at hrun
  generalize (c.control k).record = r at hrun hhit ⊢
  cases hrun with
  | fresh => cases hhit
  | @pooled _ alignment classSize l slot pool admission offer _ state =>
      have hvalid := RuntimeImpl.validateRequest_ok (RuntimeImpl.admits_valid admission)
      obtain ⟨hslot, -, hle⟩ := Core.poolOffer_mem offer
      obtain ⟨j, hj, -, hsup⟩ := (World.recycling_reach hreach).slots _ hslot
      have hsuits := RuntimeImpl.suits_of_key hsup.key (alignUp_ne_zero hsup.valid.up)
        (alignUp_ne_zero hvalid.up)
      refine ⟨hsup.call, ⟨j, hj, hsup.fresh, hsup.tag, ?_⟩, ?_, ⟨classSize, hvalid.up, hle⟩, ?_⟩
      · exact ⟨hsuits.domain, hsuits.backend, hsuits.device, hsuits.alignment, hsuits.exportable⟩
      · have halign : (w.core.control j).record.alignment = alignment := hsuits.alignment
        exact halign ▸ hsup.aligned
      · intro n hn hmin hmax
        have hclass : w.core.rt.sizeClassFor (w.core.control j).record.size
            = w.core.rt.sizeClassFor req.size := congrArg PoolKey.sizeClass hsup.key
        have hle := RuntimeImpl.le_sizeClassFor hn hmin hsup.valid (hclass ▸ hmax)
        exact hclass ▸ hle

/-- The native backends on a machine that has host memory at one address. -/
def hostMemoryAt (address : Nat) : Env :=
  { allocate := NativeCalls.allocate { alignedMalloc := fun _ _ => some address } }

/-- A buffer of 6000 bytes has gone back to the pool. -/
def recycledOnce : World :=
  runs World.next (World.init {} {})
    [.allocate (hostMemoryAt 4096) { size := 6000 }, .release {} 0]

/-- The theorem at work: a request for 5000 bytes gets the 6016 bytes of the first buffer, which are
not more than the 8192 of its class. -/
theorem pool_hits_fit_recycledOnce :
    (recycledOnce.core.allocate {} { size := 5000 }).1 = .ok 1 ∧
      ((recycledOnce.core.allocate {} { size := 5000 }).2.control 1).record.backing.committed = 6016 ∧
      recycledOnce.core.SuitableHit { size := 5000 }
        ((recycledOnce.core.allocate {} { size := 5000 }).2.control 1).record := by
  have hreach : Reach World.next (fun _ op => op.Native) (World.init {} {}) recycledOnce :=
    reach_runs .start ⟨⟨_, rfl⟩, trivial, trivial⟩
  have hok : recycledOnce.core.allocate {} { size := 5000 }
      = (.ok 1, (recycledOnce.core.allocate {} { size := 5000 }).2) := Prod.ext rfl rfl
  exact ⟨rfl, by decide, pool_hits_fit hreach hok (by decide)⟩

end UnifiedBuffer
