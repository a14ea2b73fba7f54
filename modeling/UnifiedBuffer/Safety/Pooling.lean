import UnifiedBuffer.Safety.Effects

set_option autoImplicit false

/-! # The pool along a run

`pool_object_count_` and `pool_idle_bytes_` shadow the deques of the pool. They are exact, and the
limits of the configuration hold, as long as the bytes that the pool and the buffers that may still
return to it hold together fit into 64 bits. -/

namespace UnifiedBuffer

open Lib

/-! ## One deque -/

/-- A search that fails has seen only slots that are too small. -/
theorem takeFirst_none {minCommitted : UInt64} {dq : List PoolSlot} :
    takeFirst minCommitted dq = none ↔ ∀ s ∈ dq, s.backing.committed < minCommitted := by
  induction dq with
  | nil => simp [takeFirst]
  | cons s dq ih =>
      unfold takeFirst
      split
      · rename_i hle
        simp [hle]
      · rename_i hlt
        simp [ih, UInt64.not_le.mp hlt]

/-- A search that succeeds takes the first slot that is large enough, and keeps the others in
order. -/
theorem takeFirst_split {minCommitted : UInt64} {dq rest : List PoolSlot} {slot : PoolSlot}
    (h : takeFirst minCommitted dq = some (slot, rest)) :
    ∃ before after, dq = before ++ slot :: after ∧ rest = before ++ after ∧
      ∀ s ∈ before, s.backing.committed < minCommitted := by
  induction dq generalizing rest with
  | nil => cases h
  | cons s dq ih =>
      unfold takeFirst at h
      split at h
      · cases h
        exact ⟨[], dq, rfl, rfl, fun s hs => absurd hs List.not_mem_nil⟩
      · rename_i hlt
        rw [Option.map_eq_some_iff] at h
        obtain ⟨⟨a, b⟩, hab, heq⟩ := h
        cases heq
        obtain ⟨before, after, rfl, rfl, hsmall⟩ := ih hab
        refine ⟨s :: before, after, rfl, rfl, fun s' hs' => ?_⟩
        rcases List.mem_cons.mp hs' with rfl | hs'
        · exact UInt64.not_le.mp hlt
        · exact hsmall s' hs'

namespace Pool

theorem take_isSome {p : Pool} {key : PoolKey} {minCommitted : UInt64} :
    (p.take key minCommitted).isSome ↔
      ∃ s ∈ p.bucket key, minCommitted ≤ s.backing.committed := by
  have hfirst : ∀ dq, (takeFirst minCommitted dq).isSome ↔
      ∃ s ∈ dq, minCommitted ≤ s.backing.committed := fun dq => by
    rw [← not_iff_not, Option.not_isSome_iff_eq_none, takeFirst_none]
    simp [UInt64.not_le]
  unfold Pool.take Pool.bucket
  cases hf : p.slots.find? key with
  | none => simp
  | some dq =>
      rw [Option.getD_some, ← hfirst dq]
      cases ht : takeFirst minCommitted dq <;> simp [ht]

/-- What `pool_take` returns and leaves behind. -/
structure Takes (p : Pool) (key : PoolKey) (minCommitted : UInt64) (slot : PoolSlot) (p' : Pool) :
    Prop where
  /-- the slot is the first one of its deque that is large enough, and only it is removed -/
  first : ∃ before after, p.bucket key = before ++ slot :: after ∧
    p'.bucket key = before ++ after ∧ ∀ s ∈ before, s.backing.committed < minCommitted
  enough : minCommitted ≤ slot.backing.committed
  others : ∀ key', key' ≠ key → p'.bucket key' = p.bucket key'
  count : p'.objectCount = p.objectCount - 1
  bytes : p'.idleBytes = satSub p.idleBytes slot.backing.committed

theorem takes_of_take {p p' : Pool} {key : PoolKey} {minCommitted : UInt64} {slot : PoolSlot}
    (h : p.take key minCommitted = some (slot, p')) : p.Takes key minCommitted slot p' := by
  unfold Pool.take at h
  split at h
  · cases h
  rename_i dq hf
  split at h
  · cases h
  rename_i slot' rest ht
  cases h
  obtain ⟨before, after, hdq, hrest, hsmall⟩ := takeFirst_split ht
  refine ⟨⟨before, after, ?_, ?_, hsmall⟩, (takeFirst_mem ht).2, fun key' hne => ?_, rfl, rfl⟩
  · rw [bucket, hf, Option.getD_some, hdq]
  · simp [bucket, hrest]
  · simp [bucket, AssocMap.find?_insert_ne _ _ (Ne.symm hne)]

/-! ## The counters -/

def slotBytes (slots : List (PoolKey × PoolSlot)) : Nat :=
  (slots.map fun e => e.2.backing.committed.toNat).sum

@[simp] theorem slotBytes_nil : slotBytes [] = 0 := rfl

@[simp] theorem slotBytes_cons (e : PoolKey × PoolSlot) (slots : List (PoolKey × PoolSlot)) :
    slotBytes (e :: slots) = e.2.backing.committed.toNat + slotBytes slots := rfl

theorem slotBytes_perm {slots slots' : List (PoolKey × PoolSlot)} (h : slots.Perm slots') :
    slotBytes slots = slotBytes slots' := (h.map _).sum_eq

/-- The counters agree with the slots. -/
structure Exact (p : Pool) : Prop where
  count : p.objectCount = p.all.length
  bytes : p.idleBytes.toNat = slotBytes p.all

variable {p p' : Pool} {key : PoolKey} {minCommitted : UInt64} {slot : PoolSlot}

/-- Taking a slot subtracts what is there. -/
theorem Exact.take_covered (h : p.Exact) (ht : p.take key minCommitted = some (slot, p')) :
    0 < p.objectCount ∧ slot.backing.committed ≤ p.idleBytes := by
  obtain ⟨hperm, -⟩ := take_perm ht
  rw [h.count, hperm.length_eq, UInt64.le_iff_toNat_le, h.bytes, slotBytes_perm hperm]
  simp

theorem Exact.take (h : p.Exact) (ht : p.take key minCommitted = some (slot, p')) : p'.Exact := by
  obtain ⟨hperm, -⟩ := take_perm ht
  have htakes := takes_of_take ht
  have hlength : p.all.length = p'.all.length + 1 := hperm.length_eq
  have hbytes : slotBytes p.all = slot.backing.committed.toNat + slotBytes p'.all :=
    slotBytes_perm hperm
  refine ⟨?_, ?_⟩
  · rw [htakes.count, h.count, hlength]
    rfl
  · rw [htakes.bytes, toNat_satSub, h.bytes, hbytes]
    omega

theorem Exact.push (h : p.Exact) (key : PoolKey) (slot : PoolSlot)
    (hfits : slotBytes p.all + slot.backing.committed.toNat < 2 ^ 64) :
    (p.push key slot).Exact := by
  have hperm := p.push_perm key slot
  refine ⟨?_, ?_⟩
  · rw [hperm.length_eq]
    exact congrArg (· + 1) h.count
  · rw [slotBytes_perm hperm]
    show (p.idleBytes + slot.backing.committed).toNat = _
    rw [toNat_add_of_lt (by rw [h.bytes]; exact hfits), h.bytes, slotBytes_cons, Nat.add_comm]

end Pool

namespace RuntimeImpl

/-- The counters after the loop of `pool_trim` has seen some slots. -/
theorem foldl_trimSlot_counts (slots : List (PoolKey × PoolSlot)) (s : RuntimeImpl × Os) :
    (slots.foldl trimSlot s).1.pool.objectCount = s.1.pool.objectCount - slots.length ∧
      (slots.foldl trimSlot s).1.pool.idleBytes.toNat
        = s.1.pool.idleBytes.toNat - Pool.slotBytes slots := by
  induction slots generalizing s with
  | nil => exact ⟨rfl, rfl⟩
  | cons e slots ih =>
      obtain ⟨hcount, hbytes⟩ := ih (trimSlot s e)
      have hslot : (trimSlot s e).1.pool.idleBytes.toNat
          = s.1.pool.idleBytes.toNat - e.2.backing.committed.toNat := toNat_satSub _ _
      rw [List.foldl_cons, hcount, hbytes, hslot, Pool.slotBytes_cons, List.length_cons,
        Nat.sub_sub]
      refine ⟨?_, rfl⟩
      show s.1.pool.objectCount - 1 - slots.length = _
      omega

/-- `pool_trim` of exact counters: every subtraction has enough to subtract from. -/
theorem trim_covered {rt : RuntimeImpl} (h : rt.pool.Exact) (os : Os)
    {before after : List (PoolKey × PoolSlot)} {e : PoolKey × PoolSlot}
    (hall : rt.pool.all = before ++ e :: after) :
    0 < (before.foldl trimSlot (rt, os)).1.pool.objectCount ∧
      e.2.backing.committed ≤ (before.foldl trimSlot (rt, os)).1.pool.idleBytes := by
  obtain ⟨hcount, hbytes⟩ := foldl_trimSlot_counts before (rt, os)
  have hsum : Pool.slotBytes rt.pool.all = Pool.slotBytes before
      + (e.2.backing.committed.toNat + Pool.slotBytes after) := by
    rw [hall, Pool.slotBytes, List.map_append, List.sum_append]
    rfl
  have hlength : rt.pool.all.length = before.length + (after.length + 1) := by
    rw [hall, List.length_append, List.length_cons]
  rw [UInt64.le_iff_toNat_le, hcount, hbytes]
  simp only [h.count, h.bytes, hsum, hlength]
  omega

/-- `pool_trim` empties every deque and zeroes both counters. -/
theorem poolTrim_empty {rt : RuntimeImpl} (h : rt.pool.Exact) (os : Os) :
    (∀ key, (rt.poolTrim os).1.pool.bucket key = []) ∧ (rt.poolTrim os).1.pool.objectCount = 0 ∧
      (rt.poolTrim os).1.pool.idleBytes = 0 := by
  obtain ⟨hcount, hbytes⟩ := foldl_trimSlot_counts rt.pool.all (rt, os)
  refine ⟨fun key => ?_, ?_, ?_⟩
  · have hall : (rt.poolTrim os).1.pool.all = [] := Pool.cleared_all _
    cases hb : (rt.poolTrim os).1.pool.slots.find? key with
    | none => rw [Pool.bucket, hb, Option.getD_none]
    | some dq =>
        -- a slot of the deque would be one of the pool
        have hmem := ((rt.poolTrim os).1.pool.slots.mem_entries_iff key dq).mpr hb
        rw [Pool.bucket, hb, Option.getD_some]
        have hdq := List.flatMap_eq_nil_iff.mp hall _ hmem
        exact List.map_eq_nil_iff.mp hdq
  · show ((rt.pool.all.foldl trimSlot (rt, os)).1.pool).objectCount = 0
    rw [hcount, h.count, Nat.sub_self]
  · rw [← toNat_eq_zero_iff]
    show ((rt.pool.all.foldl trimSlot (rt, os)).1.pool).idleBytes.toNat = 0
    rw [hbytes, h.bytes, Nat.sub_self]

theorem poolTrim_exact {rt : RuntimeImpl} (h : rt.pool.Exact) (os : Os) :
    (rt.poolTrim os).1.pool.Exact := by
  obtain ⟨-, hcount, hbytes⟩ := poolTrim_empty h os
  have hall : (rt.poolTrim os).1.pool.all = [] := Pool.cleared_all _
  exact ⟨by rw [hcount, hall]; rfl, by rw [hbytes, hall]; rfl⟩

end RuntimeImpl

/-! ## The pool and the buffers that may return to it -/

/-- The bytes that the block may still bring into the pool. -/
def Control.recyclable (ctl : Control) : Nat :=
  if ctl.finalized = false ∧ ctl.record.poolEligible ∧ ctl.record.flags.pooled then
    ctl.record.backing.committed.toNat
  else 0

namespace Core

/-- The bytes in the pool and in the buffers that may still return to it: memory that the backends
have handed out and not got back. -/
def recyclable (c : Core) : Nat :=
  (c.ctls.map Control.recyclable).sum + Pool.slotBytes c.rt.pool.all

/-- The counters of the pool are exact, the limits hold, and what may come back fits. -/
structure Pooling (c : Core) : Prop where
  exact : c.rt.pool.Exact
  objects : c.rt.pool.objectCount ≤ c.rt.cfg.pool.maxObjects.toNat
  idle : c.rt.pool.idleBytes ≤ c.rt.cfg.pool.maxIdleBytes
  fits : c.recyclable < 2 ^ 64

namespace Pooling

variable {c c' : Core}

/-- Nothing new may come back, and the pool is the same. -/
theorem same (h : c.Pooling) (hpool : c'.rt.pool = c.rt.pool) (hcfg : c'.rt.cfg = c.rt.cfg)
    (hfits : c'.recyclable < 2 ^ 64) : c'.Pooling :=
  ⟨hpool ▸ h.exact, hpool ▸ hcfg ▸ h.objects, hpool ▸ hcfg ▸ h.idle, hfits⟩

/-- Neither the pool nor the buffers have changed. -/
theorem frame (h : c.Pooling) (hpool : c'.rt.pool = c.rt.pool) (hcfg : c'.rt.cfg = c.rt.cfg)
    (hctls : c'.ctls = c.ctls) : c'.Pooling := by
  refine h.same hpool hcfg ?_
  unfold recyclable
  rw [hctls, hpool]
  exact h.fits

end Pooling

theorem recyclable_modify (c : Core) (k : CtlId) {f : Control → Control}
    (hf : ∀ ctl : Control, ctl.SameBuffer (f ctl)) : (c.modify k f).recyclable = c.recyclable := by
  have hsame : (c.modify k f).ctls.map Control.recyclable = c.ctls.map Control.recyclable :=
    map_modify_same _ _ (fun ctl => by
      unfold Control.recyclable
      rw [(hf ctl).finalized, (hf ctl).record]) k _
  unfold recyclable
  rw [hsame]
  rfl

theorem recyclable_register (c : Core) (r : Record) :
    (c.register r).2.recyclable
      = c.recyclable + Control.recyclable { record := r, poolEligible := r.poolEligible } := by
  have hctls : (c.register r).2.ctls = c.ctls ++ [{ record := r, poolEligible := r.poolEligible }] :=
    rfl
  unfold recyclable
  rw [hctls, List.map_append, List.sum_append]
  simp only [List.map_cons, List.map_nil, List.sum_cons, List.sum_nil]
  show _ + _ + Pool.slotBytes c.rt.pool.all = _
  omega

/-- A block was written. -/
theorem recyclable_set {c c' : Core} {k : CtlId} {ctl : Control}
    (h : c'.ctls = c.ctls.set k ctl) (hk : k < c.ctls.length) :
    c'.recyclable + (c.control k).recyclable + Pool.slotBytes c.rt.pool.all
      = c.recyclable + ctl.recyclable + Pool.slotBytes c'.rt.pool.all := by
  have hset := sum_map_set Control.recyclable (c.control_get hk) ctl
  unfold recyclable
  rw [h]
  omega

/-- The block becomes one that may bring nothing into the pool. -/
theorem recyclable_retire {c c' : Core} {k : CtlId} {ctl : Control}
    (h : c'.ctls = c.ctls.set k ctl) (hk : k < c.ctls.length) (hpool : c'.rt.pool = c.rt.pool)
    (hctl : ctl.recyclable = 0) : c'.recyclable ≤ c.recyclable := by
  have hset := recyclable_set h hk
  rw [hpool, hctl] at hset
  omega

namespace Pooling

variable {c : Core}

/-- A slot leaves the pool. -/
theorem taken (h : c.Pooling) {c' : Core} {key : PoolKey} {minCommitted : UInt64} {slot : PoolSlot}
    {p : Pool} (ht : c.rt.pool.take key minCommitted = some (slot, p)) (hpool : c'.rt.pool = p)
    (hcfg : c'.rt.cfg = c.rt.cfg) (hfits : c'.recyclable < 2 ^ 64) : c'.Pooling := by
  subst hpool
  have htakes := Pool.takes_of_take ht
  refine ⟨h.exact.take ht, ?_, ?_, hfits⟩
  · have hold := h.objects
    rw [htakes.count, hcfg]
    omega
  · have hold := UInt64.le_iff_toNat_le.mp h.idle
    rw [htakes.bytes, hcfg, UInt64.le_iff_toNat_le, toNat_satSub]
    omega

/-- A backing enters the pool: what the pool gains, its buffer loses. -/
theorem put (h : c.Pooling) {c' : Core} {k : CtlId} {ctl : Control} {key : PoolKey}
    {slot : PoolSlot} (hctls : c'.ctls = c.ctls.set k ctl) (hk : k < c.ctls.length)
    (hpool : c'.rt.pool = c.rt.pool.push key slot) (hcfg : c'.rt.cfg = c.rt.cfg)
    (hbytes : (c.control k).recyclable = slot.backing.committed.toNat) (hctl : ctl.recyclable = 0)
    (hroom : c.rt.poolFull slot.backing.committed = false) : c'.Pooling := by
  have hset := recyclable_set hctls hk
  have hpush : Pool.slotBytes c'.rt.pool.all
      = slot.backing.committed.toNat + Pool.slotBytes c.rt.pool.all := by
    rw [hpool]
    exact Pool.slotBytes_perm (c.rt.pool.push_perm key slot)
  have hfits := h.fits
  -- the block is one of those that are added up
  have hle : (c.control k).recyclable ≤ (c.ctls.map Control.recyclable).sum :=
    List.single_le_sum (fun _ _ => Nat.zero_le _) _
      (List.mem_map_of_mem (List.mem_of_getElem? (c.control_get hk)))
  have hsum : c.recyclable = (c.ctls.map Control.recyclable).sum
      + Pool.slotBytes c.rt.pool.all := rfl
  simp only [RuntimeImpl.poolFull, ge_iff_le, gt_iff_lt, decide_eq_false_iff_not, not_or,
    Nat.not_le, UInt64.not_lt] at hroom
  refine ⟨?_, ?_, ?_, ?_⟩
  · rw [hpool]
    exact h.exact.push key slot (by omega)
  · rw [hpool, hcfg]
    exact hroom.1
  · rw [hpool, hcfg]
    exact hroom.2
  · omega

theorem allocate (h : c.Pooling) (env : Env) (req : AllocationRequest)
    (hfits : (c.allocate env req).2.recyclable < 2 ^ 64) : (c.allocate env req).2.Pooling := by
  have hrun := c.rt.allocateRecord_run c.os env req
  have hoffer : ∀ {alignment classSize : UInt64} {q : PoolSlot × Pool},
      c.rt.poolOffer req alignment classSize = some q →
      ∃ key, c.rt.pool.take key classSize = some q := by
    intro alignment classSize q hq
    unfold RuntimeImpl.poolOffer at hq
    split at hq
    · exact ⟨_, hq⟩
    · cases hq
  unfold Core.allocate at hfits ⊢
  generalize c.rt.allocateRecord c.os env req = out at hrun hfits ⊢
  cases hrun with
  | refused _ _ state | backendFailed _ _ _ _ state | commitFailed _ _ _ _ _ state
  | freshZeroFailed _ _ _ _ _ _ state | fresh _ _ _ _ _ state =>
      exact h.same state.pool state.cfg hfits
  | pooledZeroFailed _ offer _ state | pooled _ offer _ state =>
      obtain ⟨key, ht⟩ := hoffer offer
      exact h.taken ht state.pool state.cfg hfits

/-- A buffer from outside never goes to the pool. -/
theorem brought (h : c.Pooling) {P : Record → Prop} (hP : ∀ r, P r → r.flags.pooled = false)
    {out : Except Error CtlId × Core} (hb : c.Brings P out) : out.2.Pooling := by
  cases hb with
  | failed booked | known booked => exact h.frame booked.pool booked.cfg booked.ctls
  | fresh booked made =>
      have hbefore := h.frame booked.pool booked.cfg booked.ctls
      refine hbefore.same rfl rfl ?_
      rw [recyclable_register]
      simp only [Control.recyclable, hP _ made, Bool.false_eq_true, and_false, if_false]
      exact hbefore.fits

/-- A migrated buffer does not come back. -/
theorem migrate (h : c.Pooling) (env : Env) {k : CtlId} (hk : k < c.ctls.length)
    (target : MemoryDomain) : (c.migrate env k target).2.Pooling := by
  have hrun := c.rt.migrate_run c.os env (c.control k) target
  unfold Core.migrate
  generalize c.rt.migrate c.os env (c.control k) target = out at hrun ⊢
  have hkept : ∀ (rt : RuntimeImpl) (os : Os), rt.pool = c.rt.pool → rt.cfg = c.rt.cfg →
      Pooling { rt := rt, os := os, ctls := c.ctls.set k (c.control k) } := by
    intro rt os hpool hcfg
    refine h.same hpool hcfg ?_
    rw [c.set_control k, recyclable]
    simp only [hpool]
    exact h.fits
  cases hrun with
  | refused _ state | backendFailed _ _ state | copyFailed _ _ _ state | commitFailed _ _ _ _ state
  | verifyFailed _ _ _ _ _ state => exact hkept _ _ state.pool state.cfg
  | stays => exact hkept _ _ rfl rfl
  | swapped _ _ _ _ _ state =>
      refine h.same state.pool state.cfg (Nat.lt_of_le_of_lt ?_ h.fits)
      exact recyclable_retire rfl hk state.pool (if_neg fun hctl => Bool.noConfusion hctl.2.1)

/-- A finalization moves bytes from the buffer to the pool, or gives them back. -/
theorem finalize (h : c.Pooling) (env : Env) {k : CtlId} (hk : k < c.ctls.length)
    (halive : (c.control k).finalized = false) : (c.finalize env k true).Pooling := by
  have hrun := c.rt.finalize_run c.os env (c.control k) true
  unfold Core.finalize
  generalize c.rt.finalize c.os env (c.control k) true = out at hrun ⊢
  have hfinal : ∀ backing ownership,
      (RuntimeImpl.finalControl (c.control k) backing ownership).recyclable = 0 :=
    fun _ _ => if_neg fun hctl => Bool.noConfusion hctl.1
  cases hrun with
  | again done =>
      rw [halive] at done
      cases done
  | kept _ _ state | evicted _ _ _ _ _ state | freed _ _ _ _ state =>
      refine h.same state.pool state.cfg (Nat.lt_of_le_of_lt ?_ h.fits)
      exact recyclable_retire rfl hk state.pool (hfinal _ _)
  | pooled _ _ _ eligible room state =>
      simp only [RuntimeImpl.returnsToPool, Bool.and_eq_true, Bool.true_and] at eligible
      have hbytes : (c.control k).recyclable = (c.control k).record.backing.committed.toNat :=
        if_pos ⟨halive, eligible.1.1.1, eligible.1.1.2⟩
      exact h.put rfl hk state.pool state.cfg hbytes (hfinal _ _) room

theorem poolTrim (h : c.Pooling) : c.poolTrim.Pooling := by
  have hrt : c.poolTrim.rt = (c.rt.poolTrim c.os).1 := rfl
  have hcfg : c.poolTrim.rt.cfg = c.rt.cfg := by rw [hrt, c.rt.poolTrim_frame]
  obtain ⟨-, hcount, hbytes⟩ := RuntimeImpl.poolTrim_empty h.exact c.os
  refine ⟨RuntimeImpl.poolTrim_exact h.exact c.os, ?_, ?_, ?_⟩
  · rw [hrt, hcount]
    exact Nat.zero_le _
  · rw [hrt, hbytes]
    exact UInt64.zero_le
  · have hfits := h.fits
    have hctls : c.poolTrim.ctls = c.ctls := rfl
    unfold recyclable at hfits ⊢
    rw [c.poolTrim_all, hctls, Pool.slotBytes_nil]
    omega

end Pooling

end Core

namespace World

theorem recyclable_giveHandle (w : World) (p : Except Error CtlId × Core) :
    (w.giveHandle p).2.core.recyclable = p.2.recyclable := by
  obtain ⟨res, c⟩ := p
  cases res with
  | error e => rfl
  | ok k => exact c.recyclable_modify k fun _ => ⟨rfl, rfl⟩

/-- What may come back to the pool after the operation fits into 64 bits. -/
def Fits (w : World) (op : Op) : Prop := (w.next op).core.recyclable < 2 ^ 64

theorem fits_allocate {w : World} {env : Env} {req : AllocationRequest}
    (h : w.Fits (.allocate env req)) : (w.core.allocate env req).2.recyclable < 2 ^ 64 := by
  have hnext : w.next (.allocate env req) = (w.allocate env req).2 := rfl
  rw [Fits, hnext, allocate] at h
  by_cases hclosed : w.core.rt.closed = true
  · rw [if_pos hclosed] at h
    unfold Core.allocate RuntimeImpl.allocateRecord
    rw [if_pos hclosed]
    exact h
  · rw [if_neg hclosed, recyclable_giveHandle] at h
    exact h

theorem pooling_effects {w : World} {base : List BufferId} (hinv : w.RefInv base) {op : Op}
    (h : w.core.Pooling) (hop : w.Fits op) : w.Effects op Core.Pooling where
  noted hb hc := hc.frame hb.pool hb.cfg hb.ctls
  adjusted k f hf hc := hc.same rfl rfl (by rw [Core.recyclable_modify _ k hf]; exact hc.fits)
  allocate env req hreq := by
    subst hreq
    exact h.allocate env req (fits_allocate hop)
  wrapExternal desc _ := by
    refine h.brought (fun r hr => ?_) (w.core.wrapExternal_brings desc)
    obtain ⟨-, -, dom, id, rfl⟩ := hr
    rfl
  importBuffer env desc ns label _ := by
    refine h.brought (fun r hr => ?_) (w.core.importDescriptor_brings env desc ns label)
    obtain ⟨-, id, a, -, -, rfl⟩ := hr
    rfl
  migrate env i target k _ hk := h.migrate env (hinv.alive (handle_alive hinv hk).1).1 target
  copyTo env i dst dstOffset len _ := by
    have hidle := copyTo_idle (w.handle i) w.core env dst dstOffset len
    exact h.frame hidle.quiet.pool hidle.quiet.cfg hidle.ctls
  copyFrom env i src srcOffset len _ := by
    have hidle := copyFrom_idle (w.handle i) w.core env src srcOffset len
    exact h.frame hidle.quiet.pool hidle.quiet.cfg hidle.ctls
  finalize env k _ _ _ hk halive hc := hc.finalize env hk halive
  poolTrim _ := h.poolTrim
  shutdown env _ _ := by
    have hclosed : Core.Pooling { w.core with rt := { w.core.rt with closed := true } } :=
      h.same rfl rfl h.fits
    exact hclosed.poolTrim.same rfl rfl hclosed.poolTrim.fits
  createNamespace nsc _ := h.same rfl rfl h.fits

theorem pooling_reach {cfg : RuntimeConfig} {plat : RuntimeImpl.Platform} {w : World}
    (hreach : Reach World.next World.Fits (World.init cfg plat) w) : w.core.Pooling := by
  refine hreach.invariant_of (I := fun w => w.core.Pooling) (K := fun w => w.RefInv [])
    (fun _ h => refInv_reach h) ?_ ?_
  · refine ⟨⟨rfl, rfl⟩, Nat.zero_le _, UInt64.zero_le, ?_⟩
    show (0 : Nat) < 2 ^ 64
    exact Nat.two_pow_pos 64
  · intro w op hinv h hop
    exact (pooling_effects hinv h hop).next hinv h

/-- The pool of a program is what its functions take it for. -/
structure PoolSound (w : World) : Prop where
  count : w.core.rt.pool.objectCount = w.core.rt.pool.all.length
  objects : w.core.rt.pool.objectCount ≤ w.core.rt.cfg.pool.maxObjects.toNat
  bytes : w.core.rt.pool.idleBytes.toNat = Pool.slotBytes w.core.rt.pool.all
  idle : w.core.rt.pool.idleBytes ≤ w.core.rt.cfg.pool.maxIdleBytes
  /-- `pool_take` finds a slot whenever there is one -/
  found : ∀ key minCommitted, (w.core.rt.pool.take key minCommitted).isSome ↔
    ∃ s ∈ w.core.rt.pool.bucket key, minCommitted ≤ s.backing.committed
  /-- it removes the first such slot, and neither of its subtractions clamps -/
  takes : ∀ key minCommitted slot p, w.core.rt.pool.take key minCommitted = some (slot, p) →
    w.core.rt.pool.Takes key minCommitted slot p ∧ 0 < w.core.rt.pool.objectCount ∧
      slot.backing.committed ≤ w.core.rt.pool.idleBytes
  /-- a rejected `pool_put` leaves the pool alone; it frees the backing if the backend is there -/
  rejected : ∀ os key slot rt' os', w.core.rt.poolPut os key slot = (false, rt', os') →
    rt'.pool = w.core.rt.pool ∧
      (os'.calls = .freed key.domain slot.backing :: os.calls ↔
        (w.core.rt.domain key.domain).isSome)
  /-- `pool_trim` empties the pool, whether `shutdown` calls it or the program -/
  trimmed : ∀ (rt : RuntimeImpl) (os : Os), rt.pool = w.core.rt.pool →
    (∀ key, (rt.poolTrim os).1.pool.bucket key = []) ∧ (rt.poolTrim os).1.pool.objectCount = 0 ∧
      (rt.poolTrim os).1.pool.idleBytes = 0
  /-- and no subtraction of its loop clamps -/
  trims : ∀ (rt : RuntimeImpl) (os : Os), rt.pool = w.core.rt.pool →
    ∀ before e after, rt.pool.all = before ++ e :: after →
      0 < (before.foldl RuntimeImpl.trimSlot (rt, os)).1.pool.objectCount ∧
        e.2.backing.committed ≤ (before.foldl RuntimeImpl.trimSlot (rt, os)).1.pool.idleBytes

end World

theorem RuntimeImpl.poolPut_rejected {rt rt' : RuntimeImpl} {os os' : Os} {key : PoolKey}
    {slot : PoolSlot} (h : rt.poolPut os key slot = (false, rt', os')) :
    rt'.pool = rt.pool ∧
      (os'.calls = .freed key.domain slot.backing :: os.calls ↔ (rt.domain key.domain).isSome) := by
  rcases poolPut_cases h with ⟨-, -, hq, rfl⟩ | ⟨hkept, -⟩
  · refine ⟨hq.pool, ?_⟩
    unfold freeIn
    split
    · rename_i hdom
      simp [hdom]
    · rename_i hdom
      -- without a backend the log of calls has not grown
      have hlog : os.calls ≠ .freed key.domain slot.backing :: os.calls := fun hcons =>
        absurd (congrArg List.length hcons) (by simp)
      exact iff_of_false hlog hdom
  · cases hkept

/-- **The representation of the pool** in every run in which what may come back to the pool fits
into 64 bits: the counters are exact and within the limits, nothing clamps, and `pool_take`,
`pool_put` and `pool_trim` do to the deques what they should. A rejected backing is freed exactly if
the backend of its domain is still there, that is until the shutdown. -/
theorem pool_sound {cfg : RuntimeConfig} {plat : RuntimeImpl.Platform} {w : World}
    (hreach : Reach World.next World.Fits (World.init cfg plat) w) : w.PoolSound := by
  have hpool := World.pooling_reach hreach
  refine ⟨hpool.exact.count, hpool.objects, hpool.exact.bytes, hpool.idle,
    fun key minCommitted => Pool.take_isSome, fun key minCommitted slot p ht => ?_,
    fun os key slot rt' os' hput => RuntimeImpl.poolPut_rejected hput, fun rt os hrt => ?_,
    fun rt os hrt before e after hall => ?_⟩
  · exact ⟨Pool.takes_of_take ht, hpool.exact.take_covered ht⟩
  · exact RuntimeImpl.poolTrim_empty (hrt ▸ hpool.exact) os
  · exact RuntimeImpl.trim_covered (hrt ▸ hpool.exact) os hall

def oneSlot : RuntimeConfig := { pool := { maxObjects := 1 } }

/-- Two buffers, of which one goes to the pool and the other is evicted. -/
def halfPooled : World :=
  runs World.next (World.init oneSlot {})
    [.allocate (.findsAt 4096) { size := 4096 }, .allocate (.findsAt 8192) { size := 8192 },
      .release {} 1, .release {} 0]

/-- The theorem at work: one slot is left, with the bytes of the larger buffer. -/
theorem pool_sound_halfPooled :
    halfPooled.core.rt.pool.all.length = 1 ∧ halfPooled.PoolSound := by
  have hreach : Reach World.next World.Fits (World.init oneSlot {}) halfPooled := by
    have hle : ∀ {n : Nat}, n ≤ 16384 → n < 2 ^ 64 := fun h => Nat.lt_of_le_of_lt h (by norm_num)
    exact reach_runs .start ⟨hle (by decide), hle (by decide), hle (by decide), hle (by decide),
      trivial⟩
  have hsound := pool_sound hreach
  exact ⟨hsound.count.symm.trans (by decide), hsound⟩

def noSlot : RuntimeConfig := { pool := { maxObjects := 0 } }

/-- The program shuts the runtime down while it holds a buffer. -/
def closedWithBuffer : World :=
  runs World.next (World.init noSlot {})
    [.allocate (.findsAt 4096) { size := 4096 }, .shutdown {}]

/-- Its release offers the backing to the pool, is turned down, and frees nothing. -/
theorem rejected_not_freed :
    Reach World.next World.Fits (World.init noSlot {}) closedWithBuffer ∧
      (∃ key slot, closedWithBuffer.core.rt.makePoolKey (closedWithBuffer.core.control 0).record
          = key ∧ (closedWithBuffer.core.control 0).record.backing = slot.backing ∧
        (closedWithBuffer.core.rt.poolPut closedWithBuffer.core.os key slot).1 = false ∧
        (closedWithBuffer.core.rt.poolPut closedWithBuffer.core.os key slot).2.2.calls
          = closedWithBuffer.core.os.calls) ∧
      (closedWithBuffer.next (.release {} 0)).core.os.calls = closedWithBuffer.core.os.calls := by
  have hle : ∀ {n : Nat}, n ≤ 16384 → n < 2 ^ 64 := fun h => Nat.lt_of_le_of_lt h (by norm_num)
  refine ⟨reach_runs .start ⟨hle (by decide), hle (by decide), trivial⟩, ?_, by decide⟩
  exact ⟨_, ⟨_, {}, 1⟩, rfl, rfl, by decide, by decide⟩

end UnifiedBuffer
