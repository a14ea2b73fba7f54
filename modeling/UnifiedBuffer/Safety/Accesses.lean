import UnifiedBuffer.Safety.Effects

set_option autoImplicit false

/-! # The memory that an operation touches

`World.accesses` lists the ranges of backings that a public operation reads or writes: the range a
view exposes, the transfers of `copy_to`, `copy_from` and a migration, the zeroing of an allocation
or a release, and what `verify` and `checksum` look at.

The list is complete for writes (`World.next_bytes`): a byte of memory that lies in no written range
and not in the target of a `copy_to` is the same after the operation. It is complete for reads too
(`World.step_twin`, `World.step_verifying`). -/

namespace UnifiedBuffer

open Lib

/-- A range of a backing that is read or written: `len` bytes from `offset` on. -/
structure Access where
  write : Bool
  space : Space
  backing : NativeAllocation
  offset : Nat
  len : Nat

/-- The range lies within the backing. -/
def Access.InBounds (x : Access) : Prop := x.offset + x.len ≤ x.backing.committed.toNat

/-- The range has the byte at this address, and is written. -/
def Access.Writes (x : Access) (s : Space) (a : Nat) : Prop :=
  x.write = true ∧ s = x.space ∧ x.backing.base + x.offset ≤ a ∧
    a < x.backing.base + x.offset + x.len

namespace RuntimeImpl

/-- The zeroing of a backing that is handed out. -/
def zeroAccesses (rt : RuntimeImpl) (req : AllocationRequest) (a : NativeAllocation)
    (lastOwner : Option NamespaceId) : List Access :=
  if wantZero (rt.effectiveZeroing req) lastOwner req.ns then
    [⟨true, req.domain.space, a, 0, a.committed.toNat⟩]
  else []

/-- `allocate_record`: the zeroing of a slot or of a fresh and committed backing. -/
def allocateAccesses (rt : RuntimeImpl) (os : Os) (env : Env) (req : AllocationRequest) :
    List Access :=
  match rt.admits req with
  | none => []
  | some (alignment, classSize, l) =>
      match rt.poolOffer req alignment classSize with
      | some (slot, _) => rt.zeroAccesses req slot.backing (some slot.lastOwner)
      | none =>
          match env.allocate req.domain classSize alignment with
          | .error _ => []
          | .ok a =>
              match l.commitAmount req.ns req.domain a.committed with
              | .error _ => []
              | .ok _ => rt.zeroAccesses req (os.stamp a) none

/-- `finalize`: the zeroing before the backing goes to the pool. -/
def finalizeAccesses (rt : RuntimeImpl) (r : Record) : List Access :=
  if r.backing.present = true ∧ r.ownership ≠ .borrowed ∧ rt.returnsToPool r true = true then
    match rt.namespaceInfo r.ns with
    | none => []
    | some nsc =>
        if (nsc.zeroing = .onRelease ∨ nsc.zeroing = .always) ∧ (rt.domain r.domain).isSome then
          [⟨true, r.domain.space, r.backing, 0, r.committed.toNat⟩]
        else []
  else []

/-- `migrate`: the copy, and the verification of what was copied. -/
def migrateAccesses (rt : RuntimeImpl) (os : Os) (env : Env) (ctl : Control)
    (target : MemoryDomain) : List Access :=
  match rt.migrateAdmit ctl target with
  | none => []
  | some (_, l) =>
      match env.allocate target (migrateSize ctl.record) ctl.record.alignment with
      | .error _ => []
      | .ok a =>
          let len := (min ctl.record.committed a.committed).toNat
          [⟨false, ctl.record.domain.space, ctl.record.backing, 0, len⟩,
            ⟨true, target.space, os.stamp a, 0, len⟩] ++
          if (migrateCopy os env ctl target a).1.isOk ∧
              a.committed ≤ l.reserved.get ctl.record.ns target then
            [⟨false, target.space, os.stamp a, 0, a.committed.toNat⟩]
          else []

end RuntimeImpl

namespace BufferHandle

variable (h : BufferHandle) (c : Core)

/-- The range that the view which is handed out exposes. -/
def viewAccesses (offset len : UInt64) (access : AccessMode) : List Access :=
  match (h.view c offset len access).1, h.ctl with
  | .ok v, some k =>
      let r := (c.control k).record
      [⟨false, r.domain.space, r.backing, v.off.toNat, v.len.toNat⟩]
  | _, _ => []

def verifyAccesses : List Access :=
  match h.validateAlive c with
  | .error _ => []
  | .ok k =>
      let r := (c.control k).record
      if (c.rt.domain r.domain).isSome ∧ r.state ≠ .released then
        [⟨false, r.domain.space, r.backing, 0, r.committed.toNat⟩]
      else []

def checksumAccesses : List Access :=
  match h.validateAlive c with
  | .error _ => []
  | .ok k =>
      let r := (c.control k).record
      if r.domain ≠ .device ∧ r.backing.base ≠ 0 then
        [⟨false, .host, r.backing, 0, r.size.toNat⟩]
      else []

/-- `copy_to` reads from the start of the backing; the offset is one of the target. -/
def copyToAccesses (dst : Nat) (dstOffset len : UInt64) : List Access :=
  match h.ensureValid c .read with
  | .error _ => []
  | .ok k =>
      let r := (c.control k).record
      if dst = 0 ∨ dstOffset > r.size ∨ len > r.size - dstOffset ∨ ¬ rangeInBounds 0 len r.committed
      then []
      else [⟨false, r.domain.space, r.backing, 0, len.toNat⟩]

/-- `copy_from` writes to the start of the backing; the offset is one of the source. -/
def copyFromAccesses (src : Nat) (len : UInt64) : List Access :=
  match h.ensureValid c .write with
  | .error _ => []
  | .ok k =>
      let r := (c.control k).record
      if src = 0 ∨ len > r.size ∨ ¬ rangeInBounds 0 len r.committed then []
      else [⟨true, r.domain.space, r.backing, 0, len.toNat⟩]

end BufferHandle

/-- The accesses of an operation that gives up a reference to this buffer, if to any. -/
def World.releasedAccesses (w : World) : Option CtlId → List Access
  | none => []
  | some k =>
      if (w.core.control k).refs = 1 then w.core.rt.finalizeAccesses (w.core.control k).record
      else []

/-- The ranges of backings that an operation reads or writes. -/
def World.accesses (w : World) : Op → List Access
  | .allocate env req => w.core.rt.allocateAccesses w.core.os env req
  | .migrate env i target =>
      match (w.handle i).validateAlive w.core with
      | .error _ => []
      | .ok k => w.core.rt.migrateAccesses w.core.os env (w.core.control k) target
  | .view i offset len access => (w.handle i).viewAccesses w.core offset len access
  | .verify _ i => (w.handle i).verifyAccesses w.core
  | .checksum i => (w.handle i).checksumAccesses w.core
  | .copyTo _ i dst dstOffset len => (w.handle i).copyToAccesses w.core dst dstOffset len
  | .copyFrom _ i src _ len => (w.handle i).copyFromAccesses w.core src len
  | op => w.releasedAccesses (w.released op)

theorem World.mem_releasedAccesses {w : World} {released : Option CtlId} {x : Access}
    (h : x ∈ w.releasedAccesses released) : ∃ k, released = some k ∧
      (w.core.control k).refs = 1 ∧ x ∈ w.core.rt.finalizeAccesses (w.core.control k).record := by
  unfold releasedAccesses at h
  split at h
  · cases h
  split at h
  · rename_i k hlast
    exact ⟨k, rfl, hlast, h⟩
  · cases h

/-- The byte is in the memory of the caller that a `copy_to` writes to. -/
def Op.Fills (op : Op) (s : Space) (a : Nat) : Prop :=
  match op with
  | .copyTo _ _ dst dstOffset len =>
      s = .host ∧ dst + dstOffset.toNat ≤ a ∧ a < dst + dstOffset.toNat + len.toNat
  | _ => False

/-! ## Writes -/

section Bytes

variable {s : Space} {a : Nat}

theorem zero_bytes {os : Os} {env : Env} {d : MemoryDomain} {x : NativeAllocation} {len : UInt64}
    (h : ¬ Access.Writes ⟨true, d.space, x, 0, len.toNat⟩ s a) :
    (os.zero env d x len).2.bytes s a = os.bytes s a := by
  have hout : ¬ (s = d.space ∧ x.base ≤ a ∧ a < x.base + len.toNat) := fun hin => h ⟨rfl, hin⟩
  unfold Os.zero
  split <;> exact Os.fill_bytes_outside _ _ _ _ _ _ _ hout

theorem zeroed_bytes {rt : RuntimeImpl} {os : Os} {env : Env} {req : AllocationRequest}
    {x : NativeAllocation} {lastOwner : Option NamespaceId}
    (h : ∀ y ∈ rt.zeroAccesses req x lastOwner, ¬ y.Writes s a) :
    (rt.zeroed os env req x lastOwner).bytes s a = os.bytes s a := by
  unfold RuntimeImpl.zeroAccesses at h
  unfold RuntimeImpl.zeroed
  split
  · rename_i hw
    rw [if_pos hw] at h
    exact zero_bytes (h _ (List.mem_singleton.mpr rfl))
  · rfl

theorem allocate_bytes {c : Core} {env : Env} {req : AllocationRequest}
    (h : ∀ y ∈ c.rt.allocateAccesses c.os env req, ¬ y.Writes s a) :
    (c.allocate env req).2.os.bytes s a = c.os.bytes s a := by
  have hrun := c.rt.allocateRecord_run c.os env req
  unfold RuntimeImpl.allocateAccesses at h
  unfold Core.allocate
  generalize c.rt.allocateRecord c.os env req = out at hrun ⊢
  cases hrun with
  | refused | backendFailed | commitFailed => rfl
  | freshZeroFailed admission offer backend commit | fresh admission offer backend commit =>
      simp only [admission, offer, backend, commit] at h
      exact zeroed_bytes h
  | pooledZeroFailed admission offer | pooled admission offer =>
      simp only [admission, offer] at h
      exact zeroed_bytes h

theorem migrateCopy_bytes {os : Os} {env : Env} {ctl : Control} {target : MemoryDomain}
    {x : NativeAllocation}
    (h : ¬ Access.Writes ⟨true, target.space, os.stamp x, 0,
      (min ctl.record.committed x.committed).toNat⟩ s a) :
    (RuntimeImpl.migrateCopy os env ctl target x).2.bytes s a = os.bytes s a := by
  refine Os.copyMemory_bytes_outside (fun hin => h ⟨rfl, ?_⟩)
  rw [MemoryDomain.space_eq]
  exact hin

theorem freeIn_bytes (rt : RuntimeImpl) (os : Os) (d : MemoryDomain) (x : NativeAllocation) :
    (rt.freeIn os d x).bytes = os.bytes := by
  unfold RuntimeImpl.freeIn
  split <;> rfl

theorem migrate_bytes {c : Core} {env : Env} {k : CtlId} {target : MemoryDomain}
    (h : ∀ y ∈ c.rt.migrateAccesses c.os env (c.control k) target, ¬ y.Writes s a) :
    (c.migrate env k target).2.os.bytes s a = c.os.bytes s a := by
  have hrun := c.rt.migrate_run c.os env (c.control k) target
  -- an admitted migration with a new backing copies into it
  have hcopy : ∀ {tdom : IDomain} {l : Ledger} {x : NativeAllocation},
      c.rt.migrateAdmit (c.control k) target = some (tdom, l) →
      env.allocate target (RuntimeImpl.migrateSize (c.control k).record)
        (c.control k).record.alignment = .ok x →
      (RuntimeImpl.migrateCopy c.os env (c.control k) target x).2.bytes s a = c.os.bytes s a := by
    intro tdom l x admission backend
    refine migrateCopy_bytes (h _ ?_)
    unfold RuntimeImpl.migrateAccesses
    simp only [admission, backend]
    exact List.mem_append_left _ (List.mem_cons_of_mem _ List.mem_cons_self)
  unfold Core.migrate
  generalize c.rt.migrate c.os env (c.control k) target = out at hrun ⊢
  cases hrun with
  | refused | stays | backendFailed => rfl
  | copyFailed admission backend
  | commitFailed admission backend
  | verifyFailed admission backend => exact hcopy admission backend
  | swapped admission backend =>
      refine Eq.trans ?_ (hcopy admission backend)
      show Os.bytes (if _ then _ else _) s a = _
      split
      · rw [freeIn_bytes]
      · rfl

theorem zeroOnRelease_bytes {rt : RuntimeImpl} {os : Os} {env : Env} {r : Record}
    (hp : r.backing.present = true ∧ r.ownership ≠ .borrowed ∧ rt.returnsToPool r true = true)
    (h : ∀ y ∈ rt.finalizeAccesses r, ¬ y.Writes s a) :
    (rt.zeroOnRelease os env r).2.bytes s a = os.bytes s a := by
  unfold RuntimeImpl.finalizeAccesses at h
  rw [if_pos hp] at h
  unfold RuntimeImpl.zeroOnRelease
  split
  · rfl
  · rename_i nsc hns
    simp only [hns] at h
    split
    · rename_i hz
      rw [if_pos hz] at h
      exact zero_bytes (h _ (List.mem_singleton.mpr rfl))
    · rfl

theorem finalize_bytes {c : Core} {env : Env} {k : CtlId}
    (h : ∀ y ∈ c.rt.finalizeAccesses (c.control k).record, ¬ y.Writes s a) :
    (c.finalize env k true).os.bytes s a = c.os.bytes s a := by
  have hrun := c.rt.finalize_run c.os env (c.control k) true
  unfold Core.finalize
  generalize c.rt.finalize c.os env (c.control k) true = out at hrun ⊢
  cases hrun with
  | again | kept => rfl
  | pooled _ present owned eligible => exact zeroOnRelease_bytes ⟨present, owned, eligible⟩ h
  | evicted _ present owned eligible =>
      have hzero : (c.rt.zeroOnRelease c.os env (c.control k).record).2.bytes s a = c.os.bytes s a :=
        zeroOnRelease_bytes ⟨present, owned, eligible⟩ h
      refine Eq.trans ?_ hzero
      show Os.bytes (c.rt.freeIn _ _ _) s a = _
      rw [freeIn_bytes]
  | freed =>
      show Os.bytes (c.rt.freeIn _ _ _) s a = _
      rw [freeIn_bytes]

theorem transfer_bytes {c : Core} {env : Env} {dst src : Nat} {len : UInt64} {dstDev srcDev : Bool}
    (h : ¬ (s = (if dstDev then Space.device else Space.host) ∧ dst ≤ a ∧ a < dst + len.toNat)) :
    (BufferHandle.transfer c env dst src len dstDev srcDev).2.os.bytes s a = c.os.bytes s a := by
  have hcopy : (c.os.copyMemory env dst src len dstDev srcDev).2.bytes s a = c.os.bytes s a :=
    Os.copyMemory_bytes_outside h
  unfold BufferHandle.transfer
  generalize c.os.copyMemory env dst src len dstDev srcDev = out at hcopy ⊢
  obtain ⟨res, os⟩ := out
  cases res <;> exact hcopy

theorem copyTo_bytes {h : BufferHandle} {c : Core} {env : Env} {dst : Nat} {dstOffset len : UInt64}
    (hout : ¬ (s = .host ∧ dst + dstOffset.toNat ≤ a ∧ a < dst + dstOffset.toNat + len.toNat)) :
    (h.copyTo c env dst dstOffset len).2.os.bytes s a = c.os.bytes s a := by
  unfold BufferHandle.copyTo
  split
  · rfl
  simp only
  repeat' split
  all_goals first | rfl | exact transfer_bytes hout

theorem copyFrom_bytes {h : BufferHandle} {c : Core} {env : Env} {src : Nat}
    {srcOffset len : UInt64} (hout : ∀ y ∈ h.copyFromAccesses c src len, ¬ y.Writes s a) :
    (h.copyFrom c env src srcOffset len).2.os.bytes s a = c.os.bytes s a := by
  unfold BufferHandle.copyFromAccesses at hout
  unfold BufferHandle.copyFrom
  cases hk : h.ensureValid c .write with
  | error e => rfl
  | ok k =>
      simp only [hk] at hout ⊢
      split
      · rfl
      rename_i hsrc
      split
      · rfl
      rename_i hsize
      split
      · rfl
      rename_i hrange
      rw [if_neg (by tauto)] at hout
      refine transfer_bytes (fun hin => hout _ (List.mem_singleton.mpr rfl) ⟨rfl, ?_⟩)
      rw [MemoryDomain.space_eq]
      exact hin

theorem Core.Brings.bytes {c : Core} {P : Record → Prop} {p : Except Error CtlId × Core}
    (h : c.Brings P p) : p.2.os.bytes = c.os.bytes := by
  cases h with
  | failed booked => exact booked.bytes
  | known booked => exact booked.bytes
  | fresh booked => exact booked.bytes

theorem foldl_trimSlot_bytes (slots : List (PoolKey × PoolSlot)) (x : RuntimeImpl × Os) :
    (slots.foldl RuntimeImpl.trimSlot x).2.bytes = x.2.bytes := by
  induction slots generalizing x with
  | nil => rfl
  | cons e slots ih =>
      rw [List.foldl_cons, ih]
      exact freeIn_bytes _ _ _ _

theorem poolTrim_bytes (c : Core) : c.poolTrim.os.bytes = c.os.bytes :=
  foldl_trimSlot_bytes _ (c.rt, c.os)

end Bytes

/-! ## The frame of an operation -/

namespace World

variable {w : World} {op : Op} {base : List BufferId} {s : Space} {a : Nat}

/-- The byte is what it was, and so is the block that is released, until it is finalized. -/
structure Untouched (w : World) (op : Op) (s : Space) (a : Nat) (c : Core) : Prop where
  bytes : c.os.bytes s a = w.core.os.bytes s a
  block : ∀ k, w.released op = some k → (c.control k).finalized = false →
    c.rt.finalizeAccesses (c.control k).record
      = w.core.rt.finalizeAccesses (w.core.control k).record

theorem finalizeAccesses_congr {c c' : Core} {k : CtlId} (hcfg : c'.rt.cfg = c.rt.cfg)
    (hnss : c'.rt.nss = c.rt.nss) (hdomains : c'.rt.domains = c.rt.domains)
    (hsame : (c.control k).SameBuffer (c'.control k)) :
    c'.rt.finalizeAccesses (c'.control k).record = c.rt.finalizeAccesses (c.control k).record := by
  unfold RuntimeImpl.finalizeAccesses RuntimeImpl.returnsToPool RuntimeImpl.namespaceInfo
    RuntimeImpl.domain
  rw [hsame.record, hcfg, hnss, hdomains]

/-- The accesses of an operation that releases a reference. -/
theorem accesses_of_released {k : CtlId} (h : w.released op = some k) :
    w.accesses op = if (w.core.control k).refs = 1 then
      w.core.rt.finalizeAccesses (w.core.control k).record else [] := by
  cases op with
  | moveAssign | release | destroy =>
      unfold accesses releasedAccesses
      simp only [h]
  | _ => cases h

theorem untouched_of_bytes {c : Core} (hbytes : c.os.bytes s a = w.core.os.bytes s a)
    (hrel : w.released op = none) : w.Untouched op s a c :=
  ⟨hbytes, fun k hk => by rw [hrel] at hk; cases hk⟩

/-- A byte in no written range is kept by every step. -/
theorem untouched_effects (hwrites : ∀ y ∈ w.accesses op, ¬ y.Writes s a)
    (hfills : ¬ op.Fills s a) :
    w.Effects op (w.Untouched op s a) where
  noted hb h := by
    refine ⟨by rw [hb.bytes]; exact h.bytes, fun k hk hfin => ?_⟩
    have hcontrol := hb.control k
    rw [hcontrol] at hfin
    refine (finalizeAccesses_congr hb.cfg hb.nss hb.domains ?_).trans (h.block k hk hfin)
    rw [hcontrol]
    exact .refl _
  adjusted {c} k f hf h := by
    refine ⟨h.bytes, fun j hj hfin => ?_⟩
    have hsame := c.sameBuffer_modify k hf j
    rw [hsame.finalized] at hfin
    have hacc : (c.modify k f).rt.finalizeAccesses ((c.modify k f).control j).record
        = c.rt.finalizeAccesses (c.control j).record := finalizeAccesses_congr rfl rfl rfl hsame
    exact hacc.trans (h.block j hj hfin)
  allocate env req hop := by
    subst hop
    exact untouched_of_bytes (allocate_bytes hwrites) rfl
  wrapExternal desc hop := by
    subst hop
    exact untouched_of_bytes (by rw [(w.core.wrapExternal_brings desc).bytes]) rfl
  importBuffer env desc ns label hop := by
    subst hop
    exact untouched_of_bytes
      (by rw [(w.core.importDescriptor_brings env desc ns label).bytes]) rfl
  migrate env i target k hop hk := by
    subst hop
    refine untouched_of_bytes (migrate_bytes fun y hy => hwrites y ?_) rfl
    simp only [World.accesses, hk]
    exact hy
  copyTo env i dst dstOffset len hop := by
    subst hop
    exact untouched_of_bytes (copyTo_bytes hfills) rfl
  copyFrom env i src srcOffset len hop := by
    subst hop
    exact untouched_of_bytes (copyFrom_bytes hwrites) rfl
  finalize env k henv hrel hrefs hk halive h := by
    refine ⟨(finalize_bytes fun y hy => hwrites y ?_).trans h.bytes, fun j hj hfin => ?_⟩
    · rw [h.block k hrel halive] at hy
      rw [accesses_of_released hrel, if_pos hrefs]
      exact hy
    · -- the released block is finalized now
      rw [hrel] at hj
      cases hj
      rw [Core.finalize_finalized env hk halive] at hfin
      cases hfin
  poolTrim hop := by
    subst hop
    exact untouched_of_bytes (by rw [poolTrim_bytes]) rfl
  shutdown env hop _ := by
    subst hop
    refine untouched_of_bytes ?_ rfl
    show (Core.poolTrim _).os.bytes s a = _
    rw [poolTrim_bytes]
  createNamespace nsc hop := by
    subst hop
    exact untouched_of_bytes rfl rfl

/-- **The frame of an operation.** A byte in no written range, and not in the target of a `copy_to`,
is the same after the operation. -/
theorem next_bytes (hinv : w.RefInv base) (hwrites : ∀ y ∈ w.accesses op, ¬ y.Writes s a)
    (hfills : ¬ op.Fills s a) : (w.next op).core.os.bytes s a = w.core.os.bytes s a :=
  ((untouched_effects hwrites hfills).next hinv ⟨rfl, fun _ _ _ => rfl⟩).bytes

end World

end UnifiedBuffer
