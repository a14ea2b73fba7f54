import UnifiedBuffer.Safety.Reads
import UnifiedBuffer.Inventory.Operations

set_option autoImplicit false

/-! # The geometry of records

A record has three sizes: `size` is what the caller asked for, `committed` is what the accounting
charges, and the backing has a `committed` of its own. They are set independently by an allocation,
a reuse from the pool, a wrap, an import and a migration. `Record.Sound` says how they are ordered;
it holds of every registered record (`World.geometric_reach`), and every range that an operation
reads or writes lies within its backing because of it (`World.accesses_inBounds`). -/

namespace UnifiedBuffer

open Lib

/-! ## Sound records -/

/-- The sizes of a record are in order, and the backing is one of the record's domain. -/
structure Record.Sound (r : Record) : Prop where
  size_pos : 0 < r.size
  size_le : r.size ≤ r.committed
  committed_le : r.committed ≤ r.backing.committed
  domain : r.domain = r.backing.domain
  /-- a buffer that may return to the pool is charged for all of its backing -/
  whole : r.poolEligible = true → r.committed = r.backing.committed

/-- Backends that return as much memory as they are asked for, of their own domain. -/
structure Env.Faithful (env : Env) : Prop where
  allocate : ∀ d bytes alignment a, env.allocate d bytes alignment = .ok a →
    bytes ≤ a.committed ∧ a.domain = d
  importHandle : ∀ d handle size alignment a, env.importHandle d handle size alignment = .ok a →
    a.domain = d

def Op.Faithful : Op → Prop
  | .allocate env _ => env.Faithful
  | .migrate env _ _ => env.Faithful
  | .importBuffer env _ _ _ => env.Faithful
  | _ => True

/-- The class size of an admitted request is at least the size that was asked for. -/
theorem RuntimeImpl.admits_size {rt : RuntimeImpl} {req : AllocationRequest}
    {alignment classSize : UInt64} {l : Ledger}
    (h : rt.admits req = some (alignment, classSize, l)) : 0 < req.size ∧ req.size ≤ classSize := by
  unfold admits at h
  split at h
  · cases h
  split at h
  · rename_i hvalid _
    split at h
    · cases h
      -- every test of `validate_request` before the rounding has been passed
      unfold validateRequest at hvalid
      split at hvalid
      · cases hvalid
      rename_i hzero
      split at hvalid
      · cases hvalid
      split at hvalid
      · cases hvalid
      simp only at hvalid
      split at hvalid
      · cases hvalid
      split at hvalid
      · cases hvalid
      split at hvalid
      · cases hvalid
      split at hvalid
      · cases hvalid
      · rename_i hup
        cases hvalid
        exact ⟨UInt64.pos_iff_ne_zero.mpr hzero, le_alignUp hup⟩
    · cases h
  · cases h

namespace Record.Sound

/-- The sizes do not depend on the state and the number of maps. -/
theorem sameBuffer {ctl ctl' : Control} (hsame : ctl.SameBuffer ctl') (h : ctl.record.Sound) :
    ctl'.record.Sound := by
  rw [hsame.record]
  exact ⟨h.size_pos, h.size_le, h.committed_le, h.domain, h.whole⟩

/-- A record of `allocate_record`, with a backing that is large enough. -/
theorem backed (rt : RuntimeImpl) (env : Env) {req : AllocationRequest}
    {alignment classSize : UInt64} {l : Ledger}
    (admission : rt.admits req = some (alignment, classSize, l)) {a : NativeAllocation}
    (hroom : classSize ≤ a.committed) (hdomain : a.domain = req.domain) (pooled : Bool) :
    (rt.backedRecord env req alignment a pooled).Sound := by
  obtain ⟨hpos, hle⟩ := RuntimeImpl.admits_size admission
  exact ⟨hpos, UInt64.le_trans hle hroom, UInt64.le_refl _, hdomain.symm, fun _ => rfl⟩

/-- A record of `wrap_external`. -/
theorem wraps {desc : ExternalMemoryDesc} {r : Record} (h : Core.Wraps desc r) : r.Sound := by
  obtain ⟨-, hsize, dom, id, rfl⟩ := h
  exact ⟨UInt64.pos_iff_ne_zero.mpr hsize, UInt64.le_refl _, UInt64.le_refl _, rfl, fun _ => rfl⟩

/-- A record of `import_descriptor`. -/
theorem opens {env : Env} {desc : ExportDescriptor} {ns : NamespaceId} {label : String} {os : Os}
    {r : Record} (henv : env.Faithful) (h : Core.Opens env desc ns label os r) : r.Sound := by
  obtain ⟨hsize, id, a, hopen, hroom, rfl⟩ := h
  have hdomain := henv.importHandle _ _ _ _ _ hopen
  exact ⟨UInt64.pos_iff_ne_zero.mpr hsize, UInt64.le_refl _, hroom, hdomain.symm,
    fun he => by cases he⟩

/-- A migration allocates at least the size of the buffer. -/
theorem size_le_migrateSize {r : Record} (h : r.Sound) : r.size ≤ RuntimeImpl.migrateSize r := by
  unfold RuntimeImpl.migrateSize
  split
  · exact h.size_le
  · exact UInt64.le_refl _

/-- A record that was bound to a new backing. -/
theorem rebind {r : Record} (h : r.Sound) (rt : RuntimeImpl) (tdom : IDomain)
    {target : MemoryDomain} {a : NativeAllocation} (hroom : RuntimeImpl.migrateSize r ≤ a.committed)
    (hdomain : a.domain = target) : (rt.rebind tdom target r a).Sound := by
  have hsize := UInt64.le_trans h.size_le_migrateSize hroom
  exact ⟨h.size_pos, hsize, UInt64.le_refl _, hdomain.symm, fun he => by cases he⟩

end Record.Sound

/-! ## The invariant -/

/-- The record of every buffer that is not finalized is sound, and the slots of the pool are filed
under their domain. -/
structure Core.Geometric (c : Core) : Prop where
  blocks : ∀ k, c.Alive k → (c.control k).record.Sound
  slots : ∀ e ∈ c.rt.pool.all, e.2.backing.domain = e.1.domain

namespace Core.Geometric

variable {c c' : Core}

theorem same (h : c.Geometric) (hctls : c'.ctls = c.ctls) (hpool : c'.rt.pool = c.rt.pool) :
    c'.Geometric := by
  refine ⟨fun k hk => ?_, by rw [hpool]; exact h.slots⟩
  rw [Core.control_congr hctls]
  exact h.blocks k ((Core.alive_congr hctls k).mp hk)

/-- A new buffer. -/
theorem register {c₁ : Core} {r : Record} (h : c.Geometric) (hctls : c₁.ctls = c.ctls)
    (hpool : ∀ e ∈ c₁.rt.pool.all, e ∈ c.rt.pool.all) (hr : r.Sound) :
    (c₁.register r).2.Geometric := by
  refine ⟨fun k hk => ?_, fun e he => h.slots e (hpool e he)⟩
  rw [Core.control_register]
  rcases Core.alive_register hk with rfl | hold
  · rw [if_pos rfl]
    exact hr
  · rw [if_neg (Nat.ne_of_lt hold.1)]
    rw [Core.control_congr hctls]
    exact h.blocks k ((Core.alive_congr hctls k).mp hold)

/-- A buffer that was written back, with the pool as it is now. -/
theorem set {k : CtlId} {ctl : Control} (h : c.Geometric) (hk : k < c.ctls.length)
    (hctls : c'.ctls = c.ctls.set k ctl) (hctl : ctl.finalized = false → ctl.record.Sound)
    (hslots : ∀ e ∈ c'.rt.pool.all, e.2.backing.domain = e.1.domain) : c'.Geometric := by
  refine ⟨fun j ⟨hj, hfin⟩ => ?_, hslots⟩
  rw [hctls, List.length_set] at hj
  rw [Core.control_of_set hctls hk j] at hfin ⊢
  by_cases hjk : j = k
  · rw [if_pos hjk] at hfin ⊢
    exact hctl hfin
  · rw [if_neg hjk] at hfin ⊢
    exact h.blocks j ⟨hj, hfin⟩

theorem brings {P : Record → Prop} {p : Except Error CtlId × Core} (h : c.Geometric)
    (hp : c.Brings P p) (hP : ∀ r, P r → r.Sound) : p.2.Geometric := by
  cases hp with
  | failed booked => exact h.same booked.ctls booked.pool
  | known booked => exact h.same booked.ctls booked.pool
  | fresh booked made =>
      refine h.register booked.ctls (fun e he => ?_) (hP _ made)
      rw [booked.pool] at he
      exact he

theorem allocate (h : c.Geometric) {env : Env} (henv : env.Faithful) (req : AllocationRequest) :
    (c.allocate env req).2.Geometric := by
  have hrun := c.rt.allocateRecord_run c.os env req
  unfold Core.allocate
  generalize c.rt.allocateRecord c.os env req = out at hrun ⊢
  cases hrun with
  | refused _ _ state => exact h.same rfl state.pool
  | backendFailed _ _ _ _ state => exact h.same rfl state.pool
  | commitFailed _ _ _ _ _ state => exact h.same rfl state.pool
  | freshZeroFailed _ _ _ _ _ _ state => exact h.same rfl state.pool
  | fresh admission _ backend _ _ state =>
      obtain ⟨hroom, hdomain⟩ := henv.allocate _ _ _ _ backend
      refine h.register rfl (fun e he => ?_)
        (.backed (a := c.os.stamp _) c.rt env admission hroom hdomain false)
      rw [state.pool] at he
      exact he
  | pooledZeroFailed _ offer _ state =>
      obtain ⟨key, -, hperm, -⟩ := RuntimeImpl.poolOffer_perm offer
      refine ⟨h.blocks, fun e he => h.slots e (hperm.mem_iff.mpr (List.mem_cons_of_mem _ ?_))⟩
      rw [state.pool] at he
      exact he
  | pooled admission offer _ state =>
      obtain ⟨key, hkey, hperm, hroom⟩ := RuntimeImpl.poolOffer_perm offer
      have hdomain := h.slots _ (hperm.mem_iff.mpr List.mem_cons_self)
      refine h.register rfl (fun e he => hperm.mem_iff.mpr (List.mem_cons_of_mem _ ?_))
        (.backed c.rt env admission hroom (hdomain.trans hkey) true)
      rw [state.pool] at he
      exact he

theorem migrate (h : c.Geometric) {env : Env} (henv : env.Faithful) {k : CtlId} (hk : c.Alive k)
    (target : MemoryDomain) :
    (c.migrate env k target).2.Geometric := by
  have hrun := c.rt.migrate_run c.os env (c.control k) target
  unfold Core.migrate
  generalize c.rt.migrate c.os env (c.control k) target = out at hrun ⊢
  have hsame : ∀ {rt : RuntimeImpl} {os : Os}, rt.pool = c.rt.pool →
      (⟨rt, os, c.ctls.set k (c.control k)⟩ : Core).Geometric :=
    fun hpool => h.same (c.set_control k) hpool
  cases hrun with
  | refused _ state => exact hsame state.pool
  | stays => exact hsame rfl
  | backendFailed _ _ state => exact hsame state.pool
  | copyFailed _ _ _ state => exact hsame state.pool
  | commitFailed _ _ _ _ state => exact hsame state.pool
  | verifyFailed _ _ _ _ _ state => exact hsame state.pool
  | swapped _ backend _ _ _ state =>
      obtain ⟨hroom, hdomain⟩ := henv.allocate _ _ _ _ backend
      refine h.set hk.1 rfl (fun _ => (h.blocks k hk).rebind c.rt _ hroom hdomain) ?_
      rw [state.pool]
      exact h.slots

theorem finalize (h : c.Geometric) (env : Env) {k : CtlId} (hk : c.Alive k) :
    (c.finalize env k true).Geometric := by
  have hfinal := Core.finalize_finalized env hk.1 hk.2
  have hset : (c.finalize env k true).ctls
      = c.ctls.set k (c.rt.finalize c.os env (c.control k) true).1 := rfl
  rw [Core.control_of_set hset hk.1 k, if_pos rfl] at hfinal
  refine h.set hk.1 hset (fun hf => by rw [hfinal] at hf; cases hf) ?_
  have hrun := c.rt.finalize_run c.os env (c.control k) true
  unfold Core.finalize
  generalize c.rt.finalize c.os env (c.control k) true = out at hrun ⊢
  cases hrun with
  | again done => exact h.slots
  | kept _ _ state => rw [state.pool]; exact h.slots
  | evicted _ _ _ _ _ state => rw [state.pool]; exact h.slots
  | freed _ _ _ _ state => rw [state.pool]; exact h.slots
  | pooled _ _ _ _ _ state =>
      intro e he
      rw [state.pool] at he
      rcases List.mem_cons.mp ((Pool.push_perm _ _ _).mem_iff.mp he) with rfl | hold
      · exact (h.blocks k hk).domain.symm
      · exact h.slots e hold

theorem poolTrim (h : c.Geometric) : c.poolTrim.Geometric :=
  ⟨h.blocks, fun e he => by
    rw [c.poolTrim_all] at he
    cases he⟩

end Core.Geometric

namespace World

variable {w : World} {op : Op} {base : List BufferId}

/-- Every step of an operation keeps the geometry. -/
theorem geometric_effects (hinv : w.RefInv base) (h : w.core.Geometric) (hop : op.Faithful) :
    w.Effects op Core.Geometric where
  noted hb hc := hc.same hb.ctls hb.pool
  adjusted {c} k f hf hc := by
    refine ⟨fun j ⟨hj, hfin⟩ => ?_, hc.slots⟩
    have hsame := c.sameBuffer_modify k hf j
    rw [hsame.finalized] at hfin
    rw [Core.modify, List.length_modify] at hj
    exact .sameBuffer hsame (hc.blocks j ⟨hj, hfin⟩)
  allocate env req heq := by
    subst heq
    exact h.allocate hop req
  wrapExternal desc heq := h.brings (w.core.wrapExternal_brings desc) (fun _ hr => .wraps hr)
  importBuffer env desc ns label heq := by
    subst heq
    exact h.brings (w.core.importDescriptor_brings env desc ns label) (fun _ hr => .opens hop hr)
  migrate env i target k heq hk := by
    subst heq
    exact h.migrate hop (hinv.alive (handle_alive hinv hk).1) target
  copyTo env i dst dstOffset len heq := by
    have hidle := copyTo_idle (w.handle i) w.core env dst dstOffset len
    exact h.same hidle.ctls hidle.quiet.pool
  copyFrom env i src srcOffset len heq := by
    have hidle := copyFrom_idle (w.handle i) w.core env src srcOffset len
    exact h.same hidle.ctls hidle.quiet.pool
  finalize env k _ _ _ hk halive hc := hc.finalize env ⟨hk, halive⟩
  poolTrim _ := h.poolTrim
  shutdown env _ _ := by
    have hclosed : Core.Geometric { w.core with rt := { w.core.rt with closed := true } } :=
      h.same rfl rfl
    exact hclosed.poolTrim.same rfl rfl
  createNamespace nsc _ := h.same rfl rfl

/-- The records are sound in every run with faithful backends. -/
theorem geometric_reach {cfg : RuntimeConfig} {plat : RuntimeImpl.Platform}
    (hreach : Reach World.next (fun _ op => op.Faithful) (World.init cfg plat) w) :
    w.core.Geometric := by
  refine hreach.invariant_of (I := fun w => w.core.Geometric) (fun w hw => refInv_reach hw)
    ⟨fun k hk => absurd hk.1 (Nat.not_lt_zero k), fun e he => by cases he⟩ ?_
  intro w op hinv h hop
  exact (geometric_effects hinv h hop).next hinv h

end World

/-! ## Accesses -/

theorem zeroAccesses_inBounds {rt : RuntimeImpl} {req : AllocationRequest} {a : NativeAllocation}
    {lastOwner : Option NamespaceId} : ∀ x ∈ rt.zeroAccesses req a lastOwner, x.InBounds := by
  intro x hx
  unfold RuntimeImpl.zeroAccesses at hx
  split at hx
  · rw [List.mem_singleton.mp hx]
    exact Nat.le_of_eq (Nat.zero_add _)
  · cases hx

theorem allocateAccesses_inBounds {rt : RuntimeImpl} {os : Os} {env : Env}
    {req : AllocationRequest} : ∀ x ∈ rt.allocateAccesses os env req, x.InBounds := by
  intro x hx
  unfold RuntimeImpl.allocateAccesses at hx
  split at hx
  · cases hx
  split at hx
  · exact zeroAccesses_inBounds x hx
  split at hx
  · cases hx
  split at hx
  · cases hx
  · exact zeroAccesses_inBounds x hx

/-- A prefix of the backing that is no longer than the bytes charged for it. -/
theorem Record.Sound.prefix_inBounds {r : Record} (h : r.Sound) {write : Bool} {s : Space}
    {len : UInt64} (hlen : len ≤ r.committed) :
    Access.InBounds ⟨write, s, r.backing, 0, len.toNat⟩ := by
  have hle := UInt64.le_iff_toNat_le.mp (UInt64.le_trans hlen h.committed_le)
  exact (Nat.zero_add _).trans_le hle

theorem finalizeAccesses_inBounds {rt : RuntimeImpl} {r : Record} (h : r.Sound) :
    ∀ x ∈ rt.finalizeAccesses r, x.InBounds := by
  intro x hx
  unfold RuntimeImpl.finalizeAccesses at hx
  split at hx
  · split at hx
    · cases hx
    · split at hx
      · rw [List.mem_singleton.mp hx]
        exact h.prefix_inBounds (UInt64.le_refl _)
      · cases hx
  · cases hx

theorem migrateAccesses_inBounds {rt : RuntimeImpl} {os : Os} {env : Env} {ctl : Control}
    {target : MemoryDomain} (h : ctl.record.Sound) :
    ∀ x ∈ rt.migrateAccesses os env ctl target, x.InBounds := by
  intro x hx
  unfold RuntimeImpl.migrateAccesses at hx
  split at hx
  · cases hx
  split at hx
  · cases hx
  rename_i a _
  rcases List.mem_append.mp hx with hcopy | hverify
  · have hmin := toNat_min ctl.record.committed a.committed
    rcases List.mem_cons.mp hcopy with rfl | hcopy
    · refine h.prefix_inBounds (UInt64.le_iff_toNat_le.mpr ?_)
      omega
    · rw [List.mem_singleton.mp hcopy]
      show 0 + (min ctl.record.committed a.committed).toNat ≤ a.committed.toNat
      omega
  · split at hverify
    · rw [List.mem_singleton.mp hverify]
      exact Nat.le_of_eq (Nat.zero_add _)
    · cases hverify

namespace World

variable {w : World} {op : Op} {base : List BufferId}

/-- The record behind a handle that passes `validate_alive` is sound. -/
theorem handle_sound (hinv : w.RefInv base) (h : w.core.Geometric) {i : Nat} {k : CtlId}
    (hk : (w.handle i).validateAlive w.core = .ok k) : (w.core.control k).record.Sound :=
  h.blocks k (hinv.alive (handle_alive hinv hk).1)

/-- What a successful `view` has checked. -/
theorem view_ok {h : BufferHandle} {c : Core} {offset len : UInt64} {access : AccessMode}
    {v : BufferView} (hv : (h.view c offset len access).1 = .ok v) :
    ∃ k, h.validateAlive c = .ok k ∧ v.ctl = some k ∧ v.gen = h.gen ∧ len ≠ 0 ∧
      rangeInBounds offset len (c.control k).record.size = true ∧
      v.data = if (c.control k).record.backing.hostMap ≠ 0 then
        (c.control k).record.backing.hostMap + offset.toNat else 0 := by
  unfold BufferHandle.view at hv
  split at hv
  · cases hv
  rename_i k hvalid
  simp only at hv
  split at hv
  · cases hv
  rename_i hrange
  split at hv
  · cases hv
  rename_i hlen
  split at hv
  · cases hv
  cases hv
  exact ⟨k, ensureValid_ok hvalid, rfl, rfl, hlen, not_not.mp hrange, rfl⟩

/-- The offset and the length of a new view are those that were asked for. -/
theorem view_range {h : BufferHandle} {c : Core} {offset len : UInt64} {access : AccessMode}
    {v : BufferView} (hv : (h.view c offset len access).1 = .ok v) :
    v.off = offset ∧ v.len = len := by
  unfold BufferHandle.view at hv
  split at hv
  · cases hv
  simp only at hv
  split at hv
  · cases hv
  split at hv
  · cases hv
  split at hv
  · cases hv
  · cases hv
    exact ⟨rfl, rfl⟩

theorem viewAccesses_inBounds (hinv : w.RefInv base) (hgeo : w.core.Geometric) {i : Nat}
    {offset len : UInt64} {access : AccessMode} :
    ∀ x ∈ (w.handle i).viewAccesses w.core offset len access, x.InBounds := by
  intro x hx
  unfold BufferHandle.viewAccesses at hx
  split at hx
  · rename_i v j hview hctl
    obtain ⟨k, hk, -, -, -, hrange, -⟩ := view_ok hview
    obtain ⟨hoff, hlen⟩ := view_range hview
    rw [(BufferHandle.validateAlive_ok_iff.mp hk).ctl] at hctl
    cases hctl
    rw [hoff, hlen] at hx
    have hsound := handle_sound hinv hgeo hk
    have hfits := rangeInBounds_le hrange
    have hroom := UInt64.le_iff_toNat_le.mp (UInt64.le_trans hsound.size_le hsound.committed_le)
    rw [List.mem_singleton.mp hx]
    exact Nat.le_trans hfits hroom
  · cases hx

/-- A transfer that `range_in_bounds` lets through. -/
theorem transfer_inBounds {r : Record} (h : r.Sound) {write : Bool} {s : Space} {len : UInt64}
    (hrange : rangeInBounds 0 len r.committed = true) :
    Access.InBounds ⟨write, s, r.backing, 0, len.toNat⟩ := by
  refine h.prefix_inBounds (UInt64.le_iff_toNat_le.mpr ?_)
  have hfits := rangeInBounds_le hrange
  have hzero : (0 : UInt64).toNat = 0 := rfl
  omega

/-- Every range that an operation reads or writes lies within its backing. -/
theorem accesses_inBounds (hinv : w.RefInv base) (h : w.core.Geometric) (op : Op) :
    ∀ x ∈ w.accesses op, x.InBounds := by
  -- the last release of a reference finalizes a sound record
  have hreleased : ∀ x ∈ w.releasedAccesses (w.released op), x.InBounds := by
    intro x hx
    obtain ⟨k, hrel, -, hfinal⟩ := mem_releasedAccesses hx
    exact finalizeAccesses_inBounds (h.blocks k (hinv.alive (released_pins hrel))) x hfinal
  cases op with
  | allocate env req => exact allocateAccesses_inBounds
  | migrate env i target =>
      intro x hx
      simp only [World.accesses] at hx
      split at hx
      · cases hx
      · rename_i k hk
        exact migrateAccesses_inBounds (handle_sound hinv h hk) x hx
  | view i offset len access => exact viewAccesses_inBounds hinv h
  | verify env i =>
      intro x hx
      simp only [World.accesses, BufferHandle.verifyAccesses] at hx
      split at hx
      · cases hx
      rename_i k hk
      split at hx
      · rw [List.mem_singleton.mp hx]
        exact (handle_sound hinv h hk).prefix_inBounds (UInt64.le_refl _)
      · cases hx
  | checksum i =>
      intro x hx
      simp only [World.accesses, BufferHandle.checksumAccesses] at hx
      split at hx
      · cases hx
      rename_i k hk
      split at hx
      · rw [List.mem_singleton.mp hx]
        exact (handle_sound hinv h hk).prefix_inBounds (handle_sound hinv h hk).size_le
      · cases hx
  | copyTo env i dst dstOffset len =>
      intro x hx
      simp only [World.accesses, BufferHandle.copyToAccesses] at hx
      split at hx
      · cases hx
      rename_i k hk
      split at hx
      · cases hx
      · rename_i hchecked
        rw [List.mem_singleton.mp hx]
        exact transfer_inBounds (handle_sound hinv h (ensureValid_ok hk)) (by tauto)
  | copyFrom env i src srcOffset len =>
      intro x hx
      simp only [World.accesses, BufferHandle.copyFromAccesses] at hx
      split at hx
      · cases hx
      rename_i k hk
      split at hx
      · cases hx
      · rename_i hchecked
        rw [List.mem_singleton.mp hx]
        exact transfer_inBounds (handle_sound hinv h (ensureValid_ok hk)) (by tauto)
  | moveAssign => exact hreleased
  | release => exact hreleased
  | destroy => exact hreleased
  | _ => intro x hx; cases hx

end World

/-- **Geometry.** In every run with backends that return as much memory as they are asked for, the
record of a registered buffer is sound. Every range that the next operation reads or writes, with
any 64-bit offset and length, lies within its backing. Memory outside the written ranges and the
caller's target of a `copy_to` is left alone. On the operations that read memory, memory outside the
read ranges and the caller's source of a `copy_from` has no influence, and backends are asked to
verify listed ranges only. -/
theorem accesses_in_bounds {cfg : RuntimeConfig} {plat : RuntimeImpl.Platform} {w : World}
    (hreach : Reach World.next (fun _ op => op.Faithful) (World.init cfg plat) w) :
    (∀ r ∈ w.core.registered, 0 < r.size ∧ r.size ≤ r.committed ∧
      r.committed ≤ r.backing.committed ∧ r.domain = r.backing.domain) ∧
    ∀ op, (∀ x ∈ w.accesses op, x.InBounds) ∧
      (∀ s a, (w.next op).core.os.bytes s a ≠ w.core.os.bytes s a →
        op.Fills s a ∨ ∃ x ∈ w.accesses op, x.Writes s a) ∧
      (op.Looks → ∀ b : Space → Nat → UInt8,
        (∀ s a, (op.Takes s a ∨ ∃ x ∈ w.accesses op, x.Reads s a) → b s a = w.core.os.bytes s a) →
        ((w.withBytes b).step op).1 = (w.step op).1 ∧
          World.Twin w.core.os.bytes b (w.next op) ((w.withBytes b).next op)) ∧
      ∀ v v' : MemoryDomain → NativeAllocation → UInt64 → Except Error Unit,
        (∀ d a len, ⟨false, d.space, a, 0, len.toNat⟩ ∈ w.accesses (op.verifying v) →
          v' d a len = v d a len) →
        w.step (op.verifying v') = w.step (op.verifying v) := by
  have hinv := World.refInv_reach hreach
  have hgeo := World.geometric_reach hreach
  refine ⟨fun r hr => ?_, fun op => ⟨World.accesses_inBounds hinv hgeo op, fun s a hne => ?_,
    fun hlooks b hb => ?_, fun v v' hasked => World.step_verifying hasked⟩⟩
  · obtain ⟨e, he, rfl⟩ := List.mem_map.mp hr
    have hsound := hgeo.blocks e.2 ((hinv.registered_iff e.2).mp (List.mem_map.mpr ⟨e, he, rfl⟩))
    exact ⟨hsound.size_pos, hsound.size_le, hsound.committed_le, hsound.domain⟩
  · by_contra hout
    push Not at hout
    exact hne (World.next_bytes hinv hout.2 hout.1)
  · exact World.step_twin (w.twin_withBytes b) hlooks
      (fun y hy s a hread => hb s a (.inr ⟨y, hy, hread⟩)) fun s a htake => hb s a (.inl htake)

/-- Backends of every domain that find all memory at one address. -/
def Env.servesAt (address : Nat) : Env where
  allocate := fun d bytes alignment =>
    .ok { NativeAllocation.found address bytes alignment with domain := d }

theorem Env.servesAt_faithful (address : Nat) : (Env.servesAt address).Faithful where
  allocate d bytes alignment a h := by
    cases h
    exact ⟨UInt64.le_refl _, rfl⟩
  importHandle d handle size alignment a h := by cases h

/-- A program that allocates 100 bytes, moves them to shared memory, wraps a page and reuses a slot
of the pool. -/
def mixedBuffers : World :=
  runs World.next (World.init {} {})
    [.allocate (.servesAt 4096) { size := 100 }, .migrate (.servesAt 8192) 0 .sharedHost,
      .wrapExternal { pointer := 65536, size := 4096 },
      .allocate (.servesAt 16384) { size := 4096 }, .release {} 3,
      .allocate (.servesAt 20480) { size := 4090 }]

/-- The theorem at work: three records, of which the last has a slot larger than it asked for, and
the view of its last byte. -/
theorem accesses_in_bounds_mixedBuffers :
    mixedBuffers.core.registered.map (fun r => (r.size, r.committed, r.pooled)) =
        [(100, 128, false), (4096, 4096, false), (4090, 4096, true)] ∧
      (∀ r ∈ mixedBuffers.core.registered, 0 < r.size ∧ r.size ≤ r.committed ∧
        r.committed ≤ r.backing.committed ∧ r.domain = r.backing.domain) ∧
      (mixedBuffers.accesses (.view 4 4089 1 .read)).length = 1 ∧
      ∀ x ∈ mixedBuffers.accesses (.view 4 4089 1 .read), x.InBounds := by
  have hreach : Reach World.next (fun _ op => op.Faithful) (World.init {} {}) mixedBuffers :=
    reach_runs .start ⟨Env.servesAt_faithful 4096, Env.servesAt_faithful 8192, trivial,
      Env.servesAt_faithful 16384, trivial, Env.servesAt_faithful 20480, trivial⟩
  exact ⟨by decide, (accesses_in_bounds hreach).1, by decide,
    ((accesses_in_bounds hreach).2 _).1⟩

end UnifiedBuffer
