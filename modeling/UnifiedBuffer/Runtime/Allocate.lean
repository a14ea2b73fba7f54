import UnifiedBuffer.Runtime.State

set_option autoImplicit false

/-! # Allocation

`validate_request`, `allocate_record` and `register_control` of `runtime.cpp`.

`allocate_record` acquires an allocation count, a byte reservation, a backing (from the pool or
from the backend), the commit of the reservation and, if the policy asks for it, zeroed
contents, in this order, with a hand-written rollback at every failure. It is cut into three
stages here: `allocateRecord` up to the reservation, `backRecord` and `freshRecord` for the
backing, and `zeroRecord` for the zeroing policy.
-/

namespace UnifiedBuffer

open Lib

namespace RuntimeImpl

/-! ## Validation -/

/-- The alignment a request gets: its own, else the backend's preference, else 64. -/
def requestAlignment (dom : IDomain) (req : AllocationRequest) : UInt64 :=
  let alignment :=
    if req.alignment = 0 then
      match dom.preferredAlignment with
      | .ok a => a
      | .error _ => 0
    else req.alignment
  if alignment = 0 then 64 else alignment

/-- `validate_request`: the alignment and the class size of an acceptable request. -/
def validateRequest (rt : RuntimeImpl) (req : AllocationRequest) : Except Error (UInt64 × UInt64) :=
  if req.size = 0 then .error ⟨.invalidArgument, "allocation: zero-size request"⟩
  else if req.size > (1 : UInt64) <<< 48 then
    .error ⟨.invalidArgument, "allocation: impossible size"⟩
  else
    match rt.domain req.domain with
    | none =>
        .error ⟨.unsupportedDomain, "allocation: domain " ++ req.domain.toString ++ " not enabled"⟩
    | some dom =>
        let alignment := requestAlignment dom req
        if ¬ isPowerOfTwo alignment then
          .error ⟨.alignmentError, "allocation: alignment not power-of-two"⟩
        else if alignment > 4096 then
          .error ⟨.alignmentError, "allocation: alignment too large"⟩
        else if req.domain = .device ∧ req.device.index < 0 then
          .error ⟨.invalidDevice, "allocation: DEVICE requires a device index"⟩
        else
          match alignUp req.size alignment with
          | none => .error ⟨.overflow, "allocation: size+alignment overflow"⟩
          | some up => .ok (alignment, up)

/-! ## Zeroing policy -/

/-- The effective policy: the request's override, else the namespace's policy. -/
def effectiveZeroing (rt : RuntimeImpl) (req : AllocationRequest) : ZeroingPolicy :=
  match req.zeroing with
  | some zp => zp
  | none =>
      match rt.namespaceInfo req.ns with
      | some nsc => nsc.zeroing
      | none => .onCrossOwnerReuse

/-- `want_zero`, for a backing from the pool (with its last owner) or a fresh one. -/
def wantZero (zp : ZeroingPolicy) (lastOwner : Option NamespaceId) (ns : NamespaceId) : Bool :=
  match zp with
  | .never => false
  | .onAllocate => true
  | .onRelease => false
  | .onCrossOwnerReuse =>
      match lastOwner with
      | some owner => owner ≠ ns
      | none => false
  | .always => true

/-! ## The stages of `allocate_record` -/

/-- The record as it is filled in before a backing is found. -/
def requestRecord (rt : RuntimeImpl) (env : Env) (req : AllocationRequest) (alignment : UInt64)
    (id : BufferId) : Record :=
  let backend := match rt.domain req.domain with
    | some dom => dom.backend
    | none => .hostMalloc
  { id := id
    generation := 1
    ns := req.ns
    domain := req.domain
    backend := backend
    device := if req.domain = .device then req.device else ⟨backend, -1⟩
    size := req.size
    alignment := alignment
    flags := req.flags
    access := req.access
    label := req.label
    createdEpoch := env.now
    ownership := .runtime
    metaCrc := 0 }

/-- The record with its backing filled in. -/
def withBacking (r : Record) (a : NativeAllocation) (pooled : Bool) : Record :=
  { r with backing := a, pooled := pooled, committed := a.committed }

/-- Whether buffers of this size may return to the pool. -/
def poolEligible (rt : RuntimeImpl) (size : UInt64) : Bool :=
  rt.cfg.enablePool && rt.cfg.pool.enabled && rt.cfg.pool.minClassSize ≤ size
    && rt.sizeClassFor size ≤ rt.cfg.pool.maxClassSize

def countFailed (rt : RuntimeImpl) : RuntimeImpl :=
  rt.count (fun t => { t with failedAllocations := t.failedAllocations + 1 })

/-- The last stage: pool eligibility, the zeroing policy and the rollback of a failed zero.
`lastOwner` is the last owner of a pooled backing, and nothing for a fresh one. -/
def zeroRecord (rt : RuntimeImpl) (os : Os) (env : Env) (req : AllocationRequest)
    (classSize : UInt64) (r : Record) (lastOwner : Option NamespaceId) :
    Except Error Record × RuntimeImpl × Os :=
  let r := { r with poolEligible := rt.poolEligible r.size, state := .allocated }
  if wantZero (rt.effectiveZeroing req) lastOwner req.ns then
    match os.zero env req.domain r.backing r.backing.committed with
    | (.error e, os) =>
        -- a pooled backing is neither freed nor put back, and its allocation stays counted
        if lastOwner.isSome then
          (.error e.passOn, (rt.freeAccounting req.ns req.domain r.committed).countFailed, os)
        -- the commit is not undone; the reservation that it consumed is subtracted again
        else
          (.error e.passOn,
            ((rt.unreserveAmount req.ns req.domain classSize).releaseCount req.ns).countFailed,
            os.free req.domain r.backing)
    | (.ok _, os) => (.ok r, rt.count (fun t => { t with zeroCount := t.zeroCount + 1 }), os)
  else (.ok r, rt, os)

/-- A fresh backing: allocate and commit the reservation. -/
def freshRecord (rt : RuntimeImpl) (os : Os) (env : Env) (req : AllocationRequest)
    (classSize : UInt64) (r : Record) : Except Error Record × RuntimeImpl × Os :=
  match os.allocate env req.domain .runtime classSize r.alignment with
  | (.error e, os) =>
      (.error e.passOn,
        ((rt.unreserveAmount req.ns req.domain classSize).releaseCount req.ns).countFailed, os)
  | (.ok a, os) =>
      let r := withBacking r a false
      -- the backend may have committed more than was reserved
      match rt.commitAmount req.ns req.domain r.committed with
      | (.error e, rt) =>
          (.error e.passOn,
            ((rt.unreserveAmount req.ns req.domain classSize).releaseCount req.ns).countFailed,
            os.free req.domain r.backing)
      | (.ok _, rt) => zeroRecord rt os env req classSize r none

/-- The pool is asked first when the request and the configuration allow it. -/
def backRecord (rt : RuntimeImpl) (os : Os) (env : Env) (req : AllocationRequest)
    (classSize : UInt64) (r : Record) : Except Error Record × RuntimeImpl × Os :=
  if req.flags.pooled && rt.cfg.enablePool && rt.cfg.pool.enabled then
    match rt.poolTake (rt.makePoolKey r) classSize with
    | (some slot, rt) =>
        -- the reservation of `classSize` bytes stays in the ledger
        let r := withBacking r slot.backing true
        zeroRecord (rt.checkoutAmount req.ns req.domain r.committed) os env req classSize r
          (some slot.lastOwner)
    | (none, rt) =>
        freshRecord (rt.count (fun t => { t with poolMisses := t.poolMisses + 1 })) os env req
          classSize r
  else freshRecord rt os env req classSize r

def allocateRecord (rt : RuntimeImpl) (os : Os) (env : Env) (req : AllocationRequest) :
    Except Error Record × RuntimeImpl × Os :=
  if rt.closed then (.error ⟨.closed, "runtime is closed"⟩, rt, os)
  else
    match rt.validateRequest req with
    | .error e => (.error e.passOn, rt.countFailed, os)
    | .ok (alignment, classSize) =>
        match rt.reserveCount req.ns with
        | (.error e, rt) => (.error e.passOn, rt.countFailed, os)
        | (.ok _, rt) =>
            match rt.reserveAmount req.ns req.domain classSize with
            | (.error e, rt) =>
                (.error e.passOn,
                  (rt.releaseCount req.ns).count (fun t =>
                    { t with
                      failedAllocations := t.failedAllocations + 1
                      reservationFailures := t.reservationFailures + 1 }),
                  os)
            | (.ok _, rt) =>
                let (id, rt) := rt.nextId
                backRecord rt os env req classSize (rt.requestRecord env req alignment id)

/-- `register_control`: the new control block gets the number `c`. -/
def registerControl (rt : RuntimeImpl) (c : CtlId) (r : Record) : Control × RuntimeImpl :=
  ({ record := r, poolEligible := r.poolEligible },
    { rt with registry := rt.registry.insert r.id c }.count (fun t =>
      { t with
        totalAllocations := t.totalAllocations + 1
        activeBuffers := t.activeBuffers + 1
        outstandingAllocations := t.outstandingAllocations + 1
        bytesRequested := t.bytesRequested + r.size.toNat }))

/-! ## What an allocation does

`AllocateRun` lists the exits of `allocate_record`, each with the tests that lead to it and the
state it leaves. Everything below that is said of an allocation is read off this list. -/

/-- The request gets past the checks, the allocation count and the reservation: its alignment,
its class size and the ledger with the reservation. -/
def admits (rt : RuntimeImpl) (req : AllocationRequest) : Option (UInt64 × UInt64 × Ledger) :=
  if rt.closed then none
  else
    match rt.validateRequest req, (rt.reserveCount req.ns).1 with
    | .ok (alignment, classSize), .ok _ =>
        match rt.ledger.reserveAmount (rt.capFor req.domain) (rt.domainQuota req.ns req.domain)
            req.ns req.domain classSize with
        | .ok l => some (alignment, classSize, l)
        | .error _ => none
    | _, _ => none

/-- The slot that an admitted request takes from the pool, and the pool without it. -/
def poolOffer (rt : RuntimeImpl) (req : AllocationRequest) (alignment classSize : UInt64) :
    Option (PoolSlot × Pool) :=
  if req.flags.pooled && rt.cfg.enablePool && rt.cfg.pool.enabled then
    rt.pool.take (rt.makePoolKey (rt.requestRecord {} req alignment {})) classSize
  else none

/-- The zeroing step is reached with this backing, and the backend fails it. -/
def zeroFails (rt : RuntimeImpl) (env : Env) (req : AllocationRequest) (a : NativeAllocation)
    (lastOwner : Option NamespaceId) : Bool :=
  wantZero (rt.effectiveZeroing req) lastOwner req.ns && !(env.zero req.domain a a.committed).isOk

def zeroed (rt : RuntimeImpl) (os : Os) (env : Env) (req : AllocationRequest)
    (a : NativeAllocation) (lastOwner : Option NamespaceId) : Os :=
  if wantZero (rt.effectiveZeroing req) lastOwner req.ns then
    (os.zero env req.domain a a.committed).2
  else os

/-- The record that a successful allocation returns. -/
def backedRecord (rt : RuntimeImpl) (env : Env) (req : AllocationRequest) (alignment : UInt64)
    (a : NativeAllocation) (pooled : Bool) : Record :=
  { withBacking (rt.requestRecord env req alignment rt.nextId.1) a pooled with
    poolEligible := rt.poolEligible req.size
    state := .allocated }

/-- The exits of `allocate_record`. -/
inductive AllocateRun (rt : RuntimeImpl) (os : Os) (env : Env) (req : AllocationRequest) :
    Except Error Record × RuntimeImpl × Os → Prop
  /-- a check, the allocation count or the reservation refuses the request -/
  | refused {e : Error} {rt' : RuntimeImpl} {allocs : AssocMap NamespaceId Nat}
      (admission : rt.admits req = none) (counts : rt.SameCounts allocs)
      (state : Quiet { rt with allocs := allocs } rt') :
      AllocateRun rt os env req (.error e, rt', os)
  /-- the backend has no memory -/
  | backendFailed {e e' : Error} {rt' : RuntimeImpl} {allocs : AssocMap NamespaceId Nat}
      {alignment classSize : UInt64} {l : Ledger}
      (admission : rt.admits req = some (alignment, classSize, l))
      (offer : rt.poolOffer req alignment classSize = none)
      (backend : env.allocate req.domain classSize alignment = .error e')
      (counts : rt.SameCounts allocs)
      (state : Quiet { rt with
        ledger := l.unreserveAmount req.ns req.domain classSize
        allocs := allocs
        idCounter := rt.idCounter + 1 } rt') :
      AllocateRun rt os env req (.error e, rt', os)
  /-- the backend committed more than is reserved -/
  | commitFailed {e : Error} {rt' : RuntimeImpl} {allocs : AssocMap NamespaceId Nat}
      {alignment classSize : UInt64} {l : Ledger} {a : NativeAllocation}
      (admission : rt.admits req = some (alignment, classSize, l))
      (offer : rt.poolOffer req alignment classSize = none)
      (backend : env.allocate req.domain classSize alignment = .ok a)
      (commit : l.reserved.get req.ns req.domain < a.committed)
      (counts : rt.SameCounts allocs)
      (state : Quiet { rt with
        ledger := l.unreserveAmount req.ns req.domain classSize
        allocs := allocs
        idCounter := rt.idCounter + 1 } rt') :
      AllocateRun rt os env req (.error e, rt',
        (os.log (.allocated req.domain .runtime (os.stamp a))).free req.domain (os.stamp a))
  /-- a fresh backing cannot be zeroed -/
  | freshZeroFailed {e : Error} {rt' : RuntimeImpl} {allocs : AssocMap NamespaceId Nat}
      {alignment classSize : UInt64} {l l' : Ledger} {a : NativeAllocation}
      (admission : rt.admits req = some (alignment, classSize, l))
      (offer : rt.poolOffer req alignment classSize = none)
      (backend : env.allocate req.domain classSize alignment = .ok a)
      (commit : l.commitAmount req.ns req.domain a.committed = .ok l')
      (zero : rt.zeroFails env req (os.stamp a) none = true)
      (counts : rt.SameCounts allocs)
      (state : Quiet { rt with
        ledger := l'.unreserveAmount req.ns req.domain classSize
        allocs := allocs
        idCounter := rt.idCounter + 1 } rt') :
      AllocateRun rt os env req (.error e, rt',
        (rt.zeroed (os.log (.allocated req.domain .runtime (os.stamp a))) env req (os.stamp a)
          none).free req.domain (os.stamp a))
  /-- a fresh backing -/
  | fresh {rt' : RuntimeImpl} {alignment classSize : UInt64} {l l' : Ledger} {a : NativeAllocation}
      (admission : rt.admits req = some (alignment, classSize, l))
      (offer : rt.poolOffer req alignment classSize = none)
      (backend : env.allocate req.domain classSize alignment = .ok a)
      (commit : l.commitAmount req.ns req.domain a.committed = .ok l')
      (zero : rt.zeroFails env req (os.stamp a) none = false)
      (state : Quiet { rt with
        ledger := l'
        allocs := rt.countedAllocs req.ns
        idCounter := rt.idCounter + 1 } rt') :
      AllocateRun rt os env req (.ok (rt.backedRecord env req alignment (os.stamp a) false), rt',
        rt.zeroed (os.log (.allocated req.domain .runtime (os.stamp a))) env req (os.stamp a) none)
  /-- a backing from the pool cannot be zeroed -/
  | pooledZeroFailed {e : Error} {rt' : RuntimeImpl} {alignment classSize : UInt64} {l : Ledger}
      {slot : PoolSlot} {pool : Pool}
      (admission : rt.admits req = some (alignment, classSize, l))
      (offer : rt.poolOffer req alignment classSize = some (slot, pool))
      (zero : rt.zeroFails env req slot.backing (some slot.lastOwner) = true)
      (state : Quiet { rt with
        ledger := (l.checkoutAmount req.ns req.domain slot.backing.committed).freeAccounting
          req.ns req.domain slot.backing.committed
        pool := pool
        allocs := rt.countedAllocs req.ns
        idCounter := rt.idCounter + 1 } rt') :
      AllocateRun rt os env req (.error e, rt',
        rt.zeroed os env req slot.backing (some slot.lastOwner))
  /-- a backing from the pool -/
  | pooled {rt' : RuntimeImpl} {alignment classSize : UInt64} {l : Ledger}
      {slot : PoolSlot} {pool : Pool}
      (admission : rt.admits req = some (alignment, classSize, l))
      (offer : rt.poolOffer req alignment classSize = some (slot, pool))
      (zero : rt.zeroFails env req slot.backing (some slot.lastOwner) = false)
      (state : Quiet { rt with
        ledger := l.checkoutAmount req.ns req.domain slot.backing.committed
        pool := pool
        allocs := rt.countedAllocs req.ns
        idCounter := rt.idCounter + 1 } rt') :
      AllocateRun rt os env req (.ok (rt.backedRecord env req alignment slot.backing true), rt',
        rt.zeroed os env req slot.backing (some slot.lastOwner))

/-- The slot that a request is offered comes out of the pool, from a deque of its domain, and is
large enough. -/
theorem poolOffer_perm {rt : RuntimeImpl} {req : AllocationRequest} {alignment classSize : UInt64}
    {slot : PoolSlot} {pool : Pool}
    (h : rt.poolOffer req alignment classSize = some (slot, pool)) :
    ∃ key : PoolKey, key.domain = req.domain ∧ rt.pool.all.Perm ((key, slot) :: pool.all) ∧
      classSize ≤ slot.backing.committed := by
  unfold poolOffer at h
  split at h
  · obtain ⟨hperm, hle⟩ := Pool.take_perm h
    exact ⟨_, rfl, hperm, hle⟩
  · cases h

/-- The reservation of an admitted request. -/
theorem admits_reserve {rt : RuntimeImpl} {req : AllocationRequest}
    {alignment classSize : UInt64} {l : Ledger}
    (h : rt.admits req = some (alignment, classSize, l)) :
    rt.ledger.reserveAmount (rt.capFor req.domain) (rt.domainQuota req.ns req.domain)
      req.ns req.domain classSize = .ok l := by
  unfold admits at h
  split at h
  · cases h
  · split at h
    · split at h
      · rename_i hr
        cases h
        exact hr
      · cases h
    · cases h

@[simp] theorem zeroed_calls (rt : RuntimeImpl) (os : Os) (env : Env) (req : AllocationRequest)
    (a : NativeAllocation) (lastOwner : Option NamespaceId) :
    (rt.zeroed os env req a lastOwner).calls = os.calls := by
  unfold zeroed
  split
  · exact Os.zero_calls os env _ _ _
  · rfl

section Run

variable {rt : RuntimeImpl} {os : Os} {env : Env} {req : AllocationRequest}

/-- The state of an admitted request, with the statistics `t`. -/
def admitted (rt : RuntimeImpl) (req : AllocationRequest) (l : Ledger) (pool : Pool)
    (t : Telemetry) : RuntimeImpl :=
  { rt with
    ledger := l
    pool := pool
    allocs := rt.countedAllocs req.ns
    idCounter := rt.idCounter + 1
    telem := t }

theorem zeroRecord_ok (rt : RuntimeImpl) (os : Os) (env : Env) (req : AllocationRequest)
    (classSize : UInt64) (r : Record) (lastOwner : Option NamespaceId)
    (h : rt.zeroFails env req r.backing lastOwner = false) :
    ∃ rt', Quiet rt rt' ∧ rt.zeroRecord os env req classSize r lastOwner
      = (.ok { r with poolEligible := rt.poolEligible r.size, state := .allocated }, rt',
          rt.zeroed os env req r.backing lastOwner) := by
  unfold zeroFails at h
  unfold zeroRecord zeroed
  by_cases hw : wantZero (rt.effectiveZeroing req) lastOwner req.ns = true
  · simp only [hw, Bool.true_and, Bool.not_eq_false', if_true] at h ⊢
    unfold Os.zero
    cases hz : env.zero req.domain r.backing r.backing.committed with
    | error e =>
        rw [hz] at h
        cases h
    | ok u => exact ⟨_, quiet_count rt _ rfl rfl, rfl⟩
  · simp only [if_neg hw]
    exact ⟨rt, Quiet.refl rt, rfl⟩

theorem zeroRecord_error (rt : RuntimeImpl) (os : Os) (env : Env) (req : AllocationRequest)
    (classSize : UInt64) (r : Record) (lastOwner : Option NamespaceId)
    (h : rt.zeroFails env req r.backing lastOwner = true) :
    ∃ e, rt.zeroRecord os env req classSize r lastOwner
      = if lastOwner.isSome then
          (.error e, (rt.freeAccounting req.ns req.domain r.committed).countFailed,
            rt.zeroed os env req r.backing lastOwner)
        else
          (.error e,
            ((rt.unreserveAmount req.ns req.domain classSize).releaseCount req.ns).countFailed,
            (rt.zeroed os env req r.backing lastOwner).free req.domain r.backing) := by
  unfold zeroFails at h
  rw [Bool.and_eq_true] at h
  unfold zeroRecord zeroed
  simp only [if_pos h.1]
  unfold Os.zero
  cases hz : env.zero req.domain r.backing r.backing.committed with
  | error e => exact ⟨e.passOn, rfl⟩
  | ok u =>
      rw [hz] at h
      cases h.2

theorem freshRecord_run {alignment classSize : UInt64} {l : Ledger} {t : Telemetry}
    (ha : t.totalAllocations = rt.telem.totalAllocations)
    (hf : t.totalFrees = rt.telem.totalFrees)
    (admission : rt.admits req = some (alignment, classSize, l))
    (offer : rt.poolOffer req alignment classSize = none) :
    AllocateRun rt os env req ((rt.admitted req l rt.pool t).freshRecord os env req classSize
      (rt.requestRecord env req alignment rt.nextId.1)) := by
  have halign : (rt.requestRecord env req alignment rt.nextId.1).alignment = alignment := rfl
  -- the tests in the order of the code, and one exit for each that fails
  unfold freshRecord Os.allocate
  rw [halign]
  cases hb : env.allocate req.domain classSize alignment with
  | error e =>
      refine .backendFailed admission offer hb (sameCounts_release rt req.ns) ?_
      constructor <;> first | rfl | exact ha | exact hf
  | ok a =>
      simp only
      unfold commitAmount
      cases hc : (rt.admitted req l rt.pool t).ledger.commitAmount req.ns req.domain
          (withBacking (rt.requestRecord env req alignment rt.nextId.1) (os.stamp a)
            false).committed with
      | error e =>
          refine .commitFailed admission offer hb (Ledger.commitAmount_error hc).1
            (sameCounts_release rt req.ns) ?_
          constructor <;> first | rfl | exact ha | exact hf
      | ok l' =>
          simp only
          cases hz : rt.zeroFails env req (os.stamp a) none with
          | true =>
              obtain ⟨e, he⟩ := zeroRecord_error { rt.admitted req l rt.pool t with ledger := l' }
                (os.log (.allocated req.domain .runtime (os.stamp a))) env req classSize
                (withBacking (rt.requestRecord env req alignment rt.nextId.1) (os.stamp a) false)
                none hz
              refine he.symm ▸ ?_
              refine .freshZeroFailed admission offer hb hc hz (sameCounts_release rt req.ns) ?_
              constructor <;> first | rfl | exact ha | exact hf
          | false =>
              obtain ⟨rt', hq, he⟩ := zeroRecord_ok { rt.admitted req l rt.pool t with ledger := l' }
                (os.log (.allocated req.domain .runtime (os.stamp a))) env req classSize
                (withBacking (rt.requestRecord env req alignment rt.nextId.1) (os.stamp a) false)
                none hz
              refine he.symm ▸ ?_
              refine .fresh admission offer hb hc hz (Quiet.trans ?_ hq)
              constructor <;> first | rfl | exact ha | exact hf

/-- A request that the pool has no slot for goes to the backend. -/
theorem backRecord_none {alignment classSize : UInt64} {l : Ledger} {t : Telemetry}
    (offer : rt.poolOffer req alignment classSize = none) :
    ∃ t' : Telemetry, t'.totalAllocations = t.totalAllocations ∧ t'.totalFrees = t.totalFrees ∧
      ∀ os env, (rt.admitted req l rt.pool t).backRecord os env req classSize
          (rt.requestRecord env req alignment rt.nextId.1)
        = (rt.admitted req l rt.pool t').freshRecord os env req classSize
          (rt.requestRecord env req alignment rt.nextId.1) := by
  unfold poolOffer at offer
  split at offer
  · rename_i hp
    refine ⟨{ t with poolMisses := t.poolMisses + 1 }, rfl, rfl, fun os env => ?_⟩
    -- the key does not depend on the identity and the time of the record
    have htake : rt.pool.take ((rt.admitted req l rt.pool t).makePoolKey
        (rt.requestRecord env req alignment rt.nextId.1)) classSize = none := offer
    have hcfg : (rt.admitted req l rt.pool t).cfg = rt.cfg := rfl
    have hpool : (rt.admitted req l rt.pool t).pool = rt.pool := rfl
    unfold backRecord poolTake
    rw [hcfg, if_pos hp, hpool, htake]
    rfl
  · rename_i hp
    exact ⟨t, rfl, rfl, fun os env => if_neg hp⟩

/-- A slot of the pool is handed out. -/
theorem backRecord_some {alignment classSize : UInt64} {l : Ledger} {t : Telemetry}
    {slot : PoolSlot} {pool : Pool}
    (offer : rt.poolOffer req alignment classSize = some (slot, pool)) (os : Os) (env : Env) :
    (rt.admitted req l rt.pool t).backRecord os env req classSize
        (rt.requestRecord env req alignment rt.nextId.1)
      = zeroRecord (rt.admitted req (l.checkoutAmount req.ns req.domain slot.backing.committed) pool
          { t with poolHits := t.poolHits + 1 }) os env req classSize
        (withBacking (rt.requestRecord env req alignment rt.nextId.1) slot.backing true)
        (some slot.lastOwner) := by
  unfold poolOffer at offer
  split at offer
  · rename_i hp
    have htake : rt.pool.take ((rt.admitted req l rt.pool t).makePoolKey
        (rt.requestRecord env req alignment rt.nextId.1)) classSize = some (slot, pool) := offer
    have hcfg : (rt.admitted req l rt.pool t).cfg = rt.cfg := rfl
    have hpool : (rt.admitted req l rt.pool t).pool = rt.pool := rfl
    unfold backRecord poolTake
    rw [hcfg, if_pos hp, hpool, htake]
    rfl
  · cases offer

theorem backRecord_run {alignment classSize : UInt64} {l : Ledger} {t : Telemetry}
    (ha : t.totalAllocations = rt.telem.totalAllocations)
    (hf : t.totalFrees = rt.telem.totalFrees)
    (admission : rt.admits req = some (alignment, classSize, l)) :
    AllocateRun rt os env req ((rt.admitted req l rt.pool t).backRecord os env req classSize
      (rt.requestRecord env req alignment rt.nextId.1)) := by
  cases hoffer : rt.poolOffer req alignment classSize with
  | none =>
      obtain ⟨t', ha', hf', hfresh⟩ := backRecord_none (l := l) (t := t) hoffer
      rw [hfresh]
      exact freshRecord_run (ha'.trans ha) (hf'.trans hf) admission hoffer
  | some q =>
      obtain ⟨slot, pool⟩ := q
      rw [backRecord_some hoffer]
      cases hz : rt.zeroFails env req slot.backing (some slot.lastOwner) with
      | true =>
          obtain ⟨e, he⟩ := zeroRecord_error
            (rt.admitted req (l.checkoutAmount req.ns req.domain slot.backing.committed) pool
              { t with poolHits := t.poolHits + 1 }) os env req classSize
            (withBacking (rt.requestRecord env req alignment rt.nextId.1) slot.backing true)
            (some slot.lastOwner) hz
          refine he.symm ▸ ?_
          refine .pooledZeroFailed admission hoffer hz ?_
          constructor <;> first | rfl | exact ha | exact hf
      | false =>
          obtain ⟨rt', hq, he⟩ := zeroRecord_ok
            (rt.admitted req (l.checkoutAmount req.ns req.domain slot.backing.committed) pool
              { t with poolHits := t.poolHits + 1 }) os env req classSize
            (withBacking (rt.requestRecord env req alignment rt.nextId.1) slot.backing true)
            (some slot.lastOwner) hz
          refine he.symm ▸ ?_
          refine .pooled admission hoffer hz (Quiet.trans ?_ hq)
          constructor <;> first | rfl | exact ha | exact hf

/-- A request is refused before any backend is asked, or it is admitted and gets a backing. -/
theorem allocateRecord_cases (rt : RuntimeImpl) (req : AllocationRequest) :
    (rt.admits req = none ∧ ∃ e rt' allocs, rt.SameCounts allocs ∧
      Quiet { rt with allocs := allocs } rt' ∧
      ∀ os env, rt.allocateRecord os env req = (.error e, rt', os)) ∨
    ∃ alignment classSize l, rt.admits req = some (alignment, classSize, l) ∧
      ∀ os env, rt.allocateRecord os env req
        = (rt.admitted req l rt.pool rt.telem).backRecord os env req classSize
          (rt.requestRecord env req alignment rt.nextId.1) := by
  unfold allocateRecord
  by_cases hclosed : rt.closed = true
  · exact Or.inl ⟨if_pos hclosed, _, rt, rt.allocs, fun _ => rfl, Quiet.refl rt,
      fun _ _ => if_pos hclosed⟩
  -- `admits` makes the same tests, so `hadm` follows the cases
  have hadm : rt.admits req = _ := if_neg hclosed
  simp only [if_neg hclosed]
  cases hv : rt.validateRequest req with
  | error e =>
      rw [hv] at hadm
      exact Or.inl ⟨hadm, _, _, rt.allocs, fun _ => rfl, quiet_count rt _ rfl rfl, fun _ _ => rfl⟩
  | ok p =>
      obtain ⟨alignment, classSize⟩ := p
      simp only
      rw [hv] at hadm
      cases hc : rt.reserveCount req.ns with
      | mk res rt₁ =>
          rw [hc] at hadm
          rcases reserveCount_cases hc with ⟨e, rfl, hq⟩ | ⟨rfl, rfl⟩
          · exact Or.inl ⟨hadm, _, _, rt.allocs, fun _ => rfl,
              hq.trans (quiet_count rt₁ _ rfl rfl), fun _ _ => rfl⟩
          · simp only at hadm ⊢
            cases hr : ({ rt with allocs := rt.countedAllocs req.ns } : RuntimeImpl).reserveAmount
                req.ns req.domain classSize with
            | mk res rt₂ =>
                rcases reserveAmount_cases hr with ⟨e, rfl, hq, hl⟩ | ⟨l, rfl, rfl, hl⟩
                · rw [show rt.ledger.reserveAmount (rt.capFor req.domain)
                    (rt.domainQuota req.ns req.domain) req.ns req.domain classSize = .error e
                    from hl] at hadm
                  exact Or.inl ⟨hadm, _, _, _, sameCounts_release rt req.ns,
                    (hq.releaseCount req.ns).trans (quiet_count _ _ rfl rfl), fun _ _ => rfl⟩
                · rw [show rt.ledger.reserveAmount (rt.capFor req.domain)
                    (rt.domainQuota req.ns req.domain) req.ns req.domain classSize = .ok l
                    from hl] at hadm
                  exact Or.inr ⟨alignment, classSize, l, hadm, fun _ _ => rfl⟩

/-- Every call of `allocate_record` takes one of the exits. -/
theorem allocateRecord_run (rt : RuntimeImpl) (os : Os) (env : Env) (req : AllocationRequest) :
    AllocateRun rt os env req (rt.allocateRecord os env req) := by
  rcases rt.allocateRecord_cases req with
    ⟨hadm, e, rt', allocs, hcounts, hstate, hrefused⟩ | ⟨alignment, classSize, l, hadm, hadmitted⟩
  · rw [hrefused]
    exact .refused hadm hcounts hstate
  · rw [hadmitted]
    exact backRecord_run rfl rfl hadm

end Run

end RuntimeImpl

end UnifiedBuffer
