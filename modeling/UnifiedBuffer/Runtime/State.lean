import UnifiedBuffer.Backends.Domain
import UnifiedBuffer.Core.CheckedMath
import UnifiedBuffer.Core.Integrity
import UnifiedBuffer.Runtime.Ledger
import UnifiedBuffer.Runtime.Pool

set_option autoImplicit false

/-! # The state of the runtime

`RuntimeImpl` (`internal.hpp`) with its constructor, the capacity and namespace queries, the
accounting helpers lifted to the whole state, the statistics and the decision log
(`runtime.cpp`, up to `update_peak`, and the section on telemetry).

A control block is named by a number, its position in the order of creation; the registry maps
the identity of a buffer to that number.
-/

namespace UnifiedBuffer

open Lib

/-- A control block, by its position in the order of creation. -/
abbrev CtlId := Nat

structure RuntimeImpl where
  cfg : RuntimeConfig
  closed : Bool := false
  registry : AssocMap BufferId CtlId := .empty
  pool : Pool := {}
  /-- `host_`, `cuda_pinned_`, `cuda_device_`, `shared_` and `file_` -/
  domains : MemoryDomain → Option IDomain
  nss : AssocMap NamespaceId NamespaceConfig := .empty
  ledger : Ledger := {}
  /-- `ns_allocs_` -/
  allocs : AssocMap NamespaceId Nat := .empty
  idCounter : Nat := 1
  idSeed : UInt64 := 0
  epoch : UInt64 := 0
  telem : Telemetry := {}
  dec : List (String × String) := []
  deviceCuda : Int := -1
  /-- the address of the object, `this` -/
  address : UInt64 := 0

namespace RuntimeImpl

/-! ## Construction -/

/-- What the constructor finds on the machine: the physical memory (`0` when unknown), the
memory of the CUDA device if there is one, the values of the random device and the clock, and the
address that the object is given. -/
structure Platform where
  physicalBytes : UInt64 := 0
  cudaMemory : Option UInt64 := none
  idSeed : UInt64 := 0
  epoch : UInt64 := 0
  address : UInt64 := 0

/-- `nss_[nss_.size() + 1] = nsc`, with the default name `ns-<id>`. -/
def addNamespace (nss : AssocMap NamespaceId NamespaceConfig) (nsc : NamespaceConfig) :
    AssocMap NamespaceId NamespaceConfig :=
  let id := nss.size.toUInt64 + 1
  nss.insert id (if nsc.name = "" then { nsc with name := "ns-" ++ toString id } else nsc)

/-- The backends that a configuration enables on a platform. -/
def domainsOf (cfg : RuntimeConfig) (plat : Platform) : MemoryDomain → Option IDomain
  | .host =>
      let total := if cfg.hostCapacityHint ≠ 0 then cfg.hostCapacityHint else plat.physicalBytes
      let total := if total = 0 then (1 : UInt64) <<< 40 else total
      if cfg.enableHost then some ⟨.hostMalloc, .ok total, .ok 64⟩ else none
  | .pinnedHost => plat.cudaMemory.map (fun total => ⟨.cuda, .ok total, .ok 256⟩)
  | .device => plat.cudaMemory.map (fun total => ⟨.cuda, .ok total, .ok 256⟩)
  | .sharedHost =>
      if cfg.enableShared then some ⟨.winSharedFile, .ok cfg.sharedCap, .ok 4096⟩ else none
  | .mmapStorage => if cfg.enableFile then some ⟨.fileBacked, .ok cfg.fileCap, .ok 4096⟩ else none

def init (cfg : RuntimeConfig) (plat : Platform) : RuntimeImpl :=
  { cfg := cfg
    domains := domainsOf cfg plat
    nss := cfg.namespaces.foldl addNamespace
      (AssocMap.empty.insert kDefaultNamespace { name := "default" })
    idSeed := plat.idSeed
    epoch := plat.epoch
    deviceCuda := if plat.cudaMemory.isSome then 0 else -1
    address := plat.address }

/-! ## Domains and capacities -/

/-- `domain(d)`: the backend of a domain, if it is enabled. -/
def domain (rt : RuntimeImpl) (d : MemoryDomain) : Option IDomain := rt.domains d

def configCap (rt : RuntimeImpl) : MemoryDomain → UInt64
  | .host => rt.cfg.hostCap
  | .pinnedHost => rt.cfg.pinnedCap
  | .device => rt.cfg.deviceCap
  | .sharedHost => rt.cfg.sharedCap
  | .mmapStorage => rt.cfg.fileCap

def capacityFor (rt : RuntimeImpl) (d : MemoryDomain) : Except Error UInt64 :=
  match rt.domain d with
  | none => .error ⟨.unsupportedDomain, "capability query: " ++ d.toString ++ " disabled"⟩
  | some dom =>
      match dom.capacity with
      | .error e => .error e.passOn
      | .ok total =>
          let configured := rt.configCap d
          -- a backend that reports nothing leaves the configured cap as it is
          if configured ≠ 0 then .ok (min configured (if total ≠ 0 then total else configured))
          else .ok total

/-- `cap_for`: the effective cap of a domain, `0` meaning none. -/
def capFor (rt : RuntimeImpl) (d : MemoryDomain) : UInt64 :=
  match rt.capacityFor d with
  | .ok cap => cap
  | .error _ => 0

/-! ## Namespaces -/

def createNamespace (rt : RuntimeImpl) (nsc : NamespaceConfig) : RuntimeImpl :=
  { rt with nss := addNamespace rt.nss nsc }

def namespaceInfo (rt : RuntimeImpl) (ns : NamespaceId) : Option NamespaceConfig := rt.nss.find? ns

/-- `domain_quota`: `0` for an unregistered namespace. -/
def domainQuota (rt : RuntimeImpl) (ns : NamespaceId) (d : MemoryDomain) : UInt64 :=
  match rt.nss.find? ns with
  | none => 0
  | some nsc => nsc.quota d

/-! ## Statistics and the decision log -/

def count (rt : RuntimeImpl) (f : Telemetry → Telemetry) : RuntimeImpl :=
  { rt with telem := f rt.telem }

/-- `note`: append to the decision log, dropping the oldest entry when it is over-full. -/
def note (rt : RuntimeImpl) (event detail : String) : RuntimeImpl :=
  -- tested before the insertion, so that the log grows to 4097 entries
  let dec := if rt.dec.length > 4096 then rt.dec.tail else rt.dec
  { rt with dec := dec ++ [(event, detail)] }

/-- The bytes of a domain that `telemetry()` reports: the committed cells of all namespaces
added up as 64-bit words. -/
def domainBytes (rt : RuntimeImpl) (d : MemoryDomain) : UInt64 :=
  rt.ledger.committed.table.entries.foldl (fun sum e => sum + e.2 d) 0

/-- A domain without committed bytes is reported as such. -/
theorem domainBytes_eq_zero {rt : RuntimeImpl} {d : MemoryDomain}
    (h : ∀ ns, rt.ledger.committed.get ns d = 0) : rt.domainBytes d = 0 := by
  have hrow : ∀ e ∈ rt.ledger.committed.table.entries, e.2 d = 0 := by
    intro e he
    have hget := h e.1
    rw [Cells.get, (rt.ledger.committed.table.mem_entries_iff e.1 e.2).mp he] at hget
    exact hget
  unfold domainBytes
  generalize rt.ledger.committed.table.entries = entries at hrow ⊢
  induction entries with
  | nil => rfl
  | cons e entries ih =>
      rw [List.foldl_cons, hrow e List.mem_cons_self]
      exact ih (fun e' he' => hrow e' (List.mem_cons_of_mem _ he'))

def telemetry (rt : RuntimeImpl) : Telemetry :=
  { rt.telem with
    activeBuffers := rt.registry.size
    outstandingAllocations := rt.registry.size
    hostBytes := rt.domainBytes .host
    pinnedHostBytes := rt.domainBytes .pinnedHost
    deviceBytes := rt.domainBytes .device
    sharedHostBytes := rt.domainBytes .sharedHost
    fileBackedBytes := rt.domainBytes .mmapStorage
    peakBytes := rt.ledger.peakCommitted
    bytesCommitted := rt.domainBytes .host + rt.domainBytes .pinnedHost + rt.domainBytes .device
      + rt.domainBytes .sharedHost + rt.domainBytes .mmapStorage
    pooledBytes := rt.pool.idleBytes
    idlePooledBytes := rt.pool.idleBytes }

/-! ## The accounting helpers on the whole state -/

def reserveAmount (rt : RuntimeImpl) (ns : NamespaceId) (d : MemoryDomain) (bytes : UInt64) :
    Except Error Unit × RuntimeImpl :=
  match rt.ledger.reserveAmount (rt.capFor d) (rt.domainQuota ns d) ns d bytes with
  | .ok l => (.ok (), { rt with ledger := l })
  | .error e =>
      (.error e,
        if e.code = .quotaExceeded then
          rt.count (fun t => { t with quotaRejections := t.quotaRejections + 1 })
        else rt)

def commitAmount (rt : RuntimeImpl) (ns : NamespaceId) (d : MemoryDomain) (bytes : UInt64) :
    Except Error Unit × RuntimeImpl :=
  match rt.ledger.commitAmount ns d bytes with
  | .ok l => (.ok (), { rt with ledger := l })
  | .error e => (.error e, rt)

def unreserveAmount (rt : RuntimeImpl) (ns : NamespaceId) (d : MemoryDomain) (bytes : UInt64) :
    RuntimeImpl :=
  { rt with ledger := rt.ledger.unreserveAmount ns d bytes }

def checkoutAmount (rt : RuntimeImpl) (ns : NamespaceId) (d : MemoryDomain) (bytes : UInt64) :
    RuntimeImpl :=
  { rt with ledger := rt.ledger.checkoutAmount ns d bytes }

def releaseAmount (rt : RuntimeImpl) (ns : NamespaceId) (d : MemoryDomain) (bytes : UInt64)
    (pooled : Bool) : RuntimeImpl :=
  { rt with ledger := rt.ledger.releaseAmount ns d bytes pooled }

def freeAccounting (rt : RuntimeImpl) (ns : NamespaceId) (d : MemoryDomain) (bytes : UInt64) :
    RuntimeImpl :=
  { rt with ledger := rt.ledger.freeAccounting ns d bytes }

/-- The number of live allocations of a namespace, `ns_allocs_[ns]`. -/
def allocCount (rt : RuntimeImpl) (ns : NamespaceId) : Nat := (rt.allocs.find? ns).getD 0

def reserveCount (rt : RuntimeImpl) (ns : NamespaceId) : Except Error Unit × RuntimeImpl :=
  let c := rt.allocCount ns
  let quota : UInt64 := ((rt.nss.find? ns).map (fun nsc => nsc.allocationCountQuota)).getD 0
  if quota ≠ 0 ∧ c ≥ quota.toNat then
    (.error ⟨.quotaExceeded, "allocation count quota exceeded"⟩,
      rt.count (fun t => { t with quotaRejections := t.quotaRejections + 1 }))
  else (.ok (), { rt with allocs := rt.allocs.insert ns (c + 1) })

def releaseCount (rt : RuntimeImpl) (ns : NamespaceId) : RuntimeImpl :=
  { rt with allocs := rt.allocs.insert ns (rt.allocCount ns - 1) }

/-! ## Identities, size classes and pool keys -/

def nextId (rt : RuntimeImpl) : BufferId × RuntimeImpl :=
  (⟨rt.idSeed ^^^ (rt.epoch &&& 0xFFFFFFFF), rt.idCounter⟩,
    { rt with idCounter := rt.idCounter + 1 })

/-- The loop `while (cls < bytes && cls < max) cls <<= 1`. A class doubles at most 48 times
before it reaches the largest size a request may have, so 64 rounds are enough. -/
def doubleClass (bytes max : UInt64) : Nat → UInt64 → UInt64
  | 0, cls => cls
  | fuel + 1, cls => if cls < bytes ∧ cls < max then doubleClass bytes max fuel (cls <<< 1) else cls

def sizeClassFor (rt : RuntimeImpl) (bytes : UInt64) : UInt64 :=
  let min := if rt.cfg.pool.minClassSize ≠ 0 then rt.cfg.pool.minClassSize else 4096
  let max := if rt.cfg.pool.maxClassSize ≠ 0 then rt.cfg.pool.maxClassSize else 256 * 1024 * 1024
  doubleClass bytes max 64 min

def makePoolKey (rt : RuntimeImpl) (r : Record) : PoolKey :=
  { domain := r.domain
    backend := r.backend
    device := r.device
    sizeClass := rt.sizeClassFor r.size
    alignment := if r.alignment ≠ 0 then r.alignment else 1
    exportable := r.flags.exportable }

/-! ## The pool -/

def poolTake (rt : RuntimeImpl) (key : PoolKey) (minCommitted : UInt64) :
    Option PoolSlot × RuntimeImpl :=
  match rt.pool.take key minCommitted with
  | none => (none, rt)
  | some (slot, pool) =>
      (some slot, { rt with pool := pool }.count (fun t => { t with poolHits := t.poolHits + 1 }))

/-- Pass a backing to `IDomain::free`, if the domain still has a backend. -/
def freeIn (rt : RuntimeImpl) (os : Os) (d : MemoryDomain) (a : NativeAllocation) : Os :=
  if (rt.domain d).isSome then os.free d a else os

/-- A slot of `sz` bytes would exceed the limits of the pool. -/
def poolFull (rt : RuntimeImpl) (sz : UInt64) : Bool :=
  rt.pool.objectCount ≥ rt.cfg.pool.maxObjects.toNat ∨
    rt.pool.idleBytes + sz > rt.cfg.pool.maxIdleBytes

/-- `pool_put`: whether the slot was kept. A slot over the limits is freed at once. -/
def poolPut (rt : RuntimeImpl) (os : Os) (key : PoolKey) (slot : PoolSlot) :
    Bool × RuntimeImpl × Os :=
  if rt.poolFull slot.backing.committed then
    (false, rt.count (fun t => { t with poolEvictions := t.poolEvictions + 1 }),
      rt.freeIn os key.domain slot.backing)
  else (true, { rt with pool := rt.pool.push key slot }, os)

/-- The body of the loop of `pool_trim`, for one slot. -/
def trimSlot (s : RuntimeImpl × Os) (e : PoolKey × PoolSlot) : RuntimeImpl × Os :=
  let committed := e.2.backing.committed
  let os := s.1.freeIn s.2 e.1.domain e.2.backing
  -- the allocated cell is lowered too, though the slot left it when it was released
  let rt := s.1.freeAccounting e.2.lastOwner e.1.domain committed
  ({ rt with pool := rt.pool.dropCounts committed }, os)

def poolTrim (rt : RuntimeImpl) (os : Os) : RuntimeImpl × Os :=
  let s := rt.pool.all.foldl trimSlot (rt, os)
  ({ s.1 with pool := s.1.pool.cleared }, s.2)

/-! ## Steps that only touch the statistics and the decision log -/

/-- `rt'` is `rt` with other statistics and another decision log; the numbers of allocations and
frees are the same. -/
structure Quiet (rt rt' : RuntimeImpl) : Prop where
  cfg : rt'.cfg = rt.cfg
  closed : rt'.closed = rt.closed
  registry : rt'.registry = rt.registry
  pool : rt'.pool = rt.pool
  domains : rt'.domains = rt.domains
  nss : rt'.nss = rt.nss
  ledger : rt'.ledger = rt.ledger
  allocs : rt'.allocs = rt.allocs
  idCounter : rt'.idCounter = rt.idCounter
  idSeed : rt'.idSeed = rt.idSeed
  epoch : rt'.epoch = rt.epoch
  deviceCuda : rt'.deviceCuda = rt.deviceCuda
  address : rt'.address = rt.address
  totalAllocations : rt'.telem.totalAllocations = rt.telem.totalAllocations
  totalFrees : rt'.telem.totalFrees = rt.telem.totalFrees

theorem Quiet.refl (rt : RuntimeImpl) : Quiet rt rt := by
  constructor <;> rfl

theorem Quiet.trans {rt rt' rt'' : RuntimeImpl} (h : Quiet rt rt') (h' : Quiet rt' rt'') :
    Quiet rt rt'' where
  cfg := h'.cfg.trans h.cfg
  closed := h'.closed.trans h.closed
  registry := h'.registry.trans h.registry
  pool := h'.pool.trans h.pool
  domains := h'.domains.trans h.domains
  nss := h'.nss.trans h.nss
  ledger := h'.ledger.trans h.ledger
  allocs := h'.allocs.trans h.allocs
  idCounter := h'.idCounter.trans h.idCounter
  idSeed := h'.idSeed.trans h.idSeed
  epoch := h'.epoch.trans h.epoch
  deviceCuda := h'.deviceCuda.trans h.deviceCuda
  address := h'.address.trans h.address
  totalAllocations := h'.totalAllocations.trans h.totalAllocations
  totalFrees := h'.totalFrees.trans h.totalFrees

/-- Counting something other than allocations and frees is quiet. -/
theorem quiet_count (rt : RuntimeImpl) (f : Telemetry → Telemetry)
    (ha : (f rt.telem).totalAllocations = rt.telem.totalAllocations)
    (hf : (f rt.telem).totalFrees = rt.telem.totalFrees) : Quiet rt (rt.count f) :=
  { Quiet.refl rt with totalAllocations := ha, totalFrees := hf }

theorem quiet_note (rt : RuntimeImpl) (event detail : String) :
    Quiet rt (rt.note event detail) := by
  constructor <;> rfl

/-- A change of the ledger on both sides. -/
theorem Quiet.mapLedger {rt rt' : RuntimeImpl} (h : Quiet rt rt') (f : Ledger → Ledger) :
    Quiet { rt with ledger := f rt.ledger } { rt' with ledger := f rt'.ledger } :=
  { h with ledger := congrArg f h.ledger }

theorem Quiet.freeIn {rt rt' : RuntimeImpl} (h : Quiet rt rt') : rt'.freeIn = rt.freeIn := by
  unfold RuntimeImpl.freeIn domain
  rw [h.domains]

theorem Quiet.makePoolKey {rt rt' : RuntimeImpl} (h : Quiet rt rt') :
    rt'.makePoolKey = rt.makePoolKey := by
  unfold RuntimeImpl.makePoolKey sizeClassFor
  rw [h.cfg]

theorem Quiet.poolFull {rt rt' : RuntimeImpl} (h : Quiet rt rt') : rt'.poolFull = rt.poolFull := by
  unfold RuntimeImpl.poolFull
  rw [h.pool, h.cfg]

theorem Quiet.releaseCount {rt rt' : RuntimeImpl} (h : Quiet rt rt') (ns : NamespaceId) :
    Quiet (rt.releaseCount ns) (rt'.releaseCount ns) := by
  have ha : (rt'.releaseCount ns).allocs = (rt.releaseCount ns).allocs := by
    simp only [RuntimeImpl.releaseCount, allocCount, h.allocs]
  exact { h with allocs := ha }

/-! ## What the helpers with two results do -/

/-- The allocation counts with one more allocation of `ns`. -/
def countedAllocs (rt : RuntimeImpl) (ns : NamespaceId) : AssocMap NamespaceId Nat :=
  rt.allocs.insert ns (rt.allocCount ns + 1)

theorem reserveCount_cases {rt rt' : RuntimeImpl} {ns : NamespaceId} {res : Except Error Unit}
    (h : rt.reserveCount ns = (res, rt')) :
    (∃ e, res = .error e ∧ Quiet rt rt') ∨
      (res = .ok () ∧ rt' = { rt with allocs := rt.countedAllocs ns }) := by
  unfold reserveCount at h
  simp only at h
  split at h
  · cases h
    exact Or.inl ⟨_, rfl, quiet_count rt _ rfl rfl⟩
  · cases h
    exact Or.inr ⟨rfl, rfl⟩

theorem reserveAmount_cases {rt rt' : RuntimeImpl} {ns : NamespaceId} {d : MemoryDomain}
    {bytes : UInt64} {res : Except Error Unit} (h : rt.reserveAmount ns d bytes = (res, rt')) :
    (∃ e, res = .error e ∧ Quiet rt rt' ∧
        rt.ledger.reserveAmount (rt.capFor d) (rt.domainQuota ns d) ns d bytes = .error e) ∨
      (∃ l, res = .ok () ∧ rt' = { rt with ledger := l } ∧
        rt.ledger.reserveAmount (rt.capFor d) (rt.domainQuota ns d) ns d bytes = .ok l) := by
  unfold reserveAmount at h
  cases hr : rt.ledger.reserveAmount (rt.capFor d) (rt.domainQuota ns d) ns d bytes with
  | ok l =>
      rw [hr] at h
      cases h
      exact Or.inr ⟨l, rfl, rfl, rfl⟩
  | error e =>
      rw [hr] at h
      cases h
      refine Or.inl ⟨e, rfl, ?_, rfl⟩
      split
      · exact quiet_count rt _ rfl rfl
      · exact Quiet.refl rt

theorem poolPut_cases {rt rt' : RuntimeImpl} {os os' : Os} {key : PoolKey} {slot : PoolSlot}
    {kept : Bool} (h : rt.poolPut os key slot = (kept, rt', os')) :
    (kept = false ∧ rt.poolFull slot.backing.committed = true ∧ Quiet rt rt' ∧
        os' = rt.freeIn os key.domain slot.backing) ∨
      (kept = true ∧ rt.poolFull slot.backing.committed = false ∧
        rt' = { rt with pool := rt.pool.push key slot } ∧ os' = os) := by
  unfold poolPut at h
  split at h
  · rename_i hfull
    cases h
    exact Or.inl ⟨rfl, hfull, quiet_count rt _ rfl rfl, rfl⟩
  · rename_i hroom
    cases h
    exact Or.inr ⟨rfl, Bool.eq_false_iff.mpr hroom, rfl, rfl⟩

/-- The two maps hold the same allocation counts. -/
def SameCounts (rt : RuntimeImpl) (allocs : AssocMap NamespaceId Nat) : Prop :=
  ∀ ns, (allocs.find? ns).getD 0 = rt.allocCount ns

/-- Giving the allocation count back restores the counts. -/
theorem sameCounts_release (rt : RuntimeImpl) (ns : NamespaceId) :
    rt.SameCounts ((rt.countedAllocs ns).insert ns
      (((rt.countedAllocs ns).find? ns).getD 0 - 1)) := by
  intro ns'
  rw [AssocMap.find?_insert, countedAllocs, AssocMap.find?_insert_self]
  by_cases h : ns = ns'
  · subst h
    rw [if_pos rfl]
    simp
  · rw [if_neg h, AssocMap.find?_insert_ne _ _ h]
    rfl

/-- Trimming only touches the ledger and the pool. -/
theorem foldl_trimSlot_frame (slots : List (PoolKey × PoolSlot)) (s : RuntimeImpl × Os) :
    (slots.foldl trimSlot s).1
      = { s.1 with
          ledger := (slots.foldl trimSlot s).1.ledger
          pool := (slots.foldl trimSlot s).1.pool } := by
  induction slots generalizing s with
  | nil => rfl
  | cons e slots ih =>
      rw [List.foldl_cons, ih (trimSlot s e)]
      rfl

/-- Trimming does not look at the closed flag. -/
theorem foldl_trimSlot_closed (slots : List (PoolKey × PoolSlot)) (s : RuntimeImpl × Os)
    (b : Bool) :
    slots.foldl trimSlot ({ s.1 with closed := b }, s.2)
      = ({ (slots.foldl trimSlot s).1 with closed := b }, (slots.foldl trimSlot s).2) := by
  induction slots generalizing s with
  | nil => rfl
  | cons e slots ih => exact ih (trimSlot s e)

theorem poolTrim_closed (rt : RuntimeImpl) (os : Os) (b : Bool) :
    RuntimeImpl.poolTrim { rt with closed := b } os
      = ({ (rt.poolTrim os).1 with closed := b }, (rt.poolTrim os).2) := by
  unfold poolTrim
  simp only
  rw [foldl_trimSlot_closed rt.pool.all (rt, os) b]

theorem poolTrim_frame (rt : RuntimeImpl) (os : Os) :
    (rt.poolTrim os).1
      = { rt with ledger := (rt.poolTrim os).1.ledger, pool := (rt.poolTrim os).1.pool } := by
  unfold poolTrim
  simp only
  rw [foldl_trimSlot_frame]

end RuntimeImpl

end UnifiedBuffer
