import Mathlib.Tactic

set_option autoImplicit false

/-! # The data model

The enumerations, configuration records and metadata records of the runtime
(`core/types.hpp`, `core/identity.hpp`, `core/error.hpp`, `config.hpp`, `runtime.hpp`,
`export.hpp`, `backends/domain.hpp` and the records of `internal.hpp`).

Byte counts, alignments, capacities and quotas are `UInt64`: sums of them wrap, and the
admission checks are made on the wrapped sums. Identifiers, generations, reference and lease
counts and the statistics are counters that only ever step by one; they are `Nat` and `Int`.
An address is a `Nat`, and the null pointer is `0`.
-/

namespace UnifiedBuffer

/-! ## Enumerations -/

inductive MemoryDomain where
  | host
  | pinnedHost
  | device
  | sharedHost
  | mmapStorage
  deriving DecidableEq, Repr, Inhabited

/-- `to_string(MemoryDomain)`. -/
def MemoryDomain.toString : MemoryDomain → String
  | .host => "HOST"
  | .pinnedHost => "PINNED_HOST"
  | .device => "DEVICE"
  | .sharedHost => "SHARED_HOST"
  | .mmapStorage => "MMAP_STORAGE"

def MemoryDomain.all : List MemoryDomain :=
  [.host, .pinnedHost, .device, .sharedHost, .mmapStorage]

inductive BackendId where
  | hostMalloc
  | cuda
  | winSharedFile
  | fileBacked
  deriving DecidableEq, Repr, Inhabited

structure DeviceId where
  backend : BackendId := .hostMalloc
  index : Int := -1
  deriving DecidableEq, Repr, Inhabited

inductive AccessMode where
  | read
  | write
  | readWrite
  deriving DecidableEq, Repr, Inhabited

inductive BufferState where
  | declared
  | reserved
  | allocated
  | mapped
  | inUse
  | exporting
  | exported
  | importing
  | imported
  | copying
  | migrating
  | releasing
  | released
  | failed
  | quarantined
  | invalid
  deriving DecidableEq, Repr, Inhabited

inductive Ownership where
  | runtime
  | borrowed
  | adopted
  | imported
  | shared
  deriving DecidableEq, Repr, Inhabited

inductive ZeroingPolicy where
  | never
  | onAllocate
  | onRelease
  | onCrossOwnerReuse
  | always
  deriving DecidableEq, Repr, Inhabited

inductive LeaseKind where
  | read
  | write
  | exclusive
  deriving DecidableEq, Repr, Inhabited

inductive ExternalOwnership where
  | borrow
  | adopt
  | shared
  deriving DecidableEq, Repr, Inhabited

inductive ErrorCode where
  | invalidArgument
  | outOfCapacity
  | quotaExceeded
  | unsupportedDomain
  | unsupportedCapability
  | staleHandle
  | staleGeneration
  | leaseConflict
  | mappingFailure
  | backendFailure
  | deviceUnavailable
  | invalidDevice
  | alignmentError
  | boundsError
  | integrityFailure
  | importFailure
  | exportFailure
  | permissionFailure
  | timeout
  | resourceBusy
  | lifecycleViolation
  | overflow
  | notFound
  | alreadyExists
  | closed
  | stateInvalid
  | unknown
  deriving DecidableEq, Repr, Inhabited

structure Error where
  code : ErrorCode := .unknown
  message : String := ""
  deriving DecidableEq, Repr, Inhabited

/-- `Error(r.error())`: passing an error on keeps its code and drops its text. -/
def Error.passOn (e : Error) : Error := { code := e.code }

/-! ## Identity and configuration -/

/-- The 128-bit identity of a buffer. The low word is a counter that starts at `1`. -/
structure BufferId where
  hi : UInt64 := 0
  lo : Nat := 0
  deriving DecidableEq, Repr, Inhabited

def BufferId.null (id : BufferId) : Prop := id.hi = 0 ∧ id.lo = 0

abbrev BufferGeneration := Nat

abbrev NamespaceId := UInt64

def kDefaultNamespace : NamespaceId := 1

structure AllocationFlags where
  zeroOnAlloc : Bool := true
  pooled : Bool := true
  exportable : Bool := false
  numaHint : UInt8 := 0
  deriving DecidableEq, Repr, Inhabited

structure PoolConfig where
  enabled : Bool := true
  maxIdleBytes : UInt64 := 256 * 1024 * 1024
  maxObjects : UInt64 := 4096
  minClassSize : UInt64 := 4096
  maxClassSize : UInt64 := 256 * 1024 * 1024
  deriving DecidableEq, Repr, Inhabited

structure NamespaceConfig where
  name : String := ""
  hostQuota : UInt64 := 0
  pinnedQuota : UInt64 := 0
  deviceQuota : UInt64 := 0
  sharedQuota : UInt64 := 0
  fileQuota : UInt64 := 0
  allocationCountQuota : UInt64 := 0
  zeroing : ZeroingPolicy := .onCrossOwnerReuse
  allowImport : Bool := true
  deriving DecidableEq, Repr, Inhabited

/-- The byte quota of a namespace in a domain. -/
def NamespaceConfig.quota (nsc : NamespaceConfig) : MemoryDomain → UInt64
  | .host => nsc.hostQuota
  | .pinnedHost => nsc.pinnedQuota
  | .device => nsc.deviceQuota
  | .sharedHost => nsc.sharedQuota
  | .mmapStorage => nsc.fileQuota

structure RuntimeConfig where
  enableHost : Bool := true
  enableShared : Bool := true
  enableFile : Bool := true
  enablePool : Bool := true
  pool : PoolConfig := {}
  namespaces : List NamespaceConfig := []
  hostCapacityHint : UInt64 := 0
  hostCap : UInt64 := 0
  pinnedCap : UInt64 := 0
  deviceCap : UInt64 := 0
  sharedCap : UInt64 := 0
  fileCap : UInt64 := 0
  deriving DecidableEq, Repr, Inhabited

/-! ## Requests and descriptors -/

structure AllocationRequest where
  ns : NamespaceId := kDefaultNamespace
  domain : MemoryDomain := .host
  device : DeviceId := {}
  size : UInt64 := 0
  alignment : UInt64 := 0
  access : AccessMode := .readWrite
  flags : AllocationFlags := {}
  label : String := ""
  zeroing : Option ZeroingPolicy := none
  deriving DecidableEq, Repr, Inhabited

structure ExternalMemoryDesc where
  pointer : Nat := 0
  size : UInt64 := 0
  alignment : UInt64 := 0
  domain : MemoryDomain := .host
  device : DeviceId := {}
  ownership : ExternalOwnership := .borrow
  deriving DecidableEq, Repr, Inhabited

def kExportFormatVersion : UInt32 := 1

structure ExportDescriptor where
  formatVersion : UInt32 := kExportFormatVersion
  bufferId : BufferId := {}
  generation : BufferGeneration := 0
  ns : NamespaceId := kDefaultNamespace
  backend : BackendId := .hostMalloc
  domain : MemoryDomain := .host
  device : DeviceId := {}
  size : UInt64 := 0
  alignment : UInt64 := 0
  access : AccessMode := .readWrite
  handleKind : String := ""
  handle : String := ""
  integrityCrc : UInt32 := 0
  exportable : Bool := false
  writable : Bool := true
  policyVersion : UInt32 := 1
  label : String := ""
  deriving DecidableEq, Repr, Inhabited

/-! ## Backings

`NativeAllocation` is a struct of raw pointers, so a copy or a move of it says nothing about
which native allocation it stands for. The field `tag` is bookkeeping of the model: it names
the backend call that produced the memory, or the external memory it wraps. No function of
the runtime reads it. -/

/-- Where the memory behind a `NativeAllocation` comes from. -/
inductive AllocTag where
  /-- no memory -/
  | none
  /-- returned by the `serial`-th call of `IDomain::allocate` or `IDomain::import_handle` -/
  | native (serial : Nat)
  /-- memory of the caller, wrapped by `wrap_external` -/
  | external (ownership : ExternalOwnership)
  deriving DecidableEq, Repr, Inhabited

structure NativeAllocation where
  pointer : Nat := 0
  hostMap : Nat := 0
  size : UInt64 := 0
  committed : UInt64 := 0
  alignment : UInt64 := 0
  device : DeviceId := {}
  domain : MemoryDomain := .host
  backend : BackendId := .hostMalloc
  /-- `std::shared_ptr<void> state`: whether this copy owns the backend's state -/
  state : Bool := false
  tag : AllocTag := .none
  deriving DecidableEq, Repr, Inhabited

/-- `pointer != nullptr || host_map != nullptr`. -/
def NativeAllocation.present (a : NativeAllocation) : Bool := a.pointer ≠ 0 || a.hostMap ≠ 0

/-- The address the runtime copies from and to: `host_map ? host_map : pointer`. -/
def NativeAllocation.base (a : NativeAllocation) : Nat :=
  if a.hostMap ≠ 0 then a.hostMap else a.pointer

/-- What `std::move` leaves behind: the raw pointers stay, the shared state goes. -/
def NativeAllocation.movedFrom (a : NativeAllocation) : NativeAllocation :=
  { a with state := false }

/-! ## Records of the runtime -/

/-- `Record`: the metadata of one buffer. -/
structure Record where
  id : BufferId := {}
  generation : BufferGeneration := 0
  ns : NamespaceId := kDefaultNamespace
  domain : MemoryDomain := .host
  backend : BackendId := .hostMalloc
  device : DeviceId := {}
  size : UInt64 := 0
  committed : UInt64 := 0
  alignment : UInt64 := 0
  flags : AllocationFlags := {}
  access : AccessMode := .readWrite
  poolEligible : Bool := false
  ownership : Ownership := .runtime
  state : BufferState := .declared
  backing : NativeAllocation := {}
  pooled : Bool := false
  mapCount : Int := 0
  createdEpoch : UInt64 := 0
  label : String := ""
  metaCrc : UInt32 := 0
  deriving DecidableEq, Repr, Inhabited

/-- `Control`: the shared block the handles of one buffer point to. `finalizations` is
bookkeeping of the model: how often `finalize` has done its release work on this block. The other
counters, and `mapCount` of the record, are `int` in the source. -/
structure Control where
  record : Record := {}
  refs : Int := 0
  finalized : Bool := false
  readLeases : Int := 0
  writeLeases : Int := 0
  exclusiveLeases : Int := 0
  poolEligible : Bool := false
  finalizations : Nat := 0
  deriving DecidableEq, Repr, Inhabited

structure PoolSlot where
  backing : NativeAllocation
  originalId : BufferId
  lastOwner : NamespaceId
  deriving DecidableEq, Repr, Inhabited

structure PoolKey where
  domain : MemoryDomain
  backend : BackendId
  device : DeviceId
  sizeClass : UInt64
  alignment : UInt64
  exportable : Bool
  deriving DecidableEq, Repr, Inhabited

/-- `RuntimeImpl::Telemetry`. The fields from `hostBytes` on are filled in by `telemetry()`
from the accounting tables. -/
structure Telemetry where
  activeBuffers : Nat := 0
  totalAllocations : Nat := 0
  totalFrees : Nat := 0
  failedAllocations : Nat := 0
  bytesRequested : Nat := 0
  reservationFailures : Nat := 0
  poolHits : Nat := 0
  poolMisses : Nat := 0
  poolEvictions : Nat := 0
  exportCount : Nat := 0
  importCount : Nat := 0
  copyCount : Nat := 0
  bytesCopied : Nat := 0
  migrationCount : Nat := 0
  zeroCount : Nat := 0
  integrityChecks : Nat := 0
  integrityFailures : Nat := 0
  staleHandleRejections : Nat := 0
  staleGenerationRejections : Nat := 0
  quotaRejections : Nat := 0
  leaseConflicts : Nat := 0
  outstandingAllocations : Nat := 0
  mapCount : Nat := 0
  unmapCount : Nat := 0
  hostBytes : UInt64 := 0
  pinnedHostBytes : UInt64 := 0
  deviceBytes : UInt64 := 0
  sharedHostBytes : UInt64 := 0
  fileBackedBytes : UInt64 := 0
  bytesCommitted : UInt64 := 0
  peakBytes : UInt64 := 0
  pooledBytes : UInt64 := 0
  idlePooledBytes : UInt64 := 0
  deriving DecidableEq, Repr, Inhabited

end UnifiedBuffer
