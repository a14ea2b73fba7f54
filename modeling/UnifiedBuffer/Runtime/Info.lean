import UnifiedBuffer.Runtime.State

set_option autoImplicit false

/-! # What the runtime tells about its backends

The capabilities that the backends advertise (`capabilities.hpp` and the `init` functions of the
backends), and the lists of backends, devices and domains of `stats.cpp`. -/

namespace UnifiedBuffer

/-! ## Capabilities -/

inductive Capability where
  | hostReadable
  | hostWritable
  | deviceReadable
  | deviceWritable
  | cpuMappable
  | deviceMappable
  | exportable
  | importable
  | shareableAcrossProcess
  | shareableAcrossDevice
  | persistent
  | pinned
  | coherent
  | asyncCopyable
  | pageable
  | directlyDmaCapable
  | supportsSuballocation
  | supportsExternalHandle
  | supportsZeroCopy
  | supportsExplicitFlush
  | supportsExplicitInvalidate
  deriving DecidableEq, Repr

/-- The bit of a capability in a set of capabilities. -/
def Capability.bit (c : Capability) : UInt64 := 1 <<< UInt64.ofNat c.ctorIdx

/-- A set of capabilities, one bit for each. -/
structure Capabilities where
  mask : UInt64 := 0
  deriving DecidableEq, Repr

def Capabilities.set (s : Capabilities) (c : Capability) : Capabilities := ⟨s.mask ||| c.bit⟩

def Capabilities.has (s : Capabilities) (c : Capability) : Bool := s.mask &&& c.bit ≠ 0

/-- The set that the `init` function of a backend builds. -/
def Capabilities.ofList (cs : List Capability) : Capabilities := cs.foldl Capabilities.set {}

def MemoryDomain.capabilities : MemoryDomain → Capabilities
  | .host => .ofList [.hostReadable, .hostWritable, .cpuMappable, .pageable, .exportable,
      .importable, .persistent, .coherent, .supportsSuballocation]
  | .pinnedHost => .ofList [.hostReadable, .hostWritable, .cpuMappable, .pinned,
      .directlyDmaCapable, .asyncCopyable]
  | .device => .ofList [.directlyDmaCapable, .hostReadable, .hostWritable, .deviceReadable,
      .deviceWritable, .asyncCopyable, .supportsExternalHandle]
  | .sharedHost => .ofList [.hostReadable, .hostWritable, .cpuMappable, .exportable, .importable,
      .shareableAcrossProcess, .coherent]
  | .mmapStorage => .ofList [.hostReadable, .hostWritable, .cpuMappable, .exportable, .importable,
      .persistent, .supportsExplicitFlush, .supportsExplicitInvalidate]

/-! ## Lists -/

structure BackendInfo where
  id : BackendId
  enabled : Bool := false
  domains : List MemoryDomain := []
  capabilities : Capabilities := {}
  deriving DecidableEq, Repr

structure DeviceInfo where
  backend : BackendId := .cuda
  index : Int := -1
  name : String := ""
  totalMemory : UInt64 := 0
  freeMemory : UInt64 := 0
  computeMajor : Int := 0
  computeMinor : Int := 0
  available : Bool := false
  deriving DecidableEq, Repr

/-- The backend of a domain that is not enabled is never set. -/
structure DomainInfo where
  domain : MemoryDomain
  backend : Option BackendId := none
  enabled : Bool := false
  capabilities : Capabilities := {}
  totalCapacity : UInt64 := 0
  free : UInt64 := 0
  deriving DecidableEq, Repr

namespace RuntimeImpl

def domainEnabled (rt : RuntimeImpl) (d : MemoryDomain) : Bool := (rt.domain d).isSome

def domainCaps (rt : RuntimeImpl) (d : MemoryDomain) : Capabilities :=
  if rt.domainEnabled d then d.capabilities else {}

/-- One entry of `backends_info`. The capabilities are those of the last domain that is enabled. -/
def backendInfo (rt : RuntimeImpl) (id : BackendId) (enabled : Bool) (doms : List MemoryDomain) :
    BackendInfo where
  id := id
  enabled := enabled
  domains := doms
  capabilities := doms.foldl (fun caps d => if rt.domainEnabled d then rt.domainCaps d else caps) {}

def backendsInfo (rt : RuntimeImpl) : List BackendInfo :=
  [rt.backendInfo .hostMalloc (rt.domainEnabled .host) [.host],
    rt.backendInfo .cuda (rt.domainEnabled .device) [.device, .pinnedHost],
    rt.backendInfo .winSharedFile (rt.domainEnabled .sharedHost) [.sharedHost],
    rt.backendInfo .fileBacked (rt.domainEnabled .mmapStorage) [.mmapStorage]]

/-- One entry of `domains_info`. Only the device reports how much memory is free. -/
def domainInfo (rt : RuntimeImpl) (deviceFree : UInt64) (d : MemoryDomain) : DomainInfo :=
  match rt.domain d with
  | none => { domain := d }
  | some dom =>
      let info : DomainInfo :=
        { domain := d, backend := some dom.backend, enabled := true, capabilities := d.capabilities }
      match dom.capacity with
      | .error _ => info
      | .ok total =>
          { info with
            totalCapacity := total
            free := if d = .device then deviceFree else 0 }

def domainsInfo (rt : RuntimeImpl) (deviceFree : UInt64) : List DomainInfo :=
  [.host, .pinnedHost, .device, .sharedHost, .mmapStorage].map (rt.domainInfo deviceFree)

end RuntimeImpl

end UnifiedBuffer
