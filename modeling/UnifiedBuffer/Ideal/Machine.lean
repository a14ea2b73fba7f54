import Mathlib.Data.Set.Basic
import UnifiedBuffer.Buffer.World

set_option autoImplicit false

/-! # The ideal machine

What the runtime is for, without its machinery. There are buffers, and there are objects that refer
to them: a buffer is there as long as an object refers to it, and it is in use as long as a lease
does. There are no reference counts, no registry, no counters of leases, no states of buffers, no
pool, no accounting and no memory.

An operation has a set of outcomes (`State.allowed`). Most have one. An operation that needs memory
or a backend may fail as well; it says nothing then and leaves everything as it is. -/

namespace UnifiedBuffer

open Lib

namespace Ideal

/-- A buffer, as its users know it. -/
structure Buffer where
  id : BufferId := {}
  generation : BufferGeneration := 1
  ns : NamespaceId := kDefaultNamespace
  domain : MemoryDomain := .host
  backend : BackendId := .hostMalloc
  device : DeviceId := {}
  size : UInt64 := 0
  alignment : UInt64 := 0
  access : AccessMode := .readWrite
  exportable : Bool := false
  label : String := ""
  deriving DecidableEq, Repr, Inhabited

/-- What an object lets its owner do. -/
inductive Kind where
  | handle
  | lease (kind : LeaseKind)
  | map (access : AccessMode)
  | view (offset len : UInt64) (access : AccessMode)
  deriving DecidableEq, Repr

/-- An object of the program. It refers to a buffer, with the generation it was made for, or to
nothing. -/
structure Object where
  kind : Kind
  target : Option (Nat × BufferGeneration) := none
  deriving DecidableEq, Repr

/-- The object without its reference. -/
def Object.emptied (o : Object) : Object := { o with target := none }

/-- Only objects of one class are assigned to each other. -/
def Kind.sameClass : Kind → Kind → Bool
  | .handle, .handle => true
  | .lease _, .lease _ => true
  | .map _, .map _ => true
  | .view _ _ _, .view _ _ _ => true
  | _, _ => false

/-- All buffers that were ever made, and all objects. -/
structure State where
  buffers : List Buffer := []
  objects : List Object := []
  closed : Bool := false
  /-- the domains that are enabled -/
  backends : MemoryDomain → Option IDomain
  namespaces : AssocMap NamespaceId NamespaceConfig
  /-- the device that a buffer moves to -/
  device : Int

namespace State

/-! ## Objects and buffers -/

def buffer (s : State) (k : Nat) : Buffer := s.buffers.getD k {}

/-- An object of one of these kinds refers to the buffer. -/
def refers (s : State) (k : Nat) (kinds : Kind → Bool) : Bool :=
  s.objects.any fun o => kinds o.kind && o.target.map Prod.fst = some k

def leased (s : State) (k : Nat) (kind : LeaseKind) : Bool := s.refers k (· = .lease kind)

/-- Would a lease of this kind be in conflict with another one? -/
def contested (s : State) (k : Nat) (kind : LeaseKind) : Bool :=
  s.leased k .exclusive || s.leased k .write || (kind ≠ .read && s.leased k .read)

/-- The buffer with an identity, as long as an object refers to it. -/
def find (s : State) (id : BufferId) : Option Nat :=
  (List.range s.buffers.length).find? fun k =>
    (s.buffer k).id = id && s.refers k fun _ => true

/-- The buffer that a handle gives access to: none if the handle is empty or if the buffer has
moved since it was made. -/
def reach (s : State) (i : Nat) : Except ErrorCode Nat :=
  match s.objects[i]? with
  | some ⟨.handle, some (k, gen)⟩ =>
      if gen = (s.buffer k).generation then .ok k else .error .staleGeneration
  | _ => .error .staleHandle

/-- The same for an operation that asks for access. Only `write` is ever refused. -/
def reachFor (s : State) (i : Nat) (access : AccessMode) : Except ErrorCode Nat :=
  match s.reach i with
  | .error code => .error code
  | .ok k =>
      if access = .write ∧ (s.buffer k).access = .read then .error .permissionFailure else .ok k

/-! ## Outcomes -/

/-- The reply of an operation, and the state after it. -/
abbrev Outcome := Except Error Reply × State

def silent (code : ErrorCode) : Error := ⟨code, ""⟩

def fails (s : State) (e : Error) : Set Outcome := {(.error e, s)}

/-- The operation may fail, for a reason that it does not tell. -/
def mayFail (s : State) : Set Outcome := {out | ∃ code, out = (.error (silent code), s)}

def replies (s : State) (reply : Reply) : Set Outcome := {(.ok reply, s)}

/-- A new object that refers to a buffer. -/
def hands (s : State) (kind : Kind) (k : Nat) : Set Outcome :=
  {(.ok (.object s.objects.length),
    { s with objects := s.objects ++ [⟨kind, some (k, (s.buffer k).generation)⟩] })}

/-- A new buffer with an identity that no other one has, and a handle to it. -/
def creates (s : State) (make : BufferId → Buffer) : Set Outcome :=
  {out | ∃ id, id ∉ s.buffers.map Buffer.id ∧
    out = (.ok (.object s.objects.length),
      { s with
        buffers := s.buffers ++ [make id]
        objects := s.objects ++ [⟨.handle, some (s.buffers.length, (make id).generation)⟩] })}

def becomes (s : State) (reply : Reply) (objects : List Object) : Set Outcome :=
  {(.ok reply, { s with objects := objects })}

/-- An operation on the buffer of a handle. -/
def withBuffer (s : State) (i : Nat) (f : Nat → Set Outcome) : Set Outcome :=
  match s.reach i with
  | .error code => s.fails (silent code)
  | .ok k => f k

/-- An operation on the buffer of a handle that asks for access. -/
def withAccess (s : State) (i : Nat) (access : AccessMode) (f : Nat → Set Outcome) : Set Outcome :=
  match s.reachFor i access with
  | .error code => s.fails (silent code)
  | .ok k => f k

/-! ## New buffers -/

/-- What is wrong with a request, or the buffer that it asks for. -/
def request (s : State) (req : AllocationRequest) : Except ErrorCode (BufferId → Buffer) :=
  if req.size = 0 ∨ req.size > (1 : UInt64) <<< 48 then .error .invalidArgument
  else
    match s.backends req.domain with
    | none => .error .unsupportedDomain
    | some dom =>
        let alignment := RuntimeImpl.requestAlignment dom req
        if ¬ isPowerOfTwo alignment ∨ alignment > 4096 then .error .alignmentError
        else if req.domain = .device ∧ req.device.index < 0 then .error .invalidDevice
        else .ok fun id =>
          { id := id
            ns := req.ns
            domain := req.domain
            backend := dom.backend
            device := if req.domain = .device then req.device else ⟨dom.backend, -1⟩
            size := req.size
            alignment := alignment
            access := req.access
            exportable := req.flags.exportable
            label := req.label }

/-- The same for memory of the program. -/
def wrapping (s : State) (desc : ExternalMemoryDesc) : Except ErrorCode (BufferId → Buffer) :=
  if s.closed then .error .closed
  else if desc.pointer = 0 ∨ desc.size = 0 then .error .invalidArgument
  else
    match s.backends desc.domain with
    | none => .error .unsupportedDomain
    | some dom => .ok fun id =>
        { id := id
          domain := desc.domain
          backend := dom.backend
          device := desc.device
          size := desc.size
          alignment := if desc.alignment ≠ 0 then desc.alignment else 64
          access := if desc.ownership = .borrow then .read else .readWrite }

/-- The namespaces let the descriptor in. -/
def permits (s : State) (desc : ExportDescriptor) (ns : NamespaceId) : Except ErrorCode Unit :=
  match s.namespaces.find? ns with
  | none => .error .importFailure
  | some target =>
      if ((s.namespaces.find? desc.ns).map (fun src => !src.allowImport)).getD false
          ∨ target.allowImport = false ∨ desc.ns ≠ ns then .error .permissionFailure
      else .ok ()

/-- What is wrong with a descriptor. -/
def importing (s : State) (desc : ExportDescriptor) (ns : NamespaceId) : Except ErrorCode Unit :=
  if s.closed then .error .closed
  else if desc.formatVersion ≠ kExportFormatVersion ∨ desc.size = 0
      ∨ desc.size > (1 : UInt64) <<< 48 ∨ (desc.alignment ≠ 0 ∧ ¬ isPowerOfTwo desc.alignment) then
    .error .importFailure
  else s.permits desc ns

/-- The buffer that a descriptor of a segment gives. -/
def imported (desc : ExportDescriptor) (ns : NamespaceId) (label : String) (id : BufferId) :
    Buffer where
  id := id
  ns := ns
  domain := desc.domain
  backend := desc.backend
  device := desc.device
  size := desc.size
  alignment := if desc.alignment ≠ 0 then desc.alignment else 64
  access := desc.access
  label := label

end State

/-- The descriptor of a buffer, without the handle of its memory. -/
def Buffer.descriptor (b : Buffer) : ExportDescriptor where
  bufferId := b.id
  generation := b.generation
  ns := b.ns
  backend := b.backend
  domain := b.domain
  device := b.device
  size := b.size
  alignment := b.alignment
  access := b.access
  exportable := true
  writable := b.access ≠ .read
  label := b.label
  integrityCrc := metaCrcOf
    { id := b.id, generation := b.generation, domain := b.domain, size := b.size
      alignment := b.alignment }

namespace State

def migrated (s : State) (k : Nat) (target : MemoryDomain) (dom : IDomain) : Buffer :=
  { s.buffer k with
    generation := (s.buffer k).generation + 1
    domain := target
    backend := dom.backend
    device := if target = .device then ⟨.cuda, if s.device ≥ 0 then s.device else 0⟩
      else ⟨dom.backend, -1⟩ }

/-- The class of an object that is constructed empty. -/
def constructed : Obj → Object
  | .handle _ => { kind := .handle }
  | .lease _ => { kind := .lease .read }
  | .map _ => { kind := .map .read }
  | .view _ => { kind := .view 0 0 .read }

/-! ## The operations -/

/-- The import of a descriptor that is in order. -/
def takesIn (s : State) (desc : ExportDescriptor) (ns : NamespaceId) (label : String) :
    Set Outcome :=
  match Core.handleKind desc.domain with
  | some _ =>
      match s.backends desc.domain with
      | none => s.fails (silent .unsupportedDomain)
      | some _ => s.mayFail ∪ s.creates (imported desc ns label)
  | none =>
      -- only a buffer that is still there, and has not moved, can be imported again
      match s.find desc.bufferId with
      | some k =>
          if desc.handleKind = "local" ∧ desc.generation = (s.buffer k).generation then
            s.hands .handle k
          else s.fails (silent .importFailure)
      | none => s.fails (silent .importFailure)

/-- The export of a buffer. The handle of the descriptor is left open. -/
def givesOut (s : State) (k : Nat) : Set Outcome :=
  let b := s.buffer k
  if b.exportable = false then s.fails ⟨.permissionFailure, "export: buffer not exportable"⟩
  else
    match s.backends b.domain, Core.handleKind b.domain with
    | none, _ => s.fails ⟨.unsupportedDomain, "export: domain disabled"⟩
    | some _, some kind =>
        s.mayFail ∪
          ⋃ name, s.replies (.descriptor { b.descriptor with handleKind := kind, handle := name })
    | some _, none =>
        ⋃ name, s.replies (.descriptor { b.descriptor with handleKind := "local", handle := name })

/-- The migration of a buffer. Only the leases that write stand in its way. -/
def moves (s : State) (k : Nat) (target : MemoryDomain) : Set Outcome :=
  if s.closed then s.fails (silent .closed)
  else if (s.buffer k).domain = target then s.hands .handle k
  else if s.leased k .write || s.leased k .exclusive then s.fails (silent .leaseConflict)
  else
    match s.backends target with
    | none => s.fails (silent .unsupportedDomain)
    | some dom =>
        s.mayFail ∪ hands { s with buffers := s.buffers.set k (s.migrated k target dom) } .handle k

/-- What an operation may do. -/
def allowed (s : State) : Op → Set Outcome
  | .allocate _ req =>
      if s.closed then s.fails ⟨.closed, "runtime is closed"⟩
      else
        match s.request req with
        | .error code => s.fails (silent code)
        | .ok make => s.mayFail ∪ s.creates make
  | .wrapExternal desc =>
      match s.wrapping desc with
      | .error code => s.fails (silent code)
      | .ok make => s.mayFail ∪ s.creates make
  | .importBuffer _ desc ns label =>
      match s.importing desc ns with
      | .error code => s.fails (silent code)
      | .ok _ => s.takesIn desc ns label
  | .exportBuffer _ i => s.withBuffer i s.givesOut
  | .migrate _ i target => s.withBuffer i fun k => s.moves k target
  | .share i => s.withBuffer i (s.hands .handle)
  | .view i offset len access => s.withAccess i access fun k =>
      if (s.buffer k).size.toNat < offset.toNat + len.toNat then
        s.fails ⟨.boundsError, "view: offset+length exceeds buffer"⟩
      else if len = 0 then s.fails ⟨.invalidArgument, "view: zero length"⟩
      else s.hands (.view offset len access) k
  | .map _ i access => s.withAccess i access fun k =>
      if (s.buffer k).domain = .device then
        s.fails ⟨.unsupportedCapability, "map: device memory is not CPU-mappable"⟩
      else
        match s.backends (s.buffer k).domain with
        | none => s.fails ⟨.unsupportedDomain, "map: domain disabled"⟩
        | some _ => s.mayFail ∪ s.hands (.map access) k
  | .acquire kind i => s.withBuffer i fun k =>
      if s.contested k kind then s.fails ⟨.leaseConflict, BufferHandle.conflictMessage kind⟩
      else s.hands (.lease kind) k
  | .verify _ i => s.withBuffer i fun k =>
      match s.backends (s.buffer k).domain with
      | none => s.fails ⟨.unsupportedDomain, "verify: domain disabled"⟩
      | some _ => s.mayFail ∪ s.replies .done
  | .checksum i => s.withBuffer i fun k =>
      if (s.buffer k).domain = .device then
        s.fails ⟨.unsupportedCapability, "checksum: device content requires a host round-trip"⟩
      else
        s.fails ⟨.stateInvalid, "checksum: no host backing"⟩ ∪ ⋃ crc, s.replies (.checksum crc)
  | .copyTo _ i dst dstOffset len => s.withBuffer i fun k =>
      if dst = 0 then s.fails ⟨.invalidArgument, "copy_to: null dst"⟩
      else if (s.buffer k).size.toNat < dstOffset.toNat + len.toNat then
        s.fails ⟨.boundsError, "copy_to: length exceeds buffer"⟩
      else (⋃ e, s.fails e) ∪ s.replies .done
  | .copyFrom _ i src _ len => s.withAccess i .write fun k =>
      if src = 0 then s.fails ⟨.invalidArgument, "copy_from: null src"⟩
      else if (s.buffer k).size < len then
        s.fails ⟨.boundsError, "copy_from: length exceeds buffer"⟩
      else (⋃ e, s.fails e) ∪ s.replies .done
  | .construct o => s.becomes (.object s.objects.length) (s.objects ++ [constructed o])
  | .move src =>
      match s.objects[src]? with
      | none => s.replies .done
      | some o => s.becomes (.object s.objects.length) (s.objects.set src o.emptied ++ [o])
  | .moveAssign _ dst src =>
      match s.objects[dst]?, s.objects[src]? with
      | some o, some o' =>
          if dst = src ∨ ¬ o.kind.sameClass o'.kind then s.replies .done
          else s.becomes .done ((s.objects.set src o'.emptied).set dst o')
      | _, _ => s.replies .done
  -- the reference goes, and with the last one the buffer
  | .release _ i | .destroy _ i => s.becomes .done (s.objects.modify i Object.emptied)
  -- no reference, no buffer: there is never anything to invalidate
  | .invalidate _ id =>
      match s.find id with
      | some _ => s.fails ⟨.resourceBusy, "finalize_by_id: buffer still has references"⟩
      | none => s.fails ⟨.staleHandle, "finalize_by_id: not found"⟩
  | .poolTrim => s.replies .done
  | .shutdown _ =>
      if s.closed then s.replies .done
      else {(.ok .done, { s with closed := true, backends := fun _ => none })}
  | .createNamespace nsc =>
      {(.ok .done, { s with namespaces := RuntimeImpl.addNamespace s.namespaces nsc })}

end State

end Ideal

end UnifiedBuffer
