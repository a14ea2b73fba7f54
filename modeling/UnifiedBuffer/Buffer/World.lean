import UnifiedBuffer.Buffer.Objects

set_option autoImplicit false

/-! # Programs that use the runtime

A program holds handles, leases, maps and views and calls the public operations of
`runtime.hpp` and `buffer.hpp` on them. `World` is the runtime together with these objects,
`Op` a public operation with the answers its backends give, and `World.step` what the operation
does and returns.

An object stays in the list after its destruction, as an empty one: nothing distinguishes the
two for the runtime.
-/

namespace UnifiedBuffer

/-- An object of the program that can hold a reference to a buffer. -/
inductive Obj where
  | handle (h : BufferHandle)
  | lease (l : BufferLease)
  | map (m : BufferMap)
  | view (v : BufferView)
  deriving DecidableEq, Repr

namespace Obj

def release (o : Obj) (c : Core) (env : Env) : Obj × Core :=
  match o with
  | .handle h => let (h, c) := h.release c env; (.handle h, c)
  | .lease l => let (l, c) := l.release c env; (.lease l, c)
  | .map m => let (m, c) := m.release c env; (.map m, c)
  | .view v => let (v, c) := v.release c env; (.view v, c)

/-- The destructor, which a move assignment runs on its target first. -/
def reset (o : Obj) (c : Core) (env : Env) : Obj × Core :=
  match o with
  | .handle h => let (h, c) := h.reset c env; (.handle h, c)
  | o => o.release c env

/-- What a move leaves in its source. -/
def movedFrom : Obj → Obj
  | .handle h => .handle { h with rt := false, ctl := none, valid := false }
  | .lease l => .lease { l with rt := false, ctl := none }
  | .map m => .map { m with rt := false, ctl := none }
  | .view v => .view { v with rt := false, ctl := none }

def sameClass : Obj → Obj → Bool
  | .handle _, .handle _ => true
  | .lease _, .lease _ => true
  | .map _, .map _ => true
  | .view _, .view _ => true
  | _, _ => false

end Obj

structure World where
  core : Core
  objs : List Obj := []

/-- What a successful operation returns. -/
inductive Reply where
  | done
  /-- a new object, by its position -/
  | object (i : Nat)
  | descriptor (d : ExportDescriptor)
  | checksum (crc : UInt32)
  deriving DecidableEq, Repr

/-- The public operations. Objects are given by their position. -/
inductive Op where
  | allocate (env : Env) (req : AllocationRequest)
  | wrapExternal (desc : ExternalMemoryDesc)
  | importBuffer (env : Env) (desc : ExportDescriptor) (ns : NamespaceId) (label : String)
  | exportBuffer (env : Env) (i : Nat)
  | migrate (env : Env) (i : Nat) (target : MemoryDomain)
  | share (i : Nat)
  | view (i : Nat) (offset len : UInt64) (access : AccessMode)
  | map (env : Env) (i : Nat) (access : AccessMode)
  | acquire (kind : LeaseKind) (i : Nat)
  | verify (env : Env) (i : Nat)
  | checksum (i : Nat)
  | copyTo (env : Env) (i : Nat) (dst : Nat) (dstOffset len : UInt64)
  | copyFrom (env : Env) (i : Nat) (src : Nat) (srcOffset len : UInt64)
  /-- default construction of an object -/
  | construct (o : Obj)
  /-- move construction -/
  | move (src : Nat)
  | moveAssign (env : Env) (dst src : Nat)
  | release (env : Env) (i : Nat)
  | destroy (env : Env) (i : Nat)
  | invalidate (env : Env) (id : BufferId)
  | poolTrim
  | shutdown (env : Env)
  | createNamespace (nsc : NamespaceConfig)

namespace World

def init (cfg : RuntimeConfig) (plat : RuntimeImpl.Platform) : World :=
  { core := { rt := RuntimeImpl.init cfg plat } }

/-- The handle at a position; a position that holds none stands for an empty handle. -/
def handle (w : World) (i : Nat) : BufferHandle :=
  match w.objs[i]? with
  | some (.handle h) => h
  | _ => {}

/-- The result of an operation that returns a new object. -/
def give (w : World) {α : Type} (wrap : α → Obj) (p : Except Error α × Core) :
    Except Error Reply × World :=
  match p with
  | (.error e, c) => (.error e, { w with core := c })
  | (.ok a, c) => (.ok (.object w.objs.length), { core := c, objs := w.objs ++ [wrap a] })

/-- The result of an operation that returns a control block: retain it and hand out a handle. -/
def giveHandle (w : World) (p : Except Error CtlId × Core) : Except Error Reply × World :=
  match p with
  | (.error e, c) => (.error e.passOn, { w with core := c })
  | (.ok k, c) =>
      (.ok (.object w.objs.length),
        { core := c.retain k, objs := w.objs ++ [.handle (.ofControl c k)] })

/-- The result of an operation that returns no object. -/
def answer (w : World) {α : Type} (reply : α → Reply) (p : Except Error α × Core) :
    Except Error Reply × World :=
  (p.1.map reply, { w with core := p.2 })

def allocate (w : World) (env : Env) (req : AllocationRequest) : Except Error Reply × World :=
  if w.core.rt.closed then (.error ⟨.closed, "runtime is closed"⟩, w)
  else w.giveHandle (w.core.allocate env req)

def migrate (w : World) (env : Env) (i : Nat) (target : MemoryDomain) :
    Except Error Reply × World :=
  match (w.handle i).validateAlive w.core with
  | .error e => (.error e.passOn, w)
  | .ok k =>
      match w.core.migrate env k target with
      | (.error e, c) => (.error e.passOn, { w with core := c })
      | (.ok _, c) => w.giveHandle (.ok k, c)

def exportBuffer (w : World) (env : Env) (i : Nat) : Except Error Reply × World :=
  match (w.handle i).validateAlive w.core with
  | .error e => (.error e.passOn, w)
  | .ok k => w.answer .descriptor (w.core.exportDescriptor env k)

def releaseAt (w : World) (env : Env) (i : Nat) : World :=
  match w.objs[i]? with
  | none => w
  | some o => let (o, c) := o.release w.core env; { core := c, objs := w.objs.set i o }

def destroyAt (w : World) (env : Env) (i : Nat) : World :=
  match w.objs[i]? with
  | none => w
  | some o => let (o, c) := o.reset w.core env; { core := c, objs := w.objs.set i o }

def moveFrom (w : World) (src : Nat) : Except Error Reply × World :=
  match w.objs[src]? with
  | none => (.ok .done, w)
  | some o =>
      (.ok (.object w.objs.length), { w with objs := w.objs.set src o.movedFrom ++ [o] })

/-- Move assignment. Assigning an object to itself does nothing. -/
def moveAssign (w : World) (env : Env) (dst src : Nat) : World :=
  match w.objs[dst]?, w.objs[src]? with
  | some o, some o' =>
      if dst = src ∨ ¬ o.sameClass o' then w
      else
        let w := w.destroyAt env dst
        { w with objs := (w.objs.set src o'.movedFrom).set dst o' }
  | _, _ => w

/-- An object without a reference: only such an object can be constructed directly. -/
def empty : Obj → Obj
  | .handle _ => .handle {}
  | .lease _ => .lease {}
  | .map _ => .map {}
  | .view _ => .view {}

/-- A public operation: what it returns and the state after it. -/
def step (w : World) : Op → Except Error Reply × World
  | .allocate env req => w.allocate env req
  | .wrapExternal desc => w.giveHandle (w.core.wrapExternal desc)
  | .importBuffer env desc ns label => w.giveHandle (w.core.importDescriptor env desc ns label)
  | .exportBuffer env i => w.exportBuffer env i
  | .migrate env i target => w.migrate env i target
  | .share i => w.give .handle ((w.handle i).share w.core)
  | .view i offset len access => w.give .view ((w.handle i).view w.core offset len access)
  | .map env i access => w.give .map ((w.handle i).map w.core env access)
  | .acquire kind i => w.give .lease ((w.handle i).acquire kind w.core)
  | .verify env i => w.answer (fun _ => .done) ((w.handle i).verify w.core env)
  | .checksum i => w.answer .checksum ((w.handle i).checksum w.core)
  | .copyTo env i dst dstOffset len =>
      w.answer (fun _ => .done) ((w.handle i).copyTo w.core env dst dstOffset len)
  | .copyFrom env i src srcOffset len =>
      w.answer (fun _ => .done) ((w.handle i).copyFrom w.core env src srcOffset len)
  | .construct o => (.ok (.object w.objs.length), { w with objs := w.objs ++ [empty o] })
  | .move src => w.moveFrom src
  | .moveAssign env dst src => (.ok .done, w.moveAssign env dst src)
  | .release env i => (.ok .done, w.releaseAt env i)
  | .destroy env i => (.ok .done, w.destroyAt env i)
  | .invalidate env id => w.answer (fun _ => .done) (w.core.finalizeById env id)
  | .poolTrim => (.ok .done, { w with core := w.core.poolTrim })
  | .shutdown env => (.ok .done, { w with core := w.core.shutdown env })
  | .createNamespace nsc => (.ok .done, { w with core := w.core.createNamespace nsc })

def next (w : World) (op : Op) : World := (w.step op).2

end World

end UnifiedBuffer
