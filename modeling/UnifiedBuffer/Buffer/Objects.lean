import UnifiedBuffer.Runtime.Core

set_option autoImplicit false

/-! # Handles, leases, maps and views

The move-only objects of `buffer.hpp` and the methods of `buffer.cpp`. Each object may hold a
pointer to the runtime (`rt`, here only whether it is set) and to a control block. -/

namespace UnifiedBuffer

structure BufferHandle where
  rt : Bool := false
  ctl : Option CtlId := none
  id : BufferId := {}
  gen : BufferGeneration := 0
  valid : Bool := false
  deriving DecidableEq, Repr, Inhabited

structure BufferLease where
  rt : Bool := false
  ctl : Option CtlId := none
  gen : BufferGeneration := 0
  kind : LeaseKind := .read
  deriving DecidableEq, Repr, Inhabited

structure BufferMap where
  rt : Bool := false
  ctl : Option CtlId := none
  gen : BufferGeneration := 0
  access : AccessMode := .read
  data : Nat := 0
  deriving DecidableEq, Repr, Inhabited

structure BufferView where
  rt : Bool := false
  ctl : Option CtlId := none
  gen : BufferGeneration := 0
  off : UInt64 := 0
  len : UInt64 := 0
  access : AccessMode := .read
  data : Nat := 0
  deriving DecidableEq, Repr, Inhabited

def validTransition : BufferState → BufferState → Bool
  | .declared, next => next ∈ [.reserved, .allocated, .failed, .invalid]
  | .reserved, next => next ∈ [.allocated, .released, .failed, .invalid]
  | .allocated, next =>
      next ∈ [.mapped, .copying, .inUse, .exporting, .releasing, .migrating, .released, .failed,
        .invalid]
  | .mapped, next => next ∈ [.allocated, .inUse, .copying, .releasing, .released, .failed, .invalid]
  | .inUse, next => next ∈ [.allocated, .copying, .releasing, .released, .failed, .invalid]
  | .exporting, next => next ∈ [.exported, .allocated, .failed]
  | .exported, next => next ∈ [.allocated, .released, .failed]
  | .importing, next => next ∈ [.imported, .failed, .invalid]
  | .imported, next => next ∈ [.allocated, .released, .failed, .invalid]
  | .copying, next => next ∈ [.allocated, .inUse, .released, .failed]
  | .migrating, next => next ∈ [.allocated, .failed]
  | .releasing, next => next ∈ [.released, .failed]
  | .released, next => next ∈ [.invalid]
  | .failed, next => next ∈ [.quarantined, .invalid]
  | .quarantined, next => next ∈ [.invalid]
  | .invalid, _ => false

/-! ## Validity of a handle -/

namespace BufferHandle

/-- `validate_alive`, with the control block it checked. -/
def validateAlive (h : BufferHandle) (c : Core) : Except Error CtlId :=
  match h.valid, h.ctl with
  | true, some k =>
      let ctl := c.control k
      if ctl.finalized then .error ⟨.staleHandle, "buffer has been finalized"⟩
      else if h.gen ≠ ctl.record.generation then .error ⟨.staleGeneration, "stale generation"⟩
      else if ctl.record.state = .released ∨ ctl.record.state = .quarantined
          ∨ ctl.record.state = .invalid then
        .error ⟨.staleHandle, "buffer is no longer valid"⟩
      else .ok k
  | _, _ => .error ⟨.staleHandle, "handle is not alive"⟩

/-- The handle refers to the block of a buffer that `validate_alive` accepts. -/
structure Live (h : BufferHandle) (c : Core) (k : CtlId) : Prop where
  valid : h.valid = true
  ctl : h.ctl = some k
  first : (c.control k).finalized = false
  gen : h.gen = (c.control k).record.generation
  state : ¬ ((c.control k).record.state = .released ∨ (c.control k).record.state = .quarantined
    ∨ (c.control k).record.state = .invalid)

theorem validateAlive_ok_iff {h : BufferHandle} {c : Core} {k : CtlId} :
    h.validateAlive c = .ok k ↔ h.Live c k := by
  constructor
  · intro hk
    unfold validateAlive at hk
    split at hk
    · rename_i j hvalid hctl
      simp only at hk
      split at hk
      · cases hk
      rename_i hfirst
      split at hk
      · cases hk
      rename_i hgen
      split at hk
      · cases hk
      rename_i hstate
      cases hk
      exact ⟨hvalid, hctl, Bool.eq_false_iff.mpr hfirst, not_not.mp hgen, hstate⟩
    · cases hk
  · rintro ⟨hvalid, hctl, hfirst, hgen, hstate⟩
    unfold validateAlive
    rw [hvalid, hctl]
    simp only [hfirst, Bool.false_eq_true, if_false, hgen, ne_eq, not_true_eq_false, hstate]

def ensureValid (h : BufferHandle) (c : Core) (want : AccessMode) : Except Error CtlId :=
  match h.validateAlive c with
  | .error e => .error e
  | .ok k =>
      -- `readWrite` access to a read-only buffer is not refused
      if want = .write ∧ (c.control k).record.access = .read then
        .error ⟨.permissionFailure, "write denied: buffer is read-only"⟩
      else .ok k

/-- `ensure_valid` on a live handle: the permission is all that is left to check. -/
theorem ensureValid_live {h : BufferHandle} {c : Core} {k : CtlId}
    (hk : h.validateAlive c = .ok k) (want : AccessMode) :
    h.ensureValid c want = if want = .write ∧ (c.control k).record.access = .read then
      .error ⟨.permissionFailure, "write denied: buffer is read-only"⟩ else .ok k := by
  unfold ensureValid
  rw [hk]

/-- The handle that the runtime returns for a control block. -/
def ofControl (c : Core) (k : CtlId) : BufferHandle :=
  { rt := true
    ctl := some k
    id := (c.control k).record.id
    gen := (c.control k).record.generation
    valid := true }

/-! ## Methods that return a new object -/

def share (h : BufferHandle) (c : Core) : Except Error BufferHandle × Core :=
  match h.validateAlive c with
  | .error e => (.error e.passOn, c)
  | .ok k =>
      (.ok { rt := h.rt, ctl := some k, id := h.id, gen := h.gen, valid := true }, c.retain k)

def view (h : BufferHandle) (c : Core) (offset len : UInt64) (access : AccessMode) :
    Except Error BufferView × Core :=
  match h.ensureValid c access with
  | .error e => (.error e.passOn, c)
  | .ok k =>
      let r := (c.control k).record
      if ¬ rangeInBounds offset len r.size then
        (.error ⟨.boundsError, "view: offset+length exceeds buffer"⟩, c)
      else if len = 0 then (.error ⟨.invalidArgument, "view: zero length"⟩, c)
      -- `ensure_valid` has made this check
      else if access = .write ∧ r.access = .read then
        (.error ⟨.permissionFailure, "view: write of read-only buffer"⟩, c)
      else
        let data := if r.backing.hostMap ≠ 0 then r.backing.hostMap + offset.toNat else 0
        (.ok { rt := h.rt, ctl := some k, gen := h.gen, off := offset, len := len,
               access := access, data := data },
          c.retain k)

/-- The record of a buffer that was mapped once more. -/
def mapOnce (r : Record) : Record :=
  { r with
    mapCount := r.mapCount + 1
    state := if validTransition r.state .mapped then .mapped else r.state }

def map (h : BufferHandle) (c : Core) (env : Env) (access : AccessMode) :
    Except Error BufferMap × Core :=
  match h.ensureValid c access with
  | .error e => (.error e.passOn, c)
  | .ok k =>
      let r := (c.control k).record
      if r.domain = .device then
        (.error ⟨.unsupportedCapability, "map: device memory is not CPU-mappable"⟩, c)
      else
        match c.rt.domain r.domain with
        | none => (.error ⟨.unsupportedDomain, "map: domain disabled"⟩, c)
        | some _ =>
            match env.map r.domain r.backing access with
            | .error e => (.error e.passOn, c)
            | .ok p =>
                (.ok { rt := h.rt, ctl := some k, gen := h.gen, access := access, data := p },
                  ((c.modifyRecord k mapOnce).retain k).count
                    (fun t => { t with mapCount := t.mapCount + 1 }))

/-- Does a lease of this kind conflict with the leases held? -/
def leaseConflicts (kind : LeaseKind) (ctl : Control) : Bool :=
  match kind with
  | .read => ctl.exclusiveLeases > 0 || ctl.writeLeases > 0
  | _ => ctl.exclusiveLeases > 0 || ctl.writeLeases > 0 || ctl.readLeases > 0

def conflictMessage : LeaseKind → String
  | .read => "read lease conflicts with write/exclusive"
  | .write => "write lease conflicts with active leases"
  | .exclusive => "exclusive lease conflicts with active leases"

/-- Count a lease. A read lease does not take a mapped buffer to `IN_USE`, the others do. -/
def leaseOnce (kind : LeaseKind) (ctl : Control) : Control :=
  let inUse : Bool :=
    match kind with
    | .read => ctl.record.state = .allocated
    | _ => ctl.record.state = .allocated || ctl.record.state = .mapped
  let ctl := { ctl with record := { ctl.record with
    state := if inUse then .inUse else ctl.record.state } }
  match kind with
  | .read => { ctl with readLeases := ctl.readLeases + 1 }
  | .write => { ctl with writeLeases := ctl.writeLeases + 1 }
  | .exclusive => { ctl with exclusiveLeases := ctl.exclusiveLeases + 1 }

/-- `acquire_read`, `acquire_write` and `acquire_exclusive`. -/
def acquire (kind : LeaseKind) (h : BufferHandle) (c : Core) : Except Error BufferLease × Core :=
  match h.validateAlive c with
  | .error e => (.error e.passOn, c)
  | .ok k =>
      -- the access mode of the buffer is not looked at
      if leaseConflicts kind (c.control k) then
        (.error ⟨.leaseConflict, conflictMessage kind⟩,
          c.count (fun t => { t with leaseConflicts := t.leaseConflicts + 1 }))
      else
        (.ok { rt := h.rt, ctl := some k, gen := h.gen, kind := kind },
          (c.modify k (leaseOnce kind)).retain k)

def acquireRead := acquire .read

def acquireWrite := acquire .write

def acquireExclusive := acquire .exclusive

/-! ## Contents -/

def verify (h : BufferHandle) (c : Core) (env : Env) : Except Error Unit × Core :=
  match h.validateAlive c with
  | .error e => (.error e.passOn, c)
  | .ok k =>
      let r := (c.control k).record
      let c := c.count (fun t => { t with integrityChecks := t.integrityChecks + 1 })
      let failed := c.count (fun t => { t with integrityFailures := t.integrityFailures + 1 })
      match c.rt.domain r.domain with
      | none => (.error ⟨.unsupportedDomain, "verify: domain disabled"⟩, c)
      | some _ =>
          if r.state = .released then (.error ⟨.staleHandle, "verify: buffer released"⟩, c)
          else
            match env.verify r.domain r.backing r.committed with
            | .error e => (.error e.passOn, failed)
            | .ok _ =>
                -- zero means that no checksum was taken
                if r.metaCrc ≠ 0 ∧ metaCrcOf r ≠ r.metaCrc then
                  (.error ⟨.integrityFailure, "verify: metadata checksum mismatch"⟩, failed)
                else (.ok (), c)

def checksum (h : BufferHandle) (c : Core) : Except Error UInt32 × Core :=
  match h.validateAlive c with
  | .error e => (.error e.passOn, c)
  | .ok k =>
      let r := (c.control k).record
      if r.domain = .device then
        (.error ⟨.unsupportedCapability, "checksum: device content requires a host round-trip"⟩, c)
      else if r.backing.base = 0 then
        (.error ⟨.stateInvalid, "checksum: no host backing"⟩, c)
      else
        (.ok (crc32c ((List.range r.size.toNat).map
            (fun i => c.os.bytes .host (r.backing.base + i))) 0),
          c.count (fun t => { t with integrityChecks := t.integrityChecks + 1 }))

/-- The end of `copy_to` and `copy_from`: the transfer and its statistics. -/
def transfer (c : Core) (env : Env) (dst src : Nat) (len : UInt64) (dstDev srcDev : Bool) :
    Except Error Unit × Core :=
  match c.os.copyMemory env dst src len dstDev srcDev with
  | (.error e, os) => (.error e, { c with os := os })
  | (.ok _, os) =>
      (.ok (), { c with os := os }.count (fun t =>
        { t with copyCount := t.copyCount + 1, bytesCopied := t.bytesCopied + len.toNat }))

def copyTo (h : BufferHandle) (c : Core) (env : Env) (dst : Nat) (dstOffset len : UInt64) :
    Except Error Unit × Core :=
  match h.ensureValid c .read with
  | .error e => (.error e.passOn, c)
  | .ok k =>
      let r := (c.control k).record
      if dst = 0 then (.error ⟨.invalidArgument, "copy_to: null dst"⟩, c)
      -- the offset is checked against the buffer, but it moves the destination
      else if dstOffset > r.size ∨ len > r.size - dstOffset then
        (.error ⟨.boundsError, "copy_to: length exceeds buffer"⟩, c)
      else if ¬ rangeInBounds 0 len r.committed then
        (.error ⟨.boundsError, "copy_to: length exceeds backing"⟩, c)
      else transfer c env (dst + dstOffset.toNat) r.backing.base len false (r.domain = .device)

def copyFrom (h : BufferHandle) (c : Core) (env : Env) (src : Nat) (srcOffset len : UInt64) :
    Except Error Unit × Core :=
  match h.ensureValid c .write with
  | .error e => (.error e.passOn, c)
  | .ok k =>
      let r := (c.control k).record
      if src = 0 then (.error ⟨.invalidArgument, "copy_from: null src"⟩, c)
      else if len > r.size then (.error ⟨.boundsError, "copy_from: length exceeds buffer"⟩, c)
      else if ¬ rangeInBounds 0 len r.committed then
        (.error ⟨.boundsError, "copy_from: length exceeds backing"⟩, c)
      else transfer c env r.backing.base (src + srcOffset.toNat) len (r.domain = .device) false

def devicePointer (h : BufferHandle) (c : Core) : Except Error Nat :=
  match h.validateAlive c with
  | .error e => .error e.passOn
  | .ok k =>
      let r := (c.control k).record
      if r.domain ≠ .device then
        .error ⟨.invalidArgument, "device_pointer: not a device buffer"⟩
      else .ok r.backing.pointer

/-! ## Release -/

def release (h : BufferHandle) (c : Core) (env : Env) : BufferHandle × Core :=
  match h.valid, h.ctl with
  | true, some k =>
      ({ h with valid := false, ctl := none }, if h.rt then c.dropRef env k else c)
  | _, _ => (h, c)

/-- `reset`, which the destructor and the move assignment run. -/
def reset (h : BufferHandle) (c : Core) (env : Env) : BufferHandle × Core :=
  let c :=
    match h.valid, h.ctl with
    | true, some k => if h.rt then c.dropRef env k else c
    | _, _ => c
  ({ h with valid := false, ctl := none, id := {}, gen := 0 }, c)

end BufferHandle

/-- What `release` of a lease does to the control block. -/
def unlease (kind : LeaseKind) (ctl : Control) : Control :=
  let ctl :=
    match kind with
    | .read => if ctl.readLeases > 0 then { ctl with readLeases := ctl.readLeases - 1 } else ctl
    | .write => if ctl.writeLeases > 0 then { ctl with writeLeases := ctl.writeLeases - 1 } else ctl
    | .exclusive =>
        if ctl.exclusiveLeases > 0 then { ctl with exclusiveLeases := ctl.exclusiveLeases - 1 }
        else ctl
  if ctl.readLeases = 0 ∧ ctl.writeLeases = 0 ∧ ctl.exclusiveLeases = 0
      ∧ ctl.record.state = .inUse then
    { ctl with record := { ctl.record with state := .allocated } }
  else ctl

theorem unlease_refs (kind : LeaseKind) (ctl : Control) :
    (unlease kind ctl).refs = ctl.refs ∧ (unlease kind ctl).finalized = ctl.finalized := by
  cases kind <;> simp only [unlease] <;> split <;> split <;> exact ⟨rfl, rfl⟩

def BufferLease.release (l : BufferLease) (c : Core) (env : Env) : BufferLease × Core :=
  match l.ctl with
  | none => (l, c)
  | some k =>
      ({ l with ctl := none },
        if l.rt then (c.modify k (unlease l.kind)).dropRef env k else c)

/-- What `release` of a map does to the record. -/
def unmapOnce (r : Record) : Record :=
  let r := if r.mapCount > 0 then { r with mapCount := r.mapCount - 1 } else r
  if r.mapCount = 0 ∧ r.state = .mapped then { r with state := .allocated } else r

/-- `release` of a map. `unmap` of the backends does nothing. -/
def BufferMap.release (m : BufferMap) (c : Core) (env : Env) : BufferMap × Core :=
  match m.ctl with
  | none => (m, c)
  | some k =>
      ({ m with ctl := none, data := 0 },
        if m.rt then
          ((c.modifyRecord k unmapOnce).count
            (fun t => { t with unmapCount := t.unmapCount + 1 })).dropRef env k
        else c)

def BufferView.release (v : BufferView) (c : Core) (env : Env) : BufferView × Core :=
  match v.ctl with
  | none => (v, c)
  | some k => ({ v with ctl := none, data := 0 }, if v.rt then c.dropRef env k else c)

end UnifiedBuffer
