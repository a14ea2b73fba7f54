import UnifiedBuffer.Runtime.Allocate
import UnifiedBuffer.Runtime.Finalize
import UnifiedBuffer.Runtime.Migrate

set_option autoImplicit false

/-! # The runtime with its control blocks

`Core` puts the runtime, the memory behind it and all control blocks ever created together:
`register_control`, `retain`, `drop_ref`, `finalize_by_id`, `lookup`, `wrap_external` and
`shutdown` of `runtime.cpp`, and `export_descriptor` and `import_descriptor` of `export.cpp`.
A control block stays in the list after its finalization; the registry no longer refers to it
then.
-/

namespace UnifiedBuffer

open Lib

structure Core where
  rt : RuntimeImpl
  os : Os := {}
  ctls : List Control := []

/-- What `import_handle` answers to the descriptor. -/
def Env.opened (env : Env) (desc : ExportDescriptor) : Except Error NativeAllocation :=
  env.importHandle desc.domain desc.handle desc.size
    (if desc.alignment ≠ 0 then desc.alignment else 64)

namespace Core

def control (c : Core) (k : CtlId) : Control := c.ctls.getD k {}

theorem control_get (c : Core) {k : CtlId} (hk : k < c.ctls.length) :
    c.ctls[k]? = some (c.control k) := by
  unfold control
  rw [List.getD_eq_getElem?_getD, List.getElem?_eq_getElem hk, Option.getD_some]

/-- The block is one of a buffer that is not finalized. -/
def Alive (c : Core) (k : CtlId) : Prop := k < c.ctls.length ∧ (c.control k).finalized = false

theorem control_congr {c c' : Core} (h : c'.ctls = c.ctls) (k : CtlId) :
    c'.control k = c.control k := by
  unfold control
  rw [h]

theorem alive_congr {c c' : Core} (h : c'.ctls = c.ctls) (k : CtlId) :
    c'.Alive k ↔ c.Alive k := by
  unfold Alive
  rw [control_congr h, h]

def modify (c : Core) (k : CtlId) (f : Control → Control) : Core :=
  { c with ctls := c.ctls.modify k f }

def modifyRecord (c : Core) (k : CtlId) (f : Record → Record) : Core :=
  c.modify k (fun ctl => { ctl with record := f ctl.record })

def count (c : Core) (f : Telemetry → Telemetry) : Core := { c with rt := c.rt.count f }

/-- Writing a control block back as it is. -/
theorem set_control (c : Core) (k : CtlId) : c.ctls.set k (c.control k) = c.ctls := by
  unfold control
  by_cases hk : k < c.ctls.length
  · rw [List.getD_eq_getElem?_getD, List.getElem?_eq_getElem hk, Option.getD_some,
      List.set_getElem_self hk]
  · exact List.set_eq_of_length_le (Nat.le_of_not_lt hk)

/-- The block that was changed. -/
theorem control_modify (c : Core) {k : CtlId} (f : Control → Control) (hk : k < c.ctls.length) :
    (c.modify k f).control k = f (c.control k) := by
  unfold control modify
  simp only [List.getD_eq_getElem?_getD, List.getElem?_modify, List.getElem?_eq_getElem hk]
  simp

/-- The blocks after one of them was written. -/
theorem control_of_set {c c' : Core} {k : CtlId} {ctl : Control} (h : c'.ctls = c.ctls.set k ctl)
    (hk : k < c.ctls.length) (j : CtlId) :
    c'.control j = if j = k then ctl else c.control j := by
  unfold control
  rw [h, List.getD_eq_getElem?_getD, List.getD_eq_getElem?_getD, List.getElem?_set]
  by_cases hkj : k = j
  · subst hkj
    simp [hk]
  · simp [hkj, Ne.symm hkj]

/-- New blocks leave the old ones alone. -/
theorem control_of_append {c c' : Core} {l : List Control} (h : c'.ctls = c.ctls ++ l) {j : CtlId}
    (hj : j < c.ctls.length) : c'.control j = c.control j := by
  unfold control
  rw [h, List.getD_eq_getElem?_getD, List.getD_eq_getElem?_getD, List.getElem?_append_left hj]

/-- The other blocks. -/
theorem control_modify_ne (c : Core) {k j : CtlId} (f : Control → Control) (hj : j ≠ k) :
    (c.modify k f).control j = c.control j := by
  unfold control modify
  simp only [List.getD_eq_getElem?_getD, List.getElem?_modify, Ne.symm hj, if_false, id_map']

/-! ## References -/

def register (c : Core) (r : Record) : CtlId × Core :=
  let k := c.ctls.length
  let (ctl, rt) := c.rt.registerControl k r
  (k, { c with rt := rt, ctls := c.ctls ++ [ctl] })

/-- The blocks after a new one was added. -/
theorem control_register (c : Core) (r : Record) (j : CtlId) :
    (c.register r).2.control j
      = if j = c.ctls.length then { record := r, poolEligible := r.poolEligible }
        else c.control j := by
  unfold control register RuntimeImpl.registerControl
  simp only [List.getD_eq_getElem?_getD]
  by_cases hnew : j = c.ctls.length
  · rw [if_pos hnew, hnew, List.getElem?_append_right (Nat.le_refl _), Nat.sub_self]
    rfl
  · rw [if_neg hnew]
    rcases Nat.lt_or_gt_of_ne hnew with hlt | hgt
    · rw [List.getElem?_append_left hlt]
    · rw [List.getElem?_eq_none (by simpa using hgt), List.getElem?_eq_none (Nat.le_of_lt hgt)]

theorem alive_register {c : Core} {r : Record} {j : CtlId} (h : (c.register r).2.Alive j) :
    j = c.ctls.length ∨ c.Alive j := by
  obtain ⟨hlt, hfin⟩ := h
  by_cases hnew : j = c.ctls.length
  · exact Or.inl hnew
  · rw [control_register, if_neg hnew] at hfin
    have hlen : (c.register r).2.ctls.length = c.ctls.length + 1 := List.length_append
    rw [hlen] at hlt
    exact Or.inr ⟨Nat.lt_of_le_of_ne (Nat.le_of_lt_succ hlt) hnew, hfin⟩

def retain (c : Core) (k : CtlId) : Core :=
  c.modify k (fun ctl => { ctl with refs := ctl.refs + 1 })

def finalize (c : Core) (env : Env) (k : CtlId) (returnToPool : Bool) : Core :=
  let (ctl, rt, os) := c.rt.finalize c.os env (c.control k) returnToPool
  { rt := rt, os := os, ctls := c.ctls.set k ctl }

/-- A finalized block stays so. -/
theorem finalize_finalized {c : Core} (env : Env) {k : CtlId} (hk : k < c.ctls.length)
    (halive : (c.control k).finalized = false) :
    ((c.finalize env k true).control k).finalized = true := by
  obtain ⟨_, _, _, _, hctl, -⟩ := c.rt.finalize_first c.os env true halive
  have hset : (c.finalize env k true).ctls
      = c.ctls.set k (c.rt.finalize c.os env (c.control k) true).1 := rfl
  rw [control_of_set hset hk k, if_pos rfl, hctl]
  rfl

/-- `drop_ref`: the drop that takes the count from one to zero finalizes. -/
def dropRef (c : Core) (env : Env) (k : CtlId) : Core :=
  let prev := (c.control k).refs
  let c := c.modify k (fun ctl => { ctl with refs := ctl.refs - 1 })
  if prev = 1 then c.finalize env k true else c

/-- `finalize_by_id`. With no references left, the code would call `finalize` while it holds the
mutex that `finalize` takes again; a registered buffer always has a reference, so this branch is
never reached. -/
def finalizeById (c : Core) (env : Env) (id : BufferId) : Except Error Unit × Core :=
  match c.rt.registry.find? id with
  | none => (.error ⟨.staleHandle, "finalize_by_id: not found"⟩, c)
  | some k =>
      if (c.control k).refs > 0 then
        (.error ⟨.resourceBusy, "finalize_by_id: buffer still has references"⟩, c)
      else if (c.control k).finalized then (.ok (), c)
      else (.ok (), (c.modify k (fun ctl => { ctl with refs := 0 })).finalize env k true)

def lookup (c : Core) (id : BufferId) (expectGen : BufferGeneration) : Except Error CtlId × Core :=
  match c.rt.registry.find? id with
  | none =>
      (.error ⟨.staleHandle, "lookup: unknown buffer id"⟩,
        c.count (fun t => { t with staleHandleRejections := t.staleHandleRejections + 1 }))
  | some k =>
      if expectGen ≠ (c.control k).record.generation then
        (.error ⟨.staleGeneration, "lookup: generation mismatch"⟩,
          c.count (fun t => { t with staleGenerationRejections := t.staleGenerationRejections + 1 }))
      else (.ok k, c)

/-! ## Creation of buffers -/

/-- `allocate_record` and `register_control`. -/
def allocate (c : Core) (env : Env) (req : AllocationRequest) : Except Error CtlId × Core :=
  match c.rt.allocateRecord c.os env req with
  | (.error e, rt, os) => (.error e.passOn, { c with rt := rt, os := os })
  | (.ok r, rt, os) =>
      let (k, c) := { c with rt := rt, os := os }.register r
      (.ok k, c)

/-- The record of wrapped memory. -/
def externalRecord (dom : IDomain) (desc : ExternalMemoryDesc) (id : BufferId) : Record :=
  let alignment := if desc.alignment ≠ 0 then desc.alignment else 64
  { id := id
    generation := 1
    ns := kDefaultNamespace
    domain := desc.domain
    backend := dom.backend
    device := desc.device
    size := desc.size
    committed := desc.size
    alignment := alignment
    access := if desc.ownership = .borrow then .read else .readWrite
    ownership :=
      match desc.ownership with
      | .borrow => .borrowed
      | .adopt => .adopted
      | .shared => .shared
    flags := { zeroOnAlloc := false, pooled := false }
    state := .allocated
    backing :=
      { pointer := desc.pointer
        hostMap := desc.pointer
        size := desc.size
        committed := desc.size
        alignment := alignment
        domain := desc.domain
        backend := dom.backend
        device := desc.device
        tag := .external desc.ownership } }

def wrapExternal (c : Core) (desc : ExternalMemoryDesc) : Except Error CtlId × Core :=
  if c.rt.closed then (.error ⟨.closed, "runtime is closed"⟩, c)
  else if desc.pointer = 0 ∨ desc.size = 0 then
    (.error ⟨.invalidArgument, "wrap_external: null pointer or zero size"⟩, c)
  else
    match c.rt.domain desc.domain with
    | none => (.error ⟨.unsupportedDomain, "wrap_external: domain not enabled"⟩, c)
    | some dom =>
        -- wrapped memory takes an allocation of the default namespace, but none of its bytes
        match c.rt.reserveCount kDefaultNamespace with
        | (.error e, rt) => (.error e.passOn, { c with rt := rt })
        | (.ok _, rt) =>
            let (id, rt) := rt.nextId
            let (k, c) := { c with rt := rt }.register (externalRecord dom desc id)
            (.ok k, c)

/-! ## Export and import -/

/-- The two domains whose memory has a name that another process can open. -/
def handleKind : MemoryDomain → Option String
  | .sharedHost => some "shared"
  | .mmapStorage => some "file"
  | _ => none

/-- `export_descriptor`. The handle of a local descriptor is the address of the runtime. -/
def exportDescriptor (c : Core) (env : Env) (k : CtlId) : Except Error ExportDescriptor × Core :=
  let r := (c.control k).record
  if r.flags.exportable = false then
    (.error ⟨.permissionFailure, "export: buffer not exportable"⟩, c)
  else
    let d : ExportDescriptor :=
      { bufferId := r.id
        generation := r.generation
        ns := r.ns
        backend := r.backend
        domain := r.domain
        device := r.device
        size := r.size
        alignment := r.alignment
        access := r.access
        exportable := true
        writable := r.access ≠ .read
        label := r.label
        integrityCrc := metaCrcOf r }
    let done := fun d : ExportDescriptor =>
      (.ok d,
        { c with
          rt := (c.rt.count (fun t => { t with exportCount := t.exportCount + 1 })).note "export"
            (r.domain.toString ++ " id=" ++ toString r.id.lo) })
    match c.rt.domain r.domain with
    | none => (.error ⟨.unsupportedDomain, "export: domain disabled"⟩, c)
    | some _ =>
        match handleKind r.domain with
        | some kind =>
            match env.exportHandle r.domain r.backing with
            | .error e => (.error e.passOn, c)
            | .ok h => done { d with handleKind := kind, handle := h }
        | none => done { d with handleKind := "local", handle := toString c.rt.address }

/-- The record of an imported buffer before its backing is known. -/
def importRecord (env : Env) (desc : ExportDescriptor) (ns : NamespaceId) (label : String)
    (id : BufferId) : Record :=
  { id := id
    generation := 1
    ns := ns
    domain := desc.domain
    backend := desc.backend
    device := desc.device
    size := desc.size
    committed := desc.size
    alignment := if desc.alignment ≠ 0 then desc.alignment else 64
    access := desc.access
    ownership := .imported
    label := label
    createdEpoch := env.now
    state := .imported
    flags := { zeroOnAlloc := false, pooled := false } }

/-- The checks of `import_descriptor` on the descriptor and the namespaces. -/
def checkImport (c : Core) (desc : ExportDescriptor) (ns : NamespaceId) : Except Error Unit :=
  if desc.formatVersion ≠ kExportFormatVersion then
    .error ⟨.importFailure, "import: unsupported format version"⟩
  else if desc.size = 0 then .error ⟨.importFailure, "import: zero size"⟩
  else if desc.size > (1 : UInt64) <<< 48 then .error ⟨.importFailure, "import: impossible size"⟩
  else if desc.alignment ≠ 0 ∧ ¬ isPowerOfTwo desc.alignment then
    .error ⟨.importFailure, "import: bad alignment"⟩
  else
    match c.rt.namespaceInfo ns with
    | none => .error ⟨.importFailure, "import: unknown namespace"⟩
    | some target =>
        -- a source namespace that this runtime does not know disallows nothing
        if ((c.rt.namespaceInfo desc.ns).map (fun src => !src.allowImport)).getD false then
          .error ⟨.permissionFailure, "import: source namespace disallows import"⟩
        else if target.allowImport = false then
          .error ⟨.permissionFailure, "import: target namespace disallows import"⟩
        else if desc.ns ≠ ns then
          .error ⟨.permissionFailure, "import: cross-namespace import not authorized"⟩
        else .ok ()

def noteImport (rt : RuntimeImpl) (desc : ExportDescriptor) (r : Record) : RuntimeImpl :=
  -- a descriptor with a wrong checksum is logged and accepted
  let rt :=
    if desc.integrityCrc ≠ 0 ∧ desc.integrityCrc ≠ metaCrcOf r then
      rt.note "import-meta-crc-mismatch" (toString desc.bufferId.lo)
    else rt
  (rt.count (fun t => { t with importCount := t.importCount + 1 })).note "import"
    (desc.domain.toString ++ " id=" ++ toString r.id.lo)

theorem noteImport_quiet (rt : RuntimeImpl) (desc : ExportDescriptor) (r : Record) :
    RuntimeImpl.Quiet rt (noteImport rt desc r) := by
  unfold noteImport
  split <;> constructor <;> rfl

/-- The import of a shared or file-backed segment. A segment that is too small is dropped with the
local variable that holds it and not passed to `free`. -/
def importSegment (c : Core) (env : Env) (desc : ExportDescriptor) (r : Record) :
    Except Error CtlId × Core :=
  match c.rt.domain desc.domain with
  | none => (.error ⟨.unsupportedDomain, "import: domain disabled"⟩, c)
  | some _ =>
      match c.os.importHandle env desc.domain desc.handle desc.size
          (if desc.alignment ≠ 0 then desc.alignment else 64) with
      | (.error e, os) => (.error e.passOn, { c with os := os })
      | (.ok na, os) =>
          if na.committed < desc.size then
            (.error ⟨.importFailure, "import: segment smaller than declared"⟩, { c with os := os })
          else
            let r := { r with backing := na }
            let (k, c) := { c with rt := noteImport c.rt desc r, os := os }.register r
            (.ok k, c)

def importDescriptor (c : Core) (env : Env) (desc : ExportDescriptor) (ns : NamespaceId)
    (label : String) : Except Error CtlId × Core :=
  if c.rt.closed then (.error ⟨.closed, "runtime is closed"⟩, c)
  else
    match c.checkImport desc ns with
    | .error e => (.error e, c)
    | .ok _ =>
        -- an import that fails, or that finds the buffer in this runtime, uses up an identity too
        let (id, rt) := c.rt.nextId
        let c := { c with rt := rt }
        if (handleKind desc.domain).isSome then
          c.importSegment env desc (importRecord env desc ns label id)
        else if desc.handleKind = "local" then
          match c.lookup desc.bufferId desc.generation with
          | (.error _, c) =>
              (.error ⟨.importFailure, "import: local descriptor from a different runtime; host import requires shared memory"⟩, c)
          | (.ok k, c) => (.ok k, c.count (fun t => { t with importCount := t.importCount + 1 }))
        else (.error ⟨.importFailure, "import: unsupported handle kind"⟩, c)

/-! ## Migration, trimming and shutdown -/

/-- `migrate` on a control block. -/
def migrate (c : Core) (env : Env) (k : CtlId) (target : MemoryDomain) : Except Error Unit × Core :=
  let (res, ctl, rt, os) := c.rt.migrate c.os env (c.control k) target
  (res, { rt := rt, os := os, ctls := c.ctls.set k ctl })

def poolTrim (c : Core) : Core :=
  let (rt, os) := c.rt.poolTrim c.os
  { c with rt := rt, os := os }

theorem poolTrim_all (c : Core) : c.poolTrim.rt.pool.all = [] := Pool.cleared_all _

/-- The end of `shutdown`: the pool is trimmed and the backends are destroyed. -/
def closeDown (c : Core) : Core :=
  let c := c.poolTrim
  { c with rt := { c.rt with domains := fun _ => none } }

def finalizeIdle (env : Env) (c : Core) (k : CtlId) : Core :=
  if (c.control k).refs = 0 then c.finalize env k true else c

def shutdown (c : Core) (env : Env) : Core :=
  if c.rt.closed then c
  else
    -- a buffer that still has a reference is left to its last owner
    let todo := c.rt.registry.entries.map Prod.snd
    let c := { c with rt := { c.rt with closed := true } }
    (todo.foldl (finalizeIdle env) c).closeDown

def createNamespace (c : Core) (nsc : NamespaceConfig) : Core :=
  { c with rt := c.rt.createNamespace nsc }

end Core

end UnifiedBuffer
