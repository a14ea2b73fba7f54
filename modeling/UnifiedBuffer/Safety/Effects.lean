import UnifiedBuffer.Inventory.Custody
import UnifiedBuffer.Safety.RefCount

set_option autoImplicit false

/-! # What a public operation can do to the buffers

Most steps of an operation only keep books (`Core.Booked`) or change what is counted in a control
block (`Control.SameBuffer`). The others are few: a buffer is created, migrated or finalized, bytes
are copied, the pool is trimmed, the backends are closed. `World.Effects` is the rule that follows:
what holds of the runtime before an operation and is kept by each of these holds after it. -/

namespace UnifiedBuffer

open Lib

/-! ## Steps that leave every buffer alone -/

/-- The two blocks differ at most in what is counted: references, leases and maps, and the state
that follows from them. -/
structure Control.SameBuffer (ctl ctl' : Control) : Prop where
  record : ctl'.record
    = { ctl.record with state := ctl'.record.state, mapCount := ctl'.record.mapCount }
  finalized : ctl'.finalized = ctl.finalized

theorem sameBuffer_mapOnce (ctl : Control) :
    ctl.SameBuffer { ctl with record := BufferHandle.mapOnce ctl.record } := ⟨rfl, rfl⟩

theorem sameBuffer_unmapOnce (ctl : Control) :
    ctl.SameBuffer { ctl with record := unmapOnce ctl.record } := by
  refine ⟨?_, rfl⟩
  unfold unmapOnce
  simp only
  split <;> split <;> rfl

theorem sameBuffer_leaseOnce (kind : LeaseKind) (ctl : Control) :
    ctl.SameBuffer (BufferHandle.leaseOnce kind ctl) := by
  cases kind <;> exact ⟨rfl, rfl⟩

theorem sameBuffer_unlease (kind : LeaseKind) (ctl : Control) :
    ctl.SameBuffer (unlease kind ctl) := by
  unfold unlease
  cases kind <;> simp only <;> split <;> split <;> exact ⟨rfl, rfl⟩

theorem Control.SameBuffer.refl (ctl : Control) : ctl.SameBuffer ctl := ⟨rfl, rfl⟩

namespace Core

theorem sameBuffer_modify (c : Core) (k : CtlId) {f : Control → Control}
    (hf : ∀ ctl : Control, ctl.SameBuffer (f ctl)) (j : CtlId) :
    (c.control j).SameBuffer ((c.modify k f).control j) := by
  by_cases hjk : j = k
  · subst hjk
    by_cases hj : j < c.ctls.length
    · rw [c.control_modify f hj]
      exact hf _
    · have hsame : (c.modify j f).control j = c.control j := by
        unfold control modify
        rw [List.modify_eq_self (Nat.le_of_not_lt hj)]
      rw [hsame]
      exact .refl _
  · rw [c.control_modify_ne f hjk]
    exact .refl _

/-- The backings that were freed, latest first. -/
def freed (c : Core) : List Backing := c.os.calls.filterMap BackendCall.frees

/-- Only books have changed: the accounting, the counters, the decision log, the identities in use
and the log of backend calls, in which nothing is freed. -/
structure Booked (c c' : Core) : Prop where
  cfg : c'.rt.cfg = c.rt.cfg
  address : c'.rt.address = c.rt.address
  closed : c'.rt.closed = c.rt.closed
  pool : c'.rt.pool = c.rt.pool
  domains : c'.rt.domains = c.rt.domains
  nss : c'.rt.nss = c.rt.nss
  bytes : c'.os.bytes = c.os.bytes
  ctls : c'.ctls = c.ctls
  freed : c'.freed = c.freed
  grown : c.os.calls <:+ c'.os.calls

theorem Booked.refl (c : Core) : c.Booked c :=
  ⟨rfl, rfl, rfl, rfl, rfl, rfl, rfl, rfl, rfl, List.suffix_rfl⟩

theorem Booked.trans {c c' c'' : Core} (h : c.Booked c') (h' : c'.Booked c'') : c.Booked c'' :=
  ⟨h'.cfg.trans h.cfg, h'.address.trans h.address, h'.closed.trans h.closed,
    h'.pool.trans h.pool, h'.domains.trans h.domains, h'.nss.trans h.nss,
    h'.bytes.trans h.bytes, h'.ctls.trans h.ctls, h'.freed.trans h.freed, h.grown.trans h'.grown⟩

theorem Booked.control {c c' : Core} (h : c.Booked c') (k : CtlId) :
    c'.control k = c.control k := by
  unfold Core.control
  rw [h.ctls]

theorem booked_of_quiet {c c' : Core} (hq : RuntimeImpl.Quiet c.rt c'.rt)
    (hb : c'.os.bytes = c.os.bytes) (hc : c'.ctls = c.ctls) (hcalls : c'.os.calls = c.os.calls) :
    c.Booked c' :=
  ⟨hq.cfg, hq.address, hq.closed, hq.pool, hq.domains, hq.nss, hb, hc,
    congrArg (List.filterMap BackendCall.frees) hcalls, hcalls ▸ List.suffix_rfl⟩

theorem booked_count (c : Core) (f : Telemetry → Telemetry) : c.Booked (c.count f) :=
  ⟨rfl, rfl, rfl, rfl, rfl, rfl, rfl, rfl, rfl, List.suffix_rfl⟩

/-- Only statistics and the decision log have changed. -/
structure Noted (c c' : Core) : Prop extends c.Booked c' where
  quiet : RuntimeImpl.Quiet c.rt c'.rt
  calls : c'.os.calls = c.os.calls

theorem noted_of_idle {c c' : Core} (h : c.Idle c') (hb : c'.os.bytes = c.os.bytes) :
    c.Noted c' :=
  { booked_of_quiet h.quiet hb h.ctls h.calls with quiet := h.quiet, calls := h.calls }

theorem noted_count (c : Core) (f : Telemetry → Telemetry)
    (ha : (f c.rt.telem).totalAllocations = c.rt.telem.totalAllocations)
    (hf : (f c.rt.telem).totalFrees = c.rt.telem.totalFrees) : c.Noted (c.count f) :=
  { booked_count c f with quiet := RuntimeImpl.quiet_count c.rt f ha hf, calls := rfl }

end Core

section Noted

variable (h : BufferHandle) (c : Core) (env : Env)

theorem verify_noted : c.Noted (h.verify c env).2 := by
  refine Core.noted_of_idle (verify_idle h c env) ?_
  unfold BufferHandle.verify
  simp only
  repeat' split
  all_goals rfl

theorem checksum_noted : c.Noted (h.checksum c).2 := by
  refine Core.noted_of_idle (checksum_idle h c) ?_
  unfold BufferHandle.checksum
  simp only
  repeat' split
  all_goals rfl

theorem exportDescriptor_noted (k : CtlId) : c.Noted (c.exportDescriptor env k).2 := by
  refine Core.noted_of_idle (exportDescriptor_idle c env k) ?_
  unfold Core.exportDescriptor
  simp only
  repeat' split
  all_goals rfl

end Noted

/-! ## Buffers from outside -/

namespace Core

/-- The results of `wrap_external` and `import_descriptor`: a failure, a registered block, or a new
block whose record has the property `P`. -/
inductive Brings (c : Core) (P : Record → Prop) : Except Error CtlId × Core → Prop
  | failed {e : Error} {c' : Core} (booked : c.Booked c') : Brings c P (.error e, c')
  | known {k : CtlId} {c' : Core} (booked : c.Booked c') : Brings c P (.ok k, c')
  | fresh {c₁ : Core} {r : Record} (booked : c.Booked c₁) (made : P r) :
      Brings c P (.ok (c₁.register r).1, (c₁.register r).2)

/-- The record of memory that `desc` describes. -/
def Wraps (desc : ExternalMemoryDesc) (r : Record) : Prop :=
  desc.pointer ≠ 0 ∧ desc.size ≠ 0 ∧ ∃ dom id, r = externalRecord dom desc id

theorem wrapExternal_brings (c : Core) (desc : ExternalMemoryDesc) :
    c.Brings (Wraps desc) (c.wrapExternal desc) := by
  unfold Core.wrapExternal
  split
  · exact .failed (.refl c)
  split
  · exact .failed (.refl c)
  rename_i hdesc
  cases c.rt.domain desc.domain with
  | none => exact .failed (.refl c)
  | some dom =>
      simp only
      cases hr : c.rt.reserveCount kDefaultNamespace with
      | mk res rt₁ =>
          rcases RuntimeImpl.reserveCount_cases hr with ⟨e, rfl, hq⟩ | ⟨rfl, rfl⟩
          · exact .failed (booked_of_quiet hq rfl rfl rfl)
          · exact .fresh ⟨rfl, rfl, rfl, rfl, rfl, rfl, rfl, rfl, rfl, List.suffix_rfl⟩
              ⟨fun h => hdesc (Or.inl h), fun h => hdesc (Or.inr h), dom, _, rfl⟩

/-- The record of a segment that the backend opened for `desc`. -/
def Opens (env : Env) (desc : ExportDescriptor) (ns : NamespaceId) (label : String) (os : Os)
    (r : Record) : Prop :=
  desc.size ≠ 0 ∧ ∃ id a, env.importHandle desc.domain desc.handle desc.size
      (if desc.alignment ≠ 0 then desc.alignment else 64) = .ok a ∧ desc.size ≤ a.committed ∧
    r = { importRecord env desc ns label id with backing := os.stamp a }

theorem checkImport_size {c : Core} {desc : ExportDescriptor} {ns : NamespaceId}
    (h : c.checkImport desc ns = .ok ()) : desc.size ≠ 0 := by
  intro hzero
  simp only [checkImport, hzero, if_true] at h
  split at h
  · cases h
  · cases h

theorem importSegment_brings {c c₁ : Core} (env : Env) (desc : ExportDescriptor)
    (ns : NamespaceId) (label : String) (id : BufferId) (hb : c.Booked c₁) (hos : c₁.os = c.os)
    (hsize : desc.size ≠ 0) :
    c.Brings (Opens env desc ns label c.os)
      (c₁.importSegment env desc (importRecord env desc ns label id)) := by
  unfold Core.importSegment Os.importHandle
  cases c₁.rt.domain desc.domain with
  | none => exact .failed hb
  | some dom =>
      cases ha : env.importHandle desc.domain desc.handle desc.size
          (if desc.alignment ≠ 0 then desc.alignment else 64) with
      | error e => exact .failed hb
      | ok a =>
          simp only
          have hlog : c.Booked { c₁ with os := c₁.os.log (.imported desc.domain (c₁.os.stamp a)) } :=
            ⟨hb.cfg, hb.address, hb.closed, hb.pool, hb.domains, hb.nss, hb.bytes, hb.ctls, hb.freed,
              hb.grown.trans (List.suffix_cons _ _)⟩
          split
          · exact .failed hlog
          · rename_i hroom
            refine .fresh (hlog.trans ?_) ⟨hsize, id, a, ha, UInt64.not_lt.mp hroom, ?_⟩
            · exact booked_of_quiet (noteImport_quiet _ _ _) rfl rfl rfl
            · rw [hos]

theorem lookup_booked (c : Core) (id : BufferId) (gen : BufferGeneration) :
    c.Booked (c.lookup id gen).2 := by
  unfold Core.lookup
  split
  · exact booked_count c _
  · split
    · exact booked_count c _
    · exact .refl c

theorem importDescriptor_brings (c : Core) (env : Env) (desc : ExportDescriptor)
    (ns : NamespaceId) (label : String) :
    c.Brings (Opens env desc ns label c.os) (c.importDescriptor env desc ns label) := by
  unfold Core.importDescriptor
  split
  · exact .failed (.refl c)
  cases hcheck : c.checkImport desc ns with
  | error e => exact .failed (.refl c)
  | ok u =>
      have hnext : c.Booked { c with rt := c.rt.nextId.2 } :=
        ⟨rfl, rfl, rfl, rfl, rfl, rfl, rfl, rfl, rfl, List.suffix_rfl⟩
      simp only
      split
      · exact importSegment_brings env desc ns label _ hnext rfl (checkImport_size hcheck)
      split
      · have hb := lookup_booked { c with rt := c.rt.nextId.2 } desc.bufferId desc.generation
        generalize Core.lookup { c with rt := c.rt.nextId.2 } desc.bufferId desc.generation = out
          at hb ⊢
        obtain ⟨res, c₂⟩ := out
        cases res with
        | error e => exact .failed (hnext.trans hb)
        | ok k => exact .known ((hnext.trans hb).trans (booked_count c₂ _))
      · exact .failed hnext

end Core

/-! ## The rule -/

/-- The answers of the backends that a release of references gets. -/
def Op.releases : Op → Option Env
  | .moveAssign env _ _ => some env
  | .release env _ => some env
  | .destroy env _ => some env
  | _ => none

/-- The block that loses a reference. -/
def World.released (w : World) : Op → Option CtlId
  | .moveAssign _ dst src =>
      match w.objs[dst]?, w.objs[src]? with
      | some o, some o' => if dst = src ∨ ¬ o.sameClass o' then none else o.pin
      | _, _ => none
  | .release _ i => (w.objs[i]?).bind Obj.pin
  | .destroy _ i => (w.objs[i]?).bind Obj.pin
  | _ => none

/-- A block that loses a reference has one. -/
theorem World.released_pins {w : World} {op : Op} {k : CtlId} (h : w.released op = some k) :
    0 < w.pins k := by
  have hbind : ∀ {i : Nat}, (w.objs[i]?).bind Obj.pin = some k → 0 < w.pins k := by
    intro i hi
    obtain ⟨o, ho, hpin⟩ := Option.bind_eq_some_iff.mp hi
    exact w.pins_pos ho hpin
  cases op with
  | moveAssign env dst src =>
      unfold World.released at h
      simp only at h
      split at h
      · rename_i o o' hdst _
        split at h
        · cases h
        · exact w.pins_pos hdst h
      · cases h
  | release env i => exact hbind h
  | destroy env i => exact hbind h
  | _ => cases h

/-- The operation `op` keeps `I`: every step that it may consist of does. -/
structure World.Effects (w : World) (op : Op) (I : Core → Prop) : Prop where
  noted : ∀ {c c' : Core}, c.Noted c' → I c → I c'
  adjusted : ∀ {c : Core} (k : CtlId) {f : Control → Control},
    (∀ ctl : Control, ctl.SameBuffer (f ctl)) → I c → I (c.modify k f)
  allocate : ∀ env req, op = .allocate env req → I (w.core.allocate env req).2
  wrapExternal : ∀ desc, op = .wrapExternal desc → I (w.core.wrapExternal desc).2
  importBuffer : ∀ env desc ns label, op = .importBuffer env desc ns label →
    I (w.core.importDescriptor env desc ns label).2
  migrate : ∀ env i target k, op = .migrate env i target →
    (w.handle i).validateAlive w.core = .ok k → I (w.core.migrate env k target).2
  copyTo : ∀ env i dst dstOffset len, op = .copyTo env i dst dstOffset len →
    I ((w.handle i).copyTo w.core env dst dstOffset len).2
  copyFrom : ∀ env i src srcOffset len, op = .copyFrom env i src srcOffset len →
    I ((w.handle i).copyFrom w.core env src srcOffset len).2
  finalize : ∀ {c : Core} (env : Env) (k : CtlId), op.releases = some env →
    w.released op = some k → (w.core.control k).refs = 1 → k < c.ctls.length →
    (c.control k).finalized = false → I c → I (c.finalize env k true)
  poolTrim : op = .poolTrim → I w.core.poolTrim
  shutdown : ∀ env, op = .shutdown env → w.core.rt.closed = false →
    I (Core.closeDown { w.core with rt := { w.core.rt with closed := true } })
  createNamespace : ∀ nsc, op = .createNamespace nsc → I (w.core.createNamespace nsc)

namespace World.Effects

variable {w : World} {op : Op} {I : Core → Prop} {base : List BufferId}

theorem retained (e : w.Effects op I) {c : Core} (k : CtlId) (h : I c) : I (c.retain k) :=
  e.adjusted k (fun _ => ⟨rfl, rfl⟩) h

theorem giveHandle (e : w.Effects op I) (w' : World) {p : Except Error CtlId × Core} (h : I p.2) :
    I (w'.giveHandle p).2.core := by
  obtain ⟨res, c⟩ := p
  cases res with
  | error err => exact h
  | ok k => exact e.retained k h

/-- Dropping a reference of a block that is alive. -/
theorem dropRef (e : w.Effects op I) {c : Core} {env : Env} {k : CtlId}
    (henv : op.releases = some env) (hrel : w.released op = some k)
    (hrefs : (c.control k).refs = (w.core.control k).refs) (hk : k < c.ctls.length)
    (halive : (c.control k).finalized = false) (h : I c) : I (c.dropRef env k) := by
  have hdrop : I (c.modify k (fun ctl => { ctl with refs := ctl.refs - 1 })) :=
    e.adjusted k (fun _ => ⟨rfl, rfl⟩) h
  unfold Core.dropRef
  simp only
  split
  · rename_i hlast
    refine e.finalize env k henv hrel (hrefs ▸ hlast) ?_ ?_ hdrop
    · exact Nat.lt_of_lt_of_eq hk (List.length_modify _ _ _).symm
    · rw [c.control_modify _ hk]
      exact halive
  · exact hdrop

/-- What letting go of an object does to the block is only counted. -/
theorem letGo (e : w.Effects op I) (o : Obj) {c : Core} (k : CtlId) (h : I c) :
    I (o.letGo c k) := by
  cases o with
  | handle _ | view _ => exact h
  | lease l => exact e.adjusted k (sameBuffer_unlease l.kind) h
  | map m => exact e.noted (Core.noted_count _ _ rfl rfl) (e.adjusted k sameBuffer_unmapOnce h)

theorem letGo_alive (o : Obj) (c : Core) {k : CtlId} (hk : k < c.ctls.length)
    (halive : (c.control k).finalized = false) :
    k < (o.letGo c k).ctls.length ∧ ((o.letGo c k).control k).finalized = false ∧
      ((o.letGo c k).control k).refs = (c.control k).refs := by
  have hmodify : ∀ f : Control → Control, (∀ ctl : Control, ctl.SameBuffer (f ctl)) →
      (∀ ctl, (f ctl).refs = ctl.refs) → k < (c.modify k f).ctls.length ∧
        ((c.modify k f).control k).finalized = false ∧
        ((c.modify k f).control k).refs = (c.control k).refs := by
    intro f hf hrefs
    refine ⟨Nat.lt_of_lt_of_eq hk (List.length_modify _ _ _).symm, ?_⟩
    rw [c.control_modify f hk, (hf _).finalized]
    exact ⟨halive, hrefs _⟩
  cases o with
  | handle _ | view _ => exact ⟨hk, halive, rfl⟩
  | lease l => exact hmodify _ (sameBuffer_unlease l.kind) (fun ctl => (unlease_refs l.kind ctl).1)
  | map m => exact hmodify _ sameBuffer_unmapOnce (fun _ => rfl)

theorem releaseCore (e : w.Effects op I) (hinv : w.RefInv base) {env : Env}
    (henv : op.releases = some env) {i : Nat} {o : Obj} (ho : w.objs[i]? = some o)
    (hrel : w.released op = o.pin) (h : I w.core) : I (o.releaseCore w.core env) := by
  unfold Obj.releaseCore
  cases hpin : o.pin with
  | none => exact h
  | some k =>
      obtain ⟨hk, halive⟩ := hinv.alive (w.pins_pos ho hpin)
      obtain ⟨hk', halive', hrefs⟩ := letGo_alive o w.core hk halive
      exact e.dropRef henv (hrel.trans hpin) hrefs hk' halive' (e.letGo o k h)

theorem releaseAt (e : w.Effects op I) (hinv : w.RefInv base) {env : Env} {i : Nat}
    (hop : op = .release env i) (h : I w.core) : I (w.releaseAt env i).core := by
  unfold World.releaseAt
  cases ho : w.objs[i]? with
  | none => exact h
  | some o =>
      simp only
      rw [Obj.release_core (hinv.objs o (List.mem_of_getElem? ho))]
      refine e.releaseCore hinv (by rw [hop]; rfl) ho ?_ h
      rw [hop, World.released, ho, Option.bind_some]

theorem destroyAt (e : w.Effects op I) (hinv : w.RefInv base) {env : Env} {i : Nat}
    (henv : op.releases = some env) (hrel : w.released op = (w.objs[i]?).bind Obj.pin)
    (h : I w.core) : I (w.destroyAt env i).core := by
  unfold World.destroyAt
  cases ho : w.objs[i]? with
  | none => exact h
  | some o =>
      simp only
      rw [Obj.reset_core, Obj.release_core (hinv.objs o (List.mem_of_getElem? ho))]
      refine e.releaseCore hinv henv ho ?_ h
      rw [hrel, ho, Option.bind_some]

theorem moveAssign (e : w.Effects op I) (hinv : w.RefInv base) {env : Env} {dst src : Nat}
    (hop : op = .moveAssign env dst src) (h : I w.core) :
    I (w.moveAssign env dst src).core := by
  unfold World.moveAssign
  split
  · rename_i o o' hdst hsrc
    split
    · exact h
    · rename_i hcond
      refine e.destroyAt hinv (by rw [hop]; rfl) ?_ h
      rw [hop, World.released, hdst, hsrc]
      simp only [if_neg hcond, Option.bind_some]
  · exact h

theorem migrated (e : w.Effects op I) {env : Env} {i : Nat} {target : MemoryDomain}
    (hop : op = .migrate env i target) (h : I w.core) : I (w.migrate env i target).2.core := by
  unfold World.migrate
  cases hk : (w.handle i).validateAlive w.core with
  | error err => exact h
  | ok k =>
      have hmigrate := e.migrate env i target k hop hk
      simp only
      generalize w.core.migrate env k target = out at hmigrate ⊢
      obtain ⟨res, c⟩ := out
      cases res with
      | error err => exact hmigrate
      | ok u => exact e.giveHandle w hmigrate

/-- A new object on a buffer: one more reference, and what is counted with it. -/
theorem given (e : w.Effects op I) (h : I w.core) {i : Nat} :
    I ((w.handle i).share w.core).2 ∧
    (∀ offset len access, I ((w.handle i).view w.core offset len access).2) ∧
    (∀ env access, I ((w.handle i).map w.core env access).2) ∧
    ∀ kind, I ((w.handle i).acquire kind w.core).2 := by
  refine ⟨?_, fun offset len access => ?_, fun env access => ?_, fun kind => ?_⟩
  · unfold BufferHandle.share
    split
    · exact h
    · exact e.retained _ h
  · unfold BufferHandle.view
    simp only
    repeat' split
    all_goals first | exact h | exact e.retained _ h
  · unfold BufferHandle.map
    simp only
    repeat' split
    all_goals first
      | exact h
      | exact e.noted (Core.noted_count _ _ rfl rfl) (e.retained _ (e.adjusted _ sameBuffer_mapOnce h))
  · unfold BufferHandle.acquire
    repeat' split
    all_goals first
      | exact h
      | exact e.noted (Core.noted_count _ _ rfl rfl) h
      | exact e.retained _ (e.adjusted _ (sameBuffer_leaseOnce kind) h)

/-- **The rule**: what every step of an operation keeps, the operation keeps. -/
theorem next (e : w.Effects op I) (hinv : w.RefInv base) (h : I w.core) : I (w.next op).core := by
  unfold World.next
  cases hop : op with
  | allocate env req =>
      show I (w.allocate env req).2.core
      unfold World.allocate
      split
      · exact h
      · exact e.giveHandle w (e.allocate env req hop)
  | wrapExternal desc => exact e.giveHandle w (e.wrapExternal desc hop)
  | importBuffer env desc ns label => exact e.giveHandle w (e.importBuffer env desc ns label hop)
  | exportBuffer env i =>
      show I (w.exportBuffer env i).2.core
      unfold World.exportBuffer
      split
      · exact h
      · exact e.noted (exportDescriptor_noted w.core env _) h
  | migrate env i target => exact e.migrated hop h
  | share i => exact (w.give_core _ _).symm ▸ (e.given h).1
  | view i offset len access => exact (w.give_core _ _).symm ▸ (e.given h).2.1 offset len access
  | map env i access => exact (w.give_core _ _).symm ▸ (e.given h).2.2.1 env access
  | acquire kind i => exact (w.give_core _ _).symm ▸ (e.given h).2.2.2 kind
  | verify env i => exact e.noted (verify_noted _ _ env) h
  | checksum i => exact e.noted (checksum_noted _ _) h
  | copyTo env i dst dstOffset len => exact e.copyTo env i dst dstOffset len hop
  | copyFrom env i src srcOffset len => exact e.copyFrom env i src srcOffset len hop
  | construct o => exact h
  | move src =>
      show I (w.moveFrom src).2.core
      unfold World.moveFrom
      split <;> exact h
  | moveAssign env dst src => exact e.moveAssign hinv hop h
  | release env i => exact e.releaseAt hinv hop h
  | destroy env i => exact e.destroyAt hinv (by rw [hop]; rfl) (by rw [hop]; rfl) h
  | invalidate env id =>
      show I (w.core.finalizeById env id).2
      rw [hinv.invalidate env id]
      exact h
  | poolTrim => exact e.poolTrim hop
  | shutdown env =>
      show I (w.core.shutdown env)
      -- every registered buffer has a reference, so the loop finalizes none
      rw [hinv.core.shutdown_eq env]
      cases hclosed : w.core.rt.closed with
      | true => exact h
      | false => exact e.shutdown env hop hclosed
  | createNamespace nsc => exact e.createNamespace nsc hop

end World.Effects

/-! ## Releases -/

namespace Core

/-- Only what is counted has changed: references, leases and maps, and statistics. -/
structure Adjusted (c c' : Core) : Prop where
  quiet : RuntimeImpl.Quiet c.rt c'.rt
  os : c'.os = c.os
  length : c'.ctls.length = c.ctls.length
  blocks : ∀ k, (c.control k).SameBuffer (c'.control k)

theorem Adjusted.refl (c : Core) : c.Adjusted c := ⟨.refl _, rfl, rfl, fun _ => .refl _⟩

theorem Adjusted.trans {c c' c'' : Core} (h : c.Adjusted c') (h' : c'.Adjusted c'') :
    c.Adjusted c'' := by
  refine ⟨h.quiet.trans h'.quiet, h'.os.trans h.os, h'.length.trans h.length, fun k => ?_⟩
  refine ⟨?_, (h'.blocks k).finalized.trans (h.blocks k).finalized⟩
  rw [(h'.blocks k).record, (h.blocks k).record]

theorem adjusted_modify (c : Core) (k : CtlId) {f : Control → Control}
    (hf : ∀ ctl : Control, ctl.SameBuffer (f ctl)) : c.Adjusted (c.modify k f) :=
  ⟨.refl _, rfl, List.length_modify _ _ _, c.sameBuffer_modify k hf⟩

theorem adjusted_count (c : Core) (f : Telemetry → Telemetry)
    (ha : (f c.rt.telem).totalAllocations = c.rt.telem.totalAllocations)
    (hf : (f c.rt.telem).totalFrees = c.rt.telem.totalFrees) : c.Adjusted (c.count f) :=
  ⟨RuntimeImpl.quiet_count c.rt f ha hf, rfl, rfl, fun _ => .refl _⟩

theorem adjusted_letGo (o : Obj) (c : Core) (k : CtlId) : c.Adjusted (o.letGo c k) := by
  cases o with
  | handle _ | view _ => exact .refl c
  | lease l => exact c.adjusted_modify k (sameBuffer_unlease l.kind)
  | map m =>
      exact (c.adjusted_modify k sameBuffer_unmapOnce).trans (adjusted_count _ _ rfl rfl)

theorem Adjusted.alive {c c' : Core} (h : c.Adjusted c') {k : CtlId} (hk : c.Alive k) :
    c'.Alive k :=
  ⟨h.length ▸ hk.1, (h.blocks k).finalized.trans hk.2⟩

end Core

namespace World

variable {w : World} {op : Op} {base : List BufferId}

/-- An operation that takes a reference from an object drops it through `Obj.releaseCore`. -/
theorem RefInv.released_core (hinv : w.RefInv base) {env : Env} {k : CtlId}
    (henv : op.releases = some env) (hrel : w.released op = some k) :
    ∃ (i : Nat) (o : Obj), w.objs[i]? = some o ∧ o.pin = some k ∧
      (w.next op).core = o.releaseCore w.core env := by
  have hrelease : ∀ {i : Nat} {o : Obj}, w.objs[i]? = some o →
      (o.release w.core env).2 = o.releaseCore w.core env := fun ho =>
    Obj.release_core (hinv.objs _ (List.mem_of_getElem? ho)) _ _
  have hdestroy : ∀ {i : Nat} {o : Obj}, w.objs[i]? = some o →
      (w.destroyAt env i).core = o.releaseCore w.core env := by
    intro i o ho
    unfold World.destroyAt
    rw [ho]
    simp only
    rw [Obj.reset_core, hrelease ho]
  cases op with
  | release env' i =>
      obtain rfl : env' = env := Option.some.inj henv
      obtain ⟨o, ho, hpin⟩ := Option.bind_eq_some_iff.mp hrel
      refine ⟨i, o, ho, hpin, ?_⟩
      show (w.releaseAt env' i).core = _
      unfold World.releaseAt
      rw [ho]
      exact hrelease ho
  | destroy env' i =>
      obtain rfl : env' = env := Option.some.inj henv
      obtain ⟨o, ho, hpin⟩ := Option.bind_eq_some_iff.mp hrel
      exact ⟨i, o, ho, hpin, hdestroy ho⟩
  | moveAssign env' dst src =>
      obtain rfl : env' = env := Option.some.inj henv
      unfold World.released at hrel
      simp only at hrel
      split at hrel
      · rename_i o o' hdst hsrc
        split at hrel
        · cases hrel
        · rename_i hcond
          -- the target gives up its reference; that of the source only moves
          refine ⟨dst, o, hdst, hrel, ?_⟩
          show (w.moveAssign env' dst src).core = _
          unfold World.moveAssign
          rw [hdst, hsrc]
          simp only [if_neg hcond]
          exact hdestroy hdst
      · cases hrel
  | _ => cases henv

/-- An operation on an object without a reference leaves the runtime alone. -/
theorem RefInv.unreleased_core (hinv : w.RefInv base) {env : Env} (henv : op.releases = some env)
    (hrel : w.released op = none) : (w.next op).core = w.core := by
  have hrelease : ∀ {i : Nat} {o : Obj} (env : Env), w.objs[i]? = some o → o.pin = none →
      (o.release w.core env).2 = w.core := by
    intro i o env ho hpin
    rw [Obj.release_core (hinv.objs _ (List.mem_of_getElem? ho)), Obj.releaseCore, hpin]
  have hdestroy : ∀ {i : Nat} (env : Env), (w.objs[i]?).bind Obj.pin = none →
      (w.destroyAt env i).core = w.core := by
    intro i env hnone
    unfold World.destroyAt
    cases ho : w.objs[i]? with
    | none => rfl
    | some o =>
        rw [ho, Option.bind_some] at hnone
        simp only
        rw [Obj.reset_core, hrelease env ho hnone]
  cases op with
  | release env' i =>
      show (w.releaseAt env' i).core = _
      unfold World.releaseAt
      cases ho : w.objs[i]? with
      | none => rfl
      | some o =>
          rw [World.released, ho, Option.bind_some] at hrel
          exact hrelease env' ho hrel
  | destroy env' i => exact hdestroy env' hrel
  | moveAssign env' dst src =>
      show (w.moveAssign env' dst src).core = _
      unfold World.moveAssign
      split
      · rename_i o o' hdst hsrc
        split
        · rfl
        · rename_i hcond
          refine hdestroy env' ?_
          rw [World.released, hdst, hsrc] at hrel
          simp only [if_neg hcond] at hrel
          rw [hdst, Option.bind_some, hrel]
      · rfl
  | _ => cases henv

/-- The release of the last reference is a finalization, after the object was let go of. -/
theorem RefInv.release_last (hinv : w.RefInv base) {env : Env} {k : CtlId}
    (henv : op.releases = some env) (hrel : w.released op = some k)
    (hlast : (w.core.control k).refs = 1) :
    ∃ c, w.core.Adjusted c ∧ c.Alive k ∧ (w.next op).core = c.finalize env k true := by
  obtain ⟨i, o, ho, hpin, hcore⟩ := hinv.released_core henv hrel
  have hk := hinv.alive (w.pins_pos ho hpin)
  obtain ⟨-, -, hrefs⟩ := Effects.letGo_alive o w.core hk.1 hk.2
  have hadj := (Core.adjusted_letGo o w.core k).trans (Core.adjusted_modify _ k
    (f := fun ctl => { ctl with refs := ctl.refs - 1 }) fun _ => ⟨rfl, rfl⟩)
  refine ⟨_, hadj, hadj.alive hk, ?_⟩
  rw [hcore, Obj.releaseCore, hpin]
  simp only
  unfold Core.dropRef
  rw [if_pos (hrefs.trans hlast)]

end World

end UnifiedBuffer
