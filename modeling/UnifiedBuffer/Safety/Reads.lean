import UnifiedBuffer.Safety.Accesses

set_option autoImplicit false

/-! # The memory that an operation reads

Transfers, checksums and migrations read memory. Take a world, and the same world with other bytes
in memory, and run such an operation on both. If the bytes agree in the ranges that `World.accesses`
lists as read, and in the memory of the caller that a `copy_from` reads, the operation cannot tell
the worlds apart: it returns the same and leaves the same, and a byte that it writes is the same in
both (`World.step_twin`). So the list is complete for their reads.

The backends look at memory, too, when they are asked to verify it. Their answer is an input of the
model; they are asked about listed ranges only (`World.step_verifying`). -/

namespace UnifiedBuffer

open Lib

/-- The range has the byte at this address, and is read. -/
def Access.Reads (x : Access) (s : Space) (a : Nat) : Prop :=
  x.write = false ∧ s = x.space ∧ x.backing.base + x.offset ≤ a ∧
    a < x.backing.base + x.offset + x.len

/-- The byte is in the memory of the caller that a `copy_from` reads. -/
def Op.Takes (op : Op) (s : Space) (a : Nat) : Prop :=
  match op with
  | .copyFrom _ _ src srcOffset len =>
      s = .host ∧ src + srcOffset.toNat ≤ a ∧ a < src + srcOffset.toNat + len.toNat
  | _ => False

/-- The operations that read memory. The others hand it on or fill it. -/
def Op.Looks : Op → Prop
  | .migrate .. | .checksum _ | .copyTo .. | .copyFrom .. => True
  | _ => False

/-! ## Two memories -/

/-- Two memories that held `m` and `m'` and have gone through the same since then: a byte is the same
in both, or it is what it was. -/
structure Os.Twin (m m' : Space → Nat → UInt8) (os os' : Os) : Prop where
  calls : os'.calls = os.calls
  bytes : ∀ s a, os'.bytes s a = os.bytes s a ∨ os.bytes s a = m s a ∧ os'.bytes s a = m' s a

/-- The two results agree but for their last components, which are related. -/
def Alike {α β : Type} (rel : β → β → Prop) (p p' : α × β) : Prop := p'.1 = p.1 ∧ rel p.2 p'.2

@[elab_as_elim]
theorem Alike.elim {α β : Type} {rel : β → β → Prop} {motive : α × β → α × β → Prop}
    {p p' : α × β} (h : Alike rel p p')
    (mk : ∀ a b b', rel b b' → motive (a, b) (a, b')) : motive p p' := by
  obtain ⟨a, b⟩ := p
  obtain ⟨a', b'⟩ := p'
  obtain ⟨rfl, hb⟩ := h
  exact mk _ b b' hb

namespace Os.Twin

variable {m m' : Space → Nat → UInt8} {os os' : Os}

theorem stamp (h : Twin m m' os os') (a : NativeAllocation) : os'.stamp a = os.stamp a := by
  unfold Os.stamp
  rw [h.calls]

theorem log (h : Twin m m' os os') (call : BackendCall) :
    Twin m m' (os.log call) (os'.log call) :=
  ⟨congrArg (call :: ·) h.calls, h.bytes⟩

theorem free (h : Twin m m' os os') (d : MemoryDomain) (a : NativeAllocation) :
    Twin m m' (os.free d a) (os'.free d a) := h.log _

theorem fill (h : Twin m m' os os') (sp : Space) {base len : Nat} {f f' : Nat → UInt8}
    (hf : ∀ a, base ≤ a → a < base + len → f' a = f a) :
    Twin m m' (os.fill sp base len f) (os'.fill sp base len f') := by
  refine ⟨h.calls, fun s a => ?_⟩
  simp only [Os.fill]
  by_cases hin : s = sp ∧ base ≤ a ∧ a < base + len
  · rw [if_pos hin, if_pos hin]
    exact Or.inl (hf a hin.2.1 hin.2.2)
  · rw [if_neg hin, if_neg hin]
    exact h.bytes s a

/-- A transfer reads its source range. -/
theorem copyMemory (h : Twin m m' os os') (env : Env) (dst src : Nat) (len : UInt64)
    (dstDev srcDev : Bool) (hsrc : ∀ a, src ≤ a → a < src + len.toNat →
      os'.bytes (if srcDev then .device else .host) a
        = os.bytes (if srcDev then .device else .host) a) :
    Alike (Twin m m') (os.copyMemory env dst src len dstDev srcDev)
      (os'.copyMemory env dst src len dstDev srcDev) := by
  unfold Os.copyMemory
  simp only
  split
  · exact ⟨rfl, h⟩
  split
  · refine ⟨rfl, h.fill _ fun a hle hlt => hsrc _ (Nat.le_add_right _ _) (by omega)⟩
  · exact ⟨rfl, h.fill _ fun _ _ _ => rfl⟩

end Os.Twin

/-! ## The operations of the runtime -/

namespace RuntimeImpl

variable {m m' : Space → Nat → UInt8} {os os' : Os}

theorem freeIn_twin (h : Os.Twin m m' os os') (rt : RuntimeImpl) (d : MemoryDomain)
    (a : NativeAllocation) : Os.Twin m m' (rt.freeIn os d a) (rt.freeIn os' d a) := by
  unfold freeIn
  split
  · exact h.free d a
  · exact h

theorem swapBinding_twin (h : Os.Twin m m' os os') (rt : RuntimeImpl) (ctl : Control)
    (tdom : IDomain) (target : MemoryDomain) (a : NativeAllocation) :
    Alike (Alike (Os.Twin m m')) (rt.swapBinding os ctl tdom target a)
      (rt.swapBinding os' ctl tdom target a) := by
  refine ⟨rfl, rfl, ?_⟩
  unfold swapBinding
  simp only
  split
  · exact freeIn_twin h _ _ _
  · exact h

/-- The copy of a migration reads the bytes of the old backing that fit into the new one. -/
theorem migrateInto_twin (h : Os.Twin m m' os os') (rt : RuntimeImpl) (env : Env) (ctl : Control)
    (tdom : IDomain) (target : MemoryDomain) (classSize : UInt64) (a : NativeAllocation)
    (hsrc : ∀ x, ctl.record.backing.base ≤ x →
      x < ctl.record.backing.base + (min ctl.record.committed a.committed).toNat →
      os'.bytes ctl.record.domain.space x = os.bytes ctl.record.domain.space x) :
    Alike (Alike (Alike (Os.Twin m m'))) (rt.migrateInto os env ctl tdom target classSize a)
      (rt.migrateInto os' env ctl tdom target classSize a) := by
  rw [MemoryDomain.space_eq] at hsrc
  unfold migrateInto
  simp only
  refine Alike.elim (h.copyMemory env _ _ _ _ _ hsrc) ?_
  rintro (e | u) o o' ho
  · exact ⟨rfl, rfl, rfl, ho.free _ _⟩
  · simp only
    split
    · exact ⟨rfl, rfl, rfl, ho.free _ _⟩
    split
    · exact ⟨rfl, rfl, rfl, ho.free _ _⟩
    · exact ⟨rfl, rfl, rfl, (swapBinding_twin ho _ ctl tdom target a).2.2⟩

theorem migrate_twin (h : Os.Twin m m' os os') (rt : RuntimeImpl) (env : Env) (ctl : Control)
    (target : MemoryDomain)
    (hsrc : ∀ q a, rt.migrateAdmit ctl target = some q →
      env.allocate target (migrateSize ctl.record) ctl.record.alignment = .ok a →
      ∀ x, ctl.record.backing.base ≤ x →
        x < ctl.record.backing.base + (min ctl.record.committed a.committed).toNat →
        os'.bytes ctl.record.domain.space x = os.bytes ctl.record.domain.space x) :
    Alike (Alike (Alike (Os.Twin m m'))) (rt.migrate os env ctl target)
      (rt.migrate os' env ctl target) := by
  cases hadm : rt.migrateAdmit ctl target with
  | none =>
      obtain ⟨res, rt', hrefused⟩ := migrate_refused hadm
      rw [hrefused, hrefused]
      exact ⟨rfl, rfl, rfl, h⟩
  | some q =>
      obtain ⟨hfails, hserved⟩ := migrate_admitted hadm os env
      obtain ⟨hfails', hserved'⟩ := migrate_admitted hadm os' env
      cases hb : env.allocate target (migrateSize ctl.record) ctl.record.alignment with
      | error e =>
          rw [hfails e hb, hfails' e hb]
          exact ⟨rfl, rfl, rfl, h⟩
      | ok a =>
          rw [hserved a hb, hserved' a hb, h.stamp a]
          exact migrateInto_twin (h.log _) _ env ctl q.1 target _ _ (hsrc q a hadm hb)

end RuntimeImpl

/-! ## The control blocks -/

/-- Two runtimes that differ in the contents of memory only, as `Os.Twin` has it. -/
structure Core.Twin (m m' : Space → Nat → UInt8) (c c' : Core) : Prop where
  rt : c'.rt = c.rt
  ctls : c'.ctls = c.ctls
  os : Os.Twin m m' c.os c'.os

namespace Core

variable {m m' : Space → Nat → UInt8} {c c' : Core}

theorem Twin.control (h : Twin m m' c c') (k : CtlId) : c'.control k = c.control k :=
  control_congr h.ctls k

theorem Twin.count (h : Twin m m' c c') (f : Telemetry → Telemetry) :
    Twin m m' (c.count f) (c'.count f) :=
  ⟨congrArg (RuntimeImpl.count · f) h.rt, h.ctls, h.os⟩

theorem Twin.retain (h : Twin m m' c c') (k : CtlId) : Twin m m' (c.retain k) (c'.retain k) :=
  ⟨h.rt, congrArg (List.modify · k _) h.ctls, h.os⟩

theorem Twin.migrate (h : Twin m m' c c') (env : Env) (k : CtlId) (target : MemoryDomain)
    (hsrc : ∀ y ∈ c.rt.migrateAccesses c.os env (c.control k) target, ∀ s a, y.Reads s a →
      c'.os.bytes s a = c.os.bytes s a) :
    Alike (Twin m m') (c.migrate env k target) (c'.migrate env k target) := by
  unfold Core.migrate
  rw [h.control, h.rt, h.ctls]
  have hmoved := RuntimeImpl.migrate_twin h.os c.rt env (c.control k) target
    fun q a hadm hb x hle hlt => by
      refine hsrc ⟨false, (c.control k).record.domain.space, (c.control k).record.backing, 0,
        (min (c.control k).record.committed a.committed).toNat⟩ ?_ _ x ⟨rfl, rfl, hle, hlt⟩
      unfold RuntimeImpl.migrateAccesses
      simp only [hadm, hb]
      exact List.mem_append_left _ List.mem_cons_self
  refine Alike.elim hmoved fun res q q' hq => ?_
  refine Alike.elim hq fun ctl q q' hq => ?_
  exact Alike.elim hq fun rt o o' ho => ⟨rfl, rfl, rfl, ho⟩

end Core

/-! ## The objects of a program -/

namespace BufferHandle

variable {m m' : Space → Nat → UInt8} {c c' : Core}

theorem validateAlive_twin (ht : Core.Twin m m' c c') (h : BufferHandle) :
    h.validateAlive c' = h.validateAlive c := by
  unfold validateAlive
  simp only [ht.control]

theorem ensureValid_twin (ht : Core.Twin m m' c c') (h : BufferHandle) (want : AccessMode) :
    h.ensureValid c' want = h.ensureValid c want := by
  unfold ensureValid
  simp only [validateAlive_twin ht, ht.control]

/-- A checksum reads the bytes of the buffer. -/
theorem checksum_twin (ht : Core.Twin m m' c c') (h : BufferHandle)
    (hreads : ∀ y ∈ h.checksumAccesses c, ∀ s a, y.Reads s a →
      c'.os.bytes s a = c.os.bytes s a) :
    Alike (Core.Twin m m') (h.checksum c) (h.checksum c') := by
  unfold checksumAccesses at hreads
  unfold checksum
  rw [validateAlive_twin ht]
  cases hk : h.validateAlive c with
  | error e => exact ⟨rfl, ht⟩
  | ok k =>
      simp only [hk] at hreads ⊢
      simp only [ht.control]
      split
      · exact ⟨rfl, ht⟩
      rename_i hdomain
      split
      · exact ⟨rfl, ht⟩
      rename_i hbase
      rw [if_pos ⟨hdomain, hbase⟩] at hreads
      refine ⟨?_, ht.count _⟩
      have hbytes : (List.range (c.control k).record.size.toNat).map
            (fun i => c'.os.bytes .host ((c.control k).record.backing.base + i))
          = (List.range (c.control k).record.size.toNat).map
            (fun i => c.os.bytes .host ((c.control k).record.backing.base + i)) := by
        refine List.map_congr_left fun i hi => ?_
        refine hreads _ (List.mem_singleton.mpr rfl) _ _ ⟨rfl, rfl, Nat.le_add_right _ _, ?_⟩
        exact Nat.add_lt_add_left (List.mem_range.mp hi) _
      simp only [hbytes]

theorem transfer_twin (ht : Core.Twin m m' c c') (env : Env) (dst src : Nat) (len : UInt64)
    (dstDev srcDev : Bool) (hsrc : ∀ a, src ≤ a → a < src + len.toNat →
      c'.os.bytes (if srcDev then .device else .host) a
        = c.os.bytes (if srcDev then .device else .host) a) :
    Alike (Core.Twin m m') (transfer c env dst src len dstDev srcDev)
      (transfer c' env dst src len dstDev srcDev) := by
  unfold transfer
  refine Alike.elim (ht.os.copyMemory env dst src len dstDev srcDev hsrc) ?_
  rintro (e | u) o o' ho
  · exact ⟨rfl, ht.rt, ht.ctls, ho⟩
  · have hmoved : Core.Twin m m' { c with os := o } { c' with os := o' } := ⟨ht.rt, ht.ctls, ho⟩
    exact ⟨rfl, hmoved.count _⟩

/-- `copy_to` reads the backing from its start. -/
theorem copyTo_twin (ht : Core.Twin m m' c c') (h : BufferHandle) (env : Env) (dst : Nat)
    (dstOffset len : UInt64)
    (hreads : ∀ y ∈ h.copyToAccesses c dst dstOffset len, ∀ s a, y.Reads s a →
      c'.os.bytes s a = c.os.bytes s a) :
    Alike (Core.Twin m m') (h.copyTo c env dst dstOffset len)
      (h.copyTo c' env dst dstOffset len) := by
  unfold copyToAccesses at hreads
  unfold copyTo
  rw [ensureValid_twin ht]
  cases hk : h.ensureValid c .read with
  | error e => exact ⟨rfl, ht⟩
  | ok k =>
      simp only [hk] at hreads ⊢
      simp only [ht.control]
      split
      · exact ⟨rfl, ht⟩
      split
      · exact ⟨rfl, ht⟩
      split
      · exact ⟨rfl, ht⟩
      rw [if_neg (by tauto)] at hreads
      refine transfer_twin ht env _ _ len _ _ fun a hle hlt => ?_
      refine hreads _ (List.mem_singleton.mpr rfl) _ a ⟨rfl, ?_, hle, hlt⟩
      exact (MemoryDomain.space_eq _).symm

/-- `copy_from` reads the memory of the caller. -/
theorem copyFrom_twin (ht : Core.Twin m m' c c') (h : BufferHandle) (env : Env) (src : Nat)
    (srcOffset len : UInt64)
    (htakes : ∀ a, src + srcOffset.toNat ≤ a → a < src + srcOffset.toNat + len.toNat →
      c'.os.bytes .host a = c.os.bytes .host a) :
    Alike (Core.Twin m m') (h.copyFrom c env src srcOffset len)
      (h.copyFrom c' env src srcOffset len) := by
  unfold copyFrom
  rw [ensureValid_twin ht]
  split
  · exact ⟨rfl, ht⟩
  simp only [ht.control]
  split
  · exact ⟨rfl, ht⟩
  split
  · exact ⟨rfl, ht⟩
  split
  · exact ⟨rfl, ht⟩
  · exact transfer_twin ht env _ _ len _ false htakes

end BufferHandle

/-! ## Public operations -/

/-- Two programs that differ in the contents of memory only. -/
structure World.Twin (m m' : Space → Nat → UInt8) (w w' : World) : Prop where
  core : Core.Twin m m' w.core w'.core
  objs : w'.objs = w.objs

namespace World

variable {m m' : Space → Nat → UInt8} {w w' : World} {op : Op}

theorem Twin.handle (h : Twin m m' w w') (i : Nat) : w'.handle i = w.handle i := by
  unfold World.handle
  rw [h.objs]

theorem Twin.giveHandle (h : Twin m m' w w') {p p' : Except Error CtlId × Core}
    (hp : Alike (Core.Twin m m') p p') :
    Alike (Twin m m') (w.giveHandle p) (w'.giveHandle p') := by
  refine Alike.elim hp ?_
  rintro (e | k) c c' hc
  · exact ⟨rfl, hc, h.objs⟩
  · simp only [World.giveHandle, BufferHandle.ofControl, h.objs, hc.control]
    exact ⟨rfl, hc.retain k, rfl⟩

theorem Twin.answer (h : Twin m m' w w') {α : Type} (reply : α → Reply)
    {p p' : Except Error α × Core} (hp : Alike (Core.Twin m m') p p') :
    Alike (Twin m m') (w.answer reply p) (w'.answer reply p') :=
  ⟨congrArg (Except.map reply) hp.1, hp.2, h.objs⟩

theorem Twin.migrate (h : Twin m m' w w') (env : Env) (i : Nat) (target : MemoryDomain)
    (hreads : ∀ y ∈ w.accesses (.migrate env i target), ∀ s a, y.Reads s a →
      w'.core.os.bytes s a = w.core.os.bytes s a) :
    Alike (Twin m m') (w.migrate env i target) (w'.migrate env i target) := by
  unfold accesses at hreads
  unfold World.migrate
  rw [h.handle, BufferHandle.validateAlive_twin h.core]
  cases hk : (w.handle i).validateAlive w.core with
  | error e => exact ⟨rfl, h⟩
  | ok k =>
      simp only [hk] at hreads ⊢
      refine Alike.elim (h.core.migrate env k target hreads) ?_
      rintro (e | u) c c' hc
      · exact ⟨rfl, hc, h.objs⟩
      · exact h.giveHandle ⟨rfl, hc⟩

/-- **The reads of an operation.** If two memories agree in the ranges that are read, the operation
does the same with both. -/
theorem step_twin (h : Twin m m' w w') (hop : op.Looks)
    (hreads : ∀ y ∈ w.accesses op, ∀ s a, y.Reads s a →
      w'.core.os.bytes s a = w.core.os.bytes s a)
    (htakes : ∀ s a, op.Takes s a → w'.core.os.bytes s a = w.core.os.bytes s a) :
    Alike (Twin m m') (w.step op) (w'.step op) := by
  have hhandle := h.handle
  cases op with
  | migrate env i target => exact h.migrate env i target hreads
  | checksum i =>
      simp only [step, hhandle]
      exact h.answer _ (BufferHandle.checksum_twin h.core _ hreads)
  | copyTo env i dst dstOffset len =>
      simp only [step, hhandle]
      exact h.answer _ (BufferHandle.copyTo_twin h.core _ env dst dstOffset len hreads)
  | copyFrom env i src srcOffset len =>
      simp only [step, hhandle]
      exact h.answer _ (BufferHandle.copyFrom_twin h.core _ env src srcOffset len
        fun a hle hlt => htakes .host a ⟨rfl, hle, hlt⟩)
  | _ => exact hop.elim

/-- The same program with other contents of memory. -/
def withBytes (w : World) (b : Space → Nat → UInt8) : World :=
  { w with core := { w.core with os := { w.core.os with bytes := b } } }

theorem twin_withBytes (w : World) (b : Space → Nat → UInt8) :
    Twin w.core.os.bytes b w (w.withBytes b) :=
  ⟨⟨rfl, rfl, rfl, fun _ _ => Or.inr ⟨rfl, rfl⟩⟩, rfl⟩

end World

/-! ## What the backends are asked -/

/-- The operation with other backends. -/
def Op.mapEnv (f : Env → Env) : Op → Op
  | .allocate env req => .allocate (f env) req
  | .importBuffer env desc ns label => .importBuffer (f env) desc ns label
  | .exportBuffer env i => .exportBuffer (f env) i
  | .migrate env i target => .migrate (f env) i target
  | .map env i access => .map (f env) i access
  | .verify env i => .verify (f env) i
  | .copyTo env i dst dstOffset len => .copyTo (f env) i dst dstOffset len
  | .copyFrom env i src srcOffset len => .copyFrom (f env) i src srcOffset len
  | .moveAssign env dst src => .moveAssign (f env) dst src
  | .release env i => .release (f env) i
  | .destroy env i => .destroy (f env) i
  | .invalidate env id => .invalidate (f env) id
  | .shutdown env => .shutdown (f env)
  | op => op

/-- The backends with other answers to `verify`. -/
def Env.verifying (env : Env) (v : MemoryDomain → NativeAllocation → UInt64 → Except Error Unit) :
    Env :=
  { env with verify := v }

/-- The operation with other answers to `verify`. -/
def Op.verifying (v : MemoryDomain → NativeAllocation → UInt64 → Except Error Unit) (op : Op) : Op :=
  op.mapEnv (·.verifying v)

section Verifying

variable {v v' : MemoryDomain → NativeAllocation → UInt64 → Except Error Unit}

theorem RuntimeImpl.migrateInto_verifying {rt : RuntimeImpl} {os : Os} {env : Env} {ctl : Control}
    {tdom : IDomain} {target : MemoryDomain} {classSize : UInt64} {l : Ledger} {a : NativeAllocation}
    (h : (migrateCopy os env ctl target a).1.isOk = true →
      a.committed ≤ l.reserved.get ctl.record.ns target →
      v' target (os.stamp a) a.committed = v target (os.stamp a) a.committed) :
    ({ rt with ledger := l } : RuntimeImpl).migrateInto
        (os.log (.allocated target ctl.record.ownership (os.stamp a))) (env.verifying v') ctl tdom
        target classSize (os.stamp a)
      = ({ rt with ledger := l } : RuntimeImpl).migrateInto
        (os.log (.allocated target ctl.record.ownership (os.stamp a))) (env.verifying v) ctl tdom
        target classSize (os.stamp a) := by
  have hcopy : ∀ u : MemoryDomain → NativeAllocation → UInt64 → Except Error Unit,
      (os.log (.allocated target ctl.record.ownership (os.stamp a))).copyMemory (env.verifying u)
        (os.stamp a).base ctl.record.backing.base (min ctl.record.committed (os.stamp a).committed)
        (target = .device) (ctl.record.domain = .device) = migrateCopy os env ctl target a :=
    fun _ => rfl
  unfold migrateInto
  simp only [hcopy]
  cases hc : migrateCopy os env ctl target a with
  | mk res os₁ =>
      rw [hc] at h
      cases res with
      | error e => rfl
      | ok u =>
          simp only [commitAmount]
          cases hm : l.commitAmount ctl.record.ns target (os.stamp a).committed with
          | error e => rfl
          | ok l' =>
              have hasked := h rfl (Ledger.commitAmount_ok hm).1
              have hv : (env.verifying v').verify target (os.stamp a) (os.stamp a).committed
                  = (env.verifying v).verify target (os.stamp a) (os.stamp a).committed := hasked
              simp only [hv]
              rfl

/-- A migration asks about the bytes that the new backing has committed. -/
theorem RuntimeImpl.migrate_verifying {rt : RuntimeImpl} {os : Os} {env : Env} {ctl : Control}
    {target : MemoryDomain}
    (h : ∀ x (len : UInt64), ⟨false, target.space, x, 0, len.toNat⟩
        ∈ rt.migrateAccesses os (env.verifying v) ctl target → v' target x len = v target x len) :
    rt.migrate os (env.verifying v') ctl target = rt.migrate os (env.verifying v) ctl target := by
  cases hadm : rt.migrateAdmit ctl target with
  | none =>
      obtain ⟨res, rt', hrefused⟩ := migrate_refused hadm
      rw [hrefused, hrefused]
  | some q =>
      obtain ⟨tdom, l⟩ := q
      obtain ⟨hfails, hserved⟩ := migrate_admitted hadm os (env.verifying v)
      obtain ⟨hfails', hserved'⟩ := migrate_admitted hadm os (env.verifying v')
      cases hb : env.allocate target (migrateSize ctl.record) ctl.record.alignment with
      | error e => rw [hfails e hb, hfails' e hb]
      | ok a =>
          rw [hserved a hb, hserved' a hb]
          have hcopied : (migrateCopy os env ctl target a).1.isOk = true →
              a.committed ≤ l.reserved.get ctl.record.ns target →
              v' target (os.stamp a) a.committed = v target (os.stamp a) a.committed := by
            intro hcopy hcommit
            refine h _ _ ?_
            have hb' : (env.verifying v).allocate target (migrateSize ctl.record)
                ctl.record.alignment = .ok a := hb
            unfold migrateAccesses
            simp only [hadm, hb']
            rw [if_pos ⟨hcopy, hcommit⟩]
            exact List.mem_append_right _ List.mem_cons_self
          exact migrateInto_verifying hcopied

/-- `verify` asks about the bytes that the record has committed. -/
theorem BufferHandle.verify_verifying {h : BufferHandle} {c : Core} {env : Env}
    (hv : ∀ (d : MemoryDomain) x (len : UInt64), ⟨false, d.space, x, 0, len.toNat⟩
        ∈ h.verifyAccesses c → v' d x len = v d x len) :
    h.verify c (env.verifying v') = h.verify c (env.verifying v) := by
  unfold verifyAccesses at hv
  unfold verify
  cases hk : h.validateAlive c with
  | error e => rfl
  | ok k =>
      simp only [hk] at hv ⊢
      split
      · rfl
      rename_i dom hdom
      split
      · rfl
      rename_i hstate
      have hthere : (c.rt.domain (c.control k).record.domain).isSome = true :=
        Option.isSome_of_eq_some hdom
      rw [if_pos ⟨hthere, hstate⟩] at hv
      have hasked : (env.verifying v').verify (c.control k).record.domain
            (c.control k).record.backing (c.control k).record.committed
          = (env.verifying v).verify (c.control k).record.domain
            (c.control k).record.backing (c.control k).record.committed :=
        hv _ _ _ (List.mem_singleton.mpr rfl)
      rw [hasked]

/-- **What backends are asked to verify.** The answers for ranges that are not listed do not
matter. -/
theorem World.step_verifying {w : World} {op : Op}
    (h : ∀ (d : MemoryDomain) x (len : UInt64), ⟨false, d.space, x, 0, len.toNat⟩
        ∈ w.accesses (op.verifying v) → v' d x len = v d x len) :
    w.step (op.verifying v') = w.step (op.verifying v) := by
  cases op with
  | migrate env i target =>
      show w.migrate (env.verifying v') i target = w.migrate (env.verifying v) i target
      have hlisted : ∀ (d : MemoryDomain) x (len : UInt64), ⟨false, d.space, x, 0, len.toNat⟩
          ∈ w.accesses (.migrate (env.verifying v) i target) → v' d x len = v d x len := h
      unfold World.accesses at hlisted
      unfold World.migrate
      cases hk : (w.handle i).validateAlive w.core with
      | error e => rfl
      | ok k =>
          simp only [hk] at hlisted ⊢
          have hsame : w.core.migrate (env.verifying v') k target
              = w.core.migrate (env.verifying v) k target := by
            unfold Core.migrate
            rw [RuntimeImpl.migrate_verifying fun x len => hlisted target x len]
          rw [hsame]
  | verify env i =>
      show w.answer _ ((w.handle i).verify w.core (env.verifying v'))
        = w.answer _ ((w.handle i).verify w.core (env.verifying v))
      rw [BufferHandle.verify_verifying h]
  -- no other operation asks a backend to verify
  | _ => rfl

end Verifying

/-! ### Memory -/

/-- The backends with other answers to `allocate`. -/
def Env.allocating (env : Env)
    (f : MemoryDomain → UInt64 → UInt64 → Except Error NativeAllocation) : Env :=
  { env with allocate := f }

/-- The operation with other answers to `allocate`. -/
def Op.allocating (f : MemoryDomain → UInt64 → UInt64 → Except Error NativeAllocation) (op : Op) : Op :=
  op.mapEnv (·.allocating f)

/-- The memory that an operation asks a backend for: domain, size and alignment. -/
def World.asks (w : World) : Op → Option (MemoryDomain × UInt64 × UInt64)
  | .allocate _ req =>
      match w.core.rt.admits req with
      | none => none
      | some (alignment, classSize, _) =>
          match w.core.rt.poolOffer req alignment classSize with
          | some _ => none
          | none => some (req.domain, classSize, alignment)
  | .migrate _ i target =>
      match (w.handle i).validateAlive w.core with
      | .error _ => none
      | .ok k =>
          match w.core.rt.migrateAdmit (w.core.control k) target with
          | none => none
          | some _ =>
              let r := (w.core.control k).record
              some (target, RuntimeImpl.migrateSize r, r.alignment)
  | _ => none

section Allocating

variable {f f' : MemoryDomain → UInt64 → UInt64 → Except Error NativeAllocation}

theorem RuntimeImpl.freshRecord_allocating {rt : RuntimeImpl} {os : Os} {env : Env}
    {req : AllocationRequest} {classSize : UInt64} {r : Record}
    (h : f' req.domain classSize r.alignment = f req.domain classSize r.alignment) :
    rt.freshRecord os (env.allocating f') req classSize r
      = rt.freshRecord os (env.allocating f) req classSize r := by
  have hmemory : os.allocate (env.allocating f') req.domain .runtime classSize r.alignment
      = os.allocate (env.allocating f) req.domain .runtime classSize r.alignment := by
    unfold Os.allocate
    have hasked : (env.allocating f').allocate req.domain classSize r.alignment
        = (env.allocating f).allocate req.domain classSize r.alignment := h
    rw [hasked]
  unfold freshRecord
  rw [hmemory]
  rfl

/-- An allocation asks for a class of its size when the pool offers no slot. -/
theorem RuntimeImpl.allocateRecord_allocating {rt : RuntimeImpl} {os : Os} {env : Env}
    {req : AllocationRequest}
    (h : ∀ alignment classSize l, rt.admits req = some (alignment, classSize, l) →
      rt.poolOffer req alignment classSize = none →
      f' req.domain classSize alignment = f req.domain classSize alignment) :
    rt.allocateRecord os (env.allocating f') req = rt.allocateRecord os (env.allocating f) req := by
  rcases rt.allocateRecord_cases req with
    ⟨-, e, rt', allocs, -, -, hrefused⟩ | ⟨alignment, classSize, l, hadm, hadmitted⟩
  · rw [hrefused, hrefused]
  · rw [hadmitted, hadmitted]
    cases hoffer : rt.poolOffer req alignment classSize with
    | none =>
        obtain ⟨t, -, -, hfresh⟩ := backRecord_none (l := l) (t := rt.telem) hoffer
        rw [hfresh, hfresh]
        exact freshRecord_allocating (h alignment classSize l hadm hoffer)
    | some q =>
        rw [backRecord_some hoffer, backRecord_some hoffer]
        rfl

theorem RuntimeImpl.migrate_allocating {rt : RuntimeImpl} {os : Os} {env : Env} {ctl : Control}
    {target : MemoryDomain}
    (h : ∀ q, rt.migrateAdmit ctl target = some q →
      f' target (migrateSize ctl.record) ctl.record.alignment
        = f target (migrateSize ctl.record) ctl.record.alignment) :
    rt.migrate os (env.allocating f') ctl target = rt.migrate os (env.allocating f) ctl target := by
  cases hadm : rt.migrateAdmit ctl target with
  | none =>
      obtain ⟨res, rt', hrefused⟩ := migrate_refused hadm
      rw [hrefused, hrefused]
  | some q =>
      obtain ⟨tdom, l⟩ := q
      obtain ⟨hfails, hserved⟩ := migrate_admitted hadm os (env.allocating f)
      obtain ⟨hfails', hserved'⟩ := migrate_admitted hadm os (env.allocating f')
      cases hb : f target (migrateSize ctl.record) ctl.record.alignment with
      | error e => rw [hfails e hb, hfails' e ((h _ hadm).trans hb)]
      | ok a =>
          rw [hserved a hb, hserved' a ((h _ hadm).trans hb)]
          rfl

/-- **What backends are asked for.** An operation asks for memory once at most; what a backend
would answer to any other request does not matter. -/
theorem World.step_allocating {w : World} {op : Op}
    (h : ∀ d bytes alignment, w.asks op = some (d, bytes, alignment) →
      f' d bytes alignment = f d bytes alignment) :
    w.step (op.allocating f') = w.step (op.allocating f) := by
  cases op with
  | allocate env req =>
      show w.allocate (env.allocating f') req = w.allocate (env.allocating f) req
      have hsame : w.core.allocate (env.allocating f') req = w.core.allocate (env.allocating f) req := by
        unfold Core.allocate
        rw [RuntimeImpl.allocateRecord_allocating fun alignment classSize l hadm hoffer =>
          h _ _ _ (by simp only [World.asks, hadm, hoffer])]
      unfold World.allocate
      rw [hsame]
  | migrate env i target =>
      show w.migrate (env.allocating f') i target = w.migrate (env.allocating f) i target
      unfold World.migrate
      cases hk : (w.handle i).validateAlive w.core with
      | error e => rfl
      | ok k =>
          have hsame : w.core.migrate (env.allocating f') k target
              = w.core.migrate (env.allocating f) k target := by
            unfold Core.migrate
            rw [RuntimeImpl.migrate_allocating fun q hadm =>
              h _ _ _ (by simp only [World.asks, hk, hadm])]
          simp only [hsame]
  | _ => rfl

end Allocating

end UnifiedBuffer
