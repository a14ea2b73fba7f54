import UnifiedBuffer.Buffer.Transfers
import UnifiedBuffer.Inventory.Layout
import UnifiedBuffer.Safety.Fates
import UnifiedBuffer.Safety.Geometry

set_option autoImplicit false

/-! # The contents of buffers

What an operation may write is the memory it brings in, the buffer it is called on or finalizes, and
the slot it takes (`World.WriteTarget`). All other backings keep their bytes, because backings
share none. A migration copies at least the bytes of the buffer before it binds the new backing, so
the contents of a buffer survive every sequence of operations that does not write to it. -/

namespace UnifiedBuffer

open Lib

/-- The range of the access is one of the backing `x`. -/
structure Access.To (y : Access) (x : Backing) : Prop where
  space : y.space = x.1.space
  backing : y.backing = x.2

theorem Access.To.has {y : Access} {x : Backing} {s : Space} {a : Nat} (h : y.To x)
    (hbounds : y.InBounds) (hwrites : y.Writes s a) : x.Has s a := by
  obtain ⟨-, hspace, hle, hlt⟩ := hwrites
  have hend : y.offset + y.len ≤ x.2.committed.toNat := by
    rw [← h.backing]
    exact hbounds
  rw [h.backing] at hle hlt
  refine ⟨hspace.trans h.space, Nat.le_trans (Nat.le_add_right _ _) hle, ?_⟩
  show a < x.2.base + x.2.committed.toNat
  omega

namespace World

variable {w : World} {op : Op} {base : List BufferId} {s : Space} {a : Nat}

/-! ## What is written -/

/-- The backings that an operation may write to. -/
inductive WriteTarget (w : World) (op : Op) (x : Backing) : Prop
  /-- memory that the operation brings in -/
  | fresh {bytes alignment : UInt64} {b : NativeAllocation}
      (asked : w.asks op = some (x.1, bytes, alignment)) (new : x.2 = w.core.os.stamp b)
      (clear : w.Separate op → ∀ y ∈ w.core.stock.held, x.Clear y)
  /-- the buffer that `copy_from` is called on -/
  | copied {env : Env} {i src : Nat} {srcOffset len : UInt64} {k : CtlId}
      (hop : op = .copyFrom env i src srcOffset len)
      (valid : (w.handle i).validateAlive w.core = .ok k)
      (filed : x = (w.core.control k).record.filed)
  /-- the buffer whose last reference is released -/
  | released {k : CtlId} (hrel : w.released op = some k) (last : (w.core.control k).refs = 1)
      (filed : x = (w.core.control k).record.filed)
      (wiped : ∃ y ∈ w.releasedAccesses (w.released op), y.To x)
  /-- the slot that an allocation takes -/
  | taken {env : Env} {req : AllocationRequest} {alignment classSize : UInt64} {l : Ledger}
      {slot : PoolSlot} {pool : Pool} (hop : op = .allocate env req)
      (admission : w.core.rt.admits req = some (alignment, classSize, l))
      (offer : w.core.rt.poolOffer req alignment classSize = some (slot, pool))
      (filed : x = (req.domain, slot.backing))

theorem zeroAccesses_to {rt : RuntimeImpl} {req : AllocationRequest} {b : NativeAllocation}
    {lastOwner : Option NamespaceId} {y : Access} (hy : y ∈ rt.zeroAccesses req b lastOwner) :
    y.To (req.domain, b) := by
  unfold RuntimeImpl.zeroAccesses at hy
  split at hy
  · rw [List.mem_singleton.mp hy]
    exact ⟨rfl, rfl⟩
  · cases hy

theorem allocateAccesses_target {env : Env} {req : AllocationRequest} {y : Access}
    (hy : y ∈ w.core.rt.allocateAccesses w.core.os env req) :
    ∃ x, y.To x ∧ w.WriteTarget (.allocate env req) x := by
  unfold RuntimeImpl.allocateAccesses at hy
  split at hy
  · cases hy
  rename_i alignment classSize l admission
  split at hy
  · rename_i slot pool offer
    exact ⟨_, zeroAccesses_to hy, .taken rfl admission offer rfl⟩
  rename_i offer
  split at hy
  · cases hy
  rename_i b backend
  have hasked : w.asks (.allocate env req) = some (req.domain, classSize, alignment) := by
    simp only [asks, admission, offer]
  split at hy
  · cases hy
  · exact ⟨_, zeroAccesses_to hy,
      .fresh hasked rfl fun hsep => Env.Separate.allocate hsep _ _ _ b backend⟩

theorem migrateAccesses_target {env : Env} {i : Nat} {k : CtlId} {target : MemoryDomain}
    (hk : (w.handle i).validateAlive w.core = .ok k) {y : Access} (hwrite : y.write = true)
    (hy : y ∈ w.core.rt.migrateAccesses w.core.os env (w.core.control k) target) :
    ∃ x, y.To x ∧ w.WriteTarget (.migrate env i target) x := by
  unfold RuntimeImpl.migrateAccesses at hy
  split at hy
  · cases hy
  rename_i admission
  split at hy
  · cases hy
  rename_i b backend
  have hasked : w.asks (.migrate env i target)
      = some (target, RuntimeImpl.migrateSize (w.core.control k).record,
        (w.core.control k).record.alignment) := by
    simp only [asks, hk, admission]
  have hfresh : w.WriteTarget (.migrate env i target) (target, w.core.os.stamp b) :=
    .fresh hasked rfl fun hsep => Env.Separate.allocate hsep _ _ _ b backend
  rcases List.mem_append.mp hy with hcopy | hverify
  · rcases List.mem_cons.mp hcopy with rfl | hcopy
    · cases hwrite
    · rw [List.mem_singleton.mp hcopy]
      exact ⟨_, ⟨rfl, rfl⟩, hfresh⟩
  · split at hverify
    · rw [List.mem_singleton.mp hverify] at hwrite
      cases hwrite
    · cases hverify

theorem finalizeAccesses_to {rt : RuntimeImpl} {r : Record} {y : Access}
    (hy : y ∈ rt.finalizeAccesses r) : y.To r.filed := by
  unfold RuntimeImpl.finalizeAccesses at hy
  split at hy
  · split at hy
    · cases hy
    · split at hy
      · rw [List.mem_singleton.mp hy]
        exact ⟨rfl, rfl⟩
      · cases hy
  · cases hy

/-- Every write of an operation goes to one of its targets. -/
theorem accesses_target {y : Access} (hy : y ∈ w.accesses op) (hwrite : y.write = true) :
    ∃ x, y.To x ∧ w.WriteTarget op x := by
  -- the operations that release an object have their accesses in common
  have hreleased : y ∈ w.releasedAccesses (w.released op) →
      ∃ x, y.To x ∧ w.WriteTarget op x := by
    intro hmem
    obtain ⟨k, hrel, hlast, hfinal⟩ := mem_releasedAccesses hmem
    have hto := finalizeAccesses_to hfinal
    exact ⟨_, hto, .released hrel hlast rfl ⟨y, hmem, hto⟩⟩
  cases op with
  | allocate env req => exact allocateAccesses_target hy
  | migrate env i target =>
      simp only [World.accesses] at hy
      split at hy
      · cases hy
      · rename_i k hk
        exact migrateAccesses_target hk hwrite hy
  | view i offset len access =>
      simp only [World.accesses, BufferHandle.viewAccesses] at hy
      split at hy
      · rw [List.mem_singleton.mp hy] at hwrite
        cases hwrite
      · cases hy
  | verify env i =>
      simp only [World.accesses, BufferHandle.verifyAccesses] at hy
      split at hy
      · cases hy
      split at hy
      · rw [List.mem_singleton.mp hy] at hwrite
        cases hwrite
      · cases hy
  | checksum i =>
      simp only [World.accesses, BufferHandle.checksumAccesses] at hy
      split at hy
      · cases hy
      split at hy
      · rw [List.mem_singleton.mp hy] at hwrite
        cases hwrite
      · cases hy
  | copyTo env i dst dstOffset len =>
      simp only [World.accesses, BufferHandle.copyToAccesses] at hy
      split at hy
      · cases hy
      split at hy
      · cases hy
      · rw [List.mem_singleton.mp hy] at hwrite
        cases hwrite
  | copyFrom env i src srcOffset len =>
      simp only [World.accesses, BufferHandle.copyFromAccesses] at hy
      split at hy
      · cases hy
      rename_i k hk
      split at hy
      · cases hy
      · rw [List.mem_singleton.mp hy]
        exact ⟨_, ⟨rfl, rfl⟩, .copied rfl (ensureValid_ok hk) rfl⟩
  | moveAssign => exact hreleased hy
  | release => exact hreleased hy
  | destroy => exact hreleased hy
  | _ => cases hy

/-- The runs that the following is about: backends return as much memory as they are asked for,
and what comes in shares no byte with what is held. -/
structure Sane (w : World) (op : Op) : Prop where
  faithful : op.Faithful
  separate : w.Separate op

/-- The same without a word on segments that are held. -/
structure Trusted (w : World) (op : Op) : Prop where
  faithful : op.Faithful
  fresh : w.Fresh op

theorem Trusted.sane (h : w.Trusted op) (hothers : w.OpensOthers op) : w.Sane op :=
  ⟨h.faithful, h.fresh.separate hothers⟩

/-- What is known of every state of such a run. -/
structure Orderly (w : World) : Prop where
  refs : w.RefInv []
  geometric : w.core.Geometric
  disjoint : w.core.stock.Disjoint

theorem Orderly.init (cfg : RuntimeConfig) (plat : RuntimeImpl.Platform) :
    (World.init cfg plat).Orderly where
  refs := refInv_init cfg plat
  geometric := ⟨fun k hk => absurd hk.1 (Nat.not_lt_zero k), fun e he => by cases he⟩
  disjoint := Multiset.pairwise_zero _

theorem Orderly.next (h : w.Orderly) (hop : w.Sane op) : (w.next op).Orderly where
  refs := h.refs.next op
  geometric := (geometric_effects h.refs h.geometric hop.faithful).next h.refs h.geometric
  disjoint := disjoint_next h.refs h.disjoint hop.separate

theorem orderly_reach {ok : World → Op → Prop} {cfg : RuntimeConfig} {plat : RuntimeImpl.Platform}
    (hreach : Reach World.next ok (World.init cfg plat) w) (hok : ∀ w op, ok w op → w.Sane op) :
    w.Orderly :=
  hreach.invariant (.init cfg plat) (fun _ op h hop => h.next (hok _ op hop))

/-- A byte that no target of the operation has, and that `copy_to` does not fill, stays as it is. -/
theorem Orderly.untouched (h : w.Orderly) (hfills : ¬ op.Fills s a)
    (hclear : ∀ x, w.WriteTarget op x → ¬ x.Has s a) :
    (w.next op).core.os.bytes s a = w.core.os.bytes s a := by
  refine next_bytes h.refs (fun y hy hwrites => ?_) hfills
  obtain ⟨x, hto, htarget⟩ := accesses_target hy hwrites.1
  exact hclear x htarget (hto.has (accesses_inBounds h.refs h.geometric op y hy) hwrites)

end World

/-! ## Contents -/

/-- Byte `i` of a buffer. -/
def Core.content (c : Core) (k : CtlId) (i : Nat) : UInt8 :=
  c.os.bytes (c.control k).record.domain.space ((c.control k).record.backing.base + i)

/-- The buffer has the same contents and the same attributes in `c'` as in `c`. -/
structure Core.SameContents (c c' : Core) (k : CtlId) : Prop where
  alive : c'.Alive k
  size : (c'.control k).record.size = (c.control k).record.size
  alignment : (c'.control k).record.alignment = (c.control k).record.alignment
  ns : (c'.control k).record.ns = (c.control k).record.ns
  access : (c'.control k).record.access = (c.control k).record.access
  id : (c'.control k).record.id = (c.control k).record.id
  bytes : ∀ i < (c.control k).record.size.toNat, c'.content k i = c.content k i

namespace Core.SameContents

theorem refl {c : Core} {k : CtlId} (hk : c.Alive k) : c.SameContents c k :=
  ⟨hk, rfl, rfl, rfl, rfl, rfl, fun _ _ => rfl⟩

theorem trans {c c' c'' : Core} {k : CtlId} (h : c.SameContents c' k) (h' : c'.SameContents c'' k) :
    c.SameContents c'' k where
  alive := h'.alive
  size := h'.size.trans h.size
  alignment := h'.alignment.trans h.alignment
  ns := h'.ns.trans h.ns
  access := h'.access.trans h.access
  id := h'.id.trans h.id
  bytes i hi := (h'.bytes i (by rw [h.size]; exact hi)).trans (h.bytes i hi)

end Core.SameContents

/-- A byte of the buffer is a byte of its backing. -/
theorem Record.Sound.has {r : Record} (h : r.Sound) {i : Nat} (hi : i < r.size.toNat) :
    r.filed.Has r.domain.space (r.backing.base + i) := by
  have hle := UInt64.le_iff_toNat_le.mp (UInt64.le_trans h.size_le h.committed_le)
  refine ⟨rfl, Nat.le_add_right _ _, ?_⟩
  show r.backing.base + i < r.backing.base + r.backing.committed.toNat
  omega

/-- What a successful migration copies. -/
theorem migrateCopy_content {os : Os} {env : Env} {ctl : Control} {target : MemoryDomain}
    {b : NativeAllocation} (hcopy : (RuntimeImpl.migrateCopy os env ctl target b).1 = .ok ())
    {i : Nat} (hi : i < (min ctl.record.committed b.committed).toNat) :
    (RuntimeImpl.migrateCopy os env ctl target b).2.bytes target.space (b.base + i)
      = os.bytes ctl.record.domain.space (ctl.record.backing.base + i) := by
  unfold RuntimeImpl.migrateCopy at hcopy ⊢
  rw [MemoryDomain.space_eq target, MemoryDomain.space_eq ctl.record.domain]
  exact Os.copyMemory_bytes_inside hcopy hi

namespace World

variable {w : World} {op : Op} {s : Space} {a : Nat} {k : CtlId}

/-- The operation does not write to the buffer, and does not release its last reference. -/
structure Spares (w : World) (k : CtlId) (op : Op) : Prop where
  copied : ∀ env i src srcOffset len, op = .copyFrom env i src srcOffset len →
    (w.handle i).ctl ≠ some k
  fills : ∀ s a, op.Fills s a → ¬ (w.core.control k).record.filed.Has s a
  released : w.released op = some k → (w.core.control k).refs ≠ 1

theorem spares_migrate (w : World) (k : CtlId) (env : Env) (i : Nat) (target : MemoryDomain) :
    w.Spares k (.migrate env i target) where
  copied _ _ _ _ _ h := by cases h
  fills _ _ h := h.elim
  released h := by cases h

theorem spares_allocate (w : World) (k : CtlId) (env : Env) (req : AllocationRequest) :
    w.Spares k (.allocate env req) where
  copied _ _ _ _ _ h := by cases h
  fills _ _ h := h.elim
  released h := by cases h

theorem spares_release (w : World) {k : CtlId} (env : Env) {i : Nat}
    (h : w.released (.release env i) ≠ some k) : w.Spares k (.release env i) where
  copied _ _ _ _ _ h := by cases h
  fills _ _ h := h.elim
  released hrel := absurd hrel h

/-- The backing of a buffer that is spared keeps its bytes. -/
theorem Orderly.spared (h : w.Orderly) (hop : w.Separate op) (hk : w.core.Alive k)
    (hspares : w.Spares k op) (hhas : (w.core.control k).record.filed.Has s a) :
    (w.next op).core.os.bytes s a = w.core.os.bytes s a := by
  refine h.untouched (fun hf => hspares.fills s a hf hhas) (fun x hx hxa => ?_)
  -- what is written is new memory, another buffer or a slot, each apart from the buffer `k`
  cases hx with
  | fresh _ _ clear => exact (clear hop _ (Core.held_of_alive hk)).not_has hxa hhas
  | copied hop valid filed =>
      rename_i j
      have hne : j ≠ k := by
        rintro rfl
        exact hspares.copied _ _ _ _ _ hop (BufferHandle.validateAlive_ok_iff.mp valid).ctl
      have hj := h.refs.alive (handle_alive h.refs valid).1
      rw [filed] at hxa
      exact (Core.clear_blocks h.disjoint hk hj hne).not_has hhas hxa
  | @released j hrel last filed =>
      have hne : j ≠ k := by
        rintro rfl
        exact hspares.released hrel last
      have hj := h.refs.alive (released_pins hrel)
      rw [filed] at hxa
      exact (Core.clear_blocks h.disjoint hk hj hne).not_has hhas hxa
  | taken hop admission offer filed =>
      obtain ⟨key, hkey, hperm, -⟩ := RuntimeImpl.poolOffer_perm offer
      have hclear := Core.clear_slot h.disjoint hk (hperm.mem_iff.mpr List.mem_cons_self)
      rw [filed, ← hkey] at hxa
      exact hclear.not_has hhas hxa

/-- The memory after a migration that got as far as the copy. -/
theorem migrate_bytes_next {env : Env} {i : Nat} {target : MemoryDomain} {tdom : IDomain}
    {l : Ledger} {b : NativeAllocation} (valid : (w.handle i).validateAlive w.core = .ok k)
    (admission : w.core.rt.migrateAdmit (w.core.control k) target = some (tdom, l))
    (backend : env.allocate target (RuntimeImpl.migrateSize (w.core.control k).record)
      (w.core.control k).record.alignment = .ok b) :
    (w.next (.migrate env i target)).core.os.bytes
      = (RuntimeImpl.migrateCopy w.core.os env (w.core.control k) target b).2.bytes := by
  have hcore : (w.core.migrate env k target).2.os.bytes
      = (RuntimeImpl.migrateCopy w.core.os env (w.core.control k) target b).2.bytes := by
    have hrun := w.core.rt.migrate_run w.core.os env (w.core.control k) target
    unfold Core.migrate
    generalize w.core.rt.migrate w.core.os env (w.core.control k) target = out at hrun ⊢
    -- once the backend has answered, every exit has copied, and after that memory is only freed
    cases hrun with
    | refused admission' | stays admission' =>
        rw [admission] at admission'
        cases admission'
    | backendFailed _ backend' =>
        rw [backend] at backend'
        cases backend'
    | copyFailed _ backend' | commitFailed _ backend' | verifyFailed _ backend' =>
        rw [backend] at backend'
        cases backend'
        rfl
    | swapped _ backend' =>
        rw [backend] at backend'
        cases backend'
        show Os.bytes (if _ then _ else _) = _
        split
        · exact freeIn_bytes _ _ _ _
        · rfl
  show (w.migrate env i target).2.core.os.bytes = _
  unfold World.migrate
  rw [valid]
  simp only
  generalize w.core.migrate env k target = out at hcore ⊢
  obtain ⟨res, c⟩ := out
  cases res <;> exact hcore

/-- One operation that spares a buffer keeps its contents. -/
theorem Orderly.sameContents (h : w.Orderly) (hop : w.Sane op) (hk : w.core.Alive k)
    (hspares : w.Spares k op) : w.core.SameContents (w.next op).core k := by
  have halive := alive_next h.refs hk hspares.released
  have hsound := h.geometric.blocks k hk
  have hfate := (fates h.refs op).blocks k halive
  -- a buffer that was there is kept or moved
  have hold : ∀ {P : Prop}, k = w.core.ctls.length → P :=
    fun hnew => absurd hk.1 (by rw [hnew]; exact Nat.lt_irrefl _)
  cases hfate with
  | fresh _ new | reused _ new | wrapped _ new | opened _ new => exact hold new
  | kept _ same =>
      refine ⟨halive, by rw [same], by rw [same], by rw [same], by rw [same], by rw [same],
        fun i hi => ?_⟩
      have hkept := h.spared hop.separate hk hspares (hsound.has hi)
      unfold Core.content
      rw [same]
      exact hkept
  | moved hmove valid admission backend copy same =>
      rename_i env _ target tdom l b
      subst hmove
      refine ⟨halive, by rw [same]; rfl, by rw [same]; rfl, by rw [same]; rfl, by rw [same]; rfl,
        by rw [same]; rfl, fun i hi => ?_⟩
      -- the copy has at least `size` bytes
      have hroom := (hop.faithful.allocate _ _ _ _ backend).1
      have hlen : i < (min (w.core.control k).record.committed b.committed).toNat := by
        rw [toNat_min]
        have hsize := UInt64.le_iff_toNat_le.mp hsound.size_le
        have hnew := UInt64.le_iff_toNat_le.mp (UInt64.le_trans hsound.size_le_migrateSize hroom)
        omega
      unfold Core.content
      rw [same, migrate_bytes_next valid admission backend]
      exact migrateCopy_content copy hlen

/-- A sequence of operations that spare a buffer keeps its contents. -/
theorem sameContents_runs {ok : World → Op → Prop} {cfg : RuntimeConfig}
    {plat : RuntimeImpl.Platform} (hok : ∀ w op, ok w op → w.Sane op) {ops : List Op}
    (hreach : Reach World.next ok (World.init cfg plat) w) (hk : w.core.Alive k)
    (hops : Along World.next (fun w op => ok w op ∧ w.Spares k op) w ops) :
    w.core.SameContents (runs World.next w ops).core k := by
  induction ops generalizing w with
  | nil => exact .refl hk
  | cons op ops ih =>
      obtain ⟨⟨hop, hspares⟩, hrest⟩ := hops
      have hstep := (orderly_reach hreach hok).sameContents (hok w op hop) hk hspares
      exact hstep.trans (ih (.next op hreach hop) hstep.alive hrest)

/-! ## Reading a buffer -/

/-- `copy_to` delivers the contents of a buffer. -/
theorem copyTo_content {h : BufferHandle} {c : Core} {env : Env} {dst : Nat}
    (hk : h.validateAlive c = .ok k) (hsound : (c.control k).record.Sound) (hdst : dst ≠ 0)
    (hcopy : env.copy = .ok ()) {i : Nat} (hi : i < (c.control k).record.size.toNat) :
    (h.copyTo c env dst 0 (c.control k).record.size).2.os.bytes .host (dst + i)
      = c.content k i := by
  have hfits : BufferHandle.Fits (c.control k).record dst 0 (c.control k).record.size :=
    ⟨hdst, by simp, UInt64.le_iff_toNat_le.mp hsound.size_le⟩
  exact (BufferHandle.copyTo_moved hk hfits hcopy).inside i hi

end World

/-- **Migration preserves contents.** Along every sequence of operations, with migrations that
succeed or fail and with allocations and releases of other buffers, a buffer that is not written to
keeps its attributes and its bytes, and `copy_to` through an up-to-date handle delivers them. -/
theorem migration_preserves_contents {cfg : RuntimeConfig} {plat : RuntimeImpl.Platform} {w : World}
    (hreach : Reach World.next World.Sane (World.init cfg plat) w) {k : CtlId}
    (hk : w.core.Alive k) {ops : List Op}
    (hops : Along World.next (fun w op => w.Sane op ∧ w.Spares k op) w ops) :
    w.core.SameContents (runs World.next w ops).core k ∧
      ∀ (h : BufferHandle) (env : Env) (dst : Nat),
        h.validateAlive (runs World.next w ops).core = .ok k → dst ≠ 0 → env.copy = .ok () →
        ∀ i < (w.core.control k).record.size.toNat,
          (h.copyTo (runs World.next w ops).core env dst 0
            (w.core.control k).record.size).2.os.bytes .host (dst + i) = w.core.content k i := by
  have hsame := World.sameContents_runs (fun _ _ h => h) hreach hk hops
  refine ⟨hsame, fun h env dst hvalid hdst hcopy i hi => ?_⟩
  have hreach' := reach_runs hreach (hops.mono fun _ _ h => h.1)
  have hsound := (World.orderly_reach hreach' (fun _ _ h => h)).geometric.blocks k hsame.alive
  rw [← hsame.size] at hi ⊢
  rw [World.copyTo_content hvalid hsound hdst hcopy hi]
  exact hsame.bytes i (by rw [hsame.size] at hi; exact hi)

/-! ### A tour through three domains -/

theorem NativeAllocation.found_base (address : Nat) (bytes alignment : UInt64) (d : MemoryDomain) :
    NativeAllocation.base { NativeAllocation.found address bytes alignment with domain := d }
      = address := by
  show (if address ≠ 0 then address else address) = address
  split <;> rfl

theorem Env.servesAt_separate {address : Nat} {held : Multiset Backing}
    (h : ∀ y ∈ held, y.start + y.length ≤ address) : (Env.servesAt address).Separate held where
  allocate d bytes alignment b hb y hy := by
    cases hb
    intro _
    right
    show y.start + y.length ≤ NativeAllocation.base _
    rw [NativeAllocation.found_base]
    exact h y hy

/-- Backends that answer no request for memory. -/
theorem Env.default_faithful : ({} : Env).Faithful where
  allocate _ _ _ _ h := by cases h
  importHandle _ _ _ _ _ h := by cases h

theorem Env.default_separate (held : Multiset Backing) : ({} : Env).Separate held where
  allocate _ _ _ _ h := by cases h

/-- A buffer of 100 bytes, of which a transfer that failed has left `1, 2, 3` at the start. -/
def scribbled : World :=
  runs World.next (World.init {} {})
    [.allocate (.servesAt 4096) { size := 100 },
      .copyFrom { copy := .error ⟨.stateInvalid, ""⟩, scrap := fun a => .ofNat (a - 4095) } 0 64 0 3]

/-- The buffer moves to shared memory, fails to move on for lack of memory, and moves to a file
after another buffer came and went. -/
def tour : List Op :=
  [.migrate (.servesAt 8192) 0 .sharedHost, .migrate {} 1 .mmapStorage,
    .allocate (.servesAt 16384) { size := 200 }, .release {} 2,
    .migrate (.servesAt 32768) 1 .mmapStorage]

/-- The theorem at work: the buffer is in its third domain and generation, and the bytes are
there. -/
theorem migration_preserves_contents_tour :
    ((runs World.next scribbled tour).core.control 0).record.domain = .mmapStorage ∧
      ((runs World.next scribbled tour).core.control 0).record.generation = 3 ∧
      (List.range 4).map (scribbled.core.content 0) = [1, 2, 3, 0] ∧
      scribbled.core.SameContents (runs World.next scribbled tour).core 0 := by
  have hreach : Reach World.next World.Sane (World.init {} {}) scribbled :=
    reach_runs .start
      ⟨⟨Env.servesAt_faithful _, Env.servesAt_separate (by decide)⟩, ⟨trivial, trivial⟩, trivial⟩
  have hops : Along World.next (fun w op => w.Sane op ∧ w.Spares 0 op) scribbled tour :=
    ⟨⟨⟨Env.servesAt_faithful _, Env.servesAt_separate (by decide)⟩, World.spares_migrate _ _ _ _ _⟩,
      ⟨⟨Env.default_faithful, Env.default_separate _⟩, World.spares_migrate _ _ _ _ _⟩,
      ⟨⟨Env.servesAt_faithful _, Env.servesAt_separate (by decide)⟩, World.spares_allocate _ _ _ _⟩,
      ⟨⟨trivial, trivial⟩, World.spares_release _ _ (by decide)⟩,
      ⟨⟨Env.servesAt_faithful _, Env.servesAt_separate (by decide)⟩, World.spares_migrate _ _ _ _ _⟩,
      trivial⟩
  exact ⟨by decide, by decide, by decide,
    (migration_preserves_contents hreach ⟨by decide, by decide⟩ hops).1⟩

end UnifiedBuffer
