import UnifiedBuffer.Backends.Native
import UnifiedBuffer.Safety.Exports
import UnifiedBuffer.Safety.Readmission

set_option autoImplicit false

/-! # Export and import of segments

A buffer in shared or file-backed memory is exported by the name of its segment, and any runtime
that can open the segment can import it. Every check that `import_descriptor` and `import_handle`
make holds of every descriptor that `export_descriptor` can return: `Core.Portable` is the
invariant on sizes, alignments and backings that says so. -/

namespace UnifiedBuffer

open Lib

/-- The backends that the operation gets memory or segments from are the native ones. -/
def Op.Backed (names : SegmentNames) : Op → Prop
  | .allocate env _ => env.Backed names
  | .migrate env _ _ => env.Backed names
  | .importBuffer env _ _ _ => env.Backed names
  | _ => True

theorem Env.Backed.faithful {env : Env} {names : SegmentNames} (h : env.Backed names) :
    env.Faithful where
  allocate d bytes alignment a ha := by
    have hgranted := h.native.granted ha
    exact ⟨hgranted.committed ▸ UInt64.le_refl _, hgranted.domain⟩
  importHandle d handle size alignment a ha := by
    obtain ⟨sys, -, himport⟩ := h.calls
    rw [himport] at ha
    exact NativeCalls.importHandle_domain ha

theorem Op.Backed.faithful {names : SegmentNames} {op : Op} (h : op.Backed names) :
    op.Faithful := by
  cases op with
  | allocate env req | migrate env i target | importBuffer env desc ns label =>
      exact Env.Backed.faithful h
  | _ => trivial

/-! ## Enabled domains -/

/-- The sizes and the alignment of an admitted request. -/
theorem RuntimeImpl.admits_portable {rt : RuntimeImpl} {req : AllocationRequest}
    {alignment classSize : UInt64} {l : Ledger}
    (h : rt.admits req = some (alignment, classSize, l)) : req.size.toNat ≤ 2 ^ 48 ∧
      alignment ≠ 0 ∧ isPowerOfTwo alignment = true ∧ (rt.domain req.domain).isSome := by
  have hvalid := validateRequest_ok (admits_valid h)
  have hup := hvalid.up
  unfold alignUp at hup
  split at hup
  · cases hup
  rename_i hne
  split at hup
  · cases hup
  rename_i hpow
  exact ⟨hvalid.bounded, hne, not_not.mp hpow, Core.admits_backend h⟩

/-- The target of an admitted migration has a backend. -/
theorem RuntimeImpl.migrateAdmit_domain {rt : RuntimeImpl} {ctl : Control} {target : MemoryDomain}
    {tdom : IDomain} {l : Ledger} (h : rt.migrateAdmit ctl target = some (tdom, l)) :
    rt.domain target = some tdom := by
  unfold migrateAdmit at h
  split at h
  · cases h
  split at h
  · cases h
  · rename_i hdom
    split at h
    · cases h
    · cases h
      exact hdom

/-- Memory of a disabled domain is not wrapped. -/
theorem Core.wrapExternal_disabled {c : Core} {desc : ExternalMemoryDesc}
    (h : c.rt.domain desc.domain = none) : (c.wrapExternal desc).2.ctls = c.ctls := by
  unfold Core.wrapExternal
  split
  · rfl
  split
  · rfl
  rw [h]

/-- A segment of a disabled domain is not opened. -/
theorem Core.importDescriptor_disabled {c : Core} {env : Env} {desc : ExportDescriptor}
    {ns : NamespaceId} {label : String} (h : c.rt.domain desc.domain = none) :
    (c.importDescriptor env desc ns label).2.ctls = c.ctls := by
  unfold Core.importDescriptor
  split
  · rfl
  split
  · rfl
  simp only
  split
  · unfold Core.importSegment
    have hnone : ({ c with rt := c.rt.nextId.2 } : Core).rt.domain desc.domain = none := h
    rw [hnone]
  split
  · have hb := lookup_booked { c with rt := c.rt.nextId.2 } desc.bufferId desc.generation
    generalize Core.lookup { c with rt := c.rt.nextId.2 } desc.bufferId desc.generation = out
      at hb ⊢
    obtain ⟨res, c₂⟩ := out
    cases res with
    | error e => exact hb.ctls
    | ok k => exact hb.ctls
  · rfl

/-- As long as the runtime is open, the domain of every live buffer is enabled. -/
def Core.Served (c : Core) : Prop :=
  c.rt.closed = false → ∀ k, c.Alive k → (c.rt.domain (c.control k).record.domain).isSome

namespace World

variable {w : World} {base : List BufferId}

/-- An operation that registers nothing has no new buffer. -/
theorem giveHandle_not_new {p : Except Error CtlId × Core} (h : p.2.ctls = w.core.ctls) :
    ¬ (w.giveHandle p).2.core.Alive w.core.ctls.length := by
  have hlen : (w.giveHandle p).2.core.ctls.length = w.core.ctls.length := by
    obtain ⟨res, c⟩ := p
    cases res with
    | error e => exact congrArg List.length h
    | ok k => exact (List.length_modify _ _ _).trans (congrArg List.length h)
  exact fun halive => Nat.lt_irrefl _ (hlen ▸ halive.1)

theorem served_init (cfg : RuntimeConfig) (plat : RuntimeImpl.Platform) :
    (World.init cfg plat).core.Served :=
  fun _ k hk => absurd hk.1 (Nat.not_lt_zero k)

theorem served_next (hinv : w.RefInv base) (h : w.core.Served) (op : Op) :
    (w.next op).core.Served := by
  intro hopen k hk
  -- as long as the runtime is open no backend comes or goes
  obtain ⟨hopen₀, hdomains⟩ := ((sameSetup_effects w op).next hinv (.refl _)).stillOpen hopen
  rw [RuntimeImpl.domain, hdomains]
  cases (fates hinv op).blocks k hk with
  | kept alive same =>
      rw [same]
      exact h hopen₀ k alive
  | moved _ _ admission _ _ same =>
      rw [same]
      exact Option.isSome_of_eq_some (RuntimeImpl.migrateAdmit_domain admission)
  | fresh _ _ admission _ _ _ same | reused _ _ admission _ _ same =>
      rw [same]
      exact (RuntimeImpl.admits_portable admission).2.2.2
  | wrapped hop new made same =>
      subst hop new
      obtain ⟨-, -, dom, id, rfl⟩ := made
      rw [same]
      by_contra hnone
      exact giveHandle_not_new
        (Core.wrapExternal_disabled (Option.not_isSome_iff_eq_none.mp hnone)) hk
  | opened hop new made same =>
      subst hop new
      obtain ⟨-, id, a, -, -, rfl⟩ := made
      rw [same]
      by_contra hnone
      exact giveHandle_not_new
        (Core.importDescriptor_disabled (Option.not_isSome_iff_eq_none.mp hnone)) hk

theorem served_reach {ok : World → Op → Prop} {cfg : RuntimeConfig} {plat : RuntimeImpl.Platform}
    (hreach : Reach World.next ok (World.init cfg plat) w) : w.core.Served :=
  hreach.invariant_of (I := fun w => w.core.Served) (K := fun w => w.RefInv [])
    (fun _ h => refInv_reach h) (served_init cfg plat)
    (fun _ op hinv h _ => served_next hinv h op)

end World

/-! ## Portable buffers -/

/-- What an import checks of the descriptor of a record, and what an export needs of its backing. -/
structure Record.Portable (r : Record) : Prop where
  size_le : r.size.toNat ≤ 2 ^ 48
  alignment_ne : r.alignment ≠ 0
  alignment_pow : isPowerOfTwo r.alignment = true
  state : (Core.handleKind r.domain).isSome → r.backing.state = true

theorem Record.Same.portable {r r' : Record} (hs : r.Same r') (h : r.Portable) : r'.Portable := by
  rw [hs]
  exact ⟨h.size_le, h.alignment_ne, h.alignment_pow, h.state⟩

/-- Every buffer that may be exported or return to the pool is portable, the domain of an exportable
one is enabled as long as the runtime is open, and the slots of the pool have their state. -/
structure Core.Portable (c : Core) : Prop where
  blocks : ∀ k, c.Alive k → (c.control k).record.flags.exportable = true ∨
    (c.control k).record.poolEligible = true → (c.control k).record.Portable
  enabled : c.rt.closed = false → ∀ k, c.Alive k → (c.control k).record.flags.exportable = true →
    (c.rt.domain (c.control k).record.domain).isSome
  slots : ∀ e ∈ c.rt.pool.all, (handleKind e.1.domain).isSome → e.2.backing.state = true

/-- Memory of a native backend has a state where it has a name. -/
theorem Granted.state_of_kind {d : MemoryDomain} {bytes alignment : UInt64} {a : NativeAllocation}
    (h : Granted d bytes alignment a) (hkind : (Core.handleKind d).isSome) : a.state = true := by
  refine h.state.mpr ?_
  cases d with
  | sharedHost => exact Or.inl rfl
  | mmapStorage => exact Or.inr rfl
  | _ => cases hkind

namespace World

variable {w : World} {op : Op} {names : SegmentNames} {base : List BufferId}

theorem portable_next (hinv : w.RefInv base) (hserved : w.core.Served) (h : w.core.Portable)
    (hop : op.Backed names) : (w.next op).core.Portable := by
  have hfates := fates hinv op
  refine ⟨fun k hk hmay => ?_, fun hopen k hk _ => served_next hinv hserved op hopen k hk,
    fun e he hkind => ?_⟩
  · cases hfates.blocks k hk with
    | kept alive same =>
        refine same.portable (h.blocks k alive ?_)
        rw [same] at hmay
        exact hmay
    | @moved env i target _ _ a heq _ _ backend _ same =>
        subst heq
        have hgranted := Env.Backed.native hop |>.granted backend
        have hold : (w.core.control k).record.Portable := by
          refine h.blocks k (hinv.alive (handle_alive hinv ‹_›).1) (Or.inl ?_)
          rw [same] at hmay
          exact hmay.resolve_right (by simp [RuntimeImpl.rebind])
        exact same.portable ⟨hold.size_le, hold.alignment_ne, hold.alignment_pow,
          hgranted.state_of_kind⟩
    | fresh heq _ admission backend _ _ same =>
        subst heq
        have hgranted := Env.Backed.native hop |>.granted backend
        obtain ⟨hsize, hne, hpow, -⟩ := RuntimeImpl.admits_portable admission
        exact same.portable ⟨hsize, hne, hpow, hgranted.state_of_kind⟩
    | reused _ _ admission offer _ same =>
        obtain ⟨hsize, hne, hpow, -⟩ := RuntimeImpl.admits_portable admission
        obtain ⟨key, hkey, hperm, -⟩ := RuntimeImpl.poolOffer_perm offer
        refine same.portable ⟨hsize, hne, hpow, fun hkind => ?_⟩
        refine h.slots _ (hperm.mem_iff.mpr List.mem_cons_self) ?_
        rw [hkey]
        exact hkind
    | wrapped _ _ made same =>
        -- wrapped and imported buffers are neither exported nor pooled
        obtain ⟨-, -, dom, id, rfl⟩ := made
        rw [same] at hmay
        rcases hmay with hexp | hpool
        · cases hexp
        · cases hpool
    | opened _ _ made same =>
        obtain ⟨-, id, a, -, -, rfl⟩ := made
        rw [same] at hmay
        rcases hmay with hexp | hpool
        · cases hexp
        · cases hpool
  · cases hfates.slots e he with
    | stayed mem => exact h.slots e mem hkind
    | @entered env k _ _ _ alive eligible _ slot _ _ =>
        have hpooled := RuntimeImpl.poolEligible_of_returnsToPool eligible
        subst slot
        exact (h.blocks k alive (Or.inr hpooled)).state hkind

theorem portable_reach {cfg : RuntimeConfig} {plat : RuntimeImpl.Platform}
    (hreach : Reach World.next (fun _ op => op.Backed names) (World.init cfg plat) w) :
    w.core.Portable := by
  refine hreach.invariant_of (I := fun w => w.core.Portable)
    (K := fun w => w.RefInv [] ∧ w.core.Served)
    (fun _ h => ⟨refInv_reach h, served_reach h⟩) ?_ ?_
  · refine ⟨fun k hk => ?_, fun _ k hk => ?_, fun e he => ?_⟩
    · exact absurd hk.1 (Nat.not_lt_zero k)
    · exact absurd hk.1 (Nat.not_lt_zero k)
    · cases he
  · intro w op hinv h hop
    exact portable_next hinv.1 hinv.2 h hop

end World

/-! ## One export and one import -/

namespace Core

variable {c : Core} {env : Env}

/-- The export of a segment. -/
theorem exportDescriptor_segment {k : CtlId} {kind handle : String}
    (hexp : (c.control k).record.flags.exportable = true)
    (hdom : (c.rt.domain (c.control k).record.domain).isSome)
    (hkind : handleKind (c.control k).record.domain = some kind)
    (hhandle : env.exportHandle (c.control k).record.domain (c.control k).record.backing
      = .ok handle) :
    (c.exportDescriptor env k).1 = .ok ((c.control k).record.descriptor kind handle) := by
  obtain ⟨dom, hdom⟩ := Option.isSome_iff_exists.mp hdom
  simp only [exportDescriptor, hexp, Bool.true_eq_false, if_false, hdom, hkind, hhandle]
  rfl

variable {desc : ExportDescriptor} {ns : NamespaceId}

theorem checkImport_ok {nsc : NamespaceConfig}
    (hversion : desc.formatVersion = kExportFormatVersion)
    (hpos : desc.size ≠ 0) (hsize : desc.size.toNat ≤ 2 ^ 48)
    (hpow : isPowerOfTwo desc.alignment = true) (hns : c.rt.namespaceInfo ns = some nsc)
    (hallow : nsc.allowImport = true) (hown : desc.ns = ns) : c.checkImport desc ns = .ok () := by
  have hle : ¬ desc.size > (1 : UInt64) <<< 48 :=
    UInt64.not_lt.mpr (UInt64.le_iff_toNat_le.mpr hsize)
  simp only [checkImport, hversion, ne_eq, not_true_eq_false, if_false, hpos, hle, hpow, and_false,
    hown, hns, hallow, Option.map_some, Bool.not_true, Option.getD_some, Bool.false_eq_true,
    Bool.true_eq_false]

/-- The import of a segment registers a new block. -/
theorem importDescriptor_segment (label : String) {a : NativeAllocation}
    (hopen : c.rt.closed = false) (hcheck : c.checkImport desc ns = .ok ())
    (hkind : (handleKind desc.domain).isSome) (hdom : (c.rt.domain desc.domain).isSome)
    (hhandle : env.importHandle desc.domain desc.handle desc.size
      (if desc.alignment ≠ 0 then desc.alignment else 64) = .ok a)
    (hroom : desc.size ≤ a.committed) :
    ∃ (c₁ : Core) (id : BufferId), c.importDescriptor env desc ns label
        = (.ok c.ctls.length, (c₁.register { importRecord env desc ns label id with
            backing := c.os.stamp a }).2) ∧
      c₁.ctls = c.ctls ∧ c₁.os.bytes = c.os.bytes := by
  obtain ⟨dom, hdom⟩ := Option.isSome_iff_exists.mp hdom
  have hdom' : c.rt.nextId.2.domain desc.domain = some dom := hdom
  have hlarge : ¬ (c.os.stamp a).committed < desc.size := UInt64.not_lt.mpr hroom
  simp only [importDescriptor, hopen, Bool.false_eq_true, if_false, hcheck, hkind, if_true,
    importSegment, hdom', Os.importHandle, hhandle, hlarge]
  exact ⟨_, c.rt.nextId.1, rfl, rfl, rfl⟩

end Core

/-! ## The round trip -/

/-- The record of a buffer in its first generation that has the properties of `r`. -/
structure Record.Twin (r r' : Record) : Prop where
  generation : r'.generation = 1
  ns : r'.ns = r.ns
  domain : r'.domain = r.domain
  backend : r'.backend = r.backend
  device : r'.device = r.device
  size : r'.size = r.size
  alignment : r'.alignment = r.alignment
  access : r'.access = r.access

/-- From `w` to `w'` an import has registered block `j`, with a fresh identity, for a buffer that
has the properties of `r` and the contents `content`. -/
structure World.Reopened (w w' : World) (r : Record) (content : Nat → UInt8) (j : CtlId) :
    Prop where
  handle : (w'.handle w.objs.length).ctl = some j
  registered : w'.core.rt.registry.find? (w'.core.control j).record.id = some j
  fresh : ∀ k < w.core.ctls.length,
    (w.core.control k).record.id ≠ (w'.core.control j).record.id
  twin : r.Twin (w'.core.control j).record
  bytes : ∀ x < r.size.toNat,
    w'.core.os.bytes .host ((w'.core.control j).record.backing.base + x) = content x

/-- A buffer that is not finalized is found by its identity. -/
theorem World.RefInv.find_of_alive {w : World} {base : List BufferId} (hinv : w.RefInv base)
    {k : CtlId} (hk : w.core.Alive k) :
    w.core.rt.registry.find? (w.core.control k).record.id = some k := by
  obtain ⟨e, he, rfl⟩ := List.mem_map.mp ((hinv.registered_iff k).mpr hk)
  have hfind := (w.core.rt.registry.mem_entries_iff e.1 e.2).mp he
  rw [(hinv.registered_block hfind).2]
  exact hfind

/-- A new block and the handle that the program gets to it. -/
theorem World.giveHandle_register {w w' : World} {c₁ : Core} {r : Record}
    (hctls : c₁.ctls = w.core.ctls)
    (hw : w' = (w.giveHandle (.ok w.core.ctls.length, (c₁.register r).2)).2) :
    (w'.handle w.objs.length).ctl = some w.core.ctls.length ∧
      w'.core.Alive w.core.ctls.length ∧ (w'.core.control w.core.ctls.length).record = r := by
  have hlt : w.core.ctls.length < (c₁.register r).2.ctls.length := by
    show _ < (c₁.ctls ++ _).length
    rw [List.length_append, hctls]
    exact Nat.lt_succ_self _
  have hblock : w'.core.control w.core.ctls.length
      = { record := r, poolEligible := r.poolEligible, refs := 0 + 1 } := by
    rw [hw]
    show ((c₁.register r).2.retain _).control _ = _
    rw [Core.retain, Core.control_modify _ _ hlt, Core.control_register, hctls, if_pos rfl]
  refine ⟨?_, ⟨?_, ?_⟩, ?_⟩
  · rw [hw]
    simp [giveHandle, handle, BufferHandle.ofControl]
  · rw [hw]
    show _ < (List.modify _ _ _).length
    rw [List.length_modify]
    exact hlt
  · rw [hblock]
  · rw [hblock]

/-- The import of a descriptor of `r`, whose segment the backend has opened as `a`. -/
theorem World.reopened_import {w : World} {base : List BufferId} (hinv : w.RefInv base) {r : Record}
    {kind handle : String} {env : Env} {a : NativeAllocation} {content : Nat → UInt8} {op : Op}
    (label : String) (hop : op = .importBuffer env (r.descriptor kind handle) r.ns label)
    (hopen : w.core.rt.closed = false)
    (hcheck : w.core.checkImport (r.descriptor kind handle) r.ns = .ok ())
    (hkind : (Core.handleKind r.domain).isSome) (hdom : (w.core.rt.domain r.domain).isSome)
    (halign : r.alignment ≠ 0)
    (hhandle : env.importHandle r.domain handle r.size r.alignment = .ok a)
    (hmaps : a.Maps w.core.os r.size content) :
    (w.step op).1 = .ok (.object w.objs.length) ∧
      w.Reopened (w.next op) r content w.core.ctls.length := by
  have hinv' := hinv.next op
  have hages := hinv.ages op
  -- the descriptor states the alignment, which is not zero
  have hgiven : (if r.alignment ≠ 0 then r.alignment else 64) = r.alignment := if_pos halign
  have hasked : env.importHandle (r.descriptor kind handle).domain
      (r.descriptor kind handle).handle (r.descriptor kind handle).size
      (if (r.descriptor kind handle).alignment ≠ 0 then (r.descriptor kind handle).alignment
        else 64) = .ok a := by
    show env.importHandle r.domain handle r.size (if r.alignment ≠ 0 then r.alignment else 64) = _
    rw [hgiven]
    exact hhandle
  obtain ⟨c₁, id, himport, hctls, hbytes⟩ := Core.importDescriptor_segment label hopen hcheck hkind
    hdom hasked (hmaps.committed ▸ UInt64.le_refl _)
  have hstep : w.step op
      = w.giveHandle (w.core.importDescriptor env (r.descriptor kind handle) r.ns label) := by
    rw [hop]
    rfl
  rw [himport] at hstep
  have hnext : w.next op = (w.step op).2 := rfl
  rw [hstep] at hnext
  obtain ⟨hhandle', halive, hrecord⟩ := World.giveHandle_register hctls hnext
  refine ⟨by rw [hstep]; rfl, hhandle', hinv'.find_of_alive halive, fun k hk heq => ?_, ?_,
    fun x hx => ?_⟩
  · -- the new block is none of the old ones
    have hold := (hages.same k hk).id
    have hsame := hinv'.ids_inj (Nat.lt_of_lt_of_le hk hages.length) halive.1 (hold.trans heq)
    exact absurd hsame (Nat.ne_of_lt hk)
  · rw [hrecord]
    exact ⟨rfl, rfl, rfl, rfl, rfl, rfl, hgiven, rfl⟩
  · have hos : (w.next op).core.os.bytes = w.core.os.bytes := by
      rw [hnext]
      exact hbytes
    rw [hrecord, hos]
    exact hmaps.bytes x hx

/-- **Import undoes export**: in every state that an open runtime with native backends reaches, an
exportable buffer in shared or file-backed memory can be exported, and every open runtime in which
its domain is enabled and its namespace allows imports can import it again, with a fresh identity
and the same properties and contents. -/
theorem import_undoes_export {cfg₁ cfg₂ : RuntimeConfig} {plat₁ plat₂ : RuntimeImpl.Platform}
    {w₁ w₂ : World} {names : SegmentNames} (hclean : names.Clean)
    (hreach₁ : Reach World.next (fun _ op => op.Backed names) (World.init cfg₁ plat₁) w₁)
    (hreach₂ : Reach World.next (fun _ _ => True) (World.init cfg₂ plat₂) w₂)
    {i : Nat} {k : CtlId} (hk : (w₁.handle i).validateAlive w₁.core = .ok k) {r : Record}
    (hr : r = (w₁.core.control k).record) (hexp : r.flags.exportable = true)
    (hsegment : r.domain = .sharedHost ∨ r.domain = .mmapStorage)
    (hopen₁ : w₁.core.rt.closed = false) (hopen₂ : w₂.core.rt.closed = false)
    (henabled : (w₂.core.rt.domain r.domain).isSome) {nsc : NamespaceConfig}
    (hns : w₂.core.rt.namespaceInfo r.ns = some nsc) (hallow : nsc.allowImport = true)
    {env₁ env₂ : Env} {sys : NativeCalls} (henv₁ : env₁.exportHandle = names.exportHandle)
    (henv₂ : env₂.importHandle = sys.importHandle names.baseDir)
    (hos : ∀ handle, names.exportHandle r.domain r.backing = .ok handle →
      sys.Opens w₂.core.os r.domain handle r.backing.committed
        (fun x => w₁.core.os.bytes .host (r.backing.base + x))) (label : String) :
    ∃ d, (w₁.step (.exportBuffer env₁ i)).1 = .ok (.descriptor d) ∧
      (w₂.step (.importBuffer env₂ d r.ns label)).1 = .ok (.object w₂.objs.length) ∧
      w₂.Reopened (w₂.next (.importBuffer env₂ d r.ns label)) r
        (fun x => w₁.core.os.bytes .host (r.backing.base + x)) w₂.core.ctls.length := by
  have hinv₁ : w₁.RefInv [] := World.refInv_reach hreach₁
  have hinv₂ : w₂.RefInv [] := World.refInv_reach hreach₂
  have halive := hinv₁.alive (World.handle_alive hinv₁ hk).1
  have hinvariant := World.portable_reach hreach₁
  have hportable : r.Portable := hr ▸ hinvariant.blocks k halive (Or.inl (hr ▸ hexp))
  have hdom : (w₁.core.rt.domain r.domain).isSome :=
    hr ▸ hinvariant.enabled hopen₁ k halive (hr ▸ hexp)
  have hsound : r.Sound := hr ▸
    (World.geometric_reach (hreach₁.mono (fun _ _ hop => hop.faithful))).blocks k halive
  have hroom : r.size ≤ r.backing.committed := UInt64.le_trans hsound.size_le hsound.committed_le
  -- the segment has a name, and the name can be opened again
  obtain ⟨kind, hkind⟩ : ∃ kind, Core.handleKind r.domain = some kind := by
    rcases hsegment with hd | hd
    · exact ⟨_, by rw [hd]; rfl⟩
    · exact ⟨_, by rw [hd]; rfl⟩
  obtain ⟨handle, hhandle⟩ :=
    names.exportHandle_ok hsegment (hportable.state (Option.isSome_of_eq_some hkind))
  obtain ⟨b, himport, hmaps⟩ :=
    importHandle_of_exportHandle hclean hhandle (hos handle hhandle) hroom r.alignment
  refine ⟨r.descriptor kind handle, ?_, ?_⟩
  · have hexport : (w₁.core.exportDescriptor env₁ k).1 = .ok (r.descriptor kind handle) := by
      rw [hr] at hexp hdom hkind hhandle ⊢
      exact Core.exportDescriptor_segment hexp hdom hkind (by rw [henv₁]; exact hhandle)
    show (w₁.exportBuffer env₁ i).1 = _
    simp only [World.exportBuffer, hk, World.answer, hexport]
    rfl
  · refine World.reopened_import hinv₂ label rfl hopen₂ ?_ (Option.isSome_of_eq_some hkind) henabled
      hportable.alignment_ne (by rw [henv₂]; exact himport) hmaps
    exact Core.checkImport_ok rfl (UInt64.pos_iff_ne_zero.mp hsound.size_pos) hportable.size_le
      hportable.alignment_pow hns hallow rfl

/-- An operating system that maps every segment at one address. -/
def NativeCalls.mapsAt (address : Nat) : NativeCalls where
  createFileMapping := fun _ => true
  openFileMapping := fun _ => true
  mapViewOfFile := fun _ => some address

def tempNames : SegmentNames := { baseDir := "C:\\Temp" }

theorem tempNames_clean : tempNames.Clean where
  noTraversal := by decide
  short _ := show (tempNames.path .none).toList.length ≤ 1024 by decide

/-- An exportable page of shared memory. -/
def segmentPage : World :=
  runs World.next (World.init {} {}) [.allocate ((NativeCalls.mapsAt 4096).env tempNames)
    { size := 4096, domain := .sharedHost, flags := { exportable := true } }]

/-- The theorem at work: another runtime imports the page, which it maps at another address. -/
theorem import_undoes_export_segmentPage :
    ∃ d, (segmentPage.step (.exportBuffer ((NativeCalls.mapsAt 4096).env tempNames) 0)).1
        = .ok (.descriptor d) ∧
      ((World.init {} {}).step (.importBuffer ((NativeCalls.mapsAt 8192).env tempNames) d
        kDefaultNamespace "copy")).1 = .ok (.object 0) ∧
      (World.init {} {}).Reopened ((World.init {} {}).next
          (.importBuffer ((NativeCalls.mapsAt 8192).env tempNames) d kDefaultNamespace "copy"))
        (segmentPage.core.control 0).record (fun _ => 0) 0 := by
  have hreach : Reach World.next (fun _ op => op.Backed tempNames) (World.init {} {}) segmentPage :=
    reach_runs .start ⟨NativeCalls.env_backed _ _, trivial⟩
  have hother : Reach World.next (fun _ _ => True) (World.init {} {}) (World.init {} {}) := .start
  have hdefault : (World.init {} {}).core.rt.namespaceInfo
      (segmentPage.core.control 0).record.ns = some { name := "default" } := by decide
  have henv : ((NativeCalls.mapsAt 8192).env tempNames).importHandle
      = (NativeCalls.mapsAt 8192).importHandle tempNames.baseDir := rfl
  refine import_undoes_export tempNames_clean hreach hother (k := 0) (by decide) rfl (by decide)
    (Or.inl (by decide)) (by decide) (by decide) (by decide) hdefault (by decide) rfl henv
    (fun handle _ => ?_) "copy"
  exact ⟨fun _ => rfl, fun hd => absurd hd (by decide), fun _ _ => ⟨8192, rfl, fun _ _ => rfl⟩⟩

/-- After the shutdown of its runtime, the page is still alive and its handle still valid, but it
cannot be exported: the backends are gone. -/
theorem export_after_shutdown_fails :
    ((segmentPage.next (.shutdown {})).handle 0).validateAlive (segmentPage.next (.shutdown {})).core
        = .ok 0 ∧
      ((segmentPage.next (.shutdown {})).core.control 0).record.flags.exportable = true ∧
      ((segmentPage.next (.shutdown {})).core.control 0).record.domain = .sharedHost ∧
      ((segmentPage.next (.shutdown {})).step
        (.exportBuffer ((NativeCalls.mapsAt 4096).env tempNames) 0)).1
          = .error ⟨.unsupportedDomain, "export: domain disabled"⟩ := by
  refine ⟨by decide, by decide, by decide, by decide⟩

end UnifiedBuffer
