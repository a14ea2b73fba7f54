import UnifiedBuffer.Safety.Fates
import UnifiedBuffer.Safety.Setup

set_option autoImplicit false

/-! # Exported buffers

`export_buffer` describes a buffer by its identity, its generation and some of its properties; the
handle of host, pinned or device memory is the address of the runtime. `import` of such a descriptor
looks a buffer up by identity and generation and does not compare the rest, neither the handle with
the address, so the properties of the buffer are those of the descriptor and the descriptor is one
of this runtime exactly if it agrees with one that was issued for the buffer. -/

namespace UnifiedBuffer

open Lib

/-! ## Descriptors -/

/-- The descriptor of a buffer with the record `r`. -/
def Record.descriptor (r : Record) (kind handle : String) : ExportDescriptor where
  bufferId := r.id
  generation := r.generation
  ns := r.ns
  backend := r.backend
  domain := r.domain
  device := r.device
  size := r.size
  alignment := r.alignment
  access := r.access
  exportable := true
  writable := r.access ≠ .read
  label := r.label
  integrityCrc := metaCrcOf r
  handleKind := kind
  handle := handle

/-- What a successful `export_descriptor` returns. A descriptor without a segment names the
runtime. -/
theorem Core.exportDescriptor_ok {c : Core} {env : Env} {k : CtlId} {d : ExportDescriptor}
    (h : (c.exportDescriptor env k).1 = .ok d) :
    (c.control k).record.flags.exportable = true ∧
      ∃ kind handle, d = (c.control k).record.descriptor kind handle ∧
        (handleKind d.domain = none → handle = toString c.rt.address) := by
  unfold Core.exportDescriptor at h
  simp only at h
  split at h
  · cases h
  rename_i hexp
  refine ⟨Bool.not_eq_false _ ▸ hexp, ?_⟩
  split at h
  · cases h
  split at h
  · rename_i kind hkind
    split at h
    · cases h
    · cases h
      exact ⟨_, _, rfl, fun hnone => absurd (hkind.symm.trans hnone) nofun⟩
  · cases h
    exact ⟨_, _, rfl, fun _ => rfl⟩

/-- The record has the properties that the descriptor states. -/
structure Record.Matches (r : Record) (d : ExportDescriptor) : Prop where
  exportable : r.flags.exportable = true
  ns : r.ns = d.ns
  domain : r.domain = d.domain
  size : r.size = d.size
  access : r.access = d.access

theorem Record.Same.matches {r r' : Record} {d : ExportDescriptor} (hs : r.Same r')
    (h : r.Matches d) : r'.Matches d := by
  rw [hs]
  exact ⟨h.exportable, h.ns, h.domain, h.size, h.access⟩

/-! ## Issued descriptors -/

/-- The block `k` is the one that `d` was issued for; as long as it lives and is not migrated, it
has the properties that `d` states. A local descriptor names this runtime. -/
structure Core.Vouches (c : Core) (k : CtlId) (d : ExportDescriptor) : Prop where
  runtime : Core.handleKind d.domain = none → d.handle = toString c.rt.address
  lt : k < c.ctls.length
  id : (c.control k).record.id = d.bufferId
  age : d.generation ≤ (c.control k).record.generation
  fields : c.Alive k → (c.control k).record.generation = d.generation →
    (c.control k).record.Matches d

namespace World

variable {w : World} {base : List BufferId} {d : ExportDescriptor}

/-- The run returns the descriptor `d` from one of its operations. -/
def issues (w : World) : List Op → ExportDescriptor → Prop
  | [], _ => False
  | op :: ops, d => (w.step op).1 = .ok (.descriptor d) ∨ (w.next op).issues ops d

theorem vouches_next (hinv : w.RefInv base) {k : CtlId} (h : w.core.Vouches k d) (op : Op) :
    (w.next op).core.Vouches k d := by
  have hages := hinv.ages op
  refine ⟨fun hlocal => ?_, Nat.lt_of_lt_of_le h.lt hages.length,
    (hages.same k h.lt).id.trans h.id, ?_, ?_⟩
  · rw [(hinv.sameSetup_next op).address]
    exact h.runtime hlocal
  · rw [hages.generation k h.lt]
    exact Nat.le_trans h.age (Nat.le_add_right _ _)
  · intro halive hgen
    cases (fates hinv op).blocks k halive with
    | kept alive same =>
        refine same.matches (h.fields alive ?_)
        rw [same] at hgen
        exact hgen
    | moved _ _ _ _ _ same =>
        -- a migrated buffer is of a later generation
        rw [same] at hgen
        have hlater : (w.core.control k).record.generation + 1 = d.generation := hgen
        exact absurd (hlater ▸ h.age) (Nat.not_succ_le_self _)
    | fresh _ new | reused _ new | wrapped _ new | opened _ new =>
        exact absurd new (Nat.ne_of_lt h.lt)

/-- The block of an entry of the registry. -/
theorem RefInv.registered_block (hinv : w.RefInv base) {id : BufferId} {k : CtlId}
    (h : w.core.rt.registry.find? id = some k) :
    w.core.Alive k ∧ (w.core.control k).record.id = id := by
  obtain ⟨v, hv, hid, hpos⟩ := (hinv.core.registry id k).mp h
  refine ⟨hinv.alive hpos, ?_⟩
  rw [← hid, ← (w.core.views_control hv).2]
  rfl

/-- No two blocks have the same identity. -/
theorem RefInv.ids_inj (hinv : w.RefInv base) {j k : CtlId} (hj : j < w.core.ctls.length)
    (hk : k < w.core.ctls.length)
    (hid : (w.core.control j).record.id = (w.core.control k).record.id) : j = k := by
  have hget : ∀ {i : CtlId}, i < w.core.ctls.length →
      (w.core.views.map RefView.id)[i]? = some (w.core.control i).record.id := by
    intro i hi
    rw [List.getElem?_map, views_get w.core hi]
    rfl
  refine (List.getElem?_inj ?_ hinv.core.distinct).mp (by rw [hget hj, hget hk, hid])
  rw [List.length_map]
  exact Nat.lt_of_lt_of_eq hj (List.length_map _).symm

/-- Only an export returns a descriptor. -/
theorem export_of_descriptor {op : Op} (h : (w.step op).1 = .ok (.descriptor d)) :
    ∃ env i k, op = .exportBuffer env i ∧ (w.handle i).validateAlive w.core = .ok k ∧
      (w.core.exportDescriptor env k).1 = .ok d := by
  -- the replies of all other operations are objects, numbers or nothing
  have hgive : ∀ {α : Type} {wrap : α → Obj} {p : Except Error α × Core},
      (w.give wrap p).1 ≠ .ok (.descriptor d) := by
    rintro α wrap ⟨res, c⟩ hgiven
    cases res <;> cases hgiven
  have hhandle : ∀ {p : Except Error CtlId × Core},
      (w.giveHandle p).1 ≠ .ok (.descriptor d) := by
    rintro ⟨res, c⟩ hgiven
    cases res <;> cases hgiven
  have hanswer : ∀ {α : Type} {reply : α → Reply} {p : Except Error α × Core},
      (∀ a, reply a ≠ .descriptor d) → (w.answer reply p).1 ≠ .ok (.descriptor d) := by
    rintro α reply ⟨res, c⟩ hreply hgiven
    cases res with
    | error e => cases hgiven
    | ok a => exact hreply a (Except.ok.inj hgiven)
  cases op with
  | exportBuffer env i =>
      have hstep : (w.exportBuffer env i).1 = .ok (.descriptor d) := h
      unfold World.exportBuffer at hstep
      cases hk : (w.handle i).validateAlive w.core with
      | error e =>
          rw [hk] at hstep
          cases hstep
      | ok k =>
          rw [hk] at hstep
          refine ⟨env, i, k, rfl, hk, ?_⟩
          cases hd : (w.core.exportDescriptor env k).1 with
          | error e =>
              simp only [answer, hd] at hstep
              cases hstep
          | ok d' =>
              simp only [answer, hd] at hstep
              exact congrArg Except.ok (Reply.descriptor.inj (Except.ok.inj hstep))
  | allocate env req =>
      have hstep : (w.allocate env req).1 = .ok (.descriptor d) := h
      unfold World.allocate at hstep
      split at hstep
      · cases hstep
      · exact absurd hstep hhandle
  | wrapExternal desc => exact absurd h hhandle
  | importBuffer env desc ns label => exact absurd h hhandle
  | migrate env i target =>
      have hstep : (w.migrate env i target).1 = .ok (.descriptor d) := h
      unfold World.migrate at hstep
      split at hstep
      · cases hstep
      split at hstep
      · cases hstep
      · exact absurd hstep hhandle
  | share i => exact absurd h hgive
  | view i offset len access => exact absurd h hgive
  | map env i access => exact absurd h hgive
  | acquire kind i => exact absurd h hgive
  | verify env i => exact absurd h (hanswer fun _ => nofun)
  | checksum i => exact absurd h (hanswer fun _ => nofun)
  | copyTo env i dst dstOffset len => exact absurd h (hanswer fun _ => nofun)
  | copyFrom env i src srcOffset len => exact absurd h (hanswer fun _ => nofun)
  | move src =>
      have hstep : (w.moveFrom src).1 = .ok (.descriptor d) := h
      unfold World.moveFrom at hstep
      split at hstep <;> cases hstep
  | invalidate env id => exact absurd h (hanswer fun _ => nofun)
  | _ => cases h

/-- A descriptor that is returned describes the block that is there afterwards: an export changes
none. -/
theorem vouches_issued (hinv : w.RefInv base) {op : Op}
    (h : (w.step op).1 = .ok (.descriptor d)) : ∃ k, (w.next op).core.Vouches k d := by
  obtain ⟨env, i, k, rfl, hk, hexport⟩ := export_of_descriptor h
  obtain ⟨hexp, kind, handle, rfl, hruntime⟩ := Core.exportDescriptor_ok hexport
  have hctls : (w.next (.exportBuffer env i)).core.ctls = w.core.ctls := by
    show (w.exportBuffer env i).2.core.ctls = _
    unfold World.exportBuffer
    rw [hk]
    exact (exportDescriptor_idle w.core env k).ctls
  have hcontrol := Core.control_congr hctls k
  refine ⟨k, fun hlocal => ?_, ?_, ?_, ?_, fun _ _ => ?_⟩
  · rw [(hinv.sameSetup_next (.exportBuffer env i)).address]
    exact hruntime hlocal
  · rw [hctls]
    exact (hinv.alive (handle_alive hinv hk).1).1
  · rw [hcontrol]
    rfl
  · rw [hcontrol]
    exact Nat.le_refl _
  · rw [hcontrol]
    exact ⟨hexp, rfl, rfl, rfl, rfl⟩

theorem vouches_runs (hinv : w.RefInv base) {k : CtlId} (h : w.core.Vouches k d) (ops : List Op) :
    (Lib.runs World.next w ops).core.Vouches k d := by
  induction ops generalizing w with
  | nil => exact h
  | cons op ops ih => exact ih (hinv.next op) (vouches_next hinv h op)

/-- At the end of a run, every descriptor that it issued is vouched for. -/
theorem issues_vouches (hinv : w.RefInv base) {ops : List Op} (h : w.issues ops d) :
    ∃ k, (Lib.runs World.next w ops).core.Vouches k d := by
  induction ops generalizing w with
  | nil => exact h.elim
  | cons op ops ih =>
      rcases h with hnow | hlater
      · obtain ⟨k, hk⟩ := vouches_issued hinv hnow
        exact ⟨k, vouches_runs (hinv.next op) hk ops⟩
      · exact ih (hinv.next op) hlater

end World

/-! ## Local imports -/

theorem Core.checkImport_ns {c : Core} {desc : ExportDescriptor} {ns : NamespaceId} {u : Unit}
    (h : c.checkImport desc ns = .ok u) : desc.ns = ns := by
  by_contra hne
  unfold Core.checkImport at h
  simp only [hne, ne_eq, not_false_eq_true, if_true] at h
  repeat' split at h
  all_goals cases h

theorem Core.lookup_ok {c c' : Core} {id : BufferId} {gen : BufferGeneration} {k : CtlId}
    (h : c.lookup id gen = (.ok k, c')) : c.rt.registry.find? id = some k ∧
      (c.control k).record.generation = gen ∧ c' = c := by
  unfold Core.lookup at h
  split at h
  · cases h
  · rename_i hfind
    split at h
    · cases h
    · rename_i hgen
      cases h
      exact ⟨hfind, (not_not.mp hgen).symm, rfl⟩

/-- What a local import that succeeds has found. -/
theorem Core.importDescriptor_local {c c' : Core} {env : Env} {desc : ExportDescriptor}
    {ns : NamespaceId} {label : String} {k : CtlId} (hlocal : handleKind desc.domain = none)
    (h : c.importDescriptor env desc ns label = (.ok k, c')) :
    c.rt.registry.find? desc.bufferId = some k ∧
      (c.control k).record.generation = desc.generation ∧ desc.ns = ns ∧ c'.ctls = c.ctls := by
  unfold Core.importDescriptor at h
  split at h
  · cases h
  cases hcheck : c.checkImport desc ns with
  | error e =>
      rw [hcheck] at h
      cases h
  | ok u =>
      simp only [hcheck, hlocal, Option.isSome_none, Bool.false_eq_true, if_false] at h
      split at h
      · cases hlook : Core.lookup { c with rt := c.rt.nextId.2 } desc.bufferId desc.generation with
        | mk res c₁ =>
            rw [hlook] at h
            cases res with
            | error e => cases h
            | ok j =>
                cases h
                obtain ⟨hfind, hgen, rfl⟩ := Core.lookup_ok hlook
                exact ⟨hfind, hgen, Core.checkImport_ns hcheck, rfl⟩
      · cases h

/-- The two descriptors name one buffer of one runtime and grant the same. -/
structure ExportDescriptor.SameGrant (d desc : ExportDescriptor) : Prop where
  handle : d.handle = desc.handle
  bufferId : d.bufferId = desc.bufferId
  generation : d.generation = desc.generation
  ns : d.ns = desc.ns
  domain : d.domain = desc.domain
  size : d.size = desc.size
  access : d.access = desc.access

/-- The authority over the buffer with the record `r` that the import of `desc` gives is proved by
the descriptor: it names the runtime, the run `ops` has exported the buffer in its present
generation, the buffer is exportable, of the namespace `ns` of the descriptor, and the descriptor
states its domain, size and access. -/
structure World.Proven (w : World) (ops : List Op) (desc : ExportDescriptor) (ns : NamespaceId)
    (r : Record) : Prop where
  runtime : desc.handle = toString w.core.rt.address
  exported : ∃ d, w.issues ops d ∧ d.bufferId = r.id ∧ d.generation = r.generation
  ns : r.ns = ns ∧ ns = desc.ns
  grant : r.Matches desc

/-- **Local imports are as good as their descriptors**: an import of host, pinned or device memory
that succeeds gives a handle to a buffer that the descriptor proves the right to, exactly if the
descriptor agrees with one that the runtime issued before. -/
theorem local_import_proven_iff {cfg : RuntimeConfig} {plat : RuntimeImpl.Platform} {w : World}
    (ops : List Op) (hw : w = runs World.next (World.init cfg plat) ops) (env : Env)
    (desc : ExportDescriptor) (ns : NamespaceId) (label : String) {k : CtlId}
    (hlocal : Core.handleKind desc.domain = none)
    (hok : (w.step (.importBuffer env desc ns label)).1 = .ok (.object w.objs.length))
    (hk : ((w.next (.importBuffer env desc ns label)).handle w.objs.length).ctl = some k) :
    (World.init cfg plat).Proven ops desc ns
        ((w.next (.importBuffer env desc ns label)).core.control k).record ↔
      ∃ d, (World.init cfg plat).issues ops d ∧ d.SameGrant desc := by
  have hinit := World.refInv_init cfg plat
  have hinv : w.RefInv [] := hw ▸ hinit.runs ops
  -- the block that the import has found
  have hfound : w.core.rt.registry.find? desc.bufferId = some k ∧
      (w.core.control k).record.generation = desc.generation ∧ desc.ns = ns ∧
      ((w.next (.importBuffer env desc ns label)).core.control k).record
        = (w.core.control k).record := by
    have hstep : w.step (.importBuffer env desc ns label)
      = w.giveHandle (w.core.importDescriptor env desc ns label) := rfl
    have hnext : w.next (.importBuffer env desc ns label)
      = (w.giveHandle (w.core.importDescriptor env desc ns label)).2 := rfl
    rw [hstep] at hok
    rw [hnext] at hk ⊢
    cases himport : w.core.importDescriptor env desc ns label with
    | mk res c' =>
        rw [himport] at hok hk
        cases res with
        | error e => cases hok
        | ok j =>
            obtain rfl : j = k := by
              simpa [World.giveHandle, World.handle, BufferHandle.ofControl] using hk
            obtain ⟨hfind, hgen, hns, hctls⟩ := Core.importDescriptor_local hlocal himport
            refine ⟨hfind, hgen, hns, ?_⟩
            have hlt : j < c'.ctls.length := hctls ▸ (hinv.registered_block hfind).1.1
            show ((c'.retain j).control j).record = _
            rw [Core.retain, c'.control_modify _ hlt, Core.control_congr hctls]
  obtain ⟨hfind, hgen, hns, hrecord⟩ := hfound
  obtain ⟨halive, hid⟩ := hinv.registered_block hfind
  rw [hrecord]
  -- a descriptor that was issued for the identity is vouched for by this block
  have hvouched : ∀ d, (World.init cfg plat).issues ops d → d.bufferId = desc.bufferId →
      d.generation = desc.generation → (w.core.control k).record.Matches d ∧
        (Core.handleKind d.domain = none →
          d.handle = toString (World.init cfg plat).core.rt.address) := by
    intro d hissued hsame hage
    obtain ⟨j, hj⟩ := World.issues_vouches hinit hissued
    rw [← hw] at hj
    obtain rfl : j = k := hinv.ids_inj hj.lt halive.1 (by rw [hj.id, hsame, hid])
    have haddress : w.core.rt.address = (World.init cfg plat).core.rt.address :=
      hw ▸ (hinit.sameSetup_runs ops).address
    exact ⟨hj.fields halive (by rw [hgen, hage]), haddress ▸ hj.runtime⟩
  constructor
  · rintro ⟨hruntime, ⟨d, hissued, hdid, hdgen⟩, -, hgrant⟩
    rw [hid] at hdid
    rw [hgen] at hdgen
    obtain ⟨hmatch, hnamed⟩ := hvouched d hissued hdid hdgen
    have hdomain : d.domain = desc.domain := hmatch.domain.symm.trans hgrant.domain
    refine ⟨d, hissued, ?_, hdid, hdgen, ?_, hdomain, ?_, ?_⟩
    · exact (hnamed (by rw [hdomain, hlocal])).trans hruntime.symm
    · exact hmatch.ns.symm.trans hgrant.ns
    · exact hmatch.size.symm.trans hgrant.size
    · exact hmatch.access.symm.trans hgrant.access
  · rintro ⟨d, hissued, hsame⟩
    obtain ⟨hmatch, hnamed⟩ := hvouched d hissued hsame.bufferId hsame.generation
    have hown : (w.core.control k).record.ns = desc.ns := hmatch.ns.trans hsame.ns
    refine ⟨?_, ⟨d, hissued, ?_, ?_⟩, ⟨hown.trans hns, hns.symm⟩, hmatch.exportable, hown, ?_, ?_,
      ?_⟩
    · exact hsame.handle.symm.trans (hnamed (by rw [hsame.domain, hlocal]))
    · rw [hsame.bufferId, hid]
    · rw [hsame.generation, hgen]
    · exact hmatch.domain.trans hsame.domain
    · exact hmatch.size.trans hsame.size
    · exact hmatch.access.trans hsame.access

def twoNamespaces : RuntimeConfig := { namespaces := [{ name := "other" }] }

/-- A page that is exported and imported again. -/
def exportRun : List Op :=
  [.allocate (.findsAt 4096) { size := 4096, flags := { exportable := true } }, .exportBuffer {} 0]

def pageDescriptor : ExportDescriptor :=
  ((runs World.next (World.init {} {}) exportRun).core.control 0).record.descriptor "local" "0"

/-- The theorem at work: the descriptor of an exported page proves what its import gives. -/
theorem local_import_proven_iff_page :
    (World.init {} {}).Proven exportRun pageDescriptor kDefaultNamespace
      (((runs World.next (World.init {} {}) exportRun).next
        (.importBuffer {} pageDescriptor kDefaultNamespace "")).core.control 0).record := by
  refine (local_import_proven_iff exportRun rfl {} pageDescriptor kDefaultNamespace "" (k := 0) rfl
    (by decide) (by decide)).mpr ⟨pageDescriptor, ?_, rfl, rfl, rfl, rfl, rfl, rfl, rfl⟩
  exact Or.inr (Or.inl rfl)

/-- A page of the second namespace that is not exportable. -/
def secretRun : List Op := [.allocate (.findsAt 4096) { size := 4096, ns := 2 }]

def secretPage : World := runs World.next (World.init twoNamespaces {}) secretRun

/-- A descriptor that states the identity of the page and another namespace, domain and size. -/
def forgedDescriptor : ExportDescriptor where
  bufferId := (secretPage.core.control 0).record.id
  generation := 1
  domain := .device
  size := 1
  handleKind := "local"

/-- The forged descriptor gives a handle to the page of the other namespace, which was never
exported. -/
theorem forged_import_succeeds :
    (secretPage.step (.importBuffer {} forgedDescriptor kDefaultNamespace "")).1
        = .ok (.object 1) ∧
      ((secretPage.next (.importBuffer {} forgedDescriptor kDefaultNamespace "")).handle 1).ctl
        = some 0 ∧
      ((secretPage.core.control 0).record.ns = 2 ∧
        (secretPage.core.control 0).record.flags.exportable = false ∧
        (secretPage.core.control 0).record.domain = .host ∧
        (secretPage.core.control 0).record.size = 4096) ∧
      ¬ (World.init twoNamespaces {}).Proven secretRun forgedDescriptor kDefaultNamespace
        ((secretPage.next (.importBuffer {} forgedDescriptor kDefaultNamespace "")).core.control
          0).record := by
  refine ⟨by decide, by decide, ⟨by decide, by decide, by decide, by decide⟩, fun h => ?_⟩
  exact absurd h.grant.exportable (by decide)

end UnifiedBuffer
