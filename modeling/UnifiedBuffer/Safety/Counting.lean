import UnifiedBuffer.Safety.Effects

set_option autoImplicit false

/-! # Live allocations

`ns_allocs_` counts the live buffers of each namespace. It goes up in `allocate_record` and
`wrap_external`, and down in `finalize` and in the rollbacks of `allocate_record`. Two paths do only
one half: `import_descriptor` registers a buffer that nobody has counted, and the rollback after a
failed zeroing of a pooled backing keeps its count. In runs without them the counts are exact. -/

namespace UnifiedBuffer

open Lib

namespace Core

/-! ## The census -/

/-- Whether a block is finalized, and its namespace. -/
def owners (c : Core) : List (Bool × NamespaceId) :=
  c.ctls.map fun ctl => (ctl.finalized, ctl.record.ns)

/-- The number of buffers of a namespace that are not finalized. -/
def census (c : Core) (n : NamespaceId) : Nat := c.owners.count (false, n)

theorem owners_get {c : Core} {k : CtlId} (hk : k < c.ctls.length) :
    c.owners[k]? = some ((c.control k).finalized, (c.control k).record.ns) := by
  unfold owners control
  rw [List.getElem?_map, List.getD_eq_getElem?_getD, List.getElem?_eq_getElem hk]
  rfl

/-- A block was written. -/
theorem census_set {c c' : Core} {k : CtlId} {ctl : Control} (h : c'.ctls = c.ctls.set k ctl)
    (hk : k < c.ctls.length) (n : NamespaceId) :
    c'.census n + (if ((c.control k).finalized, (c.control k).record.ns) = (false, n) then 1 else 0)
      = c.census n + if (ctl.finalized, ctl.record.ns) = (false, n) then 1 else 0 := by
  have howners : c'.owners = c.owners.set k (ctl.finalized, ctl.record.ns) := by
    unfold owners
    rw [h, List.map_set]
  have hset := countP_set_add (fun x => x == (false, n)) (b := (ctl.finalized, ctl.record.ns))
    (owners_get hk)
  unfold census
  rw [howners]
  simpa [List.count] using hset

/-- A block was added. -/
theorem census_register (c : Core) (r : Record) (n : NamespaceId) :
    (c.register r).2.census n = c.census n + if r.ns = n then 1 else 0 := by
  have howners : (c.register r).2.owners = c.owners ++ [(false, r.ns)] := by
    unfold owners register RuntimeImpl.registerControl
    exact List.map_append
  unfold census
  rw [howners, List.count_append, List.count_singleton]
  by_cases hns : r.ns = n <;> simp [hns]

theorem census_pos {c : Core} {k : CtlId} (h : c.Alive k) :
    0 < c.census (c.control k).record.ns := by
  have hget := owners_get h.1
  rw [h.2] at hget
  exact List.count_pos_iff.mpr (List.mem_of_getElem? hget)

/-! ## Exact counts -/

/-- The counts are the numbers of buffers, and no namespace has more than its quota. -/
structure Counted (c : Core) : Prop where
  exact : ∀ n, c.rt.allocCount n = c.census n
  quota : ∀ n nsc, c.rt.nss.find? n = some nsc → nsc.allocationCountQuota ≠ 0 →
    c.census n ≤ nsc.allocationCountQuota.toNat

/-- Neither the counts nor the buffers have changed. -/
structure SameCensus (c c' : Core) : Prop where
  counts : c.rt.SameCounts c'.rt.allocs
  nss : c'.rt.nss = c.rt.nss
  owners : c'.owners = c.owners

theorem sameCensus_of_quiet {c c' : Core} (hq : RuntimeImpl.Quiet c.rt c'.rt)
    (howners : c'.owners = c.owners) : c.SameCensus c' :=
  ⟨fun n => by rw [hq.allocs]; rfl, hq.nss, howners⟩

namespace Counted

variable {c c' : Core}

theorem same (h : c.Counted) (hs : c.SameCensus c') : c'.Counted := by
  have hcensus : ∀ n, c'.census n = c.census n := fun n => by
    unfold census
    rw [hs.owners]
  refine ⟨fun n => ?_, fun n nsc hn hq => ?_⟩
  · rw [hcensus, ← h.exact n]
    exact hs.counts n
  · rw [hcensus]
    exact h.quota n nsc (hs.nss ▸ hn) hq

/-- What `reserve_count` lets through leaves room for one more buffer. -/
theorem room (h : c.Counted) {ns : NamespaceId} {rt : RuntimeImpl}
    (hr : c.rt.reserveCount ns = (.ok (), rt)) {nsc : NamespaceConfig}
    (hn : c.rt.nss.find? ns = some nsc) (hq : nsc.allocationCountQuota ≠ 0) :
    c.census ns < nsc.allocationCountQuota.toNat := by
  unfold RuntimeImpl.reserveCount at hr
  simp only [hn, Option.map_some, Option.getD_some] at hr
  split at hr
  · cases hr
  · rename_i hroom
    have hlt := not_and.mp hroom hq
    rw [h.exact] at hlt
    exact Nat.lt_of_not_ge hlt

/-- A counted buffer is registered. -/
theorem register (h : c.Counted) {c₁ : Core} {r : Record} {rt : RuntimeImpl}
    (hr : c.rt.reserveCount r.ns = (.ok (), rt)) (hallocs : c₁.rt.allocs = c.rt.countedAllocs r.ns)
    (hnss : c₁.rt.nss = c.rt.nss) (hctls : c₁.ctls = c.ctls) : (c₁.register r).2.Counted := by
  have hcensus : ∀ n, (c₁.register r).2.census n = c.census n + if r.ns = n then 1 else 0 := by
    intro n
    rw [census_register]
    unfold census owners
    rw [hctls]
  have hcount : ∀ n, (c₁.register r).2.rt.allocCount n
      = c.rt.allocCount n + if r.ns = n then 1 else 0 := by
    intro n
    show (c₁.rt.allocs.find? n).getD 0 = _
    rw [hallocs, RuntimeImpl.countedAllocs, AssocMap.find?_insert]
    by_cases hns : r.ns = n
    · subst hns
      simp
    · simp [hns, RuntimeImpl.allocCount]
  refine ⟨fun n => ?_, fun n nsc hn hq => ?_⟩
  · rw [hcount, hcensus, h.exact]
  -- in its own namespace the check of `reserve_count` has left room for the buffer
  · have hn' : c.rt.nss.find? n = some nsc := hnss ▸ hn
    rw [hcensus]
    by_cases hns : r.ns = n
    · subst hns
      have hroom := h.room hr hn' hq
      simp only [if_true]
      omega
    · have hold := h.quota n nsc hn' hq
      simp only [hns, if_false]
      omega

/-- A buffer is finalized, and its count goes with it. -/
theorem finalize (h : c.Counted) (env : Env) {k : CtlId} (hk : k < c.ctls.length)
    (halive : (c.control k).finalized = false) : (c.finalize env k true).Counted := by
  obtain ⟨backing, ownership, l, pool, hctl, hq⟩ := c.rt.finalize_first c.os env true halive
  have hset : (c.finalize env k true).ctls
      = c.ctls.set k (c.rt.finalize c.os env (c.control k) true).1 := rfl
  have hcensus := fun n => census_set hset hk n
  rw [hctl] at hcensus
  simp only [RuntimeImpl.finalControl, halive, Prod.mk.injEq, Bool.true_eq_false, false_and,
    if_false, true_and] at hcensus
  have hcount : ∀ n, (c.finalize env k true).rt.allocCount n
      = c.rt.allocCount n - if (c.control k).record.ns = n then 1 else 0 := by
    intro n
    show ((c.rt.finalize c.os env (c.control k) true).2.1.allocs.find? n).getD 0 = _
    rw [hq.allocs]
    show ((c.rt.allocs.insert _ _).find? n).getD 0 = _
    rw [AssocMap.find?_insert]
    by_cases hns : (c.control k).record.ns = n
    · subst hns
      simp
    · simp [hns, RuntimeImpl.allocCount]
  refine ⟨fun n => ?_, fun n nsc hn hquota => ?_⟩
  · have hless := hcensus n
    rw [hcount, h.exact]
    by_cases hns : (c.control k).record.ns = n <;> simp only [hns, if_true, if_false] at hless ⊢ <;>
      omega
  · have hn' : c.rt.nss.find? n = some nsc := hq.nss ▸ hn
    have hold := h.quota n nsc hn' hquota
    have hless := hcensus n
    omega

end Counted

/-! ## Creation of buffers -/

/-- The zeroing of a backing from the pool does not fail. -/
def PooledZeroed (c : Core) (env : Env) (req : AllocationRequest) : Prop :=
  ∀ alignment classSize l slot pool, c.rt.admits req = some (alignment, classSize, l) →
    c.rt.poolOffer req alignment classSize = some (slot, pool) →
    c.rt.zeroFails env req slot.backing (some slot.lastOwner) = false

theorem admits_count {rt : RuntimeImpl} {req : AllocationRequest} {x : UInt64 × UInt64 × Ledger}
    (h : rt.admits req = some x) : ∃ rt', rt.reserveCount req.ns = (.ok (), rt') := by
  unfold RuntimeImpl.admits at h
  split at h
  · cases h
  · cases hr : rt.reserveCount req.ns with
    | mk res rt' =>
        cases res with
        | ok u => exact ⟨rt', rfl⟩
        | error e =>
            rw [hr] at h
            split at h
            · rename_i hcontra
              cases hcontra
            · cases h

theorem Counted.allocate {c : Core} (h : c.Counted) (env : Env) (req : AllocationRequest)
    (hzero : c.PooledZeroed env req) : (c.allocate env req).2.Counted := by
  have hrun := c.rt.allocateRecord_run c.os env req
  unfold Core.allocate
  generalize c.rt.allocateRecord c.os env req = out at hrun ⊢
  cases hrun with
  | refused _ counts state | backendFailed _ _ _ counts state
  | commitFailed _ _ _ _ counts state | freshZeroFailed _ _ _ _ _ counts state =>
      exact h.same ⟨fun n => (by rw [state.allocs]; exact counts n), state.nss, rfl⟩
  | pooledZeroFailed admission offer zero =>
      rw [hzero _ _ _ _ _ admission offer] at zero
      cases zero
  | fresh admission _ _ _ _ state | pooled admission _ _ state =>
      obtain ⟨rt₁, hr⟩ := admits_count admission
      exact h.register hr state.allocs state.nss rfl

theorem Counted.wrapExternal {c : Core} (h : c.Counted) (desc : ExternalMemoryDesc) :
    (c.wrapExternal desc).2.Counted := by
  unfold Core.wrapExternal
  split
  · exact h
  split
  · exact h
  cases c.rt.domain desc.domain with
  | none => exact h
  | some dom =>
      simp only
      cases hr : c.rt.reserveCount kDefaultNamespace with
      | mk res rt₁ =>
          rcases RuntimeImpl.reserveCount_cases hr with ⟨e, rfl, hq⟩ | ⟨rfl, rfl⟩
          · exact h.same (sameCensus_of_quiet hq rfl)
          · exact h.register hr rfl rfl rfl

/-- The import of the descriptor finds the segment `a`: the descriptor passes the checks, and a
backend opens a segment of the declared size. -/
structure FindsSegment (c : Core) (env : Env) (desc : ExportDescriptor) (ns : NamespaceId)
    (a : NativeAllocation) : Prop where
  stillOpen : c.rt.closed = false
  checked : (c.checkImport desc ns).isOk = true
  segment : (handleKind desc.domain).isSome = true
  backend : (c.rt.domain desc.domain).isSome = true
  opened : env.opened desc = .ok a
  size : desc.size ≤ a.committed

theorem sameCensus_segment (c : Core) (env : Env) (desc : ExportDescriptor) (r : Record)
    (h : ∀ a, (c.rt.domain desc.domain).isSome = true → env.opened desc = .ok a →
      a.committed < desc.size) : c.SameCensus (c.importSegment env desc r).2 := by
  have hsame : ∀ os, c.SameCensus { c with os := os } := fun _ => ⟨fun _ => rfl, rfl, rfl⟩
  unfold Core.importSegment Os.importHandle
  cases hd : c.rt.domain desc.domain with
  | none => exact hsame c.os
  | some dom =>
      cases ha : env.importHandle desc.domain desc.handle desc.size
          (if desc.alignment ≠ 0 then desc.alignment else 64) with
      | error e => exact hsame _
      | ok a =>
          have hshort : (c.os.stamp a).committed < desc.size := h a (by rw [hd]; rfl) ha
          simp only [if_pos hshort]
          exact hsame _

theorem sameCensus_lookup (c : Core) (id : BufferId) (gen : BufferGeneration) :
    c.SameCensus (c.lookup id gen).2 := by
  unfold Core.lookup
  split
  · exact ⟨fun _ => rfl, rfl, rfl⟩
  · split <;> exact ⟨fun _ => rfl, rfl, rfl⟩

/-- An import that opens no segment of its own creates no buffer. -/
theorem sameCensus_import (c : Core) (env : Env) (desc : ExportDescriptor) (ns : NamespaceId)
    (label : String) (hdesc : ∀ a, ¬ c.FindsSegment env desc ns a) :
    c.SameCensus (c.importDescriptor env desc ns label).2 := by
  have hrefl : c.SameCensus c := ⟨fun _ => rfl, rfl, rfl⟩
  unfold Core.importDescriptor
  by_cases hclosed : c.rt.closed = true
  · rw [if_pos hclosed]
    exact hrefl
  rw [if_neg hclosed]
  cases hcheck : c.checkImport desc ns with
  | error e => exact hrefl
  | ok u =>
      simp only
      by_cases hkind : (handleKind desc.domain).isSome = true
      · rw [if_pos hkind]
        have hshort : ∀ a, (c.rt.domain desc.domain).isSome = true → env.opened desc = .ok a →
            a.committed < desc.size := fun a hbackend hopened => UInt64.not_le.mp fun hsize =>
          hdesc a ⟨Bool.not_eq_true _ ▸ hclosed, by rw [hcheck]; rfl, hkind, hbackend, hopened, hsize⟩
        obtain ⟨hcounts, hnss, howners⟩ :=
          sameCensus_segment { c with rt := c.rt.nextId.2 } env desc
            (importRecord env desc ns label c.rt.nextId.1) hshort
        exact ⟨hcounts, hnss, howners⟩
      · rw [if_neg hkind]
        split
        -- a local descriptor only leads to a buffer that is registered already
        · have hfound := sameCensus_lookup { c with rt := c.rt.nextId.2 } desc.bufferId
            desc.generation
          generalize Core.lookup { c with rt := c.rt.nextId.2 } desc.bufferId desc.generation = out
            at hfound ⊢
          obtain ⟨res, c₁⟩ := out
          cases res with
          | error e => exact ⟨hfound.counts, hfound.nss, hfound.owners⟩
          | ok k => exact ⟨hfound.counts, hfound.nss, hfound.owners⟩
        · exact ⟨fun _ => rfl, rfl, rfl⟩

theorem sameCensus_migrate (c : Core) (env : Env) (k : CtlId) (target : MemoryDomain) :
    c.SameCensus (c.migrate env k target).2 := by
  have hrun := c.rt.migrate_run c.os env (c.control k) target
  unfold Core.migrate
  generalize c.rt.migrate c.os env (c.control k) target = out at hrun ⊢
  have howners : ∀ (rt : RuntimeImpl) (os : Os) {ctl : Control},
      (ctl.finalized, ctl.record.ns) = ((c.control k).finalized, (c.control k).record.ns) →
      Core.owners { rt := rt, os := os, ctls := c.ctls.set k ctl } = c.owners := by
    intro rt os ctl hctl
    have hsame := congrArg (List.map fun ctl => (ctl.finalized, ctl.record.ns)) (c.set_control k)
    rw [List.map_set] at hsame
    unfold owners
    rw [List.map_set, hctl]
    exact hsame
  cases hrun with
  | refused _ state => exact ⟨fun n => (by rw [state.allocs]; rfl), state.nss, howners _ _ rfl⟩
  | stays => exact ⟨fun n => rfl, rfl, howners _ _ rfl⟩
  | backendFailed _ _ state | copyFailed _ _ _ state | commitFailed _ _ _ _ state
  | verifyFailed _ _ _ _ _ state | swapped _ _ _ _ _ state =>
      exact ⟨fun n => (by rw [state.allocs]; rfl), state.nss, howners _ _ rfl⟩

theorem sameCensus_trim (c : Core) : c.SameCensus c.poolTrim := by
  have hrt : c.poolTrim.rt = (c.rt.poolTrim c.os).1 := rfl
  refine ⟨fun n => ?_, ?_, rfl⟩
  · rw [hrt, c.rt.poolTrim_frame]
    rfl
  · rw [hrt, c.rt.poolTrim_frame]

end Core

/-! ## Runs -/

namespace World

/-- The number of registered buffers whose record has a property. -/
def registered (w : World) (p : Record → Bool) : Nat :=
  w.core.rt.registry.entries.countP fun e => p (w.core.control e.2).record

/-- The registered blocks are those that are not finalized. -/
theorem RefInv.registered_perm {w : World} {base : List BufferId} (h : w.RefInv base) :
    (w.core.rt.registry.entries.map Prod.snd).Perm
      ((List.range w.core.ctls.length).filter fun k => !(w.core.control k).finalized) := by
  have hentry : ∀ {id : BufferId} {k : CtlId}, (id, k) ∈ w.core.rt.registry.entries ↔
      k < w.core.ctls.length ∧ (w.core.control k).record.id = id ∧ 0 < w.pins k := by
    intro id k
    rw [AssocMap.mem_entries_iff, h.core.registry id k]
    constructor
    · rintro ⟨v, hv, hid, hpos⟩
      obtain ⟨hk, rfl⟩ := w.core.views_control hv
      exact ⟨hk, hid, hpos⟩
    · rintro ⟨hk, hid, hpos⟩
      exact ⟨_, views_get w.core hk, hid, hpos⟩
  refine (List.perm_ext_iff_of_nodup ?_ (List.nodup_range.filter _)).mpr fun k => ?_
  · -- the identity of an entry is that of its block
    have hids : (w.core.rt.registry.entries.map Prod.snd).map
          (fun k => (w.core.control k).record.id)
        = w.core.rt.registry.entries.map Prod.fst := by
      rw [List.map_map]
      exact List.map_congr_left fun e he => (hentry.mp he).2.1
    exact List.Nodup.of_map _ (hids ▸ w.core.rt.registry.nodup)
  · simp only [List.mem_map, Prod.exists, exists_eq_right, List.mem_filter, List.mem_range,
      Bool.not_eq_true']
    constructor
    · rintro ⟨id, hmem⟩
      obtain ⟨hk, -, hpos⟩ := hentry.mp hmem
      exact ⟨hk, (h.alive hpos).2⟩
    · rintro ⟨hk, hfin⟩
      refine ⟨_, hentry.mpr ⟨hk, rfl, Nat.pos_of_ne_zero fun hzero => ?_⟩⟩
      have hend := (h.core.finalized k _ (views_get w.core hk)).mpr hzero
      rw [show (w.core.control k).refView.finalized = (w.core.control k).finalized from rfl, hfin]
        at hend
      cases hend

/-- The census counts the registered buffers. -/
theorem RefInv.census_eq {w : World} {base : List BufferId} (h : w.RefInv base)
    (n : NamespaceId) : w.core.census n = w.registered fun r => r.ns = n := by
  have howners : w.core.owners = (List.range w.core.ctls.length).map fun k =>
      ((w.core.control k).finalized, (w.core.control k).record.ns) := by
    refine List.ext_getElem? fun k => ?_
    by_cases hk : k < w.core.ctls.length
    · rw [Core.owners_get hk, List.getElem?_map, List.getElem?_range hk]
      rfl
    · rw [List.getElem?_eq_none, List.getElem?_eq_none]
      · simpa using hk
      · simpa [Core.owners] using hk
  have hmap : w.registered (fun r => r.ns = n)
      = (w.core.rt.registry.entries.map Prod.snd).countP
          fun k => (w.core.control k).record.ns = n := by
    rw [List.countP_map]
    rfl
  rw [hmap, h.registered_perm.countP_eq, Core.census, howners, List.countP_filter, List.count,
    List.countP_map]
  refine List.countP_congr fun k _ => ?_
  cases hfin : (w.core.control k).finalized <;> simp [hfin]

/-- The operation counts what it creates: no pooled backing fails to be zeroed, no import finds a
segment, and a new namespace does not start with more buffers than its quota. -/
def CountsAll (w : World) : Op → Prop
  | .allocate env req => w.core.PooledZeroed env req
  | .importBuffer env desc ns _ => ∀ a, ¬ w.core.FindsSegment env desc ns a
  | .createNamespace nsc => nsc.allocationCountQuota ≠ 0 →
      w.registered (fun r => r.ns = w.core.rt.nss.size.toUInt64 + 1)
        ≤ nsc.allocationCountQuota.toNat
  | _ => True

theorem counted_createNamespace {c : Core} (h : c.Counted) {nsc : NamespaceConfig}
    (hnew : nsc.allocationCountQuota ≠ 0 →
      c.census (c.rt.nss.size.toUInt64 + 1) ≤ nsc.allocationCountQuota.toNat) :
    (c.createNamespace nsc).Counted := by
  refine ⟨h.exact, fun n nsc' hn hq => ?_⟩
  have hfind : (c.createNamespace nsc).rt.nss.find? n
      = if c.rt.nss.size.toUInt64 + 1 = n then
          some (if nsc.name = "" then
            { nsc with name := "ns-" ++ toString (c.rt.nss.size.toUInt64 + 1) } else nsc)
        else c.rt.nss.find? n := AssocMap.find?_insert ..
  rw [hfind] at hn
  split at hn
  · rename_i hid
    subst hid
    have hquota : nsc'.allocationCountQuota = nsc.allocationCountQuota := by
      cases hn
      split <;> rfl
    rw [hquota] at hq ⊢
    exact hnew hq
  · exact h.quota n nsc' hn hq

theorem counted_effects {w : World} {base : List BufferId} (hinv : w.RefInv base) {op : Op}
    (h : w.core.Counted) (hop : w.CountsAll op) : w.Effects op Core.Counted where
  noted hb hc := hc.same (Core.sameCensus_of_quiet hb.quiet (by unfold Core.owners; rw [hb.ctls]))
  adjusted k f hf hc := by
    refine hc.same ⟨fun _ => rfl, rfl, ?_⟩
    exact map_modify_same _ _ (fun ctl => by
      rw [(hf ctl).finalized, (hf ctl).record]) k _
  allocate env req hreq := by
    subst hreq
    exact h.allocate env req hop
  wrapExternal desc _ := h.wrapExternal desc
  importBuffer env desc ns label hreq := by
    subst hreq
    exact h.same (w.core.sameCensus_import env desc ns label hop)
  migrate env i target k _ _ := h.same (w.core.sameCensus_migrate env k target)
  copyTo env i dst dstOffset len _ := by
    have hidle := copyTo_idle (w.handle i) w.core env dst dstOffset len
    exact h.same (Core.sameCensus_of_quiet hidle.quiet (by unfold Core.owners; rw [hidle.ctls]))
  copyFrom env i src srcOffset len _ := by
    have hidle := copyFrom_idle (w.handle i) w.core env src srcOffset len
    exact h.same (Core.sameCensus_of_quiet hidle.quiet (by unfold Core.owners; rw [hidle.ctls]))
  finalize env k _ _ _ hk halive hc := hc.finalize env hk halive
  poolTrim _ := h.same w.core.sameCensus_trim
  shutdown env _ _ := by
    obtain ⟨hcounts, hnss, howners⟩ :=
      Core.sameCensus_trim { w.core with rt := { w.core.rt with closed := true } }
    exact h.same ⟨hcounts, hnss, howners⟩
  createNamespace nsc hreq := by
    subst hreq
    refine counted_createNamespace h fun hquota => ?_
    rw [hinv.census_eq]
    exact hop hquota

theorem counted_reach {cfg : RuntimeConfig} {plat : RuntimeImpl.Platform} {w : World}
    (hreach : Reach World.next World.CountsAll (World.init cfg plat) w) : w.core.Counted := by
  refine hreach.invariant_of (I := fun w => w.core.Counted) (K := fun w => w.RefInv [])
    (fun _ h => refInv_reach h) ?_ ?_
  · exact ⟨fun _ => rfl, fun _ _ _ _ => Nat.zero_le _⟩
  · intro w op hinv h hop
    exact (counted_effects hinv h hop).next hinv h

end World

/-! ## The counts of a run -/

/-- **Live allocations are counted exactly** in every run whose operations count what they create:
the count of a namespace is the number of its registered buffers, `release_count` is never called
with a count of zero, neither by `finalize` nor by a rollback, and quotas hold. -/
theorem allocations_counted {cfg : RuntimeConfig} {plat : RuntimeImpl.Platform} {w : World}
    (hreach : Reach World.next World.CountsAll (World.init cfg plat) w) :
    (∀ n, w.core.rt.allocCount n = w.registered fun r => r.ns = n) ∧
    (∀ id k, w.core.rt.registry.find? id = some k →
      w.core.rt.allocCount (w.core.control k).record.ns ≠ 0) ∧
    (∀ n rt, w.core.rt.reserveCount n = (.ok (), rt) → rt.allocCount n ≠ 0) ∧
    ∀ n nsc, w.core.rt.nss.find? n = some nsc → nsc.allocationCountQuota ≠ 0 →
      w.registered (fun r => r.ns = n) ≤ nsc.allocationCountQuota.toNat := by
  have hinv : w.RefInv [] := World.refInv_reach hreach
  have hcounted := World.counted_reach hreach
  refine ⟨fun n => ?_, fun id k hk => ?_, fun n rt hr => ?_, fun n nsc hn hq => ?_⟩
  · rw [hcounted.exact, hinv.census_eq]
  · obtain ⟨v, hv, -, hpos⟩ := (hinv.core.registry id k).mp hk
    rw [hcounted.exact]
    exact Nat.pos_iff_ne_zero.mp (Core.census_pos (hinv.alive hpos))
  · rcases RuntimeImpl.reserveCount_cases hr with ⟨e, he, -⟩ | ⟨-, rfl⟩
    · cases he
    · simp [RuntimeImpl.allocCount, RuntimeImpl.countedAllocs]
  · rw [← hinv.census_eq]
    exact hcounted.quota n nsc hn hq

/-- A runtime with a second namespace that may hold one buffer. -/
def oneBuffer : RuntimeConfig := { namespaces := [{ allocationCountQuota := 1 }] }

/-- The second namespace holds its buffer and is refused another one; the program also wraps memory
of its own. -/
def fullNamespace : World :=
  runs World.next (World.init oneBuffer {})
    [.allocate (.findsAt 4096) { size := 4096, ns := 2 },
      .allocate (.findsAt 8192) { size := 4096, ns := 2 },
      .wrapExternal { pointer := 65536, size := 100 }]

/-- The theorem at work: one buffer in each namespace, both counted. -/
theorem allocations_counted_fullNamespace :
    fullNamespace.core.rt.allocCount 2 = 1 ∧ fullNamespace.core.rt.allocCount 1 = 1 ∧
      fullNamespace.registered (fun r => r.ns = 2) ≤ 1 := by
  have hreach : Reach World.next World.CountsAll (World.init oneBuffer {}) fullNamespace := by
    refine reach_runs .start ⟨?_, ?_, trivial, trivial⟩
    · intro _ _ _ _ _ _ hoffer
      cases hoffer
    · intro _ _ _ _ _ _ hoffer
      cases hoffer
  obtain ⟨hcounts, -, -, hquota⟩ := allocations_counted hreach
  refine ⟨?_, ?_, ?_⟩
  · rw [hcounts]
    decide
  · rw [hcounts]
    decide
  · exact hquota 2 { allocationCountQuota := 1, name := "ns-2" } (by decide) (by decide)

def opensAll : Env :=
  { importHandle := fun _ _ size alignment => .ok (.found 4096 size alignment) }

/-- A program opens a shared segment and lets it go again. -/
def openedSegment : World :=
  (World.init {} {}).next
    (.importBuffer opensAll { domain := .sharedHost, size := 4096, handle := "segment" } 1 "")

/-- The imported buffer is registered, but not counted; its release finds a count of zero. -/
theorem import_not_counted :
    Reach World.next (fun _ _ => True) (World.init {} {}) openedSegment ∧
      openedSegment.registered (fun r => r.ns = 1) = 1 ∧
      openedSegment.core.rt.allocCount 1 = 0 :=
  ⟨.next _ .start trivial, by decide, by decide⟩

end UnifiedBuffer
