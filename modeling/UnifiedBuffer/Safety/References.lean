import UnifiedBuffer.Lib.ListAt
import UnifiedBuffer.Buffer.World

set_option autoImplicit false

/-! # References to control blocks

`Core.Refs pins maps` says that block `k` has `pins k` references and `maps k` maps, that the
registry holds exactly the blocks with a reference, and that `finalize` has done its work once on
all others. Each operation of the runtime is described by what it does to the two functions. -/

namespace UnifiedBuffer

open Lib

/-! ## What counts of a control block -/

/-- The fields of a control block that reference counting is about. -/
structure RefView where
  refs : Int
  mapCount : Int
  finalized : Bool
  finalizations : Nat
  id : BufferId

/-- The view of a block that was finalized when its last reference was dropped. -/
def RefView.final (v : RefView) : RefView :=
  { v with refs := 0, finalized := true, finalizations := v.finalizations + 1 }

def Control.refView (ctl : Control) : RefView :=
  ⟨ctl.refs, ctl.record.mapCount, ctl.finalized, ctl.finalizations, ctl.record.id⟩

/-- The high word of all identities of a runtime. -/
def RuntimeImpl.idHigh (rt : RuntimeImpl) : UInt64 := rt.idSeed ^^^ (rt.epoch &&& 0xFFFFFFFF)

theorem RuntimeImpl.idHigh_eq {rt rt' : RuntimeImpl} (hseed : rt'.idSeed = rt.idSeed)
    (hepoch : rt'.epoch = rt.epoch) : rt'.idHigh = rt.idHigh := by
  unfold RuntimeImpl.idHigh
  rw [hseed, hepoch]

namespace Core

def views (c : Core) : List RefView := c.ctls.map Control.refView

/-- Nothing that reference counting is about has changed; identities may have been used up. -/
structure SameRefs (c c' : Core) : Prop where
  views : c'.views = c.views
  registry : c'.rt.registry = c.rt.registry
  idSeed : c'.rt.idSeed = c.rt.idSeed
  epoch : c'.rt.epoch = c.rt.epoch
  idCounter : c.rt.idCounter ≤ c'.rt.idCounter
  totalAllocations : c'.rt.telem.totalAllocations = c.rt.telem.totalAllocations
  totalFrees : c'.rt.telem.totalFrees = c.rt.telem.totalFrees

theorem SameRefs.refl (c : Core) : c.SameRefs c := ⟨rfl, rfl, rfl, rfl, Nat.le_refl _, rfl, rfl⟩

theorem SameRefs.trans {c c' c'' : Core} (h : c.SameRefs c') (h' : c'.SameRefs c'') :
    c.SameRefs c'' :=
  ⟨h'.views.trans h.views, h'.registry.trans h.registry, h'.idSeed.trans h.idSeed,
    h'.epoch.trans h.epoch, h.idCounter.trans h'.idCounter,
    h'.totalAllocations.trans h.totalAllocations, h'.totalFrees.trans h.totalFrees⟩

/-- A step that changes the runtime only in ways that do not count. -/
theorem sameRefs_of_quiet {c c' : Core} (hq : RuntimeImpl.Quiet c.rt c'.rt)
    (hv : c'.views = c.views) : c.SameRefs c' :=
  ⟨hv, hq.registry, hq.idSeed, hq.epoch, Nat.le_of_eq hq.idCounter.symm, hq.totalAllocations,
    hq.totalFrees⟩

theorem sameRefs_modify (c : Core) (k : Nat) {f : Control → Control}
    (hf : ∀ ctl, (f ctl).refView = ctl.refView) : c.SameRefs (c.modify k f) :=
  sameRefs_of_quiet (RuntimeImpl.Quiet.refl _) (map_modify_same _ f hf k c.ctls)

theorem sameRefs_count (c : Core) (f : Telemetry → Telemetry)
    (ha : (f c.rt.telem).totalAllocations = c.rt.telem.totalAllocations)
    (hf : (f c.rt.telem).totalFrees = c.rt.telem.totalFrees) : c.SameRefs (c.count f) :=
  sameRefs_of_quiet (RuntimeImpl.quiet_count _ f ha hf) rfl

/-! ## The invariant -/

/-- Block `k` has `pins k` references and `maps k` maps; `base` lists the identities that the
first blocks were given. -/
structure Refs (base : List BufferId) (pins maps : Nat → Nat) (c : Core) : Prop where
  refs : ∀ (k : Nat) (v : RefView), c.views[k]? = some v → v.refs = (pins k : Int)
  mapCount : ∀ (k : Nat) (v : RefView), c.views[k]? = some v → v.mapCount = (maps k : Int)
  finalized : ∀ (k : Nat) (v : RefView), c.views[k]? = some v → (v.finalized = true ↔ pins k = 0)
  finalizations : ∀ (k : Nat) (v : RefView), c.views[k]? = some v →
    v.finalizations = if pins k = 0 then 1 else 0
  bound : ∀ k, c.views.length ≤ k → pins k = 0 ∧ maps k = 0
  registry : ∀ (id : BufferId) (k : Nat), c.rt.registry.find? id = some k ↔
    ∃ v : RefView, c.views[k]? = some v ∧ v.id = id ∧ 0 < pins k
  ids : ∀ (k : Nat) (v : RefView), c.views[k]? = some v →
    v.id.hi = c.rt.idHigh ∧ 1 ≤ v.id.lo ∧ v.id.lo < c.rt.idCounter
  distinct : (c.views.map RefView.id).Nodup
  issued : base <+: c.views.map RefView.id
  counter : 1 ≤ c.rt.idCounter
  totals : c.rt.telem.totalAllocations = c.rt.telem.totalFrees + c.rt.registry.size

section Refs

variable {base : List BufferId} {pins pins' maps maps' : Nat → Nat} {c c' : Core} {k : Nat}

/-- The view of a block with `n` references and `m` maps. -/
structure Fits (n m : Nat) (v : RefView) : Prop where
  refs : v.refs = (n : Int)
  mapCount : v.mapCount = (m : Int)
  finalized : v.finalized = true ↔ n = 0
  finalizations : v.finalizations = if n = 0 then 1 else 0

theorem Refs.fits (h : c.Refs base pins maps) {v : RefView} (hv : c.views[k]? = some v) :
    Fits (pins k) (maps k) v :=
  ⟨h.refs k v hv, h.mapCount k v hv, h.finalized k v hv, h.finalizations k v hv⟩

/-- The registry by the identities of the blocks. -/
theorem registry_ids (c : Core) (id : BufferId) :
    (∃ v, c.views[k]? = some v ∧ v.id = id ∧ 0 < pins k) ↔
      (c.views.map RefView.id)[k]? = some id ∧ 0 < pins k := by
  rw [List.getElem?_map, Option.map_eq_some_iff]
  constructor
  · rintro ⟨v, hv, hid, hpos⟩
    exact ⟨⟨v, hv, hid⟩, hpos⟩
  · rintro ⟨⟨v, hv, hid⟩, hpos⟩
    exact ⟨v, hv, hid, hpos⟩

theorem Refs.find_iff (h : c.Refs base pins maps) (id : BufferId) (k : Nat) :
    c.rt.registry.find? id = some k ↔
      (c.views.map RefView.id)[k]? = some id ∧ 0 < pins k :=
  (h.registry id k).trans (c.registry_ids id)

/-- The invariant from what it says about the blocks one by one and about their identities. -/
theorem Refs.of_fits
    (hfits : ∀ (k : Nat) (v : RefView), c.views[k]? = some v → Fits (pins k) (maps k) v)
    (hbound : ∀ k, c.views.length ≤ k → pins k = 0 ∧ maps k = 0)
    (hfind : ∀ (id : BufferId) (k : Nat), c.rt.registry.find? id = some k ↔
      (c.views.map RefView.id)[k]? = some id ∧ 0 < pins k)
    (hids : ∀ id ∈ c.views.map RefView.id,
      id.hi = c.rt.idHigh ∧ 1 ≤ id.lo ∧ id.lo < c.rt.idCounter)
    (hdistinct : (c.views.map RefView.id).Nodup) (hissued : base <+: c.views.map RefView.id)
    (hcounter : 1 ≤ c.rt.idCounter)
    (htotals : c.rt.telem.totalAllocations = c.rt.telem.totalFrees + c.rt.registry.size) :
    c.Refs base pins maps where
  refs k v hv := (hfits k v hv).refs
  mapCount k v hv := (hfits k v hv).mapCount
  finalized k v hv := (hfits k v hv).finalized
  finalizations k v hv := (hfits k v hv).finalizations
  bound := hbound
  registry id k := (hfind id k).trans (c.registry_ids id).symm
  ids _ v hv := hids v.id (List.mem_map_of_mem (List.mem_of_getElem? hv))
  distinct := hdistinct
  issued := hissued
  counter := hcounter
  totals := htotals

theorem Refs.mem_ids (h : c.Refs base pins maps) {id : BufferId}
    (hid : id ∈ c.views.map RefView.id) :
    id.hi = c.rt.idHigh ∧ 1 ≤ id.lo ∧ id.lo < c.rt.idCounter := by
  obtain ⟨v, hv, rfl⟩ := List.mem_map.mp hid
  obtain ⟨k, hk⟩ := List.getElem?_of_mem hv
  exact h.ids k v hk

theorem Refs.congr (h : c.Refs base pins maps) (hp : ∀ j, pins' j = pins j)
    (hm : ∀ j, maps' j = maps j) : c.Refs base pins' maps' := by
  obtain rfl : pins' = pins := funext hp
  obtain rfl : maps' = maps := funext hm
  exact h

theorem Refs.same (h : c.Refs base pins maps) (hs : c.SameRefs c') : c'.Refs base pins maps := by
  have hhigh := RuntimeImpl.idHigh_eq hs.idSeed hs.epoch
  obtain ⟨h₁, h₂, h₃, h₄, h₅, h₆, h₇, h₈, h₉, h₁₀, h₁₁⟩ := h
  refine ⟨?_, ?_, ?_, ?_, ?_, ?_, ?_, ?_, ?_, h₁₀.trans hs.idCounter, ?_⟩
  all_goals simp only [hs.views, hs.registry, hs.totalAllocations, hs.totalFrees, hhigh]
  all_goals try assumption
  intro k v hv
  obtain ⟨hhi, hlo, hlt⟩ := h₇ k v hv
  exact ⟨hhi, hlo, hlt.trans_le hs.idCounter⟩

/-- A block with a reference is in the list. -/
theorem Refs.get (h : c.Refs base pins maps) (hk : 0 < pins k) : ∃ v, c.views[k]? = some v := by
  have hlt : k < c.views.length := by
    by_contra hge
    have := (h.bound k (Nat.le_of_not_lt hge)).1
    omega
  exact ⟨_, List.getElem?_eq_getElem hlt⟩

theorem views_control (c : Core) {k : Nat} {v : RefView} (hv : c.views[k]? = some v) :
    k < c.ctls.length ∧ (c.control k).refView = v := by
  unfold views at hv
  rw [List.getElem?_map] at hv
  cases hc : c.ctls[k]? with
  | none =>
      rw [hc] at hv
      cases hv
  | some ctl =>
      rw [hc] at hv
      have hlt := (List.getElem?_eq_some_iff.mp hc).1
      have hctl : c.control k = ctl := by
        unfold control
        rw [List.getD_eq_getElem?_getD, hc, Option.getD_some]
      exact ⟨hlt, by rw [hctl]; exact Option.some.inj hv⟩

/-- A change of one block that keeps its identity. -/
theorem Refs.modified {g : RefView → RefView} (h : c.Refs base pins maps)
    (hv : c'.views = c.views.modify k g) (hk : 0 < pins k) (hid : ∀ v, (g v).id = v.id)
    (hhigh : c'.rt.idHigh = c.rt.idHigh) (hcounter : c'.rt.idCounter = c.rt.idCounter)
    (hother : ∀ j, j ≠ k → pins' j = pins j ∧ maps' j = maps j)
    (hg : ∀ v, Fits (pins k) (maps k) v → Fits (pins' k) (maps' k) (g v))
    (hfind : ∀ (id : BufferId) (j : Nat), c'.rt.registry.find? id = some j ↔
      (c.views.map RefView.id)[j]? = some id ∧ 0 < pins' j)
    (htotals : c'.rt.telem.totalAllocations = c'.rt.telem.totalFrees + c'.rt.registry.size) :
    c'.Refs base pins' maps' := by
  have hids : c'.views.map RefView.id = c.views.map RefView.id := by
    rw [hv]
    exact map_modify_same RefView.id g hid k _
  have hlen : c'.views.length = c.views.length := by rw [hv, List.length_modify]
  refine Refs.of_fits ?_ ?_ (by rw [hids]; exact hfind) ?_ (by rw [hids]; exact h.distinct)
    (by rw [hids]; exact h.issued) (by rw [hcounter]; exact h.counter) htotals
  · intro j v' hv'
    rw [hv] at hv'
    obtain ⟨v, hjv, rfl⟩ := getElem?_modify_some hv'
    by_cases hkj : k = j
    · subst hkj
      rw [if_pos rfl]
      exact hg v (h.fits hjv)
    · rw [if_neg hkj, (hother j (Ne.symm hkj)).1, (hother j (Ne.symm hkj)).2]
      exact h.fits hjv
  · intro j hj
    have hb := h.bound j (by omega)
    have hjk : j ≠ k := by
      rintro rfl
      omega
    rw [(hother j hjk).1, (hother j hjk).2]
    exact hb
  · rw [hids, hhigh, hcounter]
    exact fun id => h.mem_ids

/-- A change of one block that has a reference before and after it. -/
theorem Refs.change {g : RefView → RefView} (h : c.Refs base pins maps)
    (hq : RuntimeImpl.Quiet c.rt c'.rt) (hv : c'.views = c.views.modify k g)
    (hpos : 0 < pins k) (hpos' : 0 < pins' k)
    (hother : ∀ j, j ≠ k → pins' j = pins j ∧ maps' j = maps j)
    (hg : ∀ v, v.refs = (pins k : Int) → v.mapCount = (maps k : Int) →
      (g v).refs = (pins' k : Int) ∧ (g v).mapCount = (maps' k : Int))
    (hkeep : ∀ v, (g v).finalized = v.finalized ∧ (g v).finalizations = v.finalizations ∧
      (g v).id = v.id) :
    c'.Refs base pins' maps' := by
  have hzero : ∀ j, pins' j = 0 ↔ pins j = 0 := by
    intro j
    by_cases hjk : j = k
    · subst hjk
      omega
    · rw [(hother j hjk).1]
  refine h.modified hv hpos (fun v => (hkeep v).2.2) (RuntimeImpl.idHigh_eq hq.idSeed hq.epoch)
    hq.idCounter hother ?_ ?_ ?_
  · intro v hfits
    obtain ⟨hr, hm⟩ := hg v hfits.refs hfits.mapCount
    refine ⟨hr, hm, ?_, ?_⟩
    · rw [(hkeep v).1, hzero]
      exact hfits.finalized
    · rw [(hkeep v).2.1, hfits.finalizations]
      simp only [hzero]
  · intro id j
    rw [hq.registry, h.find_iff, Nat.pos_iff_ne_zero, Nat.pos_iff_ne_zero, Ne, Ne, hzero]
  · rw [hq.totalAllocations, hq.totalFrees, hq.registry]
    exact h.totals

theorem views_retain (c : Core) (k : Nat) :
    (c.retain k).views = c.views.modify k (fun v => { v with refs := v.refs + 1 }) :=
  map_modify Control.refView _ _ (fun _ => rfl) k c.ctls

/-- A further reference to a block that has one. -/
theorem Refs.retain (h : c.Refs base pins maps) (hk : 0 < pins k)
    (hp : ∀ j, pins' j = pins j + if j = k then 1 else 0) :
    (c.retain k).Refs base pins' maps := by
  have hpk : pins' k = pins k + 1 := by rw [hp, if_pos rfl]
  refine h.change (RuntimeImpl.Quiet.refl _) (c.views_retain k) hk (by omega) ?_ ?_
    fun _ => ⟨rfl, rfl, rfl⟩
  · intro j hj
    rw [hp, if_neg hj]
    exact ⟨rfl, rfl⟩
  · intro v hr hm
    refine ⟨?_, hm⟩
    simp only [hr, hpk]
    omega

/-- A further map of a block that has a reference. -/
theorem Refs.mapOnce (h : c.Refs base pins maps) (hk : 0 < pins k)
    (hm : ∀ j, maps' j = maps j + if j = k then 1 else 0) :
    (c.modifyRecord k BufferHandle.mapOnce).Refs base pins maps' := by
  have hmk : maps' k = maps k + 1 := by rw [hm, if_pos rfl]
  refine h.change (g := fun v => { v with mapCount := v.mapCount + 1 }) (RuntimeImpl.Quiet.refl _)
    (map_modify Control.refView _ _ (fun _ => rfl) k c.ctls) hk hk ?_ ?_ fun _ => ⟨rfl, rfl, rfl⟩
  · intro j hj
    rw [hm, if_neg hj]
    exact ⟨rfl, rfl⟩
  · intro v hr hv
    refine ⟨hr, ?_⟩
    simp only [hv, hmk]
    omega

/-- A map of a block is given up. -/
theorem Refs.unmapOnce (h : c.Refs base pins maps) (hk : 0 < pins k) (hmap : 0 < maps k)
    (hm : ∀ j, maps' j = maps j - if j = k then 1 else 0) :
    (c.modifyRecord k UnifiedBuffer.unmapOnce).Refs base pins maps' := by
  have hmk : maps' k = maps k - 1 := by rw [hm, if_pos rfl]
  refine h.change
    (g := fun v => { v with mapCount := if v.mapCount > 0 then v.mapCount - 1 else v.mapCount })
    (RuntimeImpl.Quiet.refl _)
    (map_modify Control.refView _ _ (fun ctl => ?_) k c.ctls) hk hk ?_ ?_ fun _ => ⟨rfl, rfl, rfl⟩
  · unfold Control.refView UnifiedBuffer.unmapOnce
    simp only
    split <;> split <;> rfl
  · intro j hj
    rw [hm, if_neg hj]
    exact ⟨rfl, rfl⟩
  · intro v hr hv
    refine ⟨hr, ?_⟩
    simp only [hv, hmk]
    rw [if_pos (by omega)]
    omega

/-- The last reference is dropped: the block is finalized. -/
theorem Refs.finalize {v₀ : RefView} (h : c.Refs base pins maps)
    (hlast : pins k = 1) (hv₀ : c.views[k]? = some v₀)
    (hp : ∀ j, pins' j = pins j - if j = k then 1 else 0)
    (hviews : c'.views = c.views.modify k RefView.final)
    (hreg : c'.rt.registry = c.rt.registry.erase v₀.id)
    (hseed : c'.rt.idSeed = c.rt.idSeed) (hepoch : c'.rt.epoch = c.rt.epoch)
    (hctr : c'.rt.idCounter = c.rt.idCounter)
    (ha : c'.rt.telem.totalAllocations = c.rt.telem.totalAllocations)
    (hf : c'.rt.telem.totalFrees = c.rt.telem.totalFrees + 1) :
    c'.Refs base pins' maps := by
  have hpk : pins' k = 0 := by rw [hp, if_pos rfl, hlast]
  have hpj : ∀ j, j ≠ k → pins' j = pins j := fun j hj => by rw [hp, if_neg hj]; rfl
  have hidk : (c.views.map RefView.id)[k]? = some v₀.id := by rw [List.getElem?_map, hv₀]; rfl
  have hfind : c.rt.registry.find? v₀.id = some k := (h.find_iff v₀.id k).mpr ⟨hidk, by omega⟩
  refine h.modified hviews (by omega) (fun _ => rfl) (RuntimeImpl.idHigh_eq hseed hepoch) hctr
    (fun j hj => ⟨hpj j hj, rfl⟩) ?_ ?_ ?_
  · intro v hfits
    have hn := hfits.finalizations
    rw [if_neg (by omega)] at hn
    refine ⟨by rw [hpk]; rfl, hfits.mapCount, iff_of_true rfl hpk, ?_⟩
    simp only [RefView.final, hn, hpk, if_true]
  · intro id j
    rw [hreg, AssocMap.find?_erase]
    split
    · -- the only block of this identity was the one that is gone
      rename_i hid
      subst hid
      refine iff_of_false (by simp) ?_
      rintro ⟨hjid, hpos⟩
      have hj : j ≠ k := by
        rintro rfl
        omega
      have hfind' := (h.find_iff v₀.id j).mpr ⟨hjid, by rw [← hpj j hj]; exact hpos⟩
      exact hj (Option.some.inj (hfind'.symm.trans hfind))
    · rename_i hid
      rw [h.find_iff]
      refine and_congr_right fun hjid => ?_
      have hj : j ≠ k := by
        rintro rfl
        exact hid (Option.some.inj (hidk.symm.trans hjid))
      rw [hpj j hj]
  · have hsize := c.rt.registry.size_erase_of_find hfind
    rw [ha, hf, hreg, h.totals]
    omega

/-- A reference is dropped. -/
theorem Refs.dropRef (h : c.Refs base pins maps) (env : Env) (hk : 0 < pins k)
    (hp : ∀ j, pins' j = pins j - if j = k then 1 else 0) :
    (c.dropRef env k).Refs base pins' maps := by
  obtain ⟨v₀, hv₀⟩ := h.get hk
  obtain ⟨hlt, hview⟩ := c.views_control hv₀
  have hprev : (c.control k).refs = pins k := by
    rw [← h.refs k v₀ hv₀, ← hview]
    rfl
  have hdec : (c.modify k (fun ctl => { ctl with refs := ctl.refs - 1 })).views
      = c.views.modify k (fun v => { v with refs := v.refs - 1 }) :=
    map_modify Control.refView _ _ (fun _ => rfl) k c.ctls
  unfold Core.dropRef
  simp only
  by_cases hlast : pins k = 1
  · rw [if_pos (by rw [hprev, hlast]; rfl)]
    have hctl := c.control_modify (fun ctl => { ctl with refs := ctl.refs - 1 }) hlt
    have hfirst : ((c.modify k (fun ctl => { ctl with refs := ctl.refs - 1 })).control k).finalized
        = false := by
      rw [hctl]
      have hfin := h.finalized k v₀ hv₀
      rw [← hview] at hfin
      exact Bool.eq_false_iff.mpr (fun ht => by have := hfin.mp ht; omega)
    obtain ⟨backing, ownership, l, pool, hout, hq⟩ :=
      c.rt.finalize_first c.os env true hfirst
    have hid : ((c.modify k (fun ctl => { ctl with refs := ctl.refs - 1 })).control k).record.id
        = v₀.id := by
      rw [hctl, ← hview]
      rfl
    refine h.finalize hlast hv₀ hp ?_ (hq.registry.trans ?_) hq.idSeed hq.epoch hq.idCounter
      hq.totalAllocations hq.totalFrees
    · -- the block is written back with its count at zero
      have hset : ((c.modify k (fun ctl => { ctl with refs := ctl.refs - 1 })).finalize env k
          true).views = (c.views.modify k (fun v => { v with refs := v.refs - 1 })).set k
            v₀.final := by
        have hfinal : (RuntimeImpl.finalControl ((c.modify k (fun ctl =>
            { ctl with refs := ctl.refs - 1 })).control k) backing ownership).refView = v₀.final := by
          have hzero : (c.control k).refs - 1 = 0 := by rw [hprev, hlast]; rfl
          rw [hctl, ← hview]
          unfold RuntimeImpl.finalControl Control.refView RefView.final
          simp only [hzero]
        rw [← hdec, ← hfinal]
        unfold Core.finalize Core.views
        rw [List.map_set]
        exact congrArg (fun ctl : Control => List.set _ k ctl.refView) hout
      rw [hset]
      apply List.ext_getElem?
      intro j
      have hkv : k < c.views.length := (List.getElem?_eq_some_iff.mp hv₀).1
      rw [List.getElem?_set, List.getElem?_modify, List.getElem?_modify, List.length_modify]
      by_cases hkj : k = j
      · subst hkj
        rw [if_pos rfl, if_pos hkv, hv₀]
        simp
      · simp [hkj]
    · show c.rt.registry.erase _ = _
      rw [hid]
  · rw [if_neg (by rw [hprev]; omega)]
    have hpk : pins' k = pins k - 1 := by rw [hp, if_pos rfl]
    refine h.change (RuntimeImpl.Quiet.refl _) hdec hk (by omega) ?_ ?_ fun _ => ⟨rfl, rfl, rfl⟩
    · intro j hj
      rw [hp, if_neg hj]
      exact ⟨rfl, rfl⟩
    · intro v hr hm
      refine ⟨?_, hm⟩
      simp only [hr, hpk]
      omega

theorem views_register (c : Core) (r : Record) :
    ((c.register r).2.retain (c.register r).1).views
      = c.views ++ [⟨1, r.mapCount, false, 0, r.id⟩] := by
  rw [views_retain]
  unfold Core.register RuntimeImpl.registerControl views
  simp only [List.map_append, List.map_cons, List.map_nil]
  rw [← List.length_map Control.refView, List.modify_eq_set_getElem?]
  simp [Control.refView]

/-- The registry with an entry for a new block finds the blocks with references. -/
theorem Refs.find_insert_iff (h : c.Refs base pins maps) {new : BufferId}
    (hnew : new ∉ c.views.map RefView.id) (hpold : ∀ j, j < c.ctls.length → pins' j = pins j)
    (hpnew : 0 < pins' c.ctls.length) (id : BufferId) (j : CtlId) :
    (c.rt.registry.insert new c.ctls.length).find? id = some j ↔
      (c.views.map RefView.id ++ [new])[j]? = some id ∧ 0 < pins' j := by
  have hlen : (c.views.map RefView.id).length = c.ctls.length := by
    rw [List.length_map]
    exact List.length_map _
  have hold : ∀ {i : CtlId} {id : BufferId}, (c.views.map RefView.id)[i]? = some id →
      pins' i = pins i := fun hi => hpold _ (hlen ▸ (List.getElem?_eq_some_iff.mp hi).1)
  rw [AssocMap.find?_insert, getElem?_concat_some, hlen]
  split
  · rename_i hid
    subst hid
    constructor
    · intro hj
      obtain rfl := Option.some.inj hj
      exact ⟨Or.inr ⟨rfl, rfl⟩, hpnew⟩
    · rintro ⟨hj | ⟨rfl, -⟩, -⟩
      · exact absurd (List.mem_of_getElem? hj) hnew
      · rfl
  · rename_i hid
    rw [h.find_iff]
    constructor
    · rintro ⟨hj, hpos⟩
      exact ⟨Or.inl hj, hold hj ▸ hpos⟩
    · rintro ⟨hj | ⟨-, rfl⟩, hpos⟩
      · exact ⟨hj, hold hj ▸ hpos⟩
      · exact absurd rfl hid

/-- A new block with one reference. -/
theorem Refs.register (h : c.Refs base pins maps) {r : Record} (hhi : r.id.hi = c.rt.idHigh)
    (hlo : 1 ≤ r.id.lo) (hlt : r.id.lo < c.rt.idCounter)
    (hnew : ∀ (k : Nat) (v : RefView), c.views[k]? = some v → v.id ≠ r.id)
    (hmap : r.mapCount = 0) (hp : ∀ j, pins' j = pins j + if j = c.ctls.length then 1 else 0) :
    ((c.register r).2.retain (c.register r).1).Refs base pins' maps := by
  have hviews := c.views_register r
  rw [hmap] at hviews
  have hids : ((c.register r).2.retain (c.register r).1).views.map RefView.id
      = c.views.map RefView.id ++ [r.id] := by
    rw [hviews, List.map_append]
    rfl
  have hlen : c.views.length = c.ctls.length := List.length_map _
  have hzero := h.bound c.ctls.length (by omega)
  have hnotin : r.id ∉ c.views.map RefView.id := by
    intro hmem
    obtain ⟨v, hv, hid⟩ := List.mem_map.mp hmem
    obtain ⟨k, hk⟩ := List.getElem?_of_mem hv
    exact hnew k v hk hid
  have hnone : c.rt.registry.find? r.id = none := by
    cases hf : c.rt.registry.find? r.id with
    | none => rfl
    | some k => exact absurd (List.mem_of_getElem? ((h.find_iff r.id k).mp hf).1) hnotin
  have hpold : ∀ j, j < c.ctls.length → pins' j = pins j := fun j hj => by
    rw [hp, if_neg (by omega)]; rfl
  have hpnew : pins' c.ctls.length = 1 := by rw [hp, if_pos rfl, hzero.1]
  have hreg : ((c.register r).2.retain (c.register r).1).rt.registry
      = c.rt.registry.insert r.id c.ctls.length := rfl
  refine Refs.of_fits ?_ ?_ ?_ ?_ ?_ ?_ h.counter ?_
  · intro j v hv
    rw [hviews, getElem?_concat_some] at hv
    rcases hv with hv | ⟨rfl, rfl⟩
    · rw [hpold j (hlen ▸ (List.getElem?_eq_some_iff.mp hv).1)]
      exact h.fits hv
    · rw [hlen, hpnew, hzero.2]
      exact ⟨rfl, rfl, by simp, rfl⟩
  · intro j hj
    rw [hviews, List.length_append, List.length_singleton] at hj
    have hb := h.bound j (by omega)
    rw [hp, if_neg (by omega)]
    exact hb
  · intro id j
    rw [hreg, hids]
    exact h.find_insert_iff hnotin hpold (hpnew ▸ Nat.one_pos) id j
  · intro id hid
    rw [hids, List.mem_append, List.mem_singleton] at hid
    rcases hid with hid | rfl
    · exact h.mem_ids hid
    · exact ⟨hhi, hlo, hlt⟩
  · rw [hids]
    exact List.nodup_append.mpr ⟨h.distinct, List.nodup_singleton _, fun id hid id' hid' heq =>
      hnotin (List.mem_singleton.mp hid' ▸ heq ▸ hid)⟩
  · rw [hids]
    exact h.issued.trans (List.prefix_append _ _)
  · rw [hreg, AssocMap.size_insert_new _ _ hnone]
    show c.rt.telem.totalAllocations + 1 = c.rt.telem.totalFrees + (c.rt.registry.size + 1)
    rw [h.totals]
    omega

end Refs

/-! ## Operations that return a control block -/

/-- The results of `allocate`, `wrap_external` and `import_descriptor`: a failure, a new block with
the next identity, or a registered block. -/
inductive Creates (c : Core) : Except Error Nat × Core → Prop
  | failed {e : Error} {c' : Core} (same : c.SameRefs c') : Creates c (.error e, c')
  | fresh {c₁ : Core} {r : Record} (same : c.SameRefs c₁) (id : r.id = c.rt.nextId.1)
      (used : c.rt.idCounter < c₁.rt.idCounter) (unmapped : r.mapCount = 0) :
      Creates c (.ok (c₁.register r).1, (c₁.register r).2)
  | known {k : Nat} {c' : Core} {id : BufferId} (same : c.SameRefs c')
      (registered : c.rt.registry.find? id = some k) : Creates c (.ok k, c')

theorem allocate_creates (c : Core) (env : Env) (req : AllocationRequest) :
    c.Creates (c.allocate env req) := by
  have hrun := RuntimeImpl.allocateRecord_run c.rt c.os env req
  unfold Core.allocate
  generalize c.rt.allocateRecord c.os env req = out at hrun ⊢
  cases hrun with
  | refused _ _ state =>
      exact .failed ⟨rfl, state.registry, state.idSeed, state.epoch,
        Nat.le_of_eq state.idCounter.symm, state.totalAllocations, state.totalFrees⟩
  | backendFailed _ _ _ _ state | commitFailed _ _ _ _ _ state
  | freshZeroFailed _ _ _ _ _ _ state | pooledZeroFailed _ _ _ state =>
      -- the identity that the request drew is lost
      exact .failed ⟨rfl, state.registry, state.idSeed, state.epoch,
        by rw [state.idCounter]; exact Nat.le_succ _, state.totalAllocations, state.totalFrees⟩
  | fresh _ _ _ _ _ state | pooled _ _ _ state =>
      refine .fresh ⟨rfl, state.registry, state.idSeed, state.epoch, ?_, state.totalAllocations,
        state.totalFrees⟩ rfl ?_ rfl
      · rw [state.idCounter]
        exact Nat.le_succ _
      · rw [state.idCounter]
        exact Nat.lt_succ_self _

theorem wrapExternal_creates (c : Core) (desc : ExternalMemoryDesc) :
    c.Creates (c.wrapExternal desc) := by
  unfold Core.wrapExternal
  split
  · exact .failed (SameRefs.refl c)
  split
  · exact .failed (SameRefs.refl c)
  cases c.rt.domain desc.domain with
  | none => exact .failed (SameRefs.refl c)
  | some dom =>
      simp only
      cases hr : c.rt.reserveCount kDefaultNamespace with
      | mk res rt₁ =>
          rcases RuntimeImpl.reserveCount_cases hr with ⟨e, rfl, hq⟩ | ⟨rfl, rfl⟩
          · exact .failed (sameRefs_of_quiet hq rfl)
          · exact .fresh ⟨rfl, rfl, rfl, rfl, Nat.le_succ _, rfl, rfl⟩ rfl (Nat.lt_succ_self _) rfl

theorem lookup_same (c : Core) (id : BufferId) (gen : BufferGeneration) :
    c.SameRefs (c.lookup id gen).2 ∧
      ∀ k, (c.lookup id gen).1 = .ok k → c.rt.registry.find? id = some k := by
  unfold Core.lookup
  cases hf : c.rt.registry.find? id with
  | none => exact ⟨sameRefs_count c _ rfl rfl, fun k hk => by cases hk⟩
  | some j =>
      simp only
      split
      · exact ⟨sameRefs_count c _ rfl rfl, fun k hk => by cases hk⟩
      · exact ⟨SameRefs.refl c, fun k hk => by cases hk; rfl⟩

theorem importSegment_creates {c c₁ : Core} (env : Env) (desc : ExportDescriptor) {r : Record}
    (hs : c.SameRefs c₁) (hid : r.id = c.rt.nextId.1) (hused : c.rt.idCounter < c₁.rt.idCounter)
    (hmap : r.mapCount = 0) : c.Creates (c₁.importSegment env desc r) := by
  unfold Core.importSegment
  cases c₁.rt.domain desc.domain with
  | none => exact .failed hs
  | some dom =>
      simp only
      cases c₁.os.importHandle env desc.domain desc.handle desc.size
          (if desc.alignment ≠ 0 then desc.alignment else 64) with
      | mk res os =>
          cases res with
          | error e => exact .failed (hs.trans (sameRefs_of_quiet (RuntimeImpl.Quiet.refl _) rfl))
          | ok na =>
              simp only
              split
              · exact .failed (hs.trans (sameRefs_of_quiet (RuntimeImpl.Quiet.refl _) rfl))
              · have hq := noteImport_quiet c₁.rt desc { r with backing := na }
                refine .fresh (hs.trans (sameRefs_of_quiet hq rfl)) hid ?_ hmap
                rw [hq.idCounter]
                exact hused

theorem importDescriptor_creates (c : Core) (env : Env) (desc : ExportDescriptor)
    (ns : NamespaceId) (label : String) : c.Creates (c.importDescriptor env desc ns label) := by
  unfold Core.importDescriptor
  split
  · exact .failed (SameRefs.refl c)
  cases c.checkImport desc ns with
  | error e => exact .failed (SameRefs.refl c)
  | ok u =>
      have hnext : c.SameRefs { c with rt := c.rt.nextId.2 } :=
        ⟨rfl, rfl, rfl, rfl, Nat.le_succ _, rfl, rfl⟩
      simp only
      split
      · exact importSegment_creates env desc hnext rfl (Nat.lt_succ_self _) rfl
      split
      · obtain ⟨hs, hk⟩ := lookup_same { c with rt := c.rt.nextId.2 } desc.bufferId desc.generation
        generalize Core.lookup { c with rt := c.rt.nextId.2 } desc.bufferId desc.generation = out
          at hs hk ⊢
        obtain ⟨res, c₂⟩ := out
        cases res with
        | error e => exact .failed (hnext.trans hs)
        | ok k =>
            exact .known ((hnext.trans hs).trans (sameRefs_count c₂ _ rfl rfl)) (hk k rfl)
      · exact .failed hnext

/-! ## Operations that keep all references -/

theorem migrate_same (c : Core) (env : Env) (k : Nat) (target : MemoryDomain) :
    c.SameRefs (c.migrate env k target).2 := by
  have hrun := RuntimeImpl.migrate_run c.rt c.os env (c.control k) target
  unfold Core.migrate
  generalize c.rt.migrate c.os env (c.control k) target = out at hrun ⊢
  -- the control block that `migrate` writes back
  have hkeep : ∀ ctl : Control, ctl.refView = (c.control k).refView →
      (c.ctls.set k ctl).map Control.refView = c.ctls.map Control.refView := by
    intro ctl hv
    rw [List.map_set, hv, ← List.map_set, c.set_control k]
  cases hrun with
  | refused _ state => exact sameRefs_of_quiet state (hkeep _ rfl)
  | stays _ _ => exact sameRefs_of_quiet (RuntimeImpl.Quiet.refl _) (hkeep _ rfl)
  | backendFailed _ _ state =>
      exact ⟨hkeep _ rfl, state.registry, state.idSeed, state.epoch,
        Nat.le_of_eq state.idCounter.symm, state.totalAllocations, state.totalFrees⟩
  | copyFailed _ _ _ state =>
      exact ⟨hkeep _ rfl, state.registry, state.idSeed, state.epoch,
        Nat.le_of_eq state.idCounter.symm, state.totalAllocations, state.totalFrees⟩
  | commitFailed _ _ _ _ state =>
      exact ⟨hkeep _ rfl, state.registry, state.idSeed, state.epoch,
        Nat.le_of_eq state.idCounter.symm, state.totalAllocations, state.totalFrees⟩
  | verifyFailed _ _ _ _ _ state =>
      exact ⟨hkeep _ rfl, state.registry, state.idSeed, state.epoch,
        Nat.le_of_eq state.idCounter.symm, state.totalAllocations, state.totalFrees⟩
  | swapped _ _ _ _ _ state =>
      exact ⟨hkeep _ rfl, state.registry, state.idSeed, state.epoch,
        Nat.le_of_eq state.idCounter.symm, state.totalAllocations, state.totalFrees⟩

theorem poolTrim_same (c : Core) : c.SameRefs c.poolTrim := by
  have hframe := c.rt.poolTrim_frame c.os
  have hrt : c.poolTrim.rt = (c.rt.poolTrim c.os).1 := rfl
  refine ⟨rfl, ?_, ?_, ?_, ?_, ?_, ?_⟩
  all_goals rw [hrt, hframe]

theorem closeDown_same (c : Core) : c.SameRefs c.closeDown :=
  c.poolTrim_same.trans ⟨rfl, rfl, rfl, rfl, Nat.le_refl _, rfl, rfl⟩

/-- No registered block is without references, so `shutdown` finalizes nothing. -/
theorem Refs.shutdown_eq {base : List BufferId} {pins maps : Nat → Nat} {c : Core}
    (h : c.Refs base pins maps) (env : Env) :
    c.shutdown env = if c.rt.closed then c
      else closeDown { c with rt := { c.rt with closed := true } } := by
  -- a round of the loop on a block with a reference does nothing
  have hnone : ∀ todo : List Nat, (∀ k ∈ todo, (c.control k).refs ≠ 0) →
      todo.foldl (finalizeIdle env) { c with rt := { c.rt with closed := true } }
        = { c with rt := { c.rt with closed := true } } := by
    intro todo
    induction todo with
    | nil => exact fun _ => rfl
    | cons k todo ih =>
        intro hrefs
        have hk : finalizeIdle env { c with rt := { c.rt with closed := true } } k
            = { c with rt := { c.rt with closed := true } } :=
          if_neg (hrefs k List.mem_cons_self)
        rw [List.foldl_cons, hk]
        exact ih (fun j hj => hrefs j (List.mem_cons_of_mem _ hj))
  have htodo : ∀ k ∈ c.rt.registry.entries.map Prod.snd, (c.control k).refs ≠ 0 := by
    intro k hk
    obtain ⟨e, he, rfl⟩ := List.mem_map.mp hk
    have hfind := (c.rt.registry.mem_entries_iff e.1 e.2).mp he
    obtain ⟨v, hv, -, hpos⟩ := (h.registry e.1 e.2).mp hfind
    have hrefs := h.refs e.2 v hv
    rw [← (c.views_control hv).2] at hrefs
    have hview : (c.control e.2).refView.refs = (c.control e.2).refs := rfl
    omega
  unfold Core.shutdown
  simp only
  rw [hnone _ htodo]

theorem Refs.shutdown {base : List BufferId} {pins maps : Nat → Nat} {c : Core}
    (h : c.Refs base pins maps) (env : Env) : (c.shutdown env).Refs base pins maps := by
  rw [h.shutdown_eq env]
  split
  · exact h
  · have hclose : c.SameRefs { c with rt := { c.rt with closed := true } } :=
      ⟨rfl, rfl, rfl, rfl, Nat.le_refl _, rfl, rfl⟩
    exact h.same (hclose.trans (closeDown_same _))

end Core

end UnifiedBuffer
