import UnifiedBuffer.Runtime.State

set_option autoImplicit false

/-! # Finalization

`finalize` of `runtime.cpp`: what happens to a buffer when its last reference is dropped. The
backing goes to the pool or back to the backend, or is left alone if it is borrowed; then the
accounting, the allocation count, the registry and the statistics follow.
-/

namespace UnifiedBuffer

open Lib

namespace RuntimeImpl

/-- The zeroing of a backing before it enters the pool. Its result is ignored. -/
def zeroOnRelease (rt : RuntimeImpl) (os : Os) (env : Env) (r : Record) : RuntimeImpl × Os :=
  match rt.namespaceInfo r.ns with
  | none => (rt, os)
  | some nsc =>
      if (nsc.zeroing = .onRelease ∨ nsc.zeroing = .always) ∧ (rt.domain r.domain).isSome then
        (rt.count (fun t => { t with zeroCount := t.zeroCount + 1 }),
          (os.zero env r.domain r.backing r.committed).2)
      else (rt, os)

/-- May the backing of this record go to the pool? -/
def returnsToPool (rt : RuntimeImpl) (r : Record) (returnToPool : Bool) : Bool :=
  returnToPool && r.poolEligible && r.flags.pooled && rt.cfg.enablePool && rt.cfg.pool.enabled

theorem poolEligible_of_returnsToPool {rt : RuntimeImpl} {r : Record} {returnToPool : Bool}
    (h : rt.returnsToPool r returnToPool = true) : r.poolEligible = true := by
  simp only [returnsToPool, Bool.and_eq_true] at h
  exact h.1.1.1.2

/-- The first half of `finalize`: the release of the backing. The boolean is `went_pooled`. -/
def releaseBacking (rt : RuntimeImpl) (os : Os) (env : Env) (r : Record) (returnToPool : Bool) :
    Bool × Record × RuntimeImpl × Os :=
  if r.backing.present ∧ r.ownership ≠ .borrowed then
    if rt.returnsToPool r returnToPool then
      let (rt, os) := rt.zeroOnRelease os env r
      let slot : PoolSlot := ⟨r.backing, r.id, r.ns⟩
      match rt.poolPut os (rt.makePoolKey r) slot with
      | (true, rt, os) =>
          (true, { r with backing := r.backing.movedFrom },
            rt.releaseAmount r.ns r.domain r.committed true, os)
      | (false, rt, os) =>
          -- `pool_put` has freed the backing
          (false, { r with backing := r.backing.movedFrom },
            rt.freeAccounting r.ns r.domain r.committed, os)
    else
      -- adopted memory goes to the `free` of the backend like the backend's own
      let ownership := if r.ownership = .adopted then .runtime else r.ownership
      (false, { r with ownership := ownership, backing := {} },
        rt.freeAccounting r.ns r.domain r.committed, rt.freeIn os r.domain r.backing)
  else
    -- a borrowed backing is forgotten, and the ledger is left as it is
    (false, { r with backing := {} }, rt, os)

/-- The second half of `finalize`: the allocation count, the registry, the statistics and the
log. -/
def unregister (rt : RuntimeImpl) (r : Record) (wentPooled : Bool) : RuntimeImpl :=
  let rt := rt.releaseCount r.ns
  let rt := { rt with registry := rt.registry.erase r.id }
  let rt := rt.count (fun t =>
    { t with
      totalFrees := t.totalFrees + 1
      activeBuffers := t.activeBuffers - 1
      outstandingAllocations := t.outstandingAllocations - 1 })
  rt.note "finalize" (r.domain.toString ++ " id=" ++ toString r.id.lo
    ++ (if wentPooled then " ->pool" else " ->free"))

/-- `finalize`. The exchange of `finalized` makes every call after the first one return at
once. -/
def finalize (rt : RuntimeImpl) (os : Os) (env : Env) (ctl : Control) (returnToPool : Bool) :
    Control × RuntimeImpl × Os :=
  if ctl.finalized then (ctl, rt, os)
  else
    let (wentPooled, r, rt, os) := rt.releaseBacking os env ctl.record returnToPool
    let r := { r with state := .released }
    ({ ctl with record := r, finalized := true, finalizations := ctl.finalizations + 1 },
      rt.unregister r wentPooled, os)

/-! ## What a finalization does -/

def finalControl (ctl : Control) (backing : NativeAllocation) (ownership : Ownership) : Control :=
  { ctl with
    record := { ctl.record with backing := backing, ownership := ownership, state := .released }
    finalized := true
    finalizations := ctl.finalizations + 1 }

/-- The runtime after a finalization, up to other statistics and the decision log. -/
def finalState (rt : RuntimeImpl) (r : Record) (l : Ledger) (pool : Pool) : RuntimeImpl :=
  { rt with
    ledger := l
    pool := pool
    allocs := (rt.releaseCount r.ns).allocs
    registry := rt.registry.erase r.id
    telem := { rt.telem with totalFrees := rt.telem.totalFrees + 1 } }

/-- The exits of `finalize`. -/
inductive FinalizeRun (rt : RuntimeImpl) (os : Os) (env : Env) (ctl : Control)
    (returnToPool : Bool) : Control × RuntimeImpl × Os → Prop
  /-- the block was finalized before -/
  | again (done : ctl.finalized = true) : FinalizeRun rt os env ctl returnToPool (ctl, rt, os)
  /-- there is no backing, or it is borrowed -/
  | kept {rt' : RuntimeImpl} (first : ctl.finalized = false)
      (skip : ctl.record.backing.present = false ∨ ctl.record.ownership = .borrowed)
      (state : Quiet (rt.finalState ctl.record rt.ledger rt.pool) rt') :
      FinalizeRun rt os env ctl returnToPool
        (finalControl ctl {} ctl.record.ownership, rt', os)
  /-- the backing goes to the pool -/
  | pooled {rt' : RuntimeImpl} (first : ctl.finalized = false)
      (present : ctl.record.backing.present = true) (owned : ctl.record.ownership ≠ .borrowed)
      (eligible : rt.returnsToPool ctl.record returnToPool = true)
      (room : rt.poolFull ctl.record.backing.committed = false)
      (state : Quiet (rt.finalState ctl.record
        (rt.ledger.releaseAmount ctl.record.ns ctl.record.domain ctl.record.committed true)
        (rt.pool.push (rt.makePoolKey ctl.record)
          ⟨ctl.record.backing, ctl.record.id, ctl.record.ns⟩)) rt') :
      FinalizeRun rt os env ctl returnToPool
        (finalControl ctl ctl.record.backing.movedFrom ctl.record.ownership, rt',
          (rt.zeroOnRelease os env ctl.record).2)
  /-- the pool is full: the backing is freed instead -/
  | evicted {rt' : RuntimeImpl} (first : ctl.finalized = false)
      (present : ctl.record.backing.present = true) (owned : ctl.record.ownership ≠ .borrowed)
      (eligible : rt.returnsToPool ctl.record returnToPool = true)
      (full : rt.poolFull ctl.record.backing.committed = true)
      (state : Quiet (rt.finalState ctl.record
        (rt.ledger.freeAccounting ctl.record.ns ctl.record.domain ctl.record.committed)
        rt.pool) rt') :
      FinalizeRun rt os env ctl returnToPool
        (finalControl ctl ctl.record.backing.movedFrom ctl.record.ownership, rt',
          rt.freeIn (rt.zeroOnRelease os env ctl.record).2 ctl.record.domain ctl.record.backing)
  /-- the backing is freed -/
  | freed {rt' : RuntimeImpl} {ownership : Ownership} (first : ctl.finalized = false)
      (present : ctl.record.backing.present = true) (owned : ctl.record.ownership ≠ .borrowed)
      (direct : rt.returnsToPool ctl.record returnToPool = false)
      (state : Quiet (rt.finalState ctl.record
        (rt.ledger.freeAccounting ctl.record.ns ctl.record.domain ctl.record.committed)
        rt.pool) rt') :
      FinalizeRun rt os env ctl returnToPool
        (finalControl ctl {} ownership, rt', rt.freeIn os ctl.record.domain ctl.record.backing)

@[simp] theorem zeroOnRelease_calls (rt : RuntimeImpl) (os : Os) (env : Env) (r : Record) :
    (rt.zeroOnRelease os env r).2.calls = os.calls := by
  unfold zeroOnRelease
  cases rt.namespaceInfo r.ns with
  | none => rfl
  | some nsc =>
      simp only
      split
      · exact Os.zero_calls os env _ _ _
      · rfl

theorem zeroOnRelease_quiet (rt : RuntimeImpl) (os : Os) (env : Env) (r : Record) :
    Quiet rt (rt.zeroOnRelease os env r).1 := by
  unfold zeroOnRelease
  cases rt.namespaceInfo r.ns with
  | none => exact Quiet.refl rt
  | some nsc =>
      simp only
      split
      · constructor <;> rfl
      · exact Quiet.refl rt

/-- The second half of `finalize` after a release that left the ledger `l` and the pool `p`. -/
theorem unregister_quiet {rt rt₁ : RuntimeImpl} {r r' : Record} {l : Ledger} {p : Pool}
    (hq : Quiet { rt with ledger := l, pool := p } rt₁) (hns : r'.ns = r.ns) (hid : r'.id = r.id)
    (wentPooled : Bool) : Quiet (rt.finalState r l p) (rt₁.unregister r' wentPooled) := by
  have ha : (rt₁.unregister r' wentPooled).allocs = (rt.releaseCount r.ns).allocs := by
    rw [← hns]
    exact (hq.releaseCount r'.ns).allocs
  have hr : (rt₁.unregister r' wentPooled).registry = rt.registry.erase r.id := by
    rw [← hid]
    exact congrArg (fun m : AssocMap BufferId CtlId => m.erase r'.id) hq.registry
  exact { hq with
    allocs := ha
    registry := hr
    totalFrees := congrArg (· + 1) hq.totalFrees }

/-- Every call of `finalize` takes one of the exits. -/
theorem finalize_run (rt : RuntimeImpl) (os : Os) (env : Env) (ctl : Control)
    (returnToPool : Bool) :
    FinalizeRun rt os env ctl returnToPool (rt.finalize os env ctl returnToPool) := by
  unfold finalize
  cases hf : ctl.finalized with
  | true => exact .again hf
  | false =>
      rw [if_neg Bool.false_ne_true]
      unfold releaseBacking
      by_cases hp : ctl.record.backing.present = true ∧ ctl.record.ownership ≠ .borrowed
      · rw [if_pos hp]
        cases he : rt.returnsToPool ctl.record returnToPool with
        | true =>
            have hq := rt.zeroOnRelease_quiet os env ctl.record
            simp only [if_true]
            cases hput : (rt.zeroOnRelease os env ctl.record).1.poolPut
                (rt.zeroOnRelease os env ctl.record).2
                ((rt.zeroOnRelease os env ctl.record).1.makePoolKey ctl.record)
                ⟨ctl.record.backing, ctl.record.id, ctl.record.ns⟩ with
            | mk kept out =>
                obtain ⟨rt₁, os₁⟩ := out
                rcases poolPut_cases hput with ⟨rfl, hfull, hq₁, rfl⟩ | ⟨rfl, hroom, rfl, rfl⟩
                · rw [hq.freeIn]
                  rw [hq.poolFull] at hfull
                  refine .evicted hf hp.1 hp.2 he hfull (unregister_quiet ?_ rfl rfl false)
                  exact (hq.trans hq₁).mapLedger
                    (fun l => l.freeAccounting ctl.record.ns ctl.record.domain ctl.record.committed)
                · rw [hq.poolFull] at hroom
                  refine .pooled hf hp.1 hp.2 he hroom (unregister_quiet ?_ rfl rfl true)
                  have hl := hq.mapLedger (fun l =>
                    l.releaseAmount ctl.record.ns ctl.record.domain ctl.record.committed true)
                  rw [hq.makePoolKey, hq.pool]
                  exact { hl with pool := rfl }
        | false =>
            refine .freed hf hp.1 hp.2 he ?_
            exact unregister_quiet (Quiet.refl _) rfl rfl false
      · rw [if_neg hp]
        refine .kept hf ?_ (unregister_quiet (Quiet.refl _) rfl rfl false)
        by_cases h : ctl.record.ownership = .borrowed
        · exact Or.inr h
        · exact Or.inl (by simpa [h] using hp)

/-- What every first finalization has in common. -/
theorem finalize_first (rt : RuntimeImpl) {ctl : Control} (os : Os) (env : Env)
    (returnToPool : Bool) (hf : ctl.finalized = false) :
    ∃ backing ownership l pool,
      (rt.finalize os env ctl returnToPool).1 = finalControl ctl backing ownership ∧
      Quiet (rt.finalState ctl.record l pool) (rt.finalize os env ctl returnToPool).2.1 := by
  have hrun := rt.finalize_run os env ctl returnToPool
  generalize rt.finalize os env ctl returnToPool = out at hrun ⊢
  cases hrun with
  | again done =>
      rw [hf] at done
      cases done
  | kept _ _ state => exact ⟨_, _, _, _, rfl, state⟩
  | pooled _ _ _ _ _ state => exact ⟨_, _, _, _, rfl, state⟩
  | evicted _ _ _ _ _ state => exact ⟨_, _, _, _, rfl, state⟩
  | freed _ _ _ _ state => exact ⟨_, _, _, _, rfl, state⟩

end RuntimeImpl

end UnifiedBuffer
