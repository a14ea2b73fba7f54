import UnifiedBuffer.Safety.Fates
import UnifiedBuffer.Safety.Geometry
import UnifiedBuffer.Safety.Pooling
import UnifiedBuffer.Safety.Recycling
import UnifiedBuffer.Safety.Setup

set_option autoImplicit false

/-! # Allocating again what was released to the pool

A backing in the pool stays committed. An allocation that would reuse it is admitted only if its
bytes fit a second time, next to those of the idle slot: `reserve_amount` comes before `pool_take`.
The slot itself is always found. -/

namespace UnifiedBuffer

open Lib

namespace World

variable {w : World} {op : Op} {base : List BufferId}

/-! ## The record of a buffer that may return to the pool -/

/-- A buffer keeps its record until it is migrated, and then it does not return to the pool. -/
theorem RefInv.kept_runs (hinv : w.RefInv base) {k : CtlId} (hk : k < w.core.ctls.length)
    {r : Record} (h : w.core.Alive k → r.Same (w.core.control k).record ∨
      (w.core.control k).record.poolEligible = false) (ops : List Op) :
    (Lib.runs World.next w ops).core.Alive k →
      r.Same ((Lib.runs World.next w ops).core.control k).record ∨
        ((Lib.runs World.next w ops).core.control k).record.poolEligible = false := by
  induction ops generalizing w with
  | nil => exact h
  | cons op ops ih =>
      refine ih (hinv.next op) (Nat.lt_of_lt_of_le hk (hinv.ages op).length) fun halive => ?_
      cases (fates hinv op).blocks k halive with
      | kept alive same =>
          refine (h alive).imp (fun hsame => hsame.trans same) fun hold => ?_
          rw [same]
          exact hold
      | moved _ _ _ _ _ same =>
          refine Or.inr ?_
          rw [same]
          rfl
      | fresh _ new | reused _ new | wrapped _ new | opened _ new =>
          exact absurd new (Nat.ne_of_lt hk)

end World

/-! ## Admission -/

namespace RuntimeImpl

/-- `bytes` more are within the cap of the domain and the quota of the namespace, next to what is
committed and reserved. -/
structure ByteRoom (rt : RuntimeImpl) (ns : NamespaceId) (d : MemoryDomain) (bytes : UInt64) :
    Prop where
  cap : rt.capFor d ≠ 0 →
    rt.ledger.committed.get ns d + rt.ledger.reserved.get ns d + bytes ≤ rt.capFor d
  quota : rt.domainQuota ns d ≠ 0 →
    rt.ledger.committed.get ns d + rt.ledger.reserved.get ns d + bytes ≤ rt.domainQuota ns d

/-- With `n` live allocations, the namespace may have one more. -/
def CountRoom (rt : RuntimeImpl) (ns : NamespaceId) (n : Nat) : Prop :=
  ∀ nsc, rt.nss.find? ns = some nsc → nsc.allocationCountQuota ≠ 0 →
    n < nsc.allocationCountQuota.toNat

theorem reserveCount_isOk (rt : RuntimeImpl) (ns : NamespaceId) :
    (∃ rt', rt.reserveCount ns = (.ok (), rt')) ↔ rt.CountRoom ns (rt.allocCount ns) := by
  unfold reserveCount CountRoom
  cases hn : rt.nss.find? ns with
  | none => simp
  | some nsc =>
      simp only [Option.map_some, Option.getD_some, Option.some.injEq, forall_eq']
      constructor
      · rintro ⟨rt', hr⟩ hquota
        split at hr
        · cases hr
        · rename_i hroom
          exact Nat.lt_of_not_ge fun hge => hroom ⟨hquota, hge⟩
      · intro hroom
        refine ⟨_, if_neg fun hfull => ?_⟩
        exact absurd (hroom hfull.1) (Nat.not_lt.mpr hfull.2)

theorem reserve_isOk (rt : RuntimeImpl) (ns : NamespaceId) (d : MemoryDomain) {bytes : UInt64}
    (hbytes : bytes ≠ 0) :
    (∃ l, rt.ledger.reserveAmount (rt.capFor d) (rt.domainQuota ns d) ns d bytes = .ok l) ↔
      rt.ByteRoom ns d bytes := by
  constructor
  · rintro ⟨l, hl⟩
    rcases Ledger.reserveAmount_ok hl with ⟨hzero, -⟩ | ⟨-, hcap, hquota, -⟩
    · exact absurd hzero hbytes
    · exact ⟨hcap, hquota⟩
  · intro hroom
    unfold Ledger.reserveAmount
    rw [if_neg hbytes]
    simp only
    rw [if_neg fun h => UInt64.not_lt.mpr (hroom.cap h.1) h.2,
      if_neg fun h => UInt64.not_lt.mpr (hroom.quota h.1) h.2]
    exact ⟨_, rfl⟩

/-- The admission of a valid request. -/
theorem admits_isSome {rt : RuntimeImpl} {req : AllocationRequest} {alignment classSize : UInt64}
    (hvalid : rt.validateRequest req = .ok (alignment, classSize)) :
    (∃ l, rt.admits req = some (alignment, classSize, l)) ↔ rt.closed = false ∧
      rt.CountRoom req.ns (rt.allocCount req.ns) ∧ rt.ByteRoom req.ns req.domain classSize := by
  rw [← reserveCount_isOk, ← reserve_isOk rt req.ns req.domain
    (validateRequest_ok hvalid).classSize_ne_zero]
  unfold admits
  rw [hvalid]
  cases rt.closed with
  | true => simp
  | false =>
      simp only [Bool.false_eq_true, if_false, true_and]
      cases hcount : rt.reserveCount req.ns with
      | mk res rt' =>
          cases res with
          | error e => simp
          | ok u =>
              cases hbytes : rt.ledger.reserveAmount (rt.capFor req.domain)
                  (rt.domainQuota req.ns req.domain) req.ns req.domain classSize with
              | error e => simp [hbytes]
              | ok l => simp [hbytes]

theorem validateRequest_congr {rt rt' : RuntimeImpl} (h : rt'.domains = rt.domains) :
    rt'.validateRequest = rt.validateRequest := by
  unfold validateRequest domain
  rw [h]

theorem capFor_congr {rt rt' : RuntimeImpl} (hcfg : rt'.cfg = rt.cfg)
    (h : rt'.domains = rt.domains) : rt'.capFor = rt.capFor := by
  unfold capFor capacityFor configCap domain
  rw [hcfg, h]

end RuntimeImpl

/-! ## The second allocation -/

namespace World

variable {w : World} {base : List BufferId}

theorem allocate_isOk (w : World) (env : Env) (req : AllocationRequest) :
    (w.step (.allocate env req)).1.isOk = (w.core.rt.allocateRecord w.core.os env req).1.isOk := by
  show (w.allocate env req).1.isOk = _
  unfold World.allocate
  by_cases hclosed : w.core.rt.closed = true
  · rw [if_pos hclosed, RuntimeImpl.allocateRecord, if_pos hclosed]
    rfl
  · rw [if_neg hclosed]
    unfold World.giveHandle Core.allocate
    generalize w.core.rt.allocateRecord w.core.os env req = out
    obtain ⟨res, rt, os⟩ := out
    cases res <;> rfl

/-- A request that is offered a slot succeeds exactly if it is admitted. -/
theorem allocate_offered {env : Env} {req : AllocationRequest} {alignment classSize : UInt64}
    (hvalid : w.core.rt.validateRequest req = .ok (alignment, classSize))
    (hoffer : (w.core.rt.poolOffer req alignment classSize).isSome)
    (hzero : ∀ d a len, env.zero d a len = .ok ()) :
    (w.step (.allocate env req)).1.isOk = true ↔
      ∃ l, w.core.rt.admits req = some (alignment, classSize, l) := by
  have hsame : ∀ {a b : UInt64} {l : Ledger}, w.core.rt.admits req = some (a, b, l) →
      a = alignment ∧ b = classSize := by
    intro a b l h
    have hv := RuntimeImpl.admits_valid h
    rw [hvalid] at hv
    cases hv
    exact ⟨rfl, rfl⟩
  rw [allocate_isOk]
  have hrun := w.core.rt.allocateRecord_run w.core.os env req
  generalize w.core.rt.allocateRecord w.core.os env req = out at hrun ⊢
  cases hrun with
  | refused admission =>
      rw [admission]
      exact iff_of_false (fun h => by cases h) (fun ⟨l, h⟩ => by cases h)
  | backendFailed admission offer | commitFailed admission offer | freshZeroFailed admission offer
  | fresh admission offer =>
      obtain ⟨rfl, rfl⟩ := hsame admission
      -- a slot is on offer, so no fresh backing is made
      rw [offer] at hoffer
      cases hoffer
  | pooledZeroFailed admission _ zero =>
      unfold RuntimeImpl.zeroFails at zero
      rw [hzero] at zero
      simp [Except.isOk, Except.toBool] at zero
  | pooled admission =>
      obtain ⟨rfl, rfl⟩ := hsame admission
      exact iff_of_true rfl ⟨_, admission⟩

/-- The buffer of a successful allocation. -/
theorem allocate_made {env : Env} {req : AllocationRequest}
    (hok : (w.step (.allocate env req)).1.isOk = true) :
    (w.next (.allocate env req)).core.Alive w.core.ctls.length ∧
      ∃ rt os, w.core.rt.allocateRecord w.core.os env req
        = (.ok ((w.next (.allocate env req)).core.control w.core.ctls.length).record, rt, os) := by
  have hopen : ¬ w.core.rt.closed = true := by
    intro hclosed
    rw [allocate_isOk, RuntimeImpl.allocateRecord, if_pos hclosed] at hok
    cases hok
  rw [allocate_isOk] at hok
  have hnext : w.next (.allocate env req) = (w.giveHandle (w.core.allocate env req)).2 := by
    show (w.allocate env req).2 = _
    rw [World.allocate, if_neg hopen]
  rw [hnext]
  unfold World.giveHandle Core.allocate
  generalize hout : w.core.rt.allocateRecord w.core.os env req = out at hok ⊢
  obtain ⟨res, rt, os⟩ := out
  cases res with
  | error e => cases hok
  | ok r =>
      -- the new block is the last one, and the handle has only changed its references
      have hnew : ∀ {c : Core}, c.ctls = w.core.ctls →
          ((c.register r).2.retain w.core.ctls.length).Alive w.core.ctls.length ∧
            (((c.register r).2.retain w.core.ctls.length).control w.core.ctls.length).record = r := by
        intro c hctls
        have hlen : (c.register r).2.ctls.length = w.core.ctls.length + 1 := by
          rw [Core.length_register, hctls]
        have hlast : w.core.ctls.length < (c.register r).2.ctls.length :=
          hlen ▸ Nat.lt_succ_self _
        unfold Core.retain
        rw [Core.Alive, Core.control_modify _ _ hlast, Core.control_register, hctls, if_pos rfl]
        refine ⟨⟨?_, rfl⟩, rfl⟩
        rw [Core.modify, List.length_modify]
        exact hlast
      obtain ⟨halive, hrecord⟩ := hnew (c := { w.core with rt := rt, os := os }) rfl
      exact ⟨halive, rt, os, congrArg (fun r => (Except.ok r, rt, os)) hrecord.symm⟩

end World

/-- What a request must find, apart from the slot that it is going to reuse, to be admitted after
one buffer of its namespace has gone to the pool. -/
structure RuntimeImpl.Readmits (rt : RuntimeImpl) (req : AllocationRequest) : Prop where
  stillOpen : rt.closed = false
  count : rt.CountRoom req.ns (rt.allocCount req.ns - 1)
  bytes : ∀ alignment classSize, rt.validateRequest req = .ok (alignment, classSize) →
    rt.ByteRoom req.ns req.domain classSize

/-- After a backing has gone to the pool, only the allocation count has made room. -/
theorem RuntimeImpl.room_pooled {rt rt' : RuntimeImpl} {r : Record} {pool : Pool}
    (hq : Quiet (rt.finalState r (rt.ledger.releaseAmount r.ns r.domain r.committed true) pool) rt')
    (d : MemoryDomain) (bytes : UInt64) :
    (rt'.CountRoom r.ns (rt'.allocCount r.ns) ↔ rt.CountRoom r.ns (rt.allocCount r.ns - 1)) ∧
      (rt'.ByteRoom r.ns d bytes ↔ rt.ByteRoom r.ns d bytes) := by
  have hnss : rt'.nss = rt.nss := hq.nss
  have hcount : rt'.allocCount r.ns = rt.allocCount r.ns - 1 := by
    have hallocs : rt'.allocs = (rt.releaseCount r.ns).allocs := hq.allocs
    rw [allocCount, hallocs]
    simp [releaseCount]
  have hcap : rt'.capFor = rt.capFor := capFor_congr hq.cfg hq.domains
  have hquota : rt'.domainQuota = rt.domainQuota := by
    unfold domainQuota
    rw [hnss]
  -- a pooled backing stays committed
  have hledger : rt'.ledger.committed = rt.ledger.committed ∧
      rt'.ledger.reserved = rt.ledger.reserved := by
    rw [hq.ledger]
    exact ⟨rfl, rfl⟩
  refine ⟨?_, ?_⟩
  · unfold CountRoom
    rw [hcount, hnss]
  · constructor
    · rintro ⟨h₁, h₂⟩
      rw [hcap, hledger.1, hledger.2] at h₁
      rw [hquota, hledger.1, hledger.2] at h₂
      exact ⟨h₁, h₂⟩
    · rintro ⟨h₁, h₂⟩
      refine ⟨?_, ?_⟩
      · rw [hcap, hledger.1, hledger.2]
        exact h₁
      · rw [hquota, hledger.1, hledger.2]
        exact h₂

/-- The slot that a finalized buffer leaves in the pool is offered to a request like its own. -/
theorem RuntimeImpl.poolOffer_pushed {rt : RuntimeImpl} {req : AllocationRequest}
    {alignment classSize : UInt64} {p : Pool} {slot : PoolSlot}
    (hpool : rt.pool = p.push (rt.makePoolKey (rt.requestRecord {} req alignment {})) slot)
    (huse : (req.flags.pooled && rt.cfg.enablePool && rt.cfg.pool.enabled) = true)
    (henough : classSize ≤ slot.backing.committed) :
    (rt.poolOffer req alignment classSize).isSome := by
  unfold poolOffer
  rw [if_pos huse, Pool.take_isSome]
  refine ⟨slot, ?_, henough⟩
  rw [hpool]
  simp [Pool.push, Pool.bucket]

/-- The record of a buffer that was allocated for `req`. -/
theorem RuntimeImpl.allocateRecord_made {rt rt' : RuntimeImpl} {os os' : Os} {env : Env}
    {req : AllocationRequest} {r : Record} (hfaithful : env.Faithful)
    (h : rt.allocateRecord os env req = (.ok r, rt', os')) :
    ∃ alignment classSize a pooled, rt.validateRequest req = .ok (alignment, classSize) ∧
      r = rt.backedRecord env req alignment a pooled ∧ classSize ≤ a.committed := by
  have hrun := rt.allocateRecord_run os env req
  rw [h] at hrun
  cases hrun with
  | fresh admission _ backend =>
      exact ⟨_, _, _, _, admits_valid admission, rfl, (hfaithful.allocate _ _ _ _ backend).1⟩
  | pooled admission offer =>
      exact ⟨_, _, _, _, admits_valid admission, rfl, (Core.poolOffer_mem offer).2.2⟩

theorem RuntimeImpl.requestRecord_congr {rt rt' : RuntimeImpl} (h : rt'.domains = rt.domains) :
    rt'.requestRecord = rt.requestRecord := by
  unfold requestRecord domain
  rw [h]

theorem RuntimeImpl.Quiet.finalState {rt rt' : RuntimeImpl} (h : Quiet rt rt') (r : Record)
    (l : Ledger) (pool : Pool) : Quiet (rt.finalState r l pool) (rt'.finalState r l pool) := by
  have hregistry : rt'.registry.erase r.id = rt.registry.erase r.id := by rw [h.registry]
  exact { h with
    ledger := rfl
    pool := rfl
    allocs := (h.releaseCount r.ns).allocs
    registry := hregistry
    totalFrees := congrArg (· + 1) h.totalFrees }

/-- A release, a destruction or an assignment that adds an object to the pool: what it does to the
runtime. -/
theorem World.RefInv.release_pooled {w : World} {base : List BufferId} (hinv : w.RefInv base)
    {op : Op} {env : Env} (hop : op.releases = some env) {k : CtlId}
    (hrel : w.released op = some k) (hlast : (w.core.control k).refs = 1)
    (hpooled : (w.next op).core.rt.pool.objectCount = w.core.rt.pool.objectCount + 1) :
    w.core.Alive k ∧ w.core.rt.returnsToPool (w.core.control k).record true = true ∧
      RuntimeImpl.Quiet (w.core.rt.finalState (w.core.control k).record
        (w.core.rt.ledger.releaseAmount (w.core.control k).record.ns
          (w.core.control k).record.domain (w.core.control k).record.committed true)
        (w.core.rt.pool.push (w.core.rt.makePoolKey (w.core.control k).record)
          ⟨(w.core.control k).record.backing, (w.core.control k).record.id,
            (w.core.control k).record.ns⟩)) (w.next op).core.rt := by
  obtain ⟨c, hadj, hk, hcore⟩ := hinv.release_last hop hrel hlast
  have hrecord := (hadj.blocks k).record
  have hrt : (c.finalize env k true).rt = (c.rt.finalize c.os env (c.control k) true).2.1 := rfl
  rw [hcore, hrt, ← hadj.quiet.pool] at hpooled
  rw [hcore, hrt]
  have hsame : ∀ {rt : RuntimeImpl}, rt.pool = c.rt.pool →
      ¬ rt.pool.objectCount = c.rt.pool.objectCount + 1 := fun h h' => by
    rw [h] at h'
    omega
  have hrun := c.rt.finalize_run c.os env (c.control k) true
  generalize c.rt.finalize c.os env (c.control k) true = out at hrun hpooled ⊢
  cases hrun with
  | again done =>
      rw [hk.2] at done
      cases done
  | kept _ _ state | evicted _ _ _ _ _ state | freed _ _ _ _ state =>
      -- the pool has grown, so the backing went there
      exact absurd hpooled (hsame state.pool)
  | pooled _ _ _ eligible _ state =>
      refine ⟨⟨hadj.length ▸ hk.1, (hadj.blocks k).finalized ▸ hk.2⟩, ?_, ?_⟩
      · rw [hrecord, RuntimeImpl.returnsToPool, hadj.quiet.cfg] at eligible
        exact eligible
      · rw [hrecord, hadj.quiet.makePoolKey, hadj.quiet.pool, hadj.quiet.ledger] at state
        exact (hadj.quiet.finalState _ _ _).trans state

/-- **Allocating again**: a buffer was made for `req`, and after further operations its last
reference is dropped, by a release, a destruction or an assignment, and its backing goes to the
pool. The same request succeeds again exactly if
the runtime is open, the allocation count has room, and its bytes fit into cap and quota once more,
next to those of the idle slot. -/
theorem realloc_iff_room {cfg : RuntimeConfig} {plat : RuntimeImpl.Platform} {w : World}
    (hreach : Reach World.next (fun _ _ => True) (World.init cfg plat) w) {env : Env}
    (hfaithful : env.Faithful) (req : AllocationRequest)
    (hfirst : (w.step (.allocate env req)).1.isOk = true) (ops : List Op) {w' : World}
    (hw' : w' = runs World.next (w.next (.allocate env req)) ops) (op : Op) {env₁ : Env}
    (hop : op.releases = some env₁)
    (hlast : w'.released op = some w.core.ctls.length ∧
      (w'.core.control w.core.ctls.length).refs = 1)
    (hpooled : (w'.next op).core.rt.pool.objectCount = w'.core.rt.pool.objectCount + 1)
    (env₂ : Env) (hzero : ∀ d a len, env₂.zero d a len = .ok ()) :
    ((w'.next op).step (.allocate env₂ req)).1.isOk = true ↔
      w'.core.rt.Readmits req := by
  have hinv : w.RefInv [] := World.refInv_reach hreach
  have hinv₂ := hinv.next (.allocate env req)
  have hinv' : w'.RefInv [] := hw' ▸ hinv₂.runs ops
  obtain ⟨halive₂, rt₂, os₂, hmade⟩ := World.allocate_made hfirst
  obtain ⟨alignment, classSize, a, pooled, hvalid, hrecord, henough⟩ :=
    RuntimeImpl.allocateRecord_made hfaithful hmade
  obtain ⟨halive', heligible, hquiet⟩ := hinv'.release_pooled hop hlast.1 hlast.2 hpooled
  simp only [RuntimeImpl.returnsToPool, Bool.true_and, Bool.and_eq_true] at heligible
  -- the buffer was not migrated, so its record is still the one that was made for the request
  have hsame : (w.core.rt.backedRecord env req alignment a pooled).Same
      (w'.core.control w.core.ctls.length).record := by
    have hkept := hinv₂.kept_runs halive₂.1 (fun _ => Or.inl (Record.Same.refl _)) ops
    rw [← hw', hrecord] at hkept
    refine (hkept halive').resolve_right fun hmoved => ?_
    rw [hmoved] at heligible
    exact Bool.noConfusion heligible.1.1.1
  have hsetup := (World.sameSetup_effects w (.allocate env req)).next hinv (.refl _)
  have hsetup' := hinv₂.sameSetup_runs ops
  rw [← hw'] at hsetup'
  generalize hnext : w'.next op = w'' at hquiet ⊢
  by_cases hopen : w'.core.rt.closed = false
  · have hdomains : w'.core.rt.domains = w.core.rt.domains := by
      obtain ⟨hopen₂, hdom⟩ := hsetup'.stillOpen hopen
      exact hdom.trans (hsetup.stillOpen hopen₂).2
    have hvalid' : w'.core.rt.validateRequest req = .ok (alignment, classSize) := by
      rw [RuntimeImpl.validateRequest_congr hdomains]
      exact hvalid
    have hvalid'' : w''.core.rt.validateRequest req = .ok (alignment, classSize) := by
      have hdom : w''.core.rt.domains = w'.core.rt.domains := hquiet.domains
      rw [RuntimeImpl.validateRequest_congr hdom]
      exact hvalid'
    have hcfg : w''.core.rt.cfg = w'.core.rt.cfg := hquiet.cfg
    -- the slot is filed under the key of the request
    have hkey : w'.core.rt.makePoolKey (w'.core.control w.core.ctls.length).record
        = w''.core.rt.makePoolKey (w''.core.rt.requestRecord {} req alignment {}) := by
      have hback : w''.core.rt.domains = w.core.rt.domains := hquiet.domains.trans hdomains
      rw [RuntimeImpl.makePoolKey_of_cfg hcfg, RuntimeImpl.requestRecord_congr hback, hsame]
      rfl
    have hpool := hquiet.pool
    have hoffer : (w''.core.rt.poolOffer req alignment classSize).isSome := by
      refine RuntimeImpl.poolOffer_pushed (hpool.trans (congrArg (Pool.push _ · _) hkey)) ?_ ?_
      · rw [hsame] at heligible
        rw [hcfg, Bool.and_eq_true, Bool.and_eq_true]
        exact ⟨⟨heligible.1.1.2, heligible.1.2⟩, heligible.2⟩
      · rw [hsame]
        exact henough
    have hns : (w'.core.control w.core.ctls.length).record.ns = req.ns := by
      rw [hsame]
      rfl
    obtain ⟨hcount, hbytes⟩ := RuntimeImpl.room_pooled hquiet req.domain classSize
    rw [hns] at hcount hbytes
    rw [World.allocate_offered hvalid'' hoffer hzero, RuntimeImpl.admits_isSome hvalid'', hcount,
      hbytes]
    constructor
    · rintro ⟨-, hcountRoom, hbyteRoom⟩
      refine ⟨hopen, hcountRoom, fun _ _ h => ?_⟩
      rw [hvalid'] at h
      cases h
      exact hbyteRoom
    · rintro ⟨-, hcountRoom, hbyteRoom⟩
      exact ⟨hquiet.closed.trans hopen, hcountRoom, hbyteRoom _ _ hvalid'⟩
  · -- a closed runtime allocates nothing
    refine iff_of_false (fun hok => ?_) fun h => hopen h.stillOpen
    have hclosed : w''.core.rt.closed = true := by
      rw [hquiet.closed]
      exact Bool.not_eq_false _ ▸ hopen
    rw [World.allocate_isOk, RuntimeImpl.allocateRecord, if_pos hclosed] at hok
    cases hok

/-- A namespace with a quota of two pages. -/
def twoPageQuota : RuntimeConfig := { namespaces := [{ hostQuota := 8192 }] }

/-- One of two pages is in the pool. -/
def secondPageFree : World :=
  (World.init twoPageQuota {}).next (.allocate (.servesAt 4096) { size := 4096, ns := 2 })

/-- The theorem at work: with a quota of two pages, a page that went to the pool can be had
again. -/
theorem realloc_iff_room_secondPage :
    ((secondPageFree.next (.release {} 0)).step (.allocate {} { size := 4096, ns := 2 })).1.isOk
      = true := by
  have hroom : secondPageFree.core.rt.Readmits { size := 4096, ns := 2 } := by
    refine ⟨by decide, fun nsc hnsc hquota => ?_, fun alignment classSize hvalid => ?_⟩
    · have hfind : secondPageFree.core.rt.nss.find? 2 = some { hostQuota := 8192, name := "ns-2" } := by
        decide
      rw [hfind] at hnsc
      cases hnsc
      exact absurd rfl hquota
    · have hpage : secondPageFree.core.rt.validateRequest { size := 4096, ns := 2 }
          = .ok (64, 4096) := by decide
      rw [hpage] at hvalid
      cases hvalid
      exact ⟨by decide, by decide⟩
  have hiff := realloc_iff_room (w := World.init twoPageQuota {}) .start
    (Env.servesAt_faithful 4096) { size := 4096, ns := 2 } (by decide) [] rfl
    (.release {} 0) rfl ⟨by decide, by decide⟩ (by decide) {} (fun _ _ _ => rfl)
  exact hiff.mpr hroom

/-- A namespace with a quota of one page. -/
def onePageQuota : RuntimeConfig := { namespaces := [{ hostQuota := 4096 }] }

/-- The page of the namespace is in the pool. -/
def pageInPool : World :=
  runs World.next (World.init onePageQuota {})
    [.allocate (.findsAt 4096) { size := 4096, ns := 2 }, .release {} 0]

/-- With a quota of one page, the page that went to the pool cannot be had again. -/
theorem pooled_page_blocks_realloc :
    ((World.init onePageQuota {}).step (.allocate (.findsAt 4096) { size := 4096, ns := 2 })).1.isOk
        = true ∧
      pageInPool.core.rt.pool.objectCount = 1 ∧
      (pageInPool.step (.allocate (.findsAt 8192) { size := 4096, ns := 2 })).1
        = .error ⟨.quotaExceeded, ""⟩ := by
  refine ⟨by decide, by decide, by decide⟩

end UnifiedBuffer
