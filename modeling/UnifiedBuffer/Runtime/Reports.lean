import UnifiedBuffer.Lib.CappedLog
import UnifiedBuffer.Runtime.Core

set_option autoImplicit false

/-! # What the runtime reports about itself

Two records of what happened: the decision log, which `note` writes and `decisions()` returns, and
the counters of rejections in the statistics. Nothing in the runtime reads them back, and most of
the code is silent here; `Reports` says of a function which events it logs and which rejection it
counts.

The code of a rejection is that of the error the function returns. A backend never returns one of
the four codes that are counted (`Env.Plain`): they occur in `runtime.cpp` and `buffer.cpp` only. -/

namespace UnifiedBuffer

open Lib

/-- An entry of the decision log: the event and its detail. -/
abbrev Decision := String × String

def RuntimeImpl.decisions (rt : RuntimeImpl) : List Decision := rt.dec

/-- The codes whose rejections have a counter. -/
def ErrorCode.counted : ErrorCode → Bool
  | .leaseConflict | .quotaExceeded | .staleHandle | .staleGeneration => true
  | _ => false

/-- The counter of the rejections with a code. -/
def Telemetry.rejections (t : Telemetry) : ErrorCode → Nat
  | .leaseConflict => t.leaseConflicts
  | .quotaExceeded => t.quotaRejections
  | .staleHandle => t.staleHandleRejections
  | .staleGeneration => t.staleGenerationRejections
  | _ => 0

/-- The code of the error that a function returns. -/
def codeOf {α : Type} : Except Error α → Option ErrorCode
  | .error e => some e.code
  | .ok _ => none

/-- There is no error, or one whose code is not counted. -/
def Uncounted (code : Option ErrorCode) : Prop := ∀ c, code = some c → c.counted = false

theorem uncounted_none : Uncounted none := fun _ h => nomatch h

theorem uncounted_some {c : ErrorCode} (h : c.counted = false) : Uncounted (some c) := by
  intro c' hc
  cases hc
  exact h

theorem Uncounted.congr {code code' : Option ErrorCode} (h : Uncounted code) (heq : code' = code) :
    Uncounted code' := heq ▸ h

/-- The backends do not answer with a counted code. -/
structure Env.Plain (env : Env) : Prop where
  allocate : ∀ d bytes alignment, Uncounted (codeOf (env.allocate d bytes alignment))
  importHandle : ∀ d handle size alignment,
    Uncounted (codeOf (env.importHandle d handle size alignment))
  exportHandle : ∀ d a, Uncounted (codeOf (env.exportHandle d a))
  zero : ∀ d a len, Uncounted (codeOf (env.zero d a len))
  verify : ∀ d a len, Uncounted (codeOf (env.verify d a len))
  map : ∀ d a access, Uncounted (codeOf (env.map d a access))
  copy : Uncounted (codeOf env.copy)

theorem Os.codeOf_allocate (os : Os) (env : Env) (d : MemoryDomain) (owner : Ownership)
    (bytes alignment : UInt64) :
    codeOf (os.allocate env d owner bytes alignment).1
      = codeOf (env.allocate d bytes alignment) := by
  unfold Os.allocate
  cases env.allocate d bytes alignment <;> rfl

theorem Os.codeOf_importHandle (os : Os) (env : Env) (d : MemoryDomain) (handle : String)
    (size alignment : UInt64) :
    codeOf (os.importHandle env d handle size alignment).1
      = codeOf (env.importHandle d handle size alignment) := by
  unfold Os.importHandle
  cases env.importHandle d handle size alignment <;> rfl

theorem Os.codeOf_zero (os : Os) (env : Env) (d : MemoryDomain) (a : NativeAllocation)
    (len : UInt64) : codeOf (os.zero env d a len).1 = codeOf (env.zero d a len) := by
  unfold Os.zero
  cases env.zero d a len <;> rfl

theorem Os.copyMemory_uncounted (os : Os) {env : Env} (henv : env.Plain) (dst src : Nat)
    (len : UInt64) (dstDev srcDev : Bool) :
    Uncounted (codeOf (os.copyMemory env dst src len dstDev srcDev).1) := by
  unfold Os.copyMemory
  simp only
  split
  · exact uncounted_none
  · have hcopy := henv.copy
    cases hans : env.copy with
    | ok u => exact uncounted_none
    | error e => exact hcopy.congr (congrArg codeOf hans).symm

namespace RuntimeImpl

/-! ## Reports -/

/-- Nothing is logged and no rejection is counted. -/
structure Silent (rt rt' : RuntimeImpl) : Prop where
  dec : rt'.dec = rt.dec
  rejections : rt'.telem.rejections = rt.telem.rejections

/-- The events are logged, in order, and one rejection with the code is counted if the code is one
of those that are. The second part may depend on what is assumed of the backends. -/
structure Reports (P : Prop) (rt rt' : RuntimeImpl) (events : List Decision)
    (code : Option ErrorCode) : Prop where
  dec : rt'.dec = events.foldl (pushCapped 4096) rt.dec
  rejections : P → ∀ c : ErrorCode, c.counted = true →
    rt'.telem.rejections c = rt.telem.rejections c + if code = some c then 1 else 0

section Rules

variable {P : Prop} {rt rt' rt'' : RuntimeImpl} {events events' : List Decision}
  {code : Option ErrorCode}

theorem Silent.refl (rt : RuntimeImpl) : Silent rt rt := ⟨rfl, rfl⟩

theorem Silent.trans (h : Silent rt rt') (h' : Silent rt' rt'') : Silent rt rt'' :=
  ⟨h'.dec.trans h.dec, h'.rejections.trans h.rejections⟩

theorem Silent.reports (h : Silent rt rt') (hcode : P → Uncounted code) :
    Reports P rt rt' [] code := by
  refine ⟨h.dec, fun hP c hc => ?_⟩
  have hne : code ≠ some c := by
    intro heq
    rw [hcode hP c heq] at hc
    cases hc
  rw [h.rejections, if_neg hne, Nat.add_zero]

theorem Silent.reports_none (h : Silent rt rt') : Reports P rt rt' [] none :=
  h.reports fun _ => uncounted_none

/-- A check that fails with a code that is not counted. -/
theorem reports_refused (rt : RuntimeImpl) {c : ErrorCode} (hc : c.counted = false) :
    Reports P rt rt [] (some c) :=
  (Silent.refl rt).reports fun _ => uncounted_some hc

theorem Silent.before (h : Silent rt rt') (h' : Reports P rt' rt'' events code) :
    Reports P rt rt'' events code := by
  refine ⟨h'.dec.trans (by rw [h.dec]), fun hP c hc => ?_⟩
  rw [h'.rejections hP c hc, h.rejections]

theorem Reports.after (h : Reports P rt rt' events code) (h' : Silent rt' rt'') :
    Reports P rt rt'' events code :=
  ⟨h'.dec.trans h.dec, fun hP c hc => (congrFun h'.rejections c).trans (h.rejections hP c hc)⟩

theorem Reports.append (h : Reports P rt rt' events none) (h' : Reports P rt' rt'' events' code) :
    Reports P rt rt'' (events ++ events') code := by
  refine ⟨?_, fun hP c hc => ?_⟩
  · rw [h'.dec, h.dec, List.foldl_append]
  · rw [h'.rejections hP c hc, h.rejections hP c hc, if_neg (by simp), Nat.add_zero]

theorem note_reports (rt : RuntimeImpl) (event detail : String) :
    Reports P rt (rt.note event detail) [(event, detail)] none :=
  ⟨rfl, fun _ _ _ => rfl⟩

/-- Most counters are not those of rejections. -/
theorem silent_count (rt : RuntimeImpl) {f : Telemetry → Telemetry}
    (hf : (f rt.telem).rejections = rt.telem.rejections) : Silent rt (rt.count f) := ⟨rfl, hf⟩

theorem count_note_reports (rt : RuntimeImpl) {f : Telemetry → Telemetry} (event detail : String)
    (hf : (f rt.telem).rejections = rt.telem.rejections) :
    Reports P rt ((rt.count f).note event detail) [(event, detail)] none :=
  (rt.silent_count hf).before (note_reports _ _ _)

end Rules

/-! ## The accounting helpers -/

section Helpers

variable {P : Prop} (rt : RuntimeImpl) (os : Os)

theorem reserveCount_reports (ns : NamespaceId) :
    Reports P rt (rt.reserveCount ns).2 [] (codeOf (rt.reserveCount ns).1) := by
  unfold reserveCount
  simp only
  split
  · refine ⟨rfl, fun _ c _ => ?_⟩
    cases c <;> rfl
  · have hcounted : Silent rt
        { rt with allocs := rt.allocs.insert ns (rt.allocCount ns + 1) } := ⟨rfl, rfl⟩
    exact hcounted.reports_none

theorem reserveAmount_reports (ns : NamespaceId) (d : MemoryDomain) (bytes : UInt64) :
    Reports P rt (rt.reserveAmount ns d bytes).2 [] (codeOf (rt.reserveAmount ns d bytes).1) := by
  unfold reserveAmount
  cases hl : rt.ledger.reserveAmount (rt.capFor d) (rt.domainQuota ns d) ns d bytes with
  | ok l =>
      have hreserved : Silent rt { rt with ledger := l } := ⟨rfl, rfl⟩
      exact hreserved.reports_none
  | error e =>
      -- the capacity of the domain and the quota of the namespace are the two reasons
      have hcode : e.code = .outOfCapacity ∨ e.code = .quotaExceeded := by
        unfold Ledger.reserveAmount at hl
        simp only at hl
        repeat' split at hl
        all_goals cases hl
        · exact .inl rfl
        · exact .inr rfl
      rcases hcode with hcode | hcode
      · simp only [hcode, codeOf, reduceCtorEq, if_false]
        exact rt.reports_refused rfl
      · simp only [hcode, codeOf, if_true]
        refine ⟨rfl, fun _ c _ => ?_⟩
        cases c <;> rfl

theorem commitAmount_silent (ns : NamespaceId) (d : MemoryDomain) (bytes : UInt64) :
    Uncounted (codeOf (rt.commitAmount ns d bytes).1) ∧
      Silent rt (rt.commitAmount ns d bytes).2 := by
  unfold commitAmount
  split
  · exact ⟨uncounted_none, rfl, rfl⟩
  · rename_i e hl
    rw [(Ledger.commitAmount_error hl).2]
    exact ⟨uncounted_some rfl, .refl rt⟩

theorem poolTrim_silent : Silent rt (rt.poolTrim os).1 := by
  rw [rt.poolTrim_frame os]
  exact ⟨rfl, rfl⟩

theorem poolPut_silent (key : PoolKey) (slot : PoolSlot) :
    Silent rt (rt.poolPut os key slot).2.1 := by
  unfold poolPut
  split <;> exact ⟨rfl, rfl⟩

end Helpers

/-! ## Allocation -/

theorem validateRequest_uncounted (rt : RuntimeImpl) (req : AllocationRequest) :
    Uncounted (codeOf (rt.validateRequest req)) := by
  unfold validateRequest
  simp only
  repeat' split
  all_goals first | exact uncounted_none | exact uncounted_some rfl

section Allocate

variable (rt : RuntimeImpl) (os : Os) (env : Env) (req : AllocationRequest) (classSize : UInt64)
  (r : Record)

theorem zeroRecord_silent (lastOwner : Option NamespaceId) :
    (env.Plain → Uncounted (codeOf (rt.zeroRecord os env req classSize r lastOwner).1)) ∧
      Silent rt (rt.zeroRecord os env req classSize r lastOwner).2.1 := by
  have hcode := os.codeOf_zero env req.domain r.backing r.backing.committed
  unfold zeroRecord
  simp only
  split
  · split
    · rename_i e os' hzero
      rw [hzero] at hcode
      have hans : env.Plain → Uncounted (some e.code) := fun henv =>
        (henv.zero req.domain r.backing r.backing.committed).congr hcode
      split <;> exact ⟨hans, rfl, rfl⟩
    · exact ⟨fun _ => uncounted_none, rfl, rfl⟩
  · exact ⟨fun _ => uncounted_none, rfl, rfl⟩

theorem freshRecord_silent :
    (env.Plain → Uncounted (codeOf (rt.freshRecord os env req classSize r).1)) ∧
      Silent rt (rt.freshRecord os env req classSize r).2.1 := by
  have hcode := os.codeOf_allocate env req.domain .runtime classSize r.alignment
  unfold freshRecord
  split
  · rename_i e os' halloc
    rw [halloc] at hcode
    have hans : env.Plain → Uncounted (some e.code) := fun henv =>
      (henv.allocate req.domain classSize r.alignment).congr hcode
    exact ⟨hans, rfl, rfl⟩
  · rename_i a os' halloc
    simp only
    have hcommit := rt.commitAmount_silent req.ns req.domain (withBacking r a false).committed
    split
    · rename_i e rt' heq
      rw [heq] at hcommit
      have hundo : Silent rt'
          ((rt'.unreserveAmount req.ns req.domain classSize).releaseCount req.ns).countFailed :=
        ⟨rfl, rfl⟩
      exact ⟨fun _ => hcommit.1, hcommit.2.trans hundo⟩
    · rename_i u rt' heq
      rw [heq] at hcommit
      have hzero := rt'.zeroRecord_silent os' env req classSize (withBacking r a false) none
      exact ⟨hzero.1, hcommit.2.trans hzero.2⟩

theorem backRecord_silent :
    (env.Plain → Uncounted (codeOf (rt.backRecord os env req classSize r).1)) ∧
      Silent rt (rt.backRecord os env req classSize r).2.1 := by
  unfold backRecord poolTake
  split
  · cases rt.pool.take (rt.makePoolKey r) classSize with
    | none =>
        let rt' := rt.count (fun t => { t with poolMisses := t.poolMisses + 1 })
        have hmiss : Silent rt rt' := ⟨rfl, rfl⟩
        have hfresh := rt'.freshRecord_silent os env req classSize r
        exact ⟨hfresh.1, hmiss.trans hfresh.2⟩
    | some offer =>
        obtain ⟨slot, pool⟩ := offer
        let rt' := checkoutAmount
          ({ rt with pool := pool }.count (fun t => { t with poolHits := t.poolHits + 1 }))
          req.ns req.domain (withBacking r slot.backing true).committed
        have hhit : Silent rt rt' := ⟨rfl, rfl⟩
        have hzero := rt'.zeroRecord_silent os env req classSize
          (withBacking r slot.backing true) (some slot.lastOwner)
        exact ⟨hzero.1, hhit.trans hzero.2⟩
  · exact rt.freshRecord_silent os env req classSize r

theorem allocateRecord_reports :
    Reports env.Plain rt (rt.allocateRecord os env req).2.1 []
      (codeOf (rt.allocateRecord os env req).1) := by
  unfold allocateRecord
  split
  · exact rt.reports_refused rfl
  have hvalid := rt.validateRequest_uncounted req
  split
  · rename_i e heq
    rw [heq] at hvalid
    have hfailed : Silent rt rt.countFailed := ⟨rfl, rfl⟩
    exact hfailed.reports fun _ => hvalid
  · rename_i alignment classSize _
    have hcount := rt.reserveCount_reports (P := env.Plain) req.ns
    split
    · rename_i e rt₁ heq
      rw [heq] at hcount
      exact hcount.after ⟨rfl, rfl⟩
    · rename_i u rt₁ heq
      rw [heq] at hcount
      -- the count is taken, and so far nothing is reported
      have hreserve := rt₁.reserveAmount_reports (P := env.Plain) req.ns req.domain classSize
      split
      · rename_i e rt₂ heq₂
        rw [heq₂] at hreserve
        exact hcount.append (hreserve.after ⟨rfl, rfl⟩)
      · rename_i u₂ rt₂ heq₂
        rw [heq₂] at hreserve
        have hback := backRecord_silent rt₂.nextId.2 os env req classSize
          (rt₂.nextId.2.requestRecord env req alignment rt₂.nextId.1)
        have hnext : Silent rt₂ rt₂.nextId.2 := ⟨rfl, rfl⟩
        exact hcount.append (hreserve.append ((hnext.trans hback.2).reports hback.1))

end Allocate

/-! ## Finalization -/

/-- Does `finalize` put the backing of this record into the pool? -/
def goesToPool (rt : RuntimeImpl) (r : Record) : Bool :=
  r.backing.present && r.ownership ≠ .borrowed && rt.returnsToPool r true
    && !rt.poolFull r.backing.committed

def finalizeEvents (rt : RuntimeImpl) (ctl : Control) : List Decision :=
  if ctl.finalized then []
  else
    [("finalize", ctl.record.domain.toString ++ " id=" ++ toString ctl.record.id.lo
      ++ (if rt.goesToPool ctl.record then " ->pool" else " ->free"))]

section Finalize

variable {P : Prop} (rt : RuntimeImpl) (os : Os) (env : Env)

theorem zeroOnRelease_silent (r : Record) :
    Silent rt (rt.zeroOnRelease os env r).1 ∧
      (rt.zeroOnRelease os env r).1.poolFull = rt.poolFull := by
  unfold zeroOnRelease
  split
  · exact ⟨.refl rt, rfl⟩
  · split
    · exact ⟨⟨rfl, rfl⟩, rfl⟩
    · exact ⟨.refl rt, rfl⟩

/-- The release of the backing is silent, and keeps what the log says of the buffer. -/
theorem releaseBacking_silent (r : Record) :
    Silent rt (rt.releaseBacking os env r true).2.2.1 ∧
      (rt.releaseBacking os env r true).1 = rt.goesToPool r ∧
      (rt.releaseBacking os env r true).2.1.domain = r.domain ∧
      (rt.releaseBacking os env r true).2.1.id = r.id := by
  unfold releaseBacking goesToPool
  split
  · rename_i howned
    split
    · -- offered to the pool, which keeps the backing unless it is full
      rename_i hpool
      obtain ⟨hzero, hfull⟩ := rt.zeroOnRelease_silent os env r
      have hput := poolPut_silent (rt.zeroOnRelease os env r).1 (rt.zeroOnRelease os env r).2
        ((rt.zeroOnRelease os env r).1.makePoolKey r) ⟨r.backing, r.id, r.ns⟩
      have hkept : (poolPut (rt.zeroOnRelease os env r).1 (rt.zeroOnRelease os env r).2
          ((rt.zeroOnRelease os env r).1.makePoolKey r) ⟨r.backing, r.id, r.ns⟩).1
            = !rt.poolFull r.backing.committed := by
        unfold poolPut
        rw [hfull]
        cases rt.poolFull r.backing.committed <;> rfl
      simp only [howned.1, howned.2, hpool, ne_eq, not_false_eq_true, decide_true, Bool.true_and]
      split
      · rename_i rt' os' heq
        rw [heq] at hput hkept
        exact ⟨(hzero.trans hput).trans ⟨rfl, rfl⟩, hkept, rfl, rfl⟩
      · rename_i rt' os' heq
        rw [heq] at hput hkept
        exact ⟨(hzero.trans hput).trans ⟨rfl, rfl⟩, hkept, rfl, rfl⟩
    · rename_i hpool
      simp only [hpool, Bool.and_false, Bool.false_and, and_true]
      exact ⟨rfl, rfl⟩
  · -- no backing, or memory of the caller
    rename_i hkeep
    have hfalse : (r.backing.present && decide (r.ownership ≠ .borrowed)) = false := by
      rw [Bool.and_eq_false_iff, decide_eq_false_iff_not]
      by_cases hpresent : r.backing.present = true
      · exact .inr fun hne => hkeep ⟨hpresent, hne⟩
      · exact .inl (Bool.eq_false_iff.mpr hpresent)
    rw [hfalse, Bool.false_and, Bool.false_and]
    exact ⟨.refl rt, rfl, rfl, rfl⟩

theorem finalize_reports (ctl : Control) :
    Reports P rt (rt.finalize os env ctl true).2.1 (rt.finalizeEvents ctl) none := by
  unfold finalize finalizeEvents
  split
  · exact (Silent.refl rt).reports_none
  · obtain ⟨hsilent, hpooled, hdomain, hid⟩ := rt.releaseBacking_silent os env ctl.record
    generalize rt.releaseBacking os env ctl.record true = out at hsilent hpooled hdomain hid ⊢
    obtain ⟨wentPooled, r, rt', os'⟩ := out
    simp only at hsilent hpooled hdomain hid ⊢
    rw [← hpooled, ← hdomain, ← hid]
    refine hsilent.before (Silent.before ?_ (note_reports _ _ _))
    exact ⟨rfl, rfl⟩

end Finalize

/-! ## Migration -/

/-- The events of a migration with this result. A buffer that is in the target domain already is
not migrated. -/
def migrateEvents (ctl : Control) (target : MemoryDomain) (res : Except Error Unit) :
    List Decision :=
  if res.isOk ∧ ctl.record.domain ≠ target then
    [("migrate", ctl.record.domain.toString ++ " -> " ++ target.toString
      ++ " id=" ++ toString ctl.record.id.lo)]
  else []

theorem migrateEvents_error {ctl : Control} {target : MemoryDomain} {e : Error} :
    migrateEvents ctl target (.error e) = [] := if_neg fun h => nomatch h.1

section Migrate

variable {P : Prop} (rt : RuntimeImpl) (os : Os) (env : Env) (ctl : Control)
  (target : MemoryDomain)

theorem swapBinding_reports (tdom : IDomain) (a : NativeAllocation)
    (hne : ctl.record.domain ≠ target) :
    Reports P rt (rt.swapBinding os ctl tdom target a).2.1 (migrateEvents ctl target (.ok ()))
      none := by
  unfold swapBinding migrateEvents
  rw [if_pos ⟨rfl, hne⟩]
  simp only
  refine Silent.before ?_ (note_reports _ _ _)
  split <;> exact ⟨rfl, rfl⟩

theorem migrateInto_reports (tdom : IDomain) (classSize : UInt64) (a : NativeAllocation)
    (hne : ctl.record.domain ≠ target) :
    Reports env.Plain rt (rt.migrateInto os env ctl tdom target classSize a).2.2.1
      (migrateEvents ctl target (rt.migrateInto os env ctl tdom target classSize a).1)
      (codeOf (rt.migrateInto os env ctl tdom target classSize a).1) := by
  have hundo : ∀ rt : RuntimeImpl, Silent rt (rt.unreserveAmount ctl.record.ns target classSize) :=
    fun _ => ⟨rfl, rfl⟩
  have hcopy := fun henv => @Os.copyMemory_uncounted os env henv a.base ctl.record.backing.base
    (min ctl.record.committed a.committed) (target = .device) (ctl.record.domain = .device)
  have hcommit := rt.commitAmount_silent ctl.record.ns target a.committed
  unfold migrateInto
  simp only
  split
  · rename_i e os' heq
    rw [heq] at hcopy
    simp only [migrateEvents_error]
    exact (hundo rt).reports hcopy
  split
  · rename_i e rt' heq
    rw [heq] at hcommit
    simp only [migrateEvents_error]
    exact (hcommit.2.trans (hundo rt')).reports fun _ => hcommit.1
  · rename_i u rt' heq
    rw [heq] at hcommit
    split
    · rename_i e hverify
      simp only [migrateEvents_error]
      have hans : env.Plain → Uncounted (some e.code) := fun henv =>
        (henv.verify target a a.committed).congr (congrArg codeOf hverify).symm
      refine (hcommit.2.trans ?_).reports hans
      split <;> exact ⟨rfl, rfl⟩
    · exact hcommit.2.before (rt'.swapBinding_reports _ ctl target tdom a hne)

theorem migrate_reports :
    Reports env.Plain rt (rt.migrate os env ctl target).2.2.1
      (migrateEvents ctl target (rt.migrate os env ctl target).1)
      (codeOf (rt.migrate os env ctl target).1) := by
  unfold migrate
  simp only
  -- the refusals, in the order of the checks
  split
  · simp only [migrateEvents_error]
    exact rt.reports_refused rfl
  split
  · rename_i hsame
    simp only [migrateEvents, hsame, ne_eq, not_true_eq_false, and_false, if_false]
    exact (Silent.refl rt).reports_none
  rename_i hne
  split
  · simp only [migrateEvents_error]
    exact rt.reports_refused rfl
  split
  · -- a lease is out: this refusal has a counter
    simp only [migrateEvents_error]
    refine ⟨rfl, fun _ c _ => ?_⟩
    cases c <;> rfl
  split
  · simp only [migrateEvents_error]
    exact rt.reports_refused rfl
  · rename_i tdom _
    -- the reservation may run into the quota; everything after it is silent up to the swap
    have hreserve := rt.reserveAmount_reports (P := env.Plain) ctl.record.ns target
      (migrateSize ctl.record)
    split
    · rename_i e rt' heq
      rw [heq] at hreserve
      simp only [migrateEvents_error]
      exact hreserve
    · rename_i u rt' heq
      rw [heq] at hreserve
      have halloc := os.codeOf_allocate env target ctl.record.ownership (migrateSize ctl.record)
        ctl.record.alignment
      split
      · rename_i e os' heq₂
        rw [heq₂] at halloc
        simp only [migrateEvents_error]
        have hundo :
            Silent rt' (rt'.unreserveAmount ctl.record.ns target (migrateSize ctl.record)) :=
          ⟨rfl, rfl⟩
        have hans : env.Plain → Uncounted (some e.code) := fun henv =>
          (henv.allocate target (migrateSize ctl.record) ctl.record.alignment).congr halloc
        exact hreserve.append (hundo.reports hans)
      · rename_i a os' _
        exact hreserve.append (rt'.migrateInto_reports os' env ctl target tdom _ a hne)

end Migrate

end RuntimeImpl

/-! ## Creation, export and import -/

namespace Core

open RuntimeImpl

variable {P : Prop} (c : Core) (env : Env)

theorem allocate_reports (req : AllocationRequest) :
    Reports env.Plain c.rt (c.allocate env req).2.rt [] (codeOf (c.allocate env req).1) := by
  have hrec := c.rt.allocateRecord_reports c.os env req
  unfold allocate
  generalize c.rt.allocateRecord c.os env req = out at hrec ⊢
  obtain ⟨res, rt, os⟩ := out
  cases res with
  | error e => exact hrec
  | ok r => exact hrec.after ⟨rfl, rfl⟩

theorem wrapExternal_reports (desc : ExternalMemoryDesc) :
    Reports P c.rt (c.wrapExternal desc).2.rt [] (codeOf (c.wrapExternal desc).1) := by
  have hcount := c.rt.reserveCount_reports (P := P) kDefaultNamespace
  unfold wrapExternal
  split
  · exact c.rt.reports_refused rfl
  split
  · exact c.rt.reports_refused rfl
  split
  · exact c.rt.reports_refused rfl
  · split
    · rename_i e rt heq
      rw [heq] at hcount
      exact hcount
    · rename_i u rt heq
      rw [heq] at hcount
      exact hcount.after ⟨rfl, rfl⟩

theorem codeOf_lookup (id : BufferId) (gen : BufferGeneration) :
    codeOf (c.lookup id gen).1 = match c.rt.registry.find? id with
      | none => some .staleHandle
      | some k =>
          if gen ≠ (c.control k).record.generation then some .staleGeneration else none := by
  unfold lookup
  cases c.rt.registry.find? id with
  | none => rfl
  | some k =>
      simp only
      split <;> rfl

theorem lookup_reports (id : BufferId) (gen : BufferGeneration) :
    Reports P c.rt (c.lookup id gen).2.rt [] (codeOf (c.lookup id gen).1) := by
  unfold lookup
  split
  · refine ⟨rfl, fun _ c _ => ?_⟩
    cases c <;> rfl
  · split
    · refine ⟨rfl, fun _ c _ => ?_⟩
      cases c <;> rfl
    · exact (Silent.refl c.rt).reports_none

def exportEvents (r : Record) (res : Except Error ExportDescriptor) : List Decision :=
  if res.isOk then [("export", r.domain.toString ++ " id=" ++ toString r.id.lo)] else []

theorem exportDescriptor_reports (k : CtlId) :
    Reports env.Plain c.rt (c.exportDescriptor env k).2.rt
      (exportEvents (c.control k).record (c.exportDescriptor env k).1)
      (codeOf (c.exportDescriptor env k).1) := by
  unfold exportDescriptor
  simp only
  split
  · exact c.rt.reports_refused rfl
  split
  · exact c.rt.reports_refused rfl
  · split
    · have hhandle := fun henv : env.Plain =>
        henv.exportHandle (c.control k).record.domain (c.control k).record.backing
      split
      · rename_i e heq
        rw [heq] at hhandle
        exact (Silent.refl c.rt).reports hhandle
      · exact c.rt.count_note_reports _ _ rfl
    · exact c.rt.count_note_reports _ _ rfl

def segmentEvents (desc : ExportDescriptor) (r : Record) : List Decision :=
  (if desc.integrityCrc ≠ 0 ∧ desc.integrityCrc ≠ metaCrcOf r then
    [("import-meta-crc-mismatch", toString desc.bufferId.lo)] else [])
  ++ [("import", desc.domain.toString ++ " id=" ++ toString r.id.lo)]

theorem noteImport_reports (rt : RuntimeImpl) (desc : ExportDescriptor) (r : Record) :
    Reports P rt (noteImport rt desc r) (segmentEvents desc r) none := by
  have hcheck : Reports P rt
      (if desc.integrityCrc ≠ 0 ∧ desc.integrityCrc ≠ metaCrcOf r then
        rt.note "import-meta-crc-mismatch" (toString desc.bufferId.lo) else rt)
      (if desc.integrityCrc ≠ 0 ∧ desc.integrityCrc ≠ metaCrcOf r then
        [("import-meta-crc-mismatch", toString desc.bufferId.lo)] else []) none := by
    split
    · exact note_reports _ _ _
    · exact (Silent.refl rt).reports_none
  exact hcheck.append (count_note_reports _ _ _ rfl)

theorem checkImport_uncounted (desc : ExportDescriptor) (ns : NamespaceId) :
    Uncounted (codeOf (c.checkImport desc ns)) := by
  unfold checkImport
  repeat' split
  all_goals first | exact uncounted_none | exact uncounted_some rfl

theorem importSegment_reports (desc : ExportDescriptor) (r : Record) :
    Reports env.Plain c.rt (c.importSegment env desc r).2.rt
      (if (c.importSegment env desc r).1.isOk then segmentEvents desc r else [])
      (codeOf (c.importSegment env desc r).1) := by
  have hcode := c.os.codeOf_importHandle env desc.domain desc.handle desc.size
    (if desc.alignment ≠ 0 then desc.alignment else 64)
  unfold importSegment
  split
  · exact c.rt.reports_refused rfl
  · split
    · rename_i e os heq
      rw [heq] at hcode
      exact (Silent.refl c.rt).reports fun henv => (henv.importHandle _ _ _ _).congr hcode
    · rename_i na os heq
      split
      · exact c.rt.reports_refused rfl
      · -- the checksum of the record does not cover the backing
        exact (noteImport_reports c.rt desc { r with backing := na }).after ⟨rfl, rfl⟩

/-- `import_descriptor` looks the buffer up in this runtime. -/
def looksUp (desc : ExportDescriptor) (ns : NamespaceId) : Bool :=
  !c.rt.closed && (c.checkImport desc ns).isOk && (handleKind desc.domain).isNone
    && desc.handleKind = "local"

def importEvents (desc : ExportDescriptor) (ns : NamespaceId) (label : String) : List Decision :=
  if (c.importDescriptor env desc ns label).1.isOk ∧ (handleKind desc.domain).isSome then
    segmentEvents desc (importRecord env desc ns label c.rt.nextId.1)
  else []

/-- The code that an import is rejected with: that of `lookup`, whose error the caller does not
see, or that of the import itself. -/
def importRejection (desc : ExportDescriptor) (ns : NamespaceId) (label : String) :
    Option ErrorCode :=
  if c.looksUp desc ns then codeOf (c.lookup desc.bufferId desc.generation).1
  else codeOf (c.importDescriptor env desc ns label).1

theorem importDescriptor_reports (desc : ExportDescriptor) (ns : NamespaceId) (label : String) :
    Reports env.Plain c.rt (c.importDescriptor env desc ns label).2.rt
      (c.importEvents env desc ns label) (c.importRejection env desc ns label) := by
  unfold importEvents importRejection looksUp importDescriptor
  split
  · rename_i hclosed
    simp only [hclosed, Bool.not_true, Bool.false_and, Bool.false_eq_true, if_false]
    exact c.rt.reports_refused rfl
  rename_i hopen
  have hcheck := c.checkImport_uncounted desc ns
  cases hres : c.checkImport desc ns with
  | error e =>
      rw [hres] at hcheck
      simp only [Except.isOk, Except.toBool, Bool.and_false, Bool.false_and, Bool.false_eq_true,
        if_false, false_and]
      exact (Silent.refl c.rt).reports fun _ => hcheck
  | ok u =>
      have hnext : Silent c.rt c.rt.nextId.2 := ⟨rfl, rfl⟩
      cases hkind : handleKind desc.domain with
      | some kind =>
          have hseg := importSegment_reports { c with rt := c.rt.nextId.2 } env desc
            (importRecord env desc ns label c.rt.nextId.1)
          simp only [Option.isSome_some, Option.isNone_some, Bool.and_false, Bool.false_and,
            Bool.false_eq_true, if_true, if_false, and_true]
          exact hnext.before hseg
      | none =>
          -- `lookup` counts what it rejects, and the import answers with an error of its own
          simp only [Option.isSome_none, Option.isNone_none, Bool.false_eq_true, if_false,
            and_false, Except.isOk, Except.toBool, Bool.and_true, hopen, Bool.not_false]
          by_cases hlocal : desc.handleKind = "local"
          · have hlook := lookup_reports (P := env.Plain) { c with rt := c.rt.nextId.2 }
              desc.bufferId desc.generation
            have hcode : codeOf (lookup { c with rt := c.rt.nextId.2 } desc.bufferId
                desc.generation).1 = codeOf (c.lookup desc.bufferId desc.generation).1 := by
              rw [codeOf_lookup, codeOf_lookup]
              rfl
            simp only [hlocal, if_true, decide_true]
            rw [← hcode]
            generalize lookup { c with rt := c.rt.nextId.2 } desc.bufferId desc.generation = out
              at hlook ⊢
            obtain ⟨res, c'⟩ := out
            cases res with
            | error e => exact hnext.before hlook
            | ok k => exact hnext.before (hlook.after ⟨rfl, rfl⟩)
          · simp only [hlocal, if_false, decide_false]
            exact hnext.reports fun _ => uncounted_some rfl

theorem migrate_reports (k : CtlId) (target : MemoryDomain) :
    Reports env.Plain c.rt (c.migrate env k target).2.rt
      (migrateEvents (c.control k) target (c.migrate env k target).1)
      (codeOf (c.migrate env k target).1) :=
  c.rt.migrate_reports c.os env (c.control k) target

end Core

end UnifiedBuffer
