import UnifiedBuffer.Lib.ListAt
import UnifiedBuffer.Inventory.Stock
import UnifiedBuffer.Runtime.Core

set_option autoImplicit false

/-! # The deals of the runtime

`Core.stock` forgets everything but the stock, and each operation of the runtime is a list of
deals on it: `allocateDeals`, `migrateDeals`, `finalizeDeals`, `wrapDeals`, `importDeals` and
`trimDeals` compute the deals from the state before the operation, and a theorem for each says
that the stock after the operation is the stock before it with these deals applied. -/

namespace UnifiedBuffer

open Lib

/-! ## The stock of a runtime -/

def Record.holding (r : Record) : Holding :=
  ⟨r.ns, r.domain, r.committed, r.backing, r.ownership, r.poolEligible && r.flags.pooled⟩

def Control.held (ctl : Control) : Option Holding :=
  if ctl.finalized then none else some ctl.record.holding

def depositOf (e : PoolKey × PoolSlot) : Deposit := ⟨e.2.lastOwner, e.1.domain, e.2.backing⟩

def RuntimeImpl.house (rt : RuntimeImpl) : House :=
  ⟨rt.closed, fun d => (rt.domain d).isSome, rt.capFor, rt.domainQuota⟩

namespace Core

def live (c : Core) : Multiset Holding := c.ctls.filterMap Control.held

def idle (c : Core) : Multiset Deposit := c.rt.pool.all.map depositOf

def stock (c : Core) : Stock := ⟨c.live, c.idle, c.rt.ledger, c.os.calls, c.rt.house⟩

end Core

theorem RuntimeImpl.Quiet.house {rt rt' : RuntimeImpl} (h : Quiet rt rt') :
    rt'.house = rt.house := by
  unfold RuntimeImpl.house RuntimeImpl.capFor RuntimeImpl.capacityFor RuntimeImpl.configCap
    RuntimeImpl.domain
  rw [h.closed, h.domains, h.cfg]
  congr 1
  funext ns d
  unfold RuntimeImpl.domainQuota
  rw [h.nss]

namespace Core

/-- The stock, field by field. -/
theorem stock_eq {c : Core} {live : Multiset Holding} {idle : Multiset Deposit} {ledger : Ledger}
    {calls : List BackendCall} {house : House} (h₁ : c.live = live) (h₂ : c.idle = idle)
    (h₃ : c.rt.ledger = ledger) (h₄ : c.os.calls = calls) (h₅ : c.rt.house = house) :
    c.stock = ⟨live, idle, ledger, calls, house⟩ := by
  subst h₁ h₂ h₃ h₄ h₅
  rfl

/-- Statistics and the decision log are not part of the stock. -/
theorem stock_quiet {rt rt' : RuntimeImpl} (h : RuntimeImpl.Quiet rt rt') (os : Os)
    (ctls : List Control) : (⟨rt', os, ctls⟩ : Core).stock = (⟨rt, os, ctls⟩ : Core).stock := by
  unfold stock live idle
  simp only
  rw [h.pool, h.ledger, h.house]

theorem live_register (c : Core) (r : Record) :
    (c.register r).2.live = r.holding ::ₘ c.live := by
  unfold live register RuntimeImpl.registerControl
  simp only [List.filterMap_append, List.filterMap_cons, List.filterMap_nil, Control.held,
    Bool.false_eq_true, if_false]
  rw [← Multiset.coe_add, Multiset.coe_singleton, Multiset.add_comm, Multiset.singleton_add]

/-- A change of a control block that its holding does not see. -/
theorem stock_modify (c : Core) (k : Nat) {f : Control → Control}
    (hf : ∀ ctl, (f ctl).held = ctl.held) : (c.modify k f).stock = c.stock := by
  have hlive : (c.modify k f).live = c.live := by
    unfold live modify
    simp only
    by_cases hk : k < c.ctls.length
    · obtain ⟨t, h₁, h₂⟩ := filterMap_set Control.held (c.control_get hk)
      have hset : c.ctls.modify k f = c.ctls.set k (f (c.control k)) := by
        rw [List.modify_eq_set_getElem?, c.control_get hk]
        rfl
      rw [hset, h₂, hf, h₁]
    · rw [List.modify_eq_self (Nat.le_of_not_lt hk)]
  exact stock_eq hlive rfl rfl rfl rfl

theorem stock_count (c : Core) (f : Telemetry → Telemetry) : (c.count f).stock = c.stock := rfl

theorem stock_retain (c : Core) (k : Nat) : (c.retain k).stock = c.stock :=
  c.stock_modify k (fun _ => rfl)

/-- The block that is written back holds something else. -/
theorem live_set (c : Core) {k : Nat} (hk : k < c.ctls.length) :
    ∃ t, c.live = consOption (c.control k).held t ∧
      ∀ ctl, (⟨c.rt, c.os, c.ctls.set k ctl⟩ : Core).live = consOption ctl.held t :=
  filterMap_set Control.held (c.control_get hk)

end Core

/-! ## Allocation -/

def RuntimeImpl.allocateDeals (rt : RuntimeImpl) (os : Os) (env : Env) (req : AllocationRequest) :
    List Deal :=
  match rt.admits req with
  | none => []
  | some (alignment, classSize, l) =>
      let ns := req.ns
      let d := req.domain
      .reserve ns d classSize ::
        match rt.poolOffer req alignment classSize with
        | some (slot, _) =>
            let p : Deposit := ⟨slot.lastOwner, d, slot.backing⟩
            if rt.zeroFails env req slot.backing (some slot.lastOwner) then [.lose ns p]
            else [.take p (rt.backedRecord env req alignment slot.backing true).holding]
        | none =>
            match env.allocate d classSize alignment with
            | .error _ => [.unreserve ns d classSize]
            | .ok a =>
                let a := os.stamp a
                if l.reserved.get ns d < a.committed then
                  [.visit d .runtime a, .unreserve ns d classSize]
                else if rt.zeroFails env req a none then
                  [.waste ns d .runtime a none, .unreserve ns d classSize]
                else [.book (rt.backedRecord env req alignment a false).holding]

namespace Core

/-- An admitted request has a backend. -/
theorem admits_backend {rt : RuntimeImpl} {req : AllocationRequest}
    {alignment classSize : UInt64} {l : Ledger}
    (h : rt.admits req = some (alignment, classSize, l)) :
    rt.house.backends req.domain = true := by
  unfold RuntimeImpl.admits at h
  split at h
  · cases h
  · split at h
    · rename_i hv _
      unfold RuntimeImpl.validateRequest at hv
      split at hv
      · cases hv
      split at hv
      · cases hv
      show (rt.domain req.domain).isSome = true
      cases hd : rt.domain req.domain with
      | none =>
          rw [hd] at hv
          cases hv
      | some dom => rfl
    · cases h

/-- The slot that is taken leaves the stock. -/
theorem idle_take {c : Core} {req : AllocationRequest} {alignment classSize : UInt64}
    {slot : PoolSlot} {pool : Pool}
    (h : c.rt.poolOffer req alignment classSize = some (slot, pool)) :
    c.idle = (⟨slot.lastOwner, req.domain, slot.backing⟩ : Deposit) ::ₘ
      (pool.all.map depositOf : Multiset Deposit) := by
  obtain ⟨key, hkey, hperm, -⟩ := RuntimeImpl.poolOffer_perm h
  unfold idle
  rw [Multiset.cons_coe, Multiset.coe_eq_coe]
  refine (hperm.map depositOf).trans (List.Perm.of_eq ?_)
  rw [List.map_cons, depositOf, hkey]

theorem stock_register (c : Core) (r : Record) :
    (c.register r).2.stock = { c.stock with live := r.holding ::ₘ c.live } :=
  stock_eq (c.live_register r) rfl rfl rfl rfl

theorem allocate_stock (c : Core) (env : Env) (req : AllocationRequest) :
    (c.allocate env req).2.stock
        = runs Stock.apply c.stock (c.rt.allocateDeals c.os env req) ∧
      Along Stock.apply Stock.Can c.stock (c.rt.allocateDeals c.os env req) := by
  have hrun := RuntimeImpl.allocateRecord_run c.rt c.os env req
  unfold Core.allocate RuntimeImpl.allocateDeals
  generalize c.rt.allocateRecord c.os env req = out at hrun ⊢
  -- the reservation that every admitted request starts with
  have hreserve : ∀ {alignment classSize l}, c.rt.admits req = some (alignment, classSize, l) →
      c.stock.Can (.reserve req.ns req.domain classSize) ∧
        c.stock.apply (.reserve req.ns req.domain classSize) = { c.stock with ledger := l } := by
    intro alignment classSize l h
    have hr := RuntimeImpl.admits_reserve h
    exact ⟨⟨l, hr⟩, by rw [Stock.apply, Stock.reserved_eq hr]⟩
  cases hrun with
  | refused admission _ state =>
      rw [admission]
      exact ⟨stock_quiet state _ _, trivial⟩
  | backendFailed admission offer backend _ state =>
      obtain ⟨hcan, happly⟩ := hreserve admission
      simp only [admission, offer, backend, runs, List.foldl_cons, List.foldl_nil, Along, happly]
      exact ⟨stock_quiet state _ _, hcan, trivial, trivial⟩
  | commitFailed admission offer backend commit _ state =>
      obtain ⟨hcan, happly⟩ := hreserve admission
      have hlt : _ < (c.os.stamp _).committed := commit
      simp only [admission, offer, backend, hlt, if_true, runs, List.foldl_cons, List.foldl_nil,
        Along, happly]
      exact ⟨stock_quiet state _ _, hcan, ⟨rfl, admits_backend admission⟩, trivial, trivial⟩
  | freshZeroFailed admission offer backend commit zero _ state =>
      obtain ⟨hcan, happly⟩ := hreserve admission
      have hle := (Ledger.commitAmount_ok commit).1
      have hnot : ¬ _ < (c.os.stamp _).committed := UInt64.not_lt.mpr hle
      simp only [admission, offer, backend, hnot, zero, if_true, if_false, runs, List.foldl_cons,
        List.foldl_nil, Along, happly]
      refine ⟨(stock_quiet state _ _).trans (stock_eq rfl rfl ?_ ?_ rfl), hcan,
        ⟨rfl, admits_backend admission, hle, fun _ h => by cases h⟩, trivial, trivial⟩
      · exact congrArg (fun l => Ledger.unreserveAmount l _ _ _)
          (Stock.committed_of_ok (s := { c.stock with ledger := _ }) commit).symm
      · rw [Os.free_calls, RuntimeImpl.zeroed_calls]
        rfl
  | fresh admission offer backend commit zero state =>
      obtain ⟨hcan, happly⟩ := hreserve admission
      have hle := (Ledger.commitAmount_ok commit).1
      have hnot : ¬ _ < (c.os.stamp _).committed := UInt64.not_lt.mpr hle
      simp only [admission, offer, backend, hnot, zero, Bool.false_eq_true, if_false, runs,
        List.foldl_cons, List.foldl_nil, Along, happly]
      refine ⟨(stock_register _ _).trans ?_, hcan,
        ⟨rfl, admits_backend admission, rfl, hle, fun _ => rfl⟩, trivial⟩
      rw [stock_quiet state]
      refine Stock.ext ?_ rfl ?_ ?_ rfl
      · rfl
      · exact (Stock.committed_of_ok (s := { c.stock with ledger := _ }) commit).symm
      · exact RuntimeImpl.zeroed_calls _ _ _ _ _ _
  | pooledZeroFailed admission offer zero state =>
      obtain ⟨hcan, happly⟩ := hreserve admission
      have hidle := idle_take offer
      simp only [admission, offer, zero, if_true, runs, List.foldl_cons, List.foldl_nil, Along,
        happly]
      refine ⟨(stock_quiet state _ _).trans (Stock.ext rfl ?_ rfl ?_ rfl), hcan, ?_, trivial⟩
      · show _ = c.idle.erase _
        rw [hidle, Multiset.erase_cons_head]
        rfl
      · exact RuntimeImpl.zeroed_calls _ _ _ _ _ _
      · show _ ∈ c.idle
        rw [hidle]
        exact Multiset.mem_cons_self _ _
  | pooled admission offer zero state =>
      obtain ⟨hcan, happly⟩ := hreserve admission
      have hidle := idle_take offer
      simp only [admission, offer, zero, Bool.false_eq_true, if_false, runs, List.foldl_cons,
        List.foldl_nil, Along, happly]
      refine ⟨(stock_register _ _).trans ?_, hcan,
        ⟨?_, rfl, rfl, rfl, rfl, admits_backend admission⟩, trivial⟩
      · rw [stock_quiet state]
        refine Stock.ext rfl ?_ rfl ?_ rfl
        · show _ = c.idle.erase _
          rw [hidle, Multiset.erase_cons_head]
          rfl
        · exact RuntimeImpl.zeroed_calls _ _ _ _ _ _
      · show _ ∈ c.idle
        rw [hidle]
        exact Multiset.mem_cons_self _ _

/-! ## Finalization -/

end Core

def RuntimeImpl.finalizeDeals (rt : RuntimeImpl) (ctl : Control) : List Deal :=
  match ctl.held with
  | none => []
  | some h =>
      if h.backing.present ∧ h.ownership ≠ .borrowed then
        if h.poolable ∧ rt.cfg.enablePool ∧ rt.cfg.pool.enabled
            ∧ rt.poolFull h.backing.committed = false then [.shelve h]
        else [.settle h]
      else [.drop h]

section FinalizeDeals

variable {rt : RuntimeImpl} {ctl : Control}

theorem Control.held_first (hf : ctl.finalized = false) : ctl.held = some ctl.record.holding := by
  rw [Control.held, hf, if_neg Bool.false_ne_true]

theorem finalizeDeals_drop (hf : ctl.finalized = false)
    (hskip : ctl.record.backing.present = false ∨ ctl.record.ownership = .borrowed) :
    rt.finalizeDeals ctl = [.drop ctl.record.holding] := by
  rw [RuntimeImpl.finalizeDeals, Control.held_first hf]
  refine if_neg ?_
  rintro ⟨hp, ho⟩
  rcases hskip with h | h
  · exact Bool.false_ne_true (h.symm.trans hp)
  · exact ho h

theorem finalizeDeals_shelve (hf : ctl.finalized = false)
    (hp : ctl.record.backing.present = true) (ho : ctl.record.ownership ≠ .borrowed)
    (he : rt.returnsToPool ctl.record true = true)
    (hroom : rt.poolFull ctl.record.backing.committed = false) :
    rt.finalizeDeals ctl = [.shelve ctl.record.holding] ∧ ctl.record.holding.poolable = true := by
  have hpool : ctl.record.holding.poolable = true ∧ rt.cfg.enablePool = true ∧
      rt.cfg.pool.enabled = true := by
    unfold RuntimeImpl.returnsToPool at he
    simpa [Record.holding, and_assoc] using he
  refine ⟨?_, hpool.1⟩
  rw [RuntimeImpl.finalizeDeals, Control.held_first hf]
  exact (if_pos ⟨hp, ho⟩).trans (if_pos ⟨hpool.1, hpool.2.1, hpool.2.2, hroom⟩)

theorem finalizeDeals_settle (hf : ctl.finalized = false)
    (hp : ctl.record.backing.present = true) (ho : ctl.record.ownership ≠ .borrowed)
    (hout : rt.returnsToPool ctl.record true = false ∨
      rt.poolFull ctl.record.backing.committed = true) :
    rt.finalizeDeals ctl = [.settle ctl.record.holding] := by
  rw [RuntimeImpl.finalizeDeals, Control.held_first hf]
  refine (if_pos ⟨hp, ho⟩).trans (if_neg ?_)
  rintro ⟨hpool, hen, hen', hroom⟩
  rcases hout with h | h
  · refine Bool.false_ne_true (h.symm.trans ?_)
    unfold RuntimeImpl.returnsToPool
    simpa [Record.holding, hen, hen'] using hpool
  · exact Bool.false_ne_true (hroom.symm.trans h)

end FinalizeDeals

namespace Core

theorem freeIn_calls {rt : RuntimeImpl} {os : Os} {s : Stock} (hos : os.calls = s.calls)
    (hhouse : s.house = rt.house) (d : MemoryDomain) (a : NativeAllocation) :
    (rt.freeIn os d a).calls = s.freeIn d a := by
  unfold RuntimeImpl.freeIn Stock.freeIn
  rw [hhouse, ← hos]
  show _ = if (rt.domain d).isSome then _ else _
  split <;> rfl

/-- What a block holds until it is finalized. -/
theorem holding_mem (c : Core) {k : Nat} (hk : k < c.ctls.length)
    (hf : (c.control k).finalized = false) : (c.control k).record.holding ∈ c.stock.live := by
  obtain ⟨t, hlive, -⟩ := c.live_set hk
  show _ ∈ c.live
  rw [hlive, Control.held_first hf]
  exact Multiset.mem_cons_self _ _

theorem finalize_stock (c : Core) (env : Env) {k : Nat} (hk : k < c.ctls.length) :
    (c.finalize env k true).stock
        = runs Stock.apply c.stock (c.rt.finalizeDeals (c.control k)) ∧
      Along Stock.apply Stock.Can c.stock (c.rt.finalizeDeals (c.control k)) := by
  have hrun := c.rt.finalize_run c.os env (c.control k) true
  obtain ⟨t, hlive, hset⟩ := c.live_set hk
  unfold Core.finalize
  generalize c.rt.finalize c.os env (c.control k) true = out at hrun ⊢
  -- a block that is finalized for the first time leaves the stock
  have hfirst : (c.control k).finalized = false →
      c.live = (c.control k).record.holding ::ₘ t := by
    intro hf
    rw [Control.held_first hf] at hlive
    exact hlive
  have hmem := c.holding_mem hk
  have hgone : ∀ {rt' : RuntimeImpl} {os' : Os} {backing : NativeAllocation}
      {ownership : Ownership}, (c.control k).finalized = false →
      (⟨rt', os', c.ctls.set k (RuntimeImpl.finalControl (c.control k) backing ownership)⟩ :
        Core).live = c.live.erase (c.control k).record.holding := by
    intro rt' os' backing ownership hf
    rw [hfirst hf, Multiset.erase_cons_head]
    exact hset _
  cases hrun with
  | again done =>
      have hheld : (c.control k).held = none := if_pos done
      rw [RuntimeImpl.finalizeDeals, hheld]
      simp only [c.set_control k]
      exact ⟨rfl, trivial⟩
  | kept first skip state =>
      rw [finalizeDeals_drop first skip]
      exact ⟨(stock_quiet state _ _).trans (Stock.ext (hgone first) rfl rfl rfl rfl),
        ⟨hmem first, skip⟩, trivial⟩
  | pooled first present owned eligible room state =>
      obtain ⟨hdeals, hpool⟩ := finalizeDeals_shelve first present owned eligible room
      rw [hdeals]
      refine ⟨(stock_quiet state _ _).trans (Stock.ext (hgone first) ?_ rfl ?_ rfl),
        ⟨hmem first, hpool, present, owned⟩, trivial⟩
      · have hperm := c.rt.pool.push_perm (c.rt.makePoolKey (c.control k).record)
          ⟨(c.control k).record.backing, (c.control k).record.id, (c.control k).record.ns⟩
        exact Multiset.coe_eq_coe.mpr (hperm.map depositOf)
      · exact RuntimeImpl.zeroOnRelease_calls _ _ _ _
  | evicted first present owned eligible full state =>
      rw [finalizeDeals_settle first present owned (Or.inr full)]
      refine ⟨(stock_quiet state _ _).trans (Stock.ext (hgone first) rfl rfl ?_ rfl),
        ⟨hmem first, present⟩, trivial⟩
      exact freeIn_calls (s := c.stock) (RuntimeImpl.zeroOnRelease_calls _ _ _ _) rfl _ _
  | freed first present owned direct state =>
      rw [finalizeDeals_settle first present owned (Or.inl direct)]
      refine ⟨(stock_quiet state _ _).trans (Stock.ext (hgone first) rfl rfl ?_ rfl),
        ⟨hmem first, present⟩, trivial⟩
      exact freeIn_calls (s := c.stock) rfl rfl _ _

def dropDeals (c : Core) (k : Nat) : List Deal :=
  if (c.control k).refs = 1 then c.rt.finalizeDeals (c.control k) else []

theorem dropRef_stock (c : Core) (env : Env) {k : Nat} (hk : k < c.ctls.length) :
    (c.dropRef env k).stock = runs Stock.apply c.stock (c.dropDeals k) ∧
      Along Stock.apply Stock.Can c.stock (c.dropDeals k) := by
  unfold dropRef dropDeals
  have hstock := c.stock_modify k (f := fun ctl => { ctl with refs := ctl.refs - 1 })
    (fun _ => rfl)
  simp only
  split
  · have hfin := (c.modify k (fun ctl => { ctl with refs := ctl.refs - 1 })).finalize_stock env
      (k := k) (by unfold modify; rw [List.length_modify]; exact hk)
    rw [hstock, c.control_modify _ hk] at hfin
    exact hfin
  · exact ⟨hstock, trivial⟩

end Core

/-! ## Migration -/

/-- The bytes that a failed verification gives back. -/
def RuntimeImpl.undoBytes (env : Env) (target : MemoryDomain) (a : NativeAllocation) :
    Option UInt64 :=
  if target ≠ .device then some (env.afterFree target a).committed else none

def RuntimeImpl.migrateDeals (rt : RuntimeImpl) (os : Os) (env : Env) (ctl : Control)
    (target : MemoryDomain) : List Deal :=
  match rt.migrateAdmit ctl target with
  | none => []
  | some (tdom, l) =>
      let r := ctl.record
      let classSize := migrateSize r
      .reserve r.ns target classSize ::
        match env.allocate target classSize r.alignment with
        | .error _ => [.unreserve r.ns target classSize]
        | .ok a =>
            if (migrateCopy os env ctl target a).1.isOk = false
                ∨ l.reserved.get r.ns target < a.committed then
              [.visit target r.ownership (os.stamp a), .unreserve r.ns target classSize]
            else
              match env.verify target (os.stamp a) a.committed with
              | .error _ =>
                  [.waste r.ns target r.ownership (os.stamp a) (undoBytes env target (os.stamp a)),
                    .unreserve r.ns target classSize]
              | .ok _ =>
                  [.book (rt.rebind tdom target r (os.stamp a)).holding,
                    if r.backing.present then .settle r.holding else .drop r.holding]

/-- A failed verification gives back all bytes or none. -/
theorem undoBytes_le (env : Env) (target : MemoryDomain) (a : NativeAllocation) :
    ∀ bytes ∈ RuntimeImpl.undoBytes env target a, bytes ≤ a.committed := by
  intro bytes hmem
  unfold RuntimeImpl.undoBytes Env.afterFree at hmem
  split at hmem
  · cases hmem
    split
    · exact UInt64.zero_le
    · exact UInt64.le_refl _
  · cases hmem

namespace Core

/-- The target of an admitted migration has a backend. -/
theorem migrateAdmit_backend {rt : RuntimeImpl} {ctl : Control} {target : MemoryDomain}
    {tdom : IDomain} {l : Ledger} (h : rt.migrateAdmit ctl target = some (tdom, l)) :
    rt.house.backends target = true := by
  unfold RuntimeImpl.migrateAdmit at h
  split at h
  · cases h
  · show (rt.domain target).isSome = true
    cases hd : rt.domain target with
    | none =>
        rw [hd] at h
        cases h
    | some dom => rfl

theorem migrateAdmit_stock {rt : RuntimeImpl} {ctl : Control} {target : MemoryDomain}
    {tdom : IDomain} {l : Ledger} (h : rt.migrateAdmit ctl target = some (tdom, l)) (os : Os)
    (ctls : List Control) :
    (⟨rt, os, ctls⟩ : Core).stock.Can
        (.reserve ctl.record.ns target (RuntimeImpl.migrateSize ctl.record)) ∧
      (⟨rt, os, ctls⟩ : Core).stock.apply
          (.reserve ctl.record.ns target (RuntimeImpl.migrateSize ctl.record))
        = { (⟨rt, os, ctls⟩ : Core).stock with ledger := l } := by
  have hr := RuntimeImpl.migrateAdmit_reserve h
  exact ⟨⟨l, hr⟩, by rw [Stock.apply, Stock.reserved_eq hr]⟩

/-- The deals of a failed migration do not depend on the buffers. -/
theorem migrateFailed_stock {rt rt' : RuntimeImpl} {os os' : Os} {env : Env} {ctl ctl' : Control}
    {target : MemoryDomain} {e : Error}
    (hrun : RuntimeImpl.MigrateRun rt os env ctl target (.error e, ctl', rt', os'))
    (ctls : List Control) :
    (⟨rt', os', ctls⟩ : Core).stock
        = runs Stock.apply (⟨rt, os, ctls⟩ : Core).stock (rt.migrateDeals os env ctl target) ∧
      Along Stock.apply Stock.Can (⟨rt, os, ctls⟩ : Core).stock
        (rt.migrateDeals os env ctl target) := by
  unfold RuntimeImpl.migrateDeals
  cases hrun with
  | refused admission state =>
      rw [admission]
      exact ⟨stock_quiet state _ _, trivial⟩
  | backendFailed admission backend state =>
      obtain ⟨hcan, happly⟩ := migrateAdmit_stock admission os ctls
      simp only [admission, backend, runs, List.foldl_cons, List.foldl_nil, Along, happly]
      exact ⟨stock_quiet state _ _, hcan, trivial, trivial⟩
  | copyFailed admission backend copy state =>
      obtain ⟨hcan, happly⟩ := migrateAdmit_stock admission os ctls
      simp only [admission, backend, copy, Except.isOk, Except.toBool, true_or, if_true, runs,
        List.foldl_cons, List.foldl_nil, Along, happly]
      refine ⟨(stock_quiet state _ _).trans (Stock.ext rfl rfl rfl ?_ rfl), hcan,
        ⟨rfl, migrateAdmit_backend admission⟩, trivial, trivial⟩
      exact congrArg (BackendCall.freed _ _ :: ·) (RuntimeImpl.migrateCopy_calls _ _ _ _ _)
  | commitFailed admission backend copy commit state =>
      obtain ⟨hcan, happly⟩ := migrateAdmit_stock admission os ctls
      simp only [admission, backend, commit, or_true, if_true, runs,
        List.foldl_cons, List.foldl_nil, Along, happly]
      refine ⟨(stock_quiet state _ _).trans (Stock.ext rfl rfl rfl ?_ rfl), hcan,
        ⟨rfl, migrateAdmit_backend admission⟩, trivial, trivial⟩
      exact congrArg (BackendCall.freed _ _ :: ·) (RuntimeImpl.migrateCopy_calls _ _ _ _ _)
  | @verifyFailed _ _ _ _ l _ _ admission backend copy commit verify state =>
      obtain ⟨hcan, happly⟩ := migrateAdmit_stock admission os ctls
      have hle := (Ledger.commitAmount_ok commit).1
      simp only [admission, backend, copy, UInt64.not_lt.mpr hle, verify, Except.isOk,
        Except.toBool, Bool.true_eq_false, or_false, if_false, runs, List.foldl_cons,
        List.foldl_nil, Along, happly]
      refine ⟨(stock_quiet state _ _).trans (Stock.ext rfl rfl ?_ ?_ rfl), hcan,
        ⟨rfl, migrateAdmit_backend admission, hle, undoBytes_le env target _⟩, trivial, trivial⟩
      -- the code gives back what the freed backing still says it has, or nothing for a device
      · refine congrArg (fun l => Ledger.unreserveAmount l _ _ _) ?_
        have hcommit := Stock.committed_of_ok
          (s := { (⟨rt, os, ctls⟩ : Core).stock with ledger := l }) commit
        refine Eq.trans ?_ (congrArg (Stock.giveBack _ _ _) hcommit).symm
        unfold RuntimeImpl.undoCommit RuntimeImpl.undoBytes Stock.giveBack
        split <;> rfl
      · exact congrArg (BackendCall.freed _ _ :: ·) (RuntimeImpl.migrateCopy_calls _ _ _ _ _)

theorem migrate_stock (c : Core) (env : Env) {k : Nat} (hk : k < c.ctls.length)
    (hlive : (c.control k).finalized = false) (target : MemoryDomain) :
    (c.migrate env k target).2.stock
        = runs Stock.apply c.stock (c.rt.migrateDeals c.os env (c.control k) target) ∧
      Along Stock.apply Stock.Can c.stock
        (c.rt.migrateDeals c.os env (c.control k) target) := by
  have hrun := RuntimeImpl.migrate_run c.rt c.os env (c.control k) target
  obtain ⟨t, hold, hset⟩ := c.live_set hk
  rw [Control.held_first hlive] at hold
  unfold Core.migrate
  generalize c.rt.migrate c.os env (c.control k) target = out at hrun ⊢
  obtain ⟨res, ctl, rt, os⟩ := out
  cases res with
  | error e =>
      -- the block is written back as it was
      obtain rfl : ctl = c.control k := by cases hrun <;> rfl
      simp only [c.set_control k]
      exact migrateFailed_stock hrun c.ctls
  | ok u =>
      cases hrun with
      | stays admission _ =>
          rw [RuntimeImpl.migrateDeals, admission]
          simp only [c.set_control k]
          exact ⟨rfl, trivial⟩
      | swapped admission backend copy commit verify state =>
          obtain ⟨hcan, happly⟩ := migrateAdmit_stock admission c.os c.ctls
          unfold RuntimeImpl.migrateDeals
          have hle := (Ledger.commitAmount_ok commit).1
          simp only [admission, backend, copy, UInt64.not_lt.mpr hle, verify, Except.isOk,
            Except.toBool, Bool.true_eq_false, or_false, if_false, runs, List.foldl_cons,
            List.foldl_nil, Along, happly]
          have hcommit := Stock.committed_of_ok (s := { c.stock with ledger := _ }) commit
          have hnew : ∀ {rt' : RuntimeImpl} {os' : Os} {r : Record},
              (⟨rt', os', c.ctls.set k { c.control k with record := r }⟩ : Core).live
                = r.holding ::ₘ t := by
            intro rt' os' r
            refine (hset _).trans ?_
            rw [show ({ c.control k with record := r } : Control).held = some r.holding from
              Control.held_first hlive]
            rfl
          have hmem : ∀ h : Holding, (c.control k).record.holding ∈ h ::ₘ c.live := fun h =>
            Multiset.mem_cons_of_mem (by rw [hold]; exact Multiset.mem_cons_self _ _)
          have herase : ∀ h : Holding,
              (h ::ₘ c.live).erase (c.control k).record.holding = h ::ₘ t := by
            intro h
            rw [hold, consOption, Multiset.cons_swap, Multiset.erase_cons_head]
          cases hp : (c.control k).record.backing.present with
          | true =>
              simp only [if_true]
              refine ⟨?_, hcan, ⟨rfl, migrateAdmit_backend admission, rfl, hle, Bool.noConfusion⟩,
                ⟨hmem _, hp⟩, trivial⟩
              refine (stock_quiet state _ _).trans (Stock.ext ?_ rfl ?_ ?_ rfl)
              · exact hnew.trans (herase _).symm
              · refine Eq.trans ?_ (congrArg (fun l => Ledger.freeAccounting l _ _ _) hcommit).symm
                unfold RuntimeImpl.releaseOld
                rw [if_pos hp]
                rfl
              · exact freeIn_calls (s := Stock.apply { c.stock with ledger := _ } (.book _))
                  (RuntimeImpl.migrateCopy_calls _ _ _ _ _) rfl _ _
          | false =>
              simp only [Bool.false_eq_true, if_false]
              refine ⟨?_, hcan, ⟨rfl, migrateAdmit_backend admission, rfl, hle, Bool.noConfusion⟩,
                ⟨hmem _, Or.inl hp⟩, trivial⟩
              refine (stock_quiet state _ _).trans (Stock.ext ?_ rfl ?_ ?_ rfl)
              · exact hnew.trans (herase _).symm
              · refine Eq.trans ?_ hcommit.symm
                unfold RuntimeImpl.releaseOld
                rw [if_neg (by rw [hp]; exact Bool.false_ne_true)]
                rfl
              · exact RuntimeImpl.migrateCopy_calls _ _ _ _ _

/-! ## Wrapped and imported memory -/

def wrapDeals (c : Core) (desc : ExternalMemoryDesc) : List Deal :=
  match c.wrapExternal desc, c.rt.domain desc.domain with
  | (.ok _, _), some dom => [.wrap (externalRecord dom desc {}).holding]
  | _, _ => []

theorem wrapExternal_stock (c : Core) (desc : ExternalMemoryDesc) :
    (c.wrapExternal desc).2.stock = runs Stock.apply c.stock (c.wrapDeals desc) ∧
      Along Stock.apply Stock.Can c.stock (c.wrapDeals desc) := by
  unfold wrapDeals wrapExternal
  split
  · exact ⟨rfl, trivial⟩
  split
  · exact ⟨rfl, trivial⟩
  cases hd : c.rt.domain desc.domain with
  | none => exact ⟨rfl, trivial⟩
  | some dom =>
      simp only
      cases hr : c.rt.reserveCount kDefaultNamespace with
      | mk res rt₁ =>
          rcases RuntimeImpl.reserveCount_cases hr with ⟨e, rfl, hq⟩ | ⟨rfl, rfl⟩
          · exact ⟨stock_quiet hq _ _, trivial⟩
          · refine ⟨stock_register _ _, ⟨rfl, rfl, ?_, desc.ownership, rfl, ?_⟩, trivial⟩
            · show (externalRecord dom desc {}).ownership ≠ .runtime
              unfold externalRecord
              cases desc.ownership <;> simp
            · show (externalRecord dom desc {}).ownership = .borrowed ↔ _
              unfold externalRecord
              cases desc.ownership <;> simp

def segmentDeals (c : Core) (env : Env) (desc : ExportDescriptor) (r : Record) : List Deal :=
  match c.rt.domain desc.domain, env.importHandle desc.domain desc.handle desc.size
      (if desc.alignment ≠ 0 then desc.alignment else 64) with
  | some _, .ok a =>
      if a.committed < desc.size then [.stray desc.domain (c.os.stamp a)]
      else [.receive { r with backing := c.os.stamp a }.holding]
  | _, _ => []

def importDeals (c : Core) (env : Env) (desc : ExportDescriptor) (ns : NamespaceId)
    (label : String) : List Deal :=
  if c.rt.closed = false ∧ (c.checkImport desc ns).isOk ∧ (handleKind desc.domain).isSome then
    c.segmentDeals env desc (importRecord env desc ns label c.rt.nextId.1)
  else []

theorem lookup_stock (c : Core) (id : BufferId) (gen : BufferGeneration) :
    (c.lookup id gen).2.stock = c.stock := by
  unfold lookup
  cases c.rt.registry.find? id with
  | none => rfl
  | some k =>
      simp only
      split <;> rfl

theorem importSegment_stock (c : Core) (env : Env) (desc : ExportDescriptor) {r : Record}
    (hdomain : r.domain = desc.domain) (hsize : r.committed = desc.size)
    (howner : r.ownership = .imported) (hpool : r.holding.poolable = false) :
    (c.importSegment env desc r).2.stock = runs Stock.apply c.stock (c.segmentDeals env desc r) ∧
      Along Stock.apply Stock.Can c.stock (c.segmentDeals env desc r) := by
  unfold importSegment segmentDeals Os.importHandle
  cases hd : c.rt.domain desc.domain with
  | none => exact ⟨rfl, trivial⟩
  | some dom =>
      have hback : c.stock.house.backends desc.domain = true := by
        show (c.rt.domain desc.domain).isSome = true
        rw [hd]
        rfl
      simp only
      cases env.importHandle desc.domain desc.handle desc.size
          (if desc.alignment ≠ 0 then desc.alignment else 64) with
      | error e => exact ⟨rfl, trivial⟩
      | ok a =>
          simp only
          by_cases hsmall : a.committed < desc.size
          -- a segment that is too small stays open, and nobody holds it
          · have hsmall' : (c.os.stamp a).committed < desc.size := hsmall
            rw [if_pos hsmall, if_pos hsmall']
            exact ⟨rfl, ⟨rfl, hback⟩, trivial⟩
          · have hsmall' : ¬ (c.os.stamp a).committed < desc.size := hsmall
            rw [if_neg hsmall, if_neg hsmall']
            refine ⟨(stock_register _ _).trans ?_, ⟨rfl, ?_, hpool, howner, ?_⟩, trivial⟩
            · rw [stock_quiet (noteImport_quiet _ _ _)]
              refine Stock.ext rfl rfl rfl ?_ rfl
              show BackendCall.imported desc.domain _ :: _ = .imported r.domain _ :: _
              rw [hdomain]
              rfl
            · show c.stock.house.backends r.domain = true
              rw [hdomain]
              exact hback
            · show r.committed ≤ a.committed
              rw [hsize]
              exact UInt64.not_lt.mp hsmall

theorem importDescriptor_stock (c : Core) (env : Env) (desc : ExportDescriptor)
    (ns : NamespaceId) (label : String) :
    (c.importDescriptor env desc ns label).2.stock
        = runs Stock.apply c.stock (c.importDeals env desc ns label) ∧
      Along Stock.apply Stock.Can c.stock (c.importDeals env desc ns label) := by
  unfold importDescriptor importDeals
  by_cases hclosed : c.rt.closed = true
  · simp only [hclosed, if_true, Bool.true_eq_false, false_and, if_false]
    exact ⟨rfl, trivial⟩
  cases hcheck : c.checkImport desc ns with
  | error e =>
      simp only [hclosed, Bool.false_eq_true, Except.isOk, Except.toBool, false_and, and_false,
        if_false]
      exact ⟨rfl, trivial⟩
  | ok u =>
      cases hkind : (handleKind desc.domain).isSome with
      | false =>
          have hlook := lookup_stock { c with rt := c.rt.nextId.2 } desc.bufferId desc.generation
          simp only [hclosed, Bool.false_eq_true, and_false, if_false]
          split
          · generalize Core.lookup { c with rt := c.rt.nextId.2 } desc.bufferId desc.generation
              = out at hlook ⊢
            obtain ⟨res, c₂⟩ := out
            cases res with
            | error e => exact ⟨hlook, trivial⟩
            | ok k => exact ⟨hlook, trivial⟩
          · exact ⟨rfl, trivial⟩
      | true =>
          simp only [hclosed, Bool.false_eq_true, Except.isOk, Except.toBool, and_self, if_true,
            if_false]
          exact importSegment_stock { c with rt := c.rt.nextId.2 } env desc rfl rfl rfl rfl

/-! ## Trimming and shutdown -/

def trimDeals (c : Core) : List Deal := c.rt.pool.all.map (fun e => .trim (depositOf e))

/-- Trimming a list of slots that are all that is idle. -/
theorem trimSlots_stock (slots : List (PoolKey × PoolSlot)) (live : Multiset Holding)
    (s : RuntimeImpl × Os) :
    runs Stock.apply ⟨live, slots.map depositOf, s.1.ledger, s.2.calls, s.1.house⟩
        (slots.map (fun e => .trim (depositOf e)))
      = ⟨live, 0, (slots.foldl RuntimeImpl.trimSlot s).1.ledger,
          (slots.foldl RuntimeImpl.trimSlot s).2.calls, s.1.house⟩ ∧
    Along Stock.apply Stock.Can ⟨live, slots.map depositOf, s.1.ledger, s.2.calls, s.1.house⟩
        (slots.map (fun e => .trim (depositOf e))) := by
  induction slots generalizing s with
  | nil => exact ⟨rfl, trivial⟩
  | cons e slots ih =>
      -- one deal does what one round of the loop does
      have hstep : Stock.apply
          ⟨live, (e :: slots).map depositOf, s.1.ledger, s.2.calls, s.1.house⟩
          (.trim (depositOf e))
          = ⟨live, slots.map depositOf, (RuntimeImpl.trimSlot s e).1.ledger,
              (RuntimeImpl.trimSlot s e).2.calls, (RuntimeImpl.trimSlot s e).1.house⟩ := by
        refine Stock.ext rfl ?_ rfl ?_ rfl
        · show Multiset.erase (depositOf e ::ₘ (slots.map depositOf : Multiset Deposit)) _ = _
          rw [Multiset.erase_cons_head]
        · exact (freeIn_calls rfl rfl _ _).symm
      obtain ⟨hrun, halong⟩ := ih (RuntimeImpl.trimSlot s e)
      have hhouse : (RuntimeImpl.trimSlot s e).1.house = s.1.house := rfl
      refine ⟨?_, ?_, ?_⟩
      · show runs Stock.apply (Stock.apply _ (.trim (depositOf e))) _ = _
        rw [hstep, hrun]
        rfl
      · show depositOf e ∈ depositOf e ::ₘ (slots.map depositOf : Multiset Deposit)
        exact Multiset.mem_cons_self _ _
      · rw [hstep]
        exact halong

theorem poolTrim_stock (c : Core) :
    c.poolTrim.stock = runs Stock.apply c.stock c.trimDeals ∧
      Along Stock.apply Stock.Can c.stock c.trimDeals := by
  obtain ⟨hrun, halong⟩ := trimSlots_stock c.rt.pool.all c.live (c.rt, c.os)
  refine ⟨?_, halong⟩
  refine Eq.trans ?_ hrun.symm
  refine Stock.ext rfl ?_ rfl rfl ?_
  · show Multiset.ofList (Pool.all (Pool.cleared _) |>.map depositOf) = 0
    rw [Pool.cleared_all]
    rfl
  · show (c.rt.poolTrim c.os).1.house = c.rt.house
    rw [c.rt.poolTrim_frame c.os]
    rfl

/-- The deals of a `shutdown` that finds no buffer without references. -/
def shutdownDeals (c : Core) : List Deal :=
  if c.rt.closed then [] else c.trimDeals ++ [.close]

theorem closeDown_stock (c : Core) (hopen : c.rt.closed = false) :
    (closeDown { c with rt := { c.rt with closed := true } }).stock
        = runs Stock.apply c.stock c.shutdownDeals ∧
      Along Stock.apply Stock.Can c.stock c.shutdownDeals := by
  obtain ⟨hrun, halong⟩ := c.poolTrim_stock
  have hidle : c.poolTrim.stock.idle = 0 := by
    show Multiset.ofList (Pool.all (Pool.cleared _) |>.map depositOf) = 0
    rw [Pool.cleared_all]
    rfl
  unfold shutdownDeals
  rw [if_neg (by rw [hopen]; exact Bool.false_ne_true)]
  refine ⟨?_, halong.append ?_⟩
  · rw [runs, List.foldl_append]
    show _ = (runs Stock.apply c.stock c.trimDeals).apply .close
    rw [← hrun]
    have htrim := c.rt.poolTrim_closed c.os true
    unfold closeDown poolTrim
    simp only [htrim]
    rfl
  · rw [← hrun]
    exact ⟨hidle, trivial⟩

end Core

end UnifiedBuffer
