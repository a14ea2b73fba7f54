import UnifiedBuffer.Inventory.Deals
import UnifiedBuffer.Safety.RefCount

set_option autoImplicit false

/-! # The deals of the public operations

`World.deals` computes the deals of a public operation from the state before it, and
`World.next_stock` says that they describe the operation: the abstract account of
`Inventory/Stock.lean` is one of the whole program. The registered buffers are what the stock
calls live (`World.registered_live`).

Reference counting enters twice: an operation only finalizes or migrates a block that is not
finalized, and `shutdown` finalizes nothing.
-/

namespace UnifiedBuffer

open Lib

namespace Core

theorem Idle.stock {c c' : Core} (h : c.Idle c') : c'.stock = c.stock := by
  unfold Core.stock live idle
  rw [h.ctls, h.calls, h.quiet.pool, h.quiet.ledger, h.quiet.house]

end Core

/-! ## Operations that change no holding -/

section Handles

variable (h : BufferHandle) (c : Core)

theorem share_stock : (h.share c).2.stock = c.stock := by
  unfold BufferHandle.share
  split
  · rfl
  · exact c.stock_retain _

theorem view_stock (offset len : UInt64) (access : AccessMode) :
    (h.view c offset len access).2.stock = c.stock := by
  unfold BufferHandle.view
  split
  · rfl
  · simp only
    split
    · rfl
    split
    · rfl
    split
    · rfl
    · exact c.stock_retain _

theorem map_stock (env : Env) (access : AccessMode) : (h.map c env access).2.stock = c.stock := by
  unfold BufferHandle.map
  split
  · rfl
  · simp only
    split
    · rfl
    split
    · rfl
    split
    · rfl
    · rw [Core.stock_count, Core.stock_retain]
      exact c.stock_modify _ (fun _ => rfl)

theorem acquire_stock (kind : LeaseKind) : (h.acquire kind c).2.stock = c.stock := by
  unfold BufferHandle.acquire
  split
  · rfl
  · split
    · rfl
    · rw [Core.stock_retain]
      exact c.stock_modify _ (fun ctl => by cases kind <;> rfl)

end Handles

theorem unmapOnce_holding (r : Record) : (unmapOnce r).holding = r.holding := by
  unfold unmapOnce
  simp only
  split <;> split <;> rfl

theorem unlease_held (kind : LeaseKind) (ctl : Control) :
    (unlease kind ctl).refs = ctl.refs ∧ (unlease kind ctl).held = ctl.held := by
  unfold unlease
  cases kind <;> simp only <;> split <;> split <;> exact ⟨rfl, rfl⟩

theorem unmapOnce_held (ctl : Control) :
    ({ ctl with record := unmapOnce ctl.record } : Control).held = ctl.held := by
  unfold Control.held
  simp only [unmapOnce_holding]

theorem letGo_stock (o : Obj) (c : Core) (k : Nat) : (o.letGo c k).stock = c.stock := by
  cases o with
  | handle h => rfl
  | view v => rfl
  | lease l => exact c.stock_modify k (fun ctl => (unlease_held l.kind ctl).2)
  | map m => exact (Core.stock_count _ _).trans (c.stock_modify k unmapOnce_held)

theorem dropDeals_modify (c : Core) {k : Nat} (hk : k < c.ctls.length) {f : Control → Control}
    (hf : ∀ ctl, (f ctl).refs = ctl.refs ∧ (f ctl).held = ctl.held) :
    (c.modify k f).dropDeals k = c.dropDeals k := by
  unfold Core.dropDeals RuntimeImpl.finalizeDeals
  rw [c.control_modify f hk, (hf _).1, (hf _).2]
  rfl

/-- What letting go of an object does to the control block does not change its deals. -/
theorem dropDeals_letGo (o : Obj) (c : Core) {k : Nat} (hk : k < c.ctls.length) :
    (o.letGo c k).dropDeals k = c.dropDeals k := by
  cases o with
  | handle h => rfl
  | view v => rfl
  | lease l => exact dropDeals_modify c hk (unlease_held l.kind)
  | map m => exact dropDeals_modify c hk (fun ctl => ⟨rfl, unmapOnce_held ctl⟩)

/-! ## The deals of an operation -/

namespace World

def releaseDeals (w : World) (i : Nat) : List Deal :=
  match (w.objs[i]?).bind Obj.pin with
  | none => []
  | some k => w.core.dropDeals k

def migrateDeals (w : World) (env : Env) (i : Nat) (target : MemoryDomain) : List Deal :=
  match (w.handle i).validateAlive w.core with
  | .error _ => []
  | .ok k => w.core.rt.migrateDeals w.core.os env (w.core.control k) target

def moveAssignDeals (w : World) (dst src : Nat) : List Deal :=
  match w.objs[dst]?, w.objs[src]? with
  | some o, some o' => if dst = src ∨ ¬ o.sameClass o' then [] else w.releaseDeals dst
  | _, _ => []

def deals (w : World) : Op → List Deal
  | .allocate env req => w.core.rt.allocateDeals w.core.os env req
  | .wrapExternal desc => w.core.wrapDeals desc
  | .importBuffer env desc ns label => w.core.importDeals env desc ns label
  | .migrate env i target => w.migrateDeals env i target
  | .release _ i => w.releaseDeals i
  | .destroy _ i => w.releaseDeals i
  | .moveAssign _ dst src => w.moveAssignDeals dst src
  | .poolTrim => w.core.trimDeals
  | .shutdown _ => w.core.shutdownDeals
  | .createNamespace nsc => [.requota (w.core.createNamespace nsc).rt.domainQuota]
  | _ => []

variable {base : List BufferId} {w : World}

theorem releaseCore_stock (h : w.RefInv base) (env : Env) {i : Nat} {o : Obj}
    (ho : w.objs[i]? = some o) :
    (o.releaseCore w.core env).stock = runs Stock.apply w.core.stock (w.releaseDeals i) ∧
      Along Stock.apply Stock.Can w.core.stock (w.releaseDeals i) := by
  unfold Obj.releaseCore releaseDeals
  rw [ho, Option.bind_some]
  cases hpin : o.pin with
  | none => exact ⟨rfl, trivial⟩
  | some k =>
      obtain ⟨hk, -⟩ := h.alive (pins_pos ho hpin)
      have hlen : k < (o.letGo w.core k).ctls.length := by
        cases o with
        | handle h' => exact hk
        | view v => exact hk
        | lease l => exact (List.length_modify _ _ _).symm ▸ hk
        | map m => exact (List.length_modify _ _ _).symm ▸ hk
      have hdrop := (o.letGo w.core k).dropRef_stock env hlen
      rw [letGo_stock, dropDeals_letGo o w.core hk] at hdrop
      exact hdrop

theorem releaseAt_stock (h : w.RefInv base) (env : Env) (i : Nat) :
    (w.releaseAt env i).core.stock = runs Stock.apply w.core.stock (w.releaseDeals i) ∧
      Along Stock.apply Stock.Can w.core.stock (w.releaseDeals i) := by
  unfold World.releaseAt
  cases ho : w.objs[i]? with
  | none =>
      unfold releaseDeals
      rw [ho]
      exact ⟨rfl, trivial⟩
  | some o =>
      simp only
      rw [Obj.release_core (h.objs o (List.mem_of_getElem? ho))]
      exact releaseCore_stock h env ho

theorem destroyAt_stock (h : w.RefInv base) (env : Env) (i : Nat) :
    (w.destroyAt env i).core.stock = runs Stock.apply w.core.stock (w.releaseDeals i) ∧
      Along Stock.apply Stock.Can w.core.stock (w.releaseDeals i) := by
  unfold World.destroyAt
  cases ho : w.objs[i]? with
  | none =>
      unfold releaseDeals
      rw [ho]
      exact ⟨rfl, trivial⟩
  | some o =>
      simp only
      rw [Obj.reset_core, Obj.release_core (h.objs o (List.mem_of_getElem? ho))]
      exact releaseCore_stock h env ho

theorem giveHandle_stock (w : World) (p : Except Error CtlId × Core) :
    (w.giveHandle p).2.core.stock = p.2.stock := by
  obtain ⟨res, c⟩ := p
  cases res with
  | error e => rfl
  | ok k => exact c.stock_retain k

theorem migrate_stock (h : w.RefInv base) (env : Env) (i : Nat) (target : MemoryDomain) :
    (w.migrate env i target).2.core.stock
        = runs Stock.apply w.core.stock (w.migrateDeals env i target) ∧
      Along Stock.apply Stock.Can w.core.stock (w.migrateDeals env i target) := by
  unfold World.migrate World.migrateDeals
  cases hk : (w.handle i).validateAlive w.core with
  | error e => exact ⟨rfl, trivial⟩
  | ok k =>
      obtain ⟨hlt, hlive⟩ := h.alive (handle_alive h hk).1
      have hm := w.core.migrate_stock env hlt hlive target
      simp only
      generalize w.core.migrate env k target = out at hm ⊢
      obtain ⟨res, c⟩ := out
      cases res with
      | error e => exact hm
      | ok u => exact ⟨(w.giveHandle_stock (.ok k, c)).trans hm.1, hm.2⟩

theorem moveAssign_stock (h : w.RefInv base) (env : Env) (dst src : Nat) :
    (w.moveAssign env dst src).core.stock
        = runs Stock.apply w.core.stock (w.moveAssignDeals dst src) ∧
      Along Stock.apply Stock.Can w.core.stock (w.moveAssignDeals dst src) := by
  unfold World.moveAssign moveAssignDeals
  cases w.objs[dst]? with
  | none => exact ⟨rfl, trivial⟩
  | some o =>
      cases w.objs[src]? with
      | none => exact ⟨rfl, trivial⟩
      | some o' =>
          simp only
          by_cases hnone : dst = src ∨ ¬ o.sameClass o' = true
          · rw [if_pos hnone, if_pos hnone]
            exact ⟨rfl, trivial⟩
          · rw [if_neg hnone, if_neg hnone]
            exact destroyAt_stock h env dst

/-- **The deals describe the operation.** -/
theorem next_stock (h : w.RefInv base) (op : Op) :
    (w.next op).core.stock = runs Stock.apply w.core.stock (w.deals op) ∧
      Along Stock.apply Stock.Can w.core.stock (w.deals op) := by
  unfold World.next
  cases op with
  | allocate env req =>
      have ha := w.core.allocate_stock env req
      show (w.allocate env req).2.core.stock = _ ∧ _
      unfold World.allocate
      split
      · rename_i hclosed
        -- `Runtime::allocate` tests the flag before `allocate_record` does
        have hnone : w.deals (.allocate env req) = [] := by
          show w.core.rt.allocateDeals w.core.os env req = []
          rw [RuntimeImpl.allocateDeals, RuntimeImpl.admits, if_pos hclosed]
        rw [hnone]
        exact ⟨rfl, trivial⟩
      · exact ⟨(w.giveHandle_stock _).trans ha.1, ha.2⟩
  | wrapExternal desc =>
      obtain ⟨hrun, hcan⟩ := w.core.wrapExternal_stock desc
      exact ⟨(w.giveHandle_stock _).trans hrun, hcan⟩
  | importBuffer env desc ns label =>
      obtain ⟨hrun, hcan⟩ := w.core.importDescriptor_stock env desc ns label
      exact ⟨(w.giveHandle_stock _).trans hrun, hcan⟩
  | exportBuffer env i =>
      refine ⟨?_, trivial⟩
      show (w.exportBuffer env i).2.core.stock = _
      unfold World.exportBuffer
      split
      · rfl
      · exact (exportDescriptor_idle _ _ _).stock
  | migrate env i target => exact w.migrate_stock h env i target
  | share i => exact ⟨(congrArg Core.stock (w.give_core _ _)).trans (share_stock _ _), trivial⟩
  | view i offset len access =>
      exact ⟨(congrArg Core.stock (w.give_core _ _)).trans (view_stock _ _ _ _ _), trivial⟩
  | map env i access =>
      exact ⟨(congrArg Core.stock (w.give_core _ _)).trans (map_stock _ _ _ _), trivial⟩
  | acquire kind i =>
      exact ⟨(congrArg Core.stock (w.give_core _ _)).trans (acquire_stock _ _ _), trivial⟩
  | verify env i => exact ⟨(verify_idle _ _ _).stock, trivial⟩
  | checksum i => exact ⟨(checksum_idle _ _).stock, trivial⟩
  | copyTo env i dst dstOffset len => exact ⟨(copyTo_idle _ _ _ _ _ _).stock, trivial⟩
  | copyFrom env i src srcOffset len => exact ⟨(copyFrom_idle _ _ _ _ _ _).stock, trivial⟩
  | construct o => exact ⟨rfl, trivial⟩
  | move src =>
      refine ⟨?_, trivial⟩
      show (w.moveFrom src).2.core.stock = _
      unfold World.moveFrom
      split <;> rfl
  | moveAssign env dst src => exact w.moveAssign_stock h env dst src
  | release env i => exact releaseAt_stock h env i
  | destroy env i => exact destroyAt_stock h env i
  | invalidate env id =>
      refine ⟨?_, trivial⟩
      show (w.core.finalizeById env id).2.stock = _
      rw [h.invalidate env id]
      rfl
  | poolTrim => exact w.core.poolTrim_stock
  | shutdown env =>
      show (w.core.shutdown env).stock = runs Stock.apply w.core.stock w.core.shutdownDeals ∧
        Along Stock.apply Stock.Can w.core.stock w.core.shutdownDeals
      -- every registered buffer has a reference, so the loop finalizes none
      rw [h.core.shutdown_eq env]
      cases hclosed : w.core.rt.closed with
      | true =>
          unfold Core.shutdownDeals
          rw [if_pos hclosed]
          exact ⟨rfl, trivial⟩
      | false => exact w.core.closeDown_stock hclosed
  | createNamespace nsc => exact ⟨rfl, trivial, trivial⟩

/-! ## Registered buffers -/

end World

/-- The records of the registered buffers. -/
def Core.registered (c : Core) : List Record :=
  c.rt.registry.entries.map (fun e => (c.control e.2).record)

/-- What the control blocks hold, by their numbers. -/
theorem Core.held_range (c : Core) : c.ctls.filterMap Control.held
    = ((List.range c.ctls.length).filter (fun k => !(c.control k).finalized)).map
        (fun k => (c.control k).record.holding) := by
  have hctls : c.ctls = (List.range c.ctls.length).map c.control := by
    apply List.ext_getElem?
    intro k
    rw [List.getElem?_map]
    by_cases hk : k < c.ctls.length
    · rw [c.control_get hk, List.getElem?_range hk]
      rfl
    · rw [List.getElem?_eq_none (Nat.le_of_not_lt hk), List.getElem?_eq_none (by simpa using hk)]
      rfl
  have hheld : ∀ ks : List Nat, (ks.map c.control).filterMap Control.held
      = (ks.filter (fun k => !(c.control k).finalized)).map
          (fun k => (c.control k).record.holding) := by
    intro ks
    induction ks with
    | nil => rfl
    | cons k ks ih =>
        rw [List.map_cons, List.filterMap_cons, List.filter_cons, ih, Control.held]
        cases (c.control k).finalized <;> rfl
  have hrange := hheld (List.range c.ctls.length)
  rw [← hctls] at hrange
  exact hrange

namespace World

variable {base : List BufferId} {w : World}

/-- A block is registered exactly if it is not finalized. -/
theorem RefInv.registered_iff (h : w.RefInv base) (k : Nat) :
    k ∈ w.core.rt.registry.entries.map Prod.snd ↔
      k < w.core.ctls.length ∧ (w.core.control k).finalized = false := by
  constructor
  · intro hk
    obtain ⟨e, he, rfl⟩ := List.mem_map.mp hk
    have hfind := (w.core.rt.registry.mem_entries_iff e.1 e.2).mp he
    obtain ⟨v, -, -, hpos⟩ := (h.core.registry e.1 e.2).mp hfind
    exact h.alive hpos
  · rintro ⟨hk, hlive⟩
    have hv := views_get w.core hk
    have hpos : 0 < w.pins k := by
      have hfin := (h.core.finalized k _ hv).not
      have hnot : ¬ (w.core.control k).refView.finalized = true := by
        show ¬ (w.core.control k).finalized = true
        rw [hlive]
        exact Bool.false_ne_true
      have := hfin.mp hnot
      omega
    have hfind := (h.core.registry _ k).mpr ⟨_, hv, rfl, hpos⟩
    exact List.mem_map.mpr ⟨_, (w.core.rt.registry.mem_entries_iff _ k).mpr hfind, rfl⟩

/-- No object holds a reference. -/
def Released (w : World) : Prop := ∀ o ∈ w.objs, o.pin = none

instance (w : World) : Decidable w.Released := inferInstanceAs (Decidable (∀ o ∈ w.objs, _))

/-- Without references no buffer is registered. -/
theorem RefInv.registered_nil (h : w.RefInv base) (hrel : w.Released) : w.core.registered = [] := by
  refine List.map_eq_nil_iff.mpr (List.eq_nil_iff_forall_not_mem.mpr (fun e he => ?_))
  have hfind := (w.core.rt.registry.mem_entries_iff e.1 e.2).mp he
  obtain ⟨v, -, -, hpos⟩ := (h.core.registry e.1 e.2).mp hfind
  obtain ⟨o, ho, hpin⟩ := List.countP_pos_iff.mp hpos
  rw [hrel o ho] at hpin
  cases of_decide_eq_true hpin

/-- No block is registered twice. -/
theorem RefInv.registered_nodup (h : w.RefInv base) :
    (w.core.rt.registry.entries.map Prod.snd).Nodup := by
  have hentries : w.core.rt.registry.entries.Nodup := List.Nodup.of_map _ w.core.rt.registry.nodup
  refine List.Nodup.map_on (fun e he e' he' heq => ?_) hentries
  have hf := (h.core.registry e.1 e.2).mp ((w.core.rt.registry.mem_entries_iff e.1 e.2).mp he)
  have hf' := (h.core.registry e'.1 e'.2).mp
    ((w.core.rt.registry.mem_entries_iff e'.1 e'.2).mp he')
  obtain ⟨v, hv, hid, -⟩ := hf
  obtain ⟨v', hv', hid', -⟩ := hf'
  rw [← heq, hv] at hv'
  obtain rfl := Option.some.inj hv'
  exact Prod.ext (hid.symm.trans hid') heq

/-- The registered buffers are the live part of the stock. -/
theorem RefInv.registered_live (h : w.RefInv base) :
    (w.core.registered.map Record.holding : Multiset Holding) = w.core.stock.live := by
  show Multiset.ofList _ = (w.core.ctls.filterMap Control.held : Multiset Holding)
  rw [w.core.held_range, Multiset.coe_eq_coe]
  unfold Core.registered
  rw [List.map_map]
  have hperm : (w.core.rt.registry.entries.map Prod.snd).Perm
      ((List.range w.core.ctls.length).filter (fun k => !(w.core.control k).finalized)) := by
    refine (List.perm_ext_iff_of_nodup h.registered_nodup (List.nodup_range.filter _)).mpr ?_
    intro k
    rw [h.registered_iff k, List.mem_filter, List.mem_range, Bool.not_eq_true']
  have hmap := hperm.map (fun k => (w.core.control k).record.holding)
  rw [List.map_map] at hmap
  exact hmap

/-! ## Internal operations -/

end World

/-- The deal opens no memory from outside the runtime and changes no quota. -/
def Deal.Internal : Deal → Prop
  | .wrap _ => False
  | .receive _ => False
  | .stray _ _ => False
  | .requota _ => False
  | _ => True

/-- The deal gives something up: a buffer, a slot or the backends. -/
def Deal.Closing : Deal → Prop
  | .shelve _ => True
  | .settle _ => True
  | .drop _ => True
  | .trim _ => True
  | .close => True
  | _ => False

theorem Deal.Closing.internal {deal : Deal} (h : deal.Closing) : deal.Internal := by
  cases deal <;> trivial

/-- The operation is not one of `wrap_external`, `import` and `create_namespace`. -/
def Op.Internal : Op → Prop
  | .wrapExternal _ => False
  | .importBuffer _ _ _ _ => False
  | .createNamespace _ => False
  | _ => True

/-- The operation is internal and asks the backends for no memory. -/
def Op.Frugal : Op → Prop
  | .allocate _ _ => False
  | .migrate _ _ _ => False
  | op => op.Internal

instance (op : Op) : Decidable op.Internal := by
  cases op <;> unfold Op.Internal <;> infer_instance

theorem RuntimeImpl.allocateDeals_internal (rt : RuntimeImpl) (os : Os) (env : Env)
    (req : AllocationRequest) : ∀ deal ∈ rt.allocateDeals os env req, deal.Internal := by
  unfold allocateDeals
  split
  · simp
  simp only
  split
  · split <;> simp [Deal.Internal]
  split
  · simp [Deal.Internal]
  split
  · simp [Deal.Internal]
  split <;> simp [Deal.Internal]

theorem RuntimeImpl.migrateDeals_internal (rt : RuntimeImpl) (os : Os) (env : Env) (ctl : Control)
    (target : MemoryDomain) : ∀ deal ∈ rt.migrateDeals os env ctl target, deal.Internal := by
  unfold migrateDeals
  split
  · simp
  simp only
  split
  · simp [Deal.Internal]
  split
  · simp [Deal.Internal]
  split
  · simp [Deal.Internal]
  split <;> simp [Deal.Internal]

theorem RuntimeImpl.finalizeDeals_closing (rt : RuntimeImpl) (ctl : Control) :
    ∀ deal ∈ rt.finalizeDeals ctl, deal.Closing := by
  unfold finalizeDeals
  split
  · simp
  split
  · split <;> simp [Deal.Closing]
  · simp [Deal.Closing]

theorem Core.trimDeals_closing (c : Core) : ∀ deal ∈ c.trimDeals, deal.Closing := by
  intro deal hmem
  obtain ⟨e, -, rfl⟩ := List.mem_map.mp hmem
  trivial

namespace World

theorem releaseDeals_closing (w : World) (i : Nat) : ∀ deal ∈ w.releaseDeals i, deal.Closing := by
  unfold releaseDeals Core.dropDeals
  split
  · simp
  split
  · exact w.core.rt.finalizeDeals_closing _
  · simp

/-- An operation that asks for no memory only gives things up. -/
theorem deals_closing (w : World) {op : Op} (hop : op.Frugal) :
    ∀ deal ∈ w.deals op, deal.Closing := by
  cases op with
  | allocate | migrate | wrapExternal | importBuffer | createNamespace => exact absurd hop id
  | release env i => exact w.releaseDeals_closing i
  | destroy env i => exact w.releaseDeals_closing i
  | moveAssign env dst src =>
      show ∀ deal ∈ w.moveAssignDeals dst src, deal.Closing
      unfold World.moveAssignDeals
      split
      · split
        · simp
        · exact w.releaseDeals_closing dst
      · simp
  | poolTrim => exact w.core.trimDeals_closing
  | shutdown env =>
      show ∀ deal ∈ w.core.shutdownDeals, deal.Closing
      unfold Core.shutdownDeals
      split
      · simp
      · intro deal hmem
        rcases List.mem_append.mp hmem with hmem | hmem
        · exact w.core.trimDeals_closing deal hmem
        · obtain rfl := List.mem_singleton.mp hmem
          trivial
  | exportBuffer | share | view | map | acquire | verify | checksum | copyTo | copyFrom | construct
  | move | invalidate => exact fun deal hmem => absurd hmem List.not_mem_nil

/-- Internal operations make internal deals. -/
theorem deals_internal (w : World) {op : Op} (hop : op.Internal) :
    ∀ deal ∈ w.deals op, deal.Internal := by
  cases op with
  | allocate env req => exact w.core.rt.allocateDeals_internal _ _ _
  | migrate env i target =>
      show ∀ deal ∈ w.migrateDeals env i target, deal.Internal
      unfold World.migrateDeals
      split
      · simp
      · exact w.core.rt.migrateDeals_internal _ _ _ _
  | _ =>
      intro deal hmem
      refine (w.deals_closing ?_ deal hmem).internal
      exact hop

end World

/-! ## What an operation asks for

The conditions on deals in the words of the operations: which bytes are reserved, which slot is
taken, what memory is committed. -/

namespace World

/-- The operation gets past its checks and reserves the bytes. -/
inductive Reserves (w : World) : Op → NamespaceId → MemoryDomain → UInt64 → Prop
  | allocate {env : Env} {req : AllocationRequest} {alignment classSize : UInt64} {l : Ledger}
      (admission : w.core.rt.admits req = some (alignment, classSize, l)) :
      Reserves w (.allocate env req) req.ns req.domain classSize
  | migrate {env : Env} {i : Nat} {target : MemoryDomain} {k : CtlId} {q : IDomain × Ledger}
      (alive : (w.handle i).validateAlive w.core = .ok k)
      (admission : w.core.rt.migrateAdmit (w.core.control k) target = some q) :
      Reserves w (.migrate env i target) (w.core.control k).record.ns target
        (RuntimeImpl.migrateSize (w.core.control k).record)

/-- The operation takes the slot out of the pool, for the namespace. -/
inductive TakesSlot (w : World) : Op → NamespaceId → PoolSlot → Prop
  | allocate {env : Env} {req : AllocationRequest} {alignment classSize : UInt64} {l : Ledger}
      {slot : PoolSlot} {pool : Pool}
      (admission : w.core.rt.admits req = some (alignment, classSize, l))
      (offer : w.core.rt.poolOffer req alignment classSize = some (slot, pool)) :
      TakesSlot w (.allocate env req) req.ns slot

/-- A backend serves the operation with `a`, and the bytes of `a` are committed. -/
inductive Commits (w : World) : Op → NativeAllocation → Prop
  | allocate {env : Env} {req : AllocationRequest} {alignment classSize : UInt64} {l : Ledger}
      {a : NativeAllocation} (admission : w.core.rt.admits req = some (alignment, classSize, l))
      (offer : w.core.rt.poolOffer req alignment classSize = none)
      (backend : env.allocate req.domain classSize alignment = .ok a)
      (commit : a.committed ≤ l.reserved.get req.ns req.domain) : Commits w (.allocate env req) a
  | migrate {env : Env} {i : Nat} {target : MemoryDomain} {k : CtlId} {tdom : IDomain} {l : Ledger}
      {a : NativeAllocation} (alive : (w.handle i).validateAlive w.core = .ok k)
      (admission : w.core.rt.migrateAdmit (w.core.control k) target = some (tdom, l))
      (backend : env.allocate target (RuntimeImpl.migrateSize (w.core.control k).record)
        (w.core.control k).record.alignment = .ok a)
      (commit : a.committed ≤ l.reserved.get (w.core.control k).record.ns target) :
      Commits w (.migrate env i target) a

/-- The operation binds the buffer `k` to a new backing. -/
inductive Rebinds (w : World) : Op → CtlId → Prop
  | migrate {env : Env} {i : Nat} {target : MemoryDomain} {k : CtlId} {tdom : IDomain} {l : Ledger}
      {a : NativeAllocation} (alive : (w.handle i).validateAlive w.core = .ok k)
      (served : w.core.rt.Rebinds w.core.os env (w.core.control k) target tdom l a) :
      Rebinds w (.migrate env i target) k

/-- What a deal of the operation stands for. A reservation is not among these: it is the first deal
of an operation or none of its deals. -/
def Accounts (w : World) (op : Op) : Deal → Prop
  | .reserve _ _ _ => False
  | .take p h => ∃ slot, w.TakesSlot op h.ns slot ∧ p.owner = slot.lastOwner
  | .lose ns p => ∃ slot, w.TakesSlot op ns slot ∧ p.owner = slot.lastOwner
  | .waste _ _ _ a _ => ∃ b, w.Commits op b ∧ a.committed = b.committed
  | .book h => (∃ b, w.Commits op b ∧ h.committed = b.committed) ∧ (h.ownership = .runtime ∨
      ∃ k, w.Rebinds op k ∧ h.ownership = (w.core.control k).record.ownership)
  | .settle h => h.ownership ≠ .borrowed ∨
      ∃ k, w.Rebinds op k ∧ h.ownership = (w.core.control k).record.ownership
  | _ => True

variable {w : World} {op : Op}

theorem finalizeDeals_account (op : Op) (ctl : Control) :
    ∀ deal ∈ w.core.rt.finalizeDeals ctl, w.Accounts op deal := by
  unfold RuntimeImpl.finalizeDeals
  split
  · simp
  split
  · rename_i hown
    split
    · simp [Accounts]
    · simp [Accounts, hown.2]
  · simp [Accounts]

theorem releaseDeals_account (op : Op) (i : Nat) :
    ∀ deal ∈ w.releaseDeals i, w.Accounts op deal := by
  unfold releaseDeals Core.dropDeals
  split
  · simp
  split
  · exact finalizeDeals_account op _
  · simp

theorem trimDeals_account (op : Op) : ∀ deal ∈ w.core.trimDeals, w.Accounts op deal := by
  intro deal hmem
  obtain ⟨e, -, rfl⟩ := List.mem_map.mp hmem
  trivial

theorem allocateDeals_account (w : World) (env : Env) (req : AllocationRequest) :
    (∀ deal ∈ w.core.rt.allocateDeals w.core.os env req, w.Accounts (.allocate env req) deal) ∨
      ∃ ns d bytes rest,
        w.core.rt.allocateDeals w.core.os env req = .reserve ns d bytes :: rest ∧
        w.Reserves (.allocate env req) ns d bytes ∧
        ∀ deal ∈ rest, w.Accounts (.allocate env req) deal := by
  unfold RuntimeImpl.allocateDeals
  cases hadmission : w.core.rt.admits req with
  | none => exact Or.inl fun deal hmem => absurd hmem List.not_mem_nil
  | some x =>
      obtain ⟨alignment, classSize, l⟩ := x
      refine Or.inr ⟨_, _, _, _, rfl, .allocate hadmission, ?_⟩
      cases hoffer : w.core.rt.poolOffer req alignment classSize with
      | some q =>
          obtain ⟨slot, pool⟩ := q
          simp only
          split
          · simpa [Accounts] using ⟨slot, .allocate hadmission hoffer, rfl⟩
          · simpa [Accounts] using ⟨slot, .allocate hadmission hoffer, rfl⟩
      | none =>
          cases hbackend : env.allocate req.domain classSize alignment with
          | error e => simp [Accounts]
          | ok a =>
              simp only
              split
              · simp [Accounts]
              rename_i hcommit
              have hcommits : w.Commits (.allocate env req) a :=
                .allocate hadmission hoffer hbackend (UInt64.not_lt.mp hcommit)
              split
              · simpa [Accounts] using ⟨a, hcommits, rfl⟩
              · simpa [Accounts] using ⟨⟨a, hcommits, rfl⟩, Or.inl rfl⟩

theorem migrateDeals_account (w : World) (env : Env) (i : Nat) (target : MemoryDomain) :
    (∀ deal ∈ w.migrateDeals env i target, w.Accounts (.migrate env i target) deal) ∨
      ∃ ns d bytes rest,
        w.migrateDeals env i target = .reserve ns d bytes :: rest ∧
        w.Reserves (.migrate env i target) ns d bytes ∧
        ∀ deal ∈ rest, w.Accounts (.migrate env i target) deal := by
  unfold World.migrateDeals
  cases halive : (w.handle i).validateAlive w.core with
  | error e => exact Or.inl fun deal hmem => absurd hmem List.not_mem_nil
  | ok k =>
      simp only
      unfold RuntimeImpl.migrateDeals
      cases hadmission : w.core.rt.migrateAdmit (w.core.control k) target with
      | none => exact Or.inl fun deal hmem => absurd hmem List.not_mem_nil
      | some x =>
          obtain ⟨tdom, l⟩ := x
          refine Or.inr ⟨_, _, _, _, rfl, .migrate halive hadmission, ?_⟩
          cases hbackend : env.allocate target (RuntimeImpl.migrateSize (w.core.control k).record)
              (w.core.control k).record.alignment with
          | error e => simp [Accounts]
          | ok a =>
              simp only
              split
              · simp [Accounts]
              rename_i hserved
              have hle : a.committed ≤ l.reserved.get (w.core.control k).record.ns target :=
                UInt64.not_lt.mp fun hlt => hserved (Or.inr hlt)
              have hcommits : w.Commits (.migrate env i target) a :=
                .migrate halive hadmission hbackend hle
              cases hverify : env.verify target (w.core.os.stamp a) a.committed with
              | error e => simpa [Accounts] using ⟨a, hcommits, rfl⟩
              | ok u =>
                  have hcopy : (RuntimeImpl.migrateCopy w.core.os env (w.core.control k) target
                      a).1 = .ok () := by
                    cases hres : (RuntimeImpl.migrateCopy w.core.os env (w.core.control k) target
                      a).1 with
                    | error e => exact absurd (Or.inl (by rw [hres]; rfl)) hserved
                    | ok u => rfl
                  have hrebinds : w.Rebinds (.migrate env i target) k :=
                    .migrate halive ⟨hadmission, hbackend, hcopy, hle, hverify⟩
                  simp only [List.forall_mem_cons, List.not_mem_nil, false_implies, implies_true,
                    and_true]
                  refine ⟨⟨⟨a, hcommits, rfl⟩, Or.inr ⟨k, hrebinds, rfl⟩⟩, ?_⟩
                  split
                  · exact Or.inr ⟨k, hrebinds, rfl⟩
                  · trivial

/-- What the deals of an operation stand for. -/
theorem deals_account (w : World) (op : Op) :
    (∀ deal ∈ w.deals op, w.Accounts op deal) ∨ ∃ ns d bytes rest,
      w.deals op = .reserve ns d bytes :: rest ∧ w.Reserves op ns d bytes ∧
      ∀ deal ∈ rest, w.Accounts op deal := by
  cases op with
  | allocate env req => exact w.allocateDeals_account env req
  | migrate env i target => exact w.migrateDeals_account env i target
  | wrapExternal desc =>
      refine Or.inl ?_
      show ∀ deal ∈ w.core.wrapDeals desc, _
      unfold Core.wrapDeals
      split <;> simp [Accounts]
  | importBuffer env desc ns label =>
      refine Or.inl ?_
      show ∀ deal ∈ w.core.importDeals env desc ns label, _
      unfold Core.importDeals Core.segmentDeals
      split
      · split
        · split <;> simp [Accounts]
        · simp
      · simp
  | release env i => exact Or.inl (releaseDeals_account _ i)
  | destroy env i => exact Or.inl (releaseDeals_account _ i)
  | moveAssign env dst src =>
      refine Or.inl ?_
      show ∀ deal ∈ w.moveAssignDeals dst src, _
      unfold World.moveAssignDeals
      split
      · split
        · simp
        · exact releaseDeals_account _ dst
      · simp
  | poolTrim => exact Or.inl (trimDeals_account _)
  | shutdown env =>
      refine Or.inl ?_
      show ∀ deal ∈ w.core.shutdownDeals, _
      unfold Core.shutdownDeals
      split
      · simp
      · intro deal hmem
        rcases List.mem_append.mp hmem with hmem | hmem
        · exact trimDeals_account _ deal hmem
        · obtain rfl := List.mem_singleton.mp hmem
          trivial
  | createNamespace nsc =>
      refine Or.inl fun deal hmem => ?_
      obtain rfl := List.mem_singleton.mp hmem
      trivial
  | exportBuffer | share | view | map | acquire | verify | checksum | copyTo | copyFrom | construct
  | move | invalidate => exact Or.inl fun deal hmem => absurd hmem List.not_mem_nil

end World

/-! ## Reliable backends -/

/-- The memory that the backends return is not null, and can be zeroed and verified. -/
structure Env.Reliable (env : Env) : Prop where
  memory : ∀ d bytes alignment a, env.allocate d bytes alignment = .ok a → a.present = true
  zero : ∀ d a len, len ≤ a.committed → (env.zero d a len).isOk = true
  verify : ∀ d a len, len ≤ a.committed → (env.verify d a len).isOk = true

/-- The backends that the operation asks for memory are reliable. -/
def Op.Reliable : Op → Prop
  | .allocate env _ => env.Reliable
  | .migrate env _ _ => env.Reliable
  | _ => True

/-- A backing that is committed is there, and becomes that of a buffer. -/
def Deal.Fulfilled : Deal → Prop
  | .book h => h.backing.present = true
  | .waste _ _ _ _ _ => False
  | .lose _ _ => False
  | _ => True

theorem Deal.Closing.fulfilled {deal : Deal} (h : deal.Closing) : deal.Fulfilled := by
  cases deal <;> trivial

section Reliable

variable {env : Env} (h : env.Reliable) (rt : RuntimeImpl) (os : Os)

include h

theorem Env.Reliable.zeroFails (req : AllocationRequest) (a : NativeAllocation)
    (lastOwner : Option NamespaceId) : rt.zeroFails env req a lastOwner = false := by
  unfold RuntimeImpl.zeroFails
  rw [h.zero req.domain a a.committed (UInt64.le_refl _), Bool.not_true, Bool.and_false]

theorem RuntimeImpl.allocateDeals_fulfilled (req : AllocationRequest) :
    ∀ deal ∈ rt.allocateDeals os env req, deal.Fulfilled := by
  unfold allocateDeals
  split
  · simp
  simp only
  split
  · rw [h.zeroFails, if_neg Bool.false_ne_true]
    simp [Deal.Fulfilled]
  split
  · simp [Deal.Fulfilled]
  rename_i a ha
  have hpresent : (os.stamp a).present = true := h.memory _ _ _ a ha
  split
  · simp [Deal.Fulfilled]
  · rw [h.zeroFails, if_neg Bool.false_ne_true]
    simp only [List.forall_mem_cons, List.not_mem_nil, false_implies, implies_true, and_true]
    exact ⟨trivial, hpresent⟩

theorem RuntimeImpl.migrateDeals_fulfilled (ctl : Control) (target : MemoryDomain) :
    ∀ deal ∈ rt.migrateDeals os env ctl target, deal.Fulfilled := by
  unfold migrateDeals
  split
  · simp
  simp only
  split
  · simp [Deal.Fulfilled]
  rename_i a ha
  have hpresent : (os.stamp a).present = true := h.memory _ _ _ a ha
  have hverify := h.verify target (os.stamp a) a.committed (UInt64.le_refl _)
  split
  · simp [Deal.Fulfilled]
  split
  · rename_i hfail
    rw [hfail] at hverify
    cases hverify
  · simp only [List.forall_mem_cons, List.not_mem_nil, false_implies, implies_true, and_true]
    refine ⟨trivial, hpresent, ?_⟩
    split <;> trivial

end Reliable

namespace World

/-- With reliable backends no backing is committed in vain. -/
theorem deals_fulfilled (w : World) {op : Op} (hop : op.Reliable) :
    ∀ deal ∈ w.deals op, deal.Fulfilled := by
  cases op with
  | allocate env req => exact RuntimeImpl.allocateDeals_fulfilled hop _ _ _
  | migrate env i target =>
      show ∀ deal ∈ w.migrateDeals env i target, deal.Fulfilled
      unfold World.migrateDeals
      split
      · simp
      · exact RuntimeImpl.migrateDeals_fulfilled hop _ _ _ _
  | wrapExternal desc =>
      show ∀ deal ∈ w.core.wrapDeals desc, deal.Fulfilled
      unfold Core.wrapDeals
      split <;> simp [Deal.Fulfilled]
  | importBuffer env desc ns label =>
      show ∀ deal ∈ w.core.importDeals env desc ns label, deal.Fulfilled
      unfold Core.importDeals Core.segmentDeals
      split
      · split
        · split <;> simp [Deal.Fulfilled]
        · simp
      · simp
  | createNamespace nsc =>
      intro deal hmem
      obtain rfl := List.mem_singleton.mp hmem
      trivial
  | _ =>
      intro deal hmem
      refine (w.deals_closing ?_ deal hmem).fulfilled
      trivial

variable {base : List BufferId} {w : World}

/-! ## Properties of whole runs -/

/-- Every deal of the operation satisfies `good` when it is made. -/
def Keeps (good : Stock → Deal → Prop) (w : World) (op : Op) : Prop :=
  Along Stock.apply good w.core.stock (w.deals op)

instance (good : Stock → Deal → Prop) [∀ s deal, Decidable (good s deal)] (w : World) (op : Op) :
    Decidable (w.Keeps good op) :=
  inferInstanceAs (Decidable (Along _ _ _ _))

/-- The rule for conditions on deals: the reservation is looked at in the state before the operation,
and the other deals by what they stand for. -/
theorem keeps_of {good : Stock → Deal → Prop} {w : World} {op : Op}
    (hreserve : ∀ ns d bytes, w.Reserves op ns d bytes → good w.core.stock (.reserve ns d bytes))
    (hrest : ∀ deal, w.Accounts op deal → ∀ s, good s deal) : w.Keeps good op := by
  unfold Keeps
  rcases w.deals_account op with haccount | ⟨ns, d, bytes, rest, hdeals, hres, haccount⟩
  · exact Along.of_mem (fun deal hmem s => hrest deal (haccount deal hmem) s) _
  · rw [hdeals]
    exact ⟨hreserve ns d bytes hres,
      Along.of_mem (fun deal hmem s => hrest deal (haccount deal hmem) s) _⟩

theorem keeps_internal (w : World) {op : Op} (hop : op.Internal) :
    w.Keeps (fun _ deal => deal.Internal) op :=
  Along.of_mem (fun deal hmem _ => w.deals_internal hop deal hmem) _

theorem keeps_fulfilled (w : World) {op : Op} (hop : op.Reliable) :
    w.Keeps (fun _ deal => deal.Fulfilled) op :=
  Along.of_mem (fun deal hmem _ => w.deals_fulfilled hop deal hmem) _

/-- The invariant rule for runs of the program: it is enough to look at the deals. -/
theorem stock_invariant (I : Stock → Prop) (good : Stock → Deal → Prop) {cfg : RuntimeConfig}
    {plat : RuntimeImpl.Platform} {ok : World → Op → Prop}
    (h : Reach World.next ok (World.init cfg plat) w)
    (hgood : ∀ w op, w.RefInv [] → I w.core.stock → ok w op → w.Keeps good op)
    (h₀ : I (World.init cfg plat).core.stock)
    (hstep : ∀ s deal, I s → s.Can deal → good s deal → I (s.apply deal)) : I w.core.stock :=
  h.invariant_acts (fun w => w.core.stock) World.deals (fun _ hw => refInv_reach hw)
    (fun _ op hinv => next_stock hinv op) hgood h₀ hstep

end World

end UnifiedBuffer
