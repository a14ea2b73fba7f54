import UnifiedBuffer.Safety.Fates
import UnifiedBuffer.Safety.Rollback

set_option autoImplicit false

/-! # The accounting of external buffers

`wrap_external` and the import of a segment charge no bytes. The finalization of such a buffer goes
through the same branch as that of an allocated one and subtracts its size, unless the memory was
only borrowed. The subtraction stops at zero, so it does no harm if the namespace has nothing
committed in that domain; otherwise the charge of other buffers is lost. -/

namespace UnifiedBuffer

open Lib

/-! ## The accounting of a release -/

theorem Ledger.SameCells.of_eq {l l' : Ledger} (h : l' = l) : l.SameCells l' :=
  ⟨fun _ _ => by rw [h], fun _ _ => by rw [h], fun _ _ => by rw [h]⟩

theorem satSub_eq_self_iff {a b : UInt64} (hb : b ≠ 0) : satSub a b = a ↔ a = 0 := by
  have hpos : b.toNat ≠ 0 := fun h => hb ((toNat_eq_zero_iff b).mp h)
  rw [← UInt64.toNat_inj, toNat_satSub, ← toNat_eq_zero_iff a]
  omega

/-- `free_accounting` changes nothing exactly if there is nothing to subtract from. -/
theorem Ledger.freeAccounting_same_iff (l : Ledger) (ns : NamespaceId) (d : MemoryDomain)
    {bytes : UInt64} (hbytes : bytes ≠ 0) :
    l.SameCells (l.freeAccounting ns d bytes) ↔
      l.committed.get ns d = 0 ∧ l.allocated.get ns d = 0 := by
  constructor
  · intro h
    have hcomm := h.committed ns d
    have halloc := h.allocated ns d
    simp only [freeAccounting, Cells.get_set_self] at hcomm halloc
    exact ⟨(satSub_eq_self_iff hbytes).mp hcomm, (satSub_eq_self_iff hbytes).mp halloc⟩
  · rintro ⟨hcomm, halloc⟩
    exact ⟨fun ns' d' => Cells.get_set_same _ _ _ _ _ _ ((satSub_eq_self_iff hbytes).mpr hcomm),
      fun _ _ => rfl,
      fun ns' d' => Cells.get_set_same _ _ _ _ _ _ ((satSub_eq_self_iff hbytes).mpr halloc)⟩

/-- The ledger after the finalization of a buffer that does not go to the pool. -/
def Ledger.settled (l : Ledger) (r : Record) : Ledger :=
  if r.backing.present = true ∧ r.ownership ≠ .borrowed then
    l.freeAccounting r.ns r.domain r.committed
  else l

theorem RuntimeImpl.finalize_settles (rt : RuntimeImpl) {ctl : Control} (os : Os) (env : Env)
    (hf : ctl.finalized = false) (hpooled : ctl.record.flags.pooled = false) :
    (rt.finalize os env ctl true).2.1.ledger = rt.ledger.settled ctl.record := by
  have hdirect : rt.returnsToPool ctl.record true = false := by
    simp [returnsToPool, hpooled]
  have hrun := rt.finalize_run os env ctl true
  generalize rt.finalize os env ctl true = out at hrun ⊢
  cases hrun with
  | again done =>
      rw [hf] at done
      cases done
  | kept _ skip state =>
      have hskip : ¬ (ctl.record.backing.present = true ∧ ctl.record.ownership ≠ .borrowed) := by
        rintro ⟨hpresent, howned⟩
        rcases skip with h | h
        · rw [hpresent] at h
          cases h
        · exact howned h
      rw [Ledger.settled, if_neg hskip]
      exact state.ledger
  | pooled _ _ _ eligible | evicted _ _ _ eligible =>
      rw [hdirect] at eligible
      cases eligible
  | freed _ present owned _ state =>
      rw [Ledger.settled, if_pos ⟨present, owned⟩]
      exact state.ledger

/-! ## Uses of a buffer -/

/-- The operation only gives or takes references to buffers, and takes none but those of `k`. -/
def World.Uses (w : World) (k : CtlId) (op : Op) : Prop :=
  match op with
  | .share _ | .view .. | .map .. | .acquire .. | .verify .. | .checksum _ | .copyTo ..
  | .copyFrom .. | .construct _ | .move _ => True
  | .moveAssign .. | .release .. | .destroy .. => w.released op = some k ∨ w.released op = none
  | _ => False

/-- The block `k` has the record `r` and the ledger is `l`, or the block is finalized and, if it
did not go to the pool, the ledger is settled. -/
structure Core.Spent (c : Core) (k : CtlId) (r : Record) (l : Ledger) : Prop where
  alive : (c.control k).finalized = false → c.rt.ledger = l ∧ r.Same (c.control k).record
  done : (c.control k).finalized = true → r.flags.pooled = false → c.rt.ledger = l.settled r

namespace Core.Spent

variable {c c' : Core} {k : CtlId} {r : Record} {l : Ledger}

theorem frame (h : c.Spent k r l) (hledger : c'.rt.ledger = c.rt.ledger)
    (hblock : (c.control k).SameBuffer (c'.control k)) : c'.Spent k r l := by
  refine ⟨fun halive => ?_, fun hdone hpooled => ?_⟩
  · rw [hblock.finalized] at halive
    obtain ⟨hl, hr⟩ := h.alive halive
    exact ⟨hledger.trans hl, hr.trans hblock.record⟩
  · rw [hblock.finalized] at hdone
    exact hledger.trans (h.done hdone hpooled)

theorem finalize (h : c.Spent k r l) (env : Env) (hk : c.Alive k) :
    (c.finalize env k true).Spent k r l := by
  obtain ⟨hl, hr⟩ := h.alive hk.2
  have hfin := Core.finalize_finalized env hk.1 hk.2
  refine ⟨fun halive => ?_, fun _ hpooled => ?_⟩
  · rw [hfin] at halive
    cases halive
  · have hflags : (c.control k).record.flags.pooled = false := by
      rw [hr]
      exact hpooled
    have hsettled := c.rt.finalize_settles c.os env hk.2 hflags
    rw [hl] at hsettled
    refine hsettled.trans ?_
    rw [hr]
    rfl

end Core.Spent

theorem World.spent_effects {w : World} {op : Op} {k : CtlId} {r : Record} {l : Ledger}
    (hop : w.Uses k op) (h : w.core.Spent k r l) :
    w.Effects op (fun c => c.Spent k r l) where
  noted hb hc := hc.frame hb.quiet.ledger (hb.control k ▸ .refl _)
  adjusted j _ hf hc := hc.frame rfl (Core.sameBuffer_modify _ j hf k)
  allocate _ _ heq := by subst heq; exact hop.elim
  wrapExternal _ heq := by subst heq; exact hop.elim
  importBuffer _ _ _ _ heq := by subst heq; exact hop.elim
  migrate _ _ _ _ heq := by subst heq; exact hop.elim
  copyTo env i dst dstOffset len _ := by
    have hidle := copyTo_idle (w.handle i) w.core env dst dstOffset len
    exact h.frame hidle.quiet.ledger (Core.control_congr hidle.ctls k ▸ .refl _)
  copyFrom env i src srcOffset len _ := by
    have hidle := copyFrom_idle (w.handle i) w.core env src srcOffset len
    exact h.frame hidle.quiet.ledger (Core.control_congr hidle.ctls k ▸ .refl _)
  finalize env j henv hrel _ hj halive hc := by
    -- no other buffer loses a reference
    have hjk : j = k := by
      have huses : w.released op = some k ∨ w.released op = none := by
        cases op with
        | moveAssign | release | destroy => exact hop
        | _ => cases henv
      rw [hrel] at huses
      exact Option.some.inj (huses.resolve_right (Option.some_ne_none j))
    subst hjk
    exact hc.finalize env ⟨hj, halive⟩
  poolTrim heq := by subst heq; exact hop.elim
  shutdown _ heq := by subst heq; exact hop.elim
  createNamespace _ heq := by subst heq; exact hop.elim

theorem World.RefInv.spent_runs {w : World} {base : List BufferId} (hinv : w.RefInv base)
    {k : CtlId}
    {r : Record} {l : Ledger} (h : w.core.Spent k r l) {ops : List Op}
    (hops : Along World.next (fun w op => w.Uses k op) w ops) :
    (Lib.runs World.next w ops).core.Spent k r l := by
  induction ops generalizing w with
  | nil => exact h
  | cons op ops ih =>
      exact ih (hinv.next op) ((spent_effects hops.1 h).next hinv h) hops.2

/-! ## Creation -/

/-- The call has registered a new block, with a record that has the property `P`, and has not
touched the ledger. -/
def Core.Registers (c : Core) (P : Record → Prop) (out : Except Error CtlId × Core) : Prop :=
  ∃ (c₁ : Core) (r : Record), out = (.ok (c₁.register r).1, (c₁.register r).2) ∧ P r ∧
    c₁.ctls = c.ctls ∧ c₁.rt.ledger = c.rt.ledger

theorem Core.wrapExternal_registers {c : Core} {desc : ExternalMemoryDesc}
    (hok : (c.wrapExternal desc).1.isOk = true) :
    c.Registers (Wraps desc) (c.wrapExternal desc) := by
  unfold Core.wrapExternal at hok ⊢
  split at hok
  · cases hok
  rename_i hopen
  rw [if_neg hopen]
  split at hok
  · cases hok
  rename_i hdesc
  rw [if_neg hdesc]
  cases hdom : c.rt.domain desc.domain with
  | none =>
      rw [hdom] at hok
      cases hok
  | some dom =>
      simp only [hdom] at hok ⊢
      cases hr : c.rt.reserveCount kDefaultNamespace with
      | mk res rt₁ =>
          rcases RuntimeImpl.reserveCount_cases hr with ⟨e, rfl, hq⟩ | ⟨rfl, rfl⟩
          · rw [hr] at hok
            cases hok
          · exact ⟨_, _, rfl, ⟨fun h => hdesc (Or.inl h), fun h => hdesc (Or.inr h), dom, _, rfl⟩,
              rfl, rfl⟩

theorem Core.importDescriptor_registers {c : Core} {env : Env} {desc : ExportDescriptor}
    {ns : NamespaceId} {label : String} (hkind : (handleKind desc.domain).isSome)
    (hok : (c.importDescriptor env desc ns label).1.isOk = true) :
    c.Registers (Opens env desc ns label c.os) (c.importDescriptor env desc ns label) := by
  unfold Core.importDescriptor at hok ⊢
  split at hok
  · cases hok
  rename_i hopen
  rw [if_neg hopen]
  cases hcheck : c.checkImport desc ns with
  | error e =>
      rw [hcheck] at hok
      cases hok
  | ok u =>
      simp only [hcheck, hkind, if_true] at hok ⊢
      unfold Core.importSegment Os.importHandle at hok ⊢
      cases hdom : (({ c with rt := c.rt.nextId.2 } : Core).rt.domain desc.domain) with
      | none =>
          simp only [hdom] at hok
          cases hok
      | some dom =>
          cases ha : env.importHandle desc.domain desc.handle desc.size
              (if desc.alignment ≠ 0 then desc.alignment else 64) with
          | error e =>
              simp only [hdom, ha] at hok
              cases hok
          | ok a =>
              simp only [hdom, ha] at hok ⊢
              split at hok
              · cases hok
              · rename_i hroom
                rw [if_neg hroom]
                refine ⟨_, _, rfl, ⟨checkImport_size hcheck, _, a, ha, UInt64.not_lt.mp hroom, rfl⟩,
                  rfl, ?_⟩
                exact (noteImport_quiet _ _ _).ledger

/-- After the call, the program holds the only reference to the new block. -/
theorem World.registers_spent {w : World} {P : Record → Prop} {out : Except Error CtlId × Core}
    (h : w.core.Registers P out) :
    ∃ r, P r ∧ (w.giveHandle out).2.core.Spent w.core.ctls.length r w.core.rt.ledger := by
  obtain ⟨c₁, r, rfl, hP, hctls, hledger⟩ := h
  refine ⟨r, hP, ?_⟩
  have hblock : (c₁.register r).2.control w.core.ctls.length
      = { record := r, poolEligible := r.poolEligible } := by
    rw [Core.control_register, hctls, if_pos rfl]
  have hspent : (c₁.register r).2.Spent w.core.ctls.length r w.core.rt.ledger := by
    refine ⟨fun _ => ⟨hledger, ?_⟩, fun hdone => ?_⟩
    · rw [hblock]
      exact .refl r
    · rw [hblock] at hdone
      cases hdone
  -- handing out the handle adds a reference
  have hretain := (c₁.register r).2.sameBuffer_modify (c₁.register r).1
    (f := fun ctl => { ctl with refs := ctl.refs + 1 }) (fun _ => ⟨rfl, rfl⟩) w.core.ctls.length
  exact hspent.frame rfl hretain

/-- The operation creates a buffer of memory from outside: it wraps memory, or imports a descriptor
of a segment. -/
def Op.External : Op → Prop
  | .wrapExternal _ => True
  | .importBuffer env desc _ _ => (Core.handleKind desc.domain).isSome = true ∧
      ∀ d handle size alignment a, env.importHandle d handle size alignment = .ok a →
        a.present = true
  | _ => False

/-- The cell that the release of the external buffer is booked on, if any. -/
def Op.settles : Op → Option (NamespaceId × MemoryDomain)
  | .wrapExternal desc =>
      if desc.ownership = .borrow then none else some (kDefaultNamespace, desc.domain)
  | .importBuffer _ desc ns _ => some (ns, desc.domain)
  | _ => none

/-- What the release of the external buffer with the record `r` does to the ledger. -/
structure Op.Settles (op : Op) (r : Record) : Prop where
  pooled : r.flags.pooled = false
  size : r.committed ≠ 0
  charged : (r.backing.present = true ∧ r.ownership ≠ .borrowed) ↔
    op.settles = some (r.ns, r.domain)
  nothing : op.settles = none ∨ op.settles = some (r.ns, r.domain)

theorem wraps_settles {desc : ExternalMemoryDesc} {r : Record} (h : Core.Wraps desc r) :
    (Op.wrapExternal desc).Settles r := by
  obtain ⟨hpointer, hsize, dom, id, rfl⟩ := h
  have hpresent : (Core.externalRecord dom desc id).backing.present = true := by
    simp [Core.externalRecord, NativeAllocation.present, hpointer]
  refine ⟨rfl, hsize, ?_, ?_⟩
  · simp only [hpresent, true_and]
    cases hown : desc.ownership <;> simp [Core.externalRecord, Op.settles, hown]
  · cases hown : desc.ownership <;> simp [Core.externalRecord, Op.settles, hown]

theorem opens_settles {env : Env} {desc : ExportDescriptor} {ns : NamespaceId} {label : String}
    {os : Os} {r : Record} (hext : (Op.importBuffer env desc ns label).External)
    (h : Core.Opens env desc ns label os r) : (Op.importBuffer env desc ns label).Settles r := by
  obtain ⟨hsize, id, a, ha, -, rfl⟩ := h
  have hpresent : (os.stamp a).present = true := hext.2 _ _ _ _ a ha
  refine ⟨rfl, hsize, iff_of_true ⟨hpresent, ?_⟩ rfl, Or.inr rfl⟩
  exact Ownership.noConfusion

/-- The settled ledger of an external buffer. -/
theorem Op.Settles.same_iff {op : Op} {r : Record} (h : op.Settles r) (l : Ledger) :
    l.SameCells (l.settled r) ↔ ∀ ns d, op.settles = some (ns, d) →
      l.committed.get ns d = 0 ∧ l.allocated.get ns d = 0 := by
  unfold Ledger.settled
  split
  · rename_i hcharged
    rw [l.freeAccounting_same_iff r.ns r.domain h.size, h.charged.mp hcharged]
    constructor
    · rintro hzero ns d heq
      cases heq
      exact hzero
    · intro hzero
      exact hzero _ _ rfl
  · rename_i hfree
    refine iff_of_true (.of_eq rfl) fun ns d heq => ?_
    -- an operation that settles nothing has no cell
    rcases h.nothing with hnone | hsome
    · rw [hnone] at heq
      cases heq
    · exact absurd (h.charged.mpr hsome) hfree

theorem World.external_created {w : World} {op : Op} (hext : op.External)
    (hok : (w.step op).1.isOk = true) :
    ∃ r : Record, op.Settles r ∧ (w.next op).core.Spent w.core.ctls.length r w.core.rt.ledger := by
  have hgive : ∀ {out : Except Error CtlId × Core}, (w.giveHandle out).1.isOk = true →
      out.1.isOk = true := by
    rintro ⟨res, c⟩ h
    cases res with
    | error e => cases h
    | ok k => rfl
  cases op with
  | wrapExternal desc =>
      obtain ⟨r, hr, hspent⟩ := registers_spent (Core.wrapExternal_registers (hgive hok))
      exact ⟨r, wraps_settles hr, hspent⟩
  | importBuffer env desc ns label =>
      obtain ⟨r, hr, hspent⟩ :=
        registers_spent (Core.importDescriptor_registers hext.1 (hgive hok))
      exact ⟨r, opens_settles hext hr, hspent⟩
  | _ => exact hext.elim

theorem Core.lookup_ledger (c : Core) (id : BufferId) (gen : BufferGeneration) :
    (c.lookup id gen).2.rt.ledger = c.rt.ledger := by
  unfold Core.lookup
  repeat' split
  all_goals rfl

/-- An import that opens no segment leaves the ledger alone. -/
theorem Core.importDescriptor_ledger (c : Core) (env : Env) {desc : ExportDescriptor}
    (ns : NamespaceId) (label : String) (hkind : handleKind desc.domain = none) :
    (c.importDescriptor env desc ns label).2.rt.ledger = c.rt.ledger := by
  unfold Core.importDescriptor
  split
  · rfl
  cases c.checkImport desc ns with
  | error e => rfl
  | ok u =>
      simp only [hkind, Option.isSome_none, Bool.false_eq_true, if_false]
      split
      · have hb := lookup_ledger { c with rt := c.rt.nextId.2 } desc.bufferId desc.generation
        generalize Core.lookup { c with rt := c.rt.nextId.2 } desc.bufferId desc.generation = out
          at hb ⊢
        obtain ⟨res, c₂⟩ := out
        cases res <;> exact hb
      · rfl

/-- **External buffers and the byte accounting**: a buffer of wrapped memory or of an imported
segment, used in any way and then released for good, leaves all cells as they were before its
creation exactly if it was borrowed, or nothing was committed and allocated in the cell of its
namespace and domain. As long as it is alive, the cells are as they were before; so they are after
an import that only finds a registered buffer. -/
theorem external_neutral_iff {cfg : RuntimeConfig} {plat : RuntimeImpl.Platform} {w : World}
    (hreach : Reach World.next (fun _ _ => True) (World.init cfg plat) w) :
    (∀ (op : Op) (ops : List Op), op.External → (w.step op).1.isOk = true →
      Along World.next (fun w' op' => w'.Uses w.core.ctls.length op') (w.next op) ops →
      if ((runs World.next (w.next op) ops).core.control w.core.ctls.length).finalized then
        (w.core.rt.ledger.SameCells (runs World.next (w.next op) ops).core.rt.ledger ↔
          ∀ ns d, op.settles = some (ns, d) →
            w.core.rt.ledger.committed.get ns d = 0 ∧ w.core.rt.ledger.allocated.get ns d = 0)
      else w.core.rt.ledger.SameCells (runs World.next (w.next op) ops).core.rt.ledger) ∧
    ∀ (env : Env) (desc : ExportDescriptor) (ns : NamespaceId) (label : String) (k : CtlId)
      (ops : List Op), Core.handleKind desc.domain = none →
      (w.next (.importBuffer env desc ns label)).core.Alive k →
      Along World.next (fun w' op' => w'.Uses k op') (w.next (.importBuffer env desc ns label)) ops →
      ((runs World.next (w.next (.importBuffer env desc ns label)) ops).core.control k).finalized
        = false →
      w.core.rt.ledger.SameCells
        (runs World.next (w.next (.importBuffer env desc ns label)) ops).core.rt.ledger := by
  have hinv : w.RefInv [] := World.refInv_reach hreach
  refine ⟨fun op ops hext hok hops => ?_, fun env desc ns label k ops hkind hk hops hend => ?_⟩
  · obtain ⟨r, hsettles, hspent⟩ := World.external_created hext hok
    have hrun := (hinv.next op).spent_runs hspent hops
    -- a finalized buffer was settled once, and a live one has touched no cell
    split
    · rename_i hdone
      rw [hrun.done hdone hsettles.pooled]
      exact hsettles.same_iff _
    · rename_i halive
      exact .of_eq (hrun.alive (Bool.eq_false_iff.mpr halive)).1
  · have hledger : (w.next (.importBuffer env desc ns label)).core.rt.ledger = w.core.rt.ledger := by
      have himport := w.core.importDescriptor_ledger env ns label hkind
      show (w.giveHandle (w.core.importDescriptor env desc ns label)).2.core.rt.ledger = _
      rw [← himport]
      generalize w.core.importDescriptor env desc ns label = out
      obtain ⟨res, c⟩ := out
      cases res <;> rfl
    have hspent : (w.next (.importBuffer env desc ns label)).core.Spent k _ w.core.rt.ledger :=
      ⟨fun _ => ⟨hledger, .refl _⟩, fun hdone => by rw [hk.2] at hdone; cases hdone⟩
    exact .of_eq (((hinv.next _).spent_runs hspent hops).alive hend).1

def onePageOut : World :=
  (World.init {} {}).next (.allocate (.findsAt 4096) { size := 4096 })

/-- Borrowed memory, shared once, released twice. -/
theorem external_neutral_iff_borrowed :
    onePageOut.core.rt.ledger.SameCells
      (runs World.next (onePageOut.next (.wrapExternal { pointer := 9000, size := 100 }))
        [.share 1, .release {} 1, .release {} 2]).core.rt.ledger := by
  have hreach : Reach World.next (fun _ _ => True) (World.init {} {}) onePageOut :=
    .next _ .start trivial
  have hneutral := (external_neutral_iff hreach).1
    (.wrapExternal { pointer := 9000, size := 100 }) [.share 1, .release {} 1, .release {} 2]
    trivial (by decide) ⟨trivial, Or.inl (by decide), Or.inl (by decide), trivial⟩
  have hdone : ((runs World.next (onePageOut.next (.wrapExternal { pointer := 9000, size := 100 }))
      [.share 1, .release {} 1, .release {} 2]).core.control onePageOut.core.ctls.length).finalized
        = true := by decide
  rw [if_pos hdone] at hneutral
  exact hneutral.mpr nofun

/-- The release of 100 adopted bytes is booked against the page of another buffer. -/
theorem adopted_release_debits_page :
    onePageOut.core.rt.ledger.committed.get kDefaultNamespace .host = 4096 ∧
      ((onePageOut.next (.wrapExternal { pointer := 9000, size := 100, ownership := .adopt })).next
        (.release {} 1)).core.rt.ledger.committed.get kDefaultNamespace .host = 3996 := by
  refine ⟨by decide, by decide⟩

end UnifiedBuffer
