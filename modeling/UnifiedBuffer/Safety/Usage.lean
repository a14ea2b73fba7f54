import UnifiedBuffer.Safety.Generations

set_option autoImplicit false

/-! # The use of buffers

The leases, the maps and the state of a buffer, and how they change. `World.Turn` lists what a
public operation can do to them. -/

namespace UnifiedBuffer

open Lib

/-! ## The use of a block -/

/-- The leases of one kind that a block counts. -/
def Control.leases (ctl : Control) : LeaseKind → Int
  | .read => ctl.readLeases
  | .write => ctl.writeLeases
  | .exclusive => ctl.exclusiveLeases

/-- What the lifecycle of a buffer is about. -/
structure Use where
  leases : LeaseKind → Int
  maps : Int
  ownership : Ownership
  state : BufferState
  finalized : Bool

def Control.use (ctl : Control) : Use :=
  ⟨ctl.leases, ctl.record.mapCount, ctl.record.ownership, ctl.record.state, ctl.finalized⟩

namespace Use

/-- One more lease. -/
def lease (kind : LeaseKind) (u : Use) : Use :=
  { u with
    leases := fun kd => u.leases kd + if kd = kind then 1 else 0
    state := if u.state = .allocated ∨ (kind ≠ .read ∧ u.state = .mapped) then .inUse
      else u.state }

/-- One lease less. The last one takes a buffer in use back. -/
def unlease (kind : LeaseKind) (u : Use) : Use :=
  let leases := fun kd => u.leases kd - if kd = kind then 1 else 0
  { u with
    leases := leases
    state := if leases .read = 0 ∧ leases .write = 0 ∧ leases .exclusive = 0 ∧ u.state = .inUse
      then .allocated else u.state }

/-- One more map. -/
def map (u : Use) : Use :=
  { u with
    maps := u.maps + 1
    state := if validTransition u.state .mapped then .mapped else u.state }

/-- One map less. The last one takes a mapped buffer back. -/
def unmap (u : Use) : Use :=
  { u with
    maps := u.maps - 1
    state := if u.maps - 1 = 0 ∧ u.state = .mapped then .allocated else u.state }

/-- A new backing. -/
def move (u : Use) : Use := { u with state := .allocated }

/-- At least one lease is counted. -/
def Leased (u : Use) : Prop := ∃ kind, 0 < u.leases kind

/-- The states that a registered buffer can be in. -/
def liveStates : List BufferState := [.allocated, .mapped, .inUse, .imported]

/-- The state agrees with the leases and maps as far as the code sees to it. -/
structure InOrder (u : Use) : Prop where
  leases : ∀ kind, 0 ≤ u.leases kind
  maps : 0 ≤ u.maps
  known : u.state ∈ liveStates
  inUse : u.state = .inUse → u.Leased
  mapped : u.state = .mapped → 0 < u.maps
  imported : u.state = .imported → u.ownership = .imported

/-- The state is the same, or has taken a way of the table. -/
def Follows (u u' : Use) : Prop :=
  u'.state = u.state ∨ validTransition u.state u'.state = true

end Use

theorem leaseOnce_use (kind : LeaseKind) (ctl : Control) :
    (BufferHandle.leaseOnce kind ctl).use = ctl.use.lease kind := by
  have hleases : (BufferHandle.leaseOnce kind ctl).leases
      = fun kd => ctl.leases kd + if kd = kind then 1 else 0 := by
    funext kd
    cases kind <;> cases kd <;> simp [BufferHandle.leaseOnce, Control.leases]
  unfold Control.use Use.lease
  rw [hleases]
  cases kind <;> simp [BufferHandle.leaseOnce]

/-- A lease that is there is counted down. -/
theorem unlease_leases {kind : LeaseKind} {ctl : Control} (h : 0 < ctl.leases kind)
    (kd : LeaseKind) :
    (unlease kind ctl).leases kd = ctl.leases kd - if kd = kind then 1 else 0 := by
  unfold unlease
  cases kind <;> (replace h := h; simp only [Control.leases] at h) <;>
    simp only [gt_iff_lt, h, if_true] <;> split <;> cases kd <;> simp [Control.leases]

theorem unlease_use {kind : LeaseKind} {ctl : Control} (h : 0 < ctl.leases kind) :
    (unlease kind ctl).use = ctl.use.unlease kind := by
  have hleases := unlease_leases h
  have hrest : (unlease kind ctl).record.mapCount = ctl.record.mapCount ∧
      (unlease kind ctl).record.ownership = ctl.record.ownership ∧
      (unlease kind ctl).finalized = ctl.finalized := by
    unfold unlease
    cases kind <;> simp only <;> split <;> split <;> exact ⟨rfl, rfl, rfl⟩
  have hstate : (unlease kind ctl).record.state =
      if (unlease kind ctl).leases .read = 0 ∧ (unlease kind ctl).leases .write = 0 ∧
        (unlease kind ctl).leases .exclusive = 0 ∧ ctl.record.state = .inUse
      then .allocated else ctl.record.state := by
    unfold unlease
    cases kind <;> simp only <;> split <;> split <;> rename_i hcond <;>
      first | exact (if_pos hcond).symm | exact (if_neg hcond).symm
  unfold Control.use Use.unlease
  simp only [hstate, hrest, funext hleases]

theorem mapOnce_use (ctl : Control) :
    ({ ctl with record := BufferHandle.mapOnce ctl.record } : Control).use = ctl.use.map := rfl

theorem unmapOnce_use {ctl : Control} (h : 0 < ctl.record.mapCount) :
    ({ ctl with record := unmapOnce ctl.record } : Control).use = ctl.use.unmap := by
  have hmaps : (unmapOnce ctl.record).mapCount = ctl.record.mapCount - 1 := by
    unfold unmapOnce
    simp only [gt_iff_lt, h, if_true]
    split <;> rfl
  have hrest : (unmapOnce ctl.record).ownership = ctl.record.ownership := by
    unfold unmapOnce
    simp only [gt_iff_lt, h, if_true]
    split <;> rfl
  have hstate : (unmapOnce ctl.record).state =
      if ctl.record.mapCount - 1 = 0 ∧ ctl.record.state = .mapped then .allocated
      else ctl.record.state := by
    unfold unmapOnce
    simp only [gt_iff_lt, h, if_true]
    split <;> rfl
  unfold Control.use Use.unmap
  simp only [hmaps, hrest, hstate]
  rfl

/-! ## Leases and maps keep the order -/

namespace Use

variable {u : Use}

/-- A new buffer is in order. -/
theorem InOrder.start (hleases : ∀ kind, u.leases kind = 0) (hmaps : u.maps = 0)
    (hstate : u.state = .allocated ∨ u.state = .imported ∧ u.ownership = .imported) :
    u.InOrder := by
  refine ⟨fun kind => Int.le_of_eq (hleases kind).symm, Int.le_of_eq hmaps.symm, ?_, fun hs => ?_,
    fun hs => ?_, fun hs => ?_⟩ <;> rcases hstate with h | ⟨h, hown⟩
  · rw [h]
    decide
  · rw [h]
    decide
  all_goals first | exact hown | (rw [h] at hs; cases hs)

theorem InOrder.lease (h : u.InOrder) (kind : LeaseKind) :
    (u.lease kind).InOrder ∧ u.Follows (u.lease kind) := by
  have hheld : (u.lease kind).Leased := by
    refine ⟨kind, ?_⟩
    have := h.leases kind
    simp only [Use.lease, if_true]
    omega
  have hleases : ∀ kd, 0 ≤ (u.lease kind).leases kd := by
    intro kd
    have := h.leases kd
    simp only [Use.lease]
    split <;> omega
  -- a read lease of a mapped buffer leaves the state as it is
  by_cases hfree : u.state = .allocated ∨ (kind ≠ .read ∧ u.state = .mapped)
  · have hstate : (u.lease kind).state = .inUse := if_pos hfree
    refine ⟨⟨hleases, h.maps, ?_, fun _ => hheld, ?_, ?_⟩, Or.inr ?_⟩
    · rw [hstate]
      decide
    · rw [hstate]
      exact nofun
    · rw [hstate]
      exact nofun
    · rw [hstate]
      rcases hfree with hs | ⟨-, hs⟩ <;> rw [hs] <;> rfl
  · have hstate : (u.lease kind).state = u.state := if_neg hfree
    refine ⟨⟨hleases, h.maps, ?_, fun _ => hheld, ?_, ?_⟩, Or.inl hstate⟩
    all_goals rw [hstate]
    · exact h.known
    · exact h.mapped
    · exact h.imported

theorem InOrder.map (h : u.InOrder) : u.map.InOrder ∧ u.Follows u.map := by
  have hmaps : 0 < u.map.maps := by
    have := h.maps
    simp only [Use.map]
    omega
  by_cases hvalid : validTransition u.state .mapped = true
  · have hstate : u.map.state = .mapped := if_pos hvalid
    refine ⟨⟨h.leases, Int.le_of_lt hmaps, ?_, ?_, fun _ => hmaps, ?_⟩, Or.inr ?_⟩
    all_goals rw [hstate]
    · decide
    · exact nofun
    · exact nofun
    · exact hvalid
  · have hstate : u.map.state = u.state := if_neg hvalid
    refine ⟨⟨h.leases, Int.le_of_lt hmaps, ?_, ?_, fun _ => hmaps, ?_⟩, Or.inl hstate⟩
    all_goals rw [hstate]
    · exact h.known
    · exact h.inUse
    · exact h.imported

theorem InOrder.unlease (h : u.InOrder) {kind : LeaseKind} (hkind : 0 < u.leases kind) :
    (u.unlease kind).InOrder ∧ u.Follows (u.unlease kind) := by
  have hleases : ∀ kd, 0 ≤ (u.unlease kind).leases kd := by
    intro kd
    have := h.leases kd
    simp only [Use.unlease]
    split
    · rename_i heq
      subst heq
      omega
    · omega
  by_cases hlast : ((u.unlease kind).leases .read = 0 ∧ (u.unlease kind).leases .write = 0 ∧
      (u.unlease kind).leases .exclusive = 0 ∧ u.state = .inUse)
  · have hstate : (u.unlease kind).state = .allocated := if_pos hlast
    refine ⟨⟨hleases, h.maps, ?_, ?_, ?_, ?_⟩, Or.inr ?_⟩
    all_goals rw [hstate]
    · decide
    · exact nofun
    · exact nofun
    · exact nofun
    · rw [hlast.2.2.2]
      rfl
  · have hstate : (u.unlease kind).state = u.state := if_neg hlast
    refine ⟨⟨hleases, h.maps, ?_, fun huse => ?_, ?_, ?_⟩, Or.inl hstate⟩
    all_goals rw [hstate] at *
    · exact h.known
    · -- a lease is left, or the state would have been taken back
      by_contra hnone
      refine hlast ⟨?_, ?_, ?_, huse⟩
      all_goals
        exact Int.le_antisymm (Int.not_lt.mp fun hpos => hnone ⟨_, hpos⟩) (hleases _)
    · exact h.mapped
    · exact h.imported

theorem InOrder.unmap (h : u.InOrder) (hmap : 0 < u.maps) :
    u.unmap.InOrder ∧ u.Follows u.unmap := by
  have hmaps : 0 ≤ u.unmap.maps := by
    simp only [Use.unmap]
    omega
  by_cases hlast : u.maps - 1 = 0 ∧ u.state = .mapped
  · have hstate : u.unmap.state = .allocated := if_pos hlast
    refine ⟨⟨h.leases, hmaps, ?_, ?_, ?_, ?_⟩, Or.inr ?_⟩
    all_goals rw [hstate]
    · decide
    · exact nofun
    · exact nofun
    · exact nofun
    · rw [hlast.2]
      rfl
  · have hstate : u.unmap.state = u.state := if_neg hlast
    refine ⟨⟨h.leases, hmaps, ?_, ?_, fun hmapped => ?_, ?_⟩, Or.inl hstate⟩
    all_goals rw [hstate] at *
    · exact h.known
    · exact h.inUse
    · have hmore : u.maps - 1 ≠ 0 := fun hzero => hlast ⟨hzero, hmapped⟩
      simp only [Use.unmap]
      omega
    · exact h.imported

theorem InOrder.move (h : u.InOrder) : u.move.InOrder ∧ u.Follows u.move := by
  have hstate : BufferState.allocated ∈ liveStates := by decide
  refine ⟨⟨h.leases, h.maps, hstate, nofun, nofun, nofun⟩, ?_⟩
  have hknown : u.state = .allocated ∨ u.state = .mapped ∨ u.state = .inUse ∨
      u.state = .imported := by
    simpa [liveStates] using h.known
  unfold Follows
  rcases hknown with hs | hs | hs | hs <;> rw [hs]
  · exact Or.inl rfl
  all_goals exact Or.inr rfl

/-- With no lease and no map left, the buffer can be finalized. -/
theorem InOrder.unused (h : u.InOrder) (hleases : ∀ kind, u.leases kind = 0) (hmaps : u.maps = 0) :
    u.state = .allocated ∨ u.state = .imported := by
  have hknown : u.state = .allocated ∨ u.state = .mapped ∨ u.state = .inUse ∨
      u.state = .imported := by
    simpa [liveStates] using h.known
  rcases hknown with hs | hs | hs | hs
  · exact Or.inl hs
  · have := h.mapped hs
    omega
  · obtain ⟨kind, hpos⟩ := h.inUse hs
    have := hleases kind
    omega
  · exact Or.inr hs

end Use

/-! ## Changes of use -/

namespace Core

/-- The blocks are used as before. -/
structure SameUses (c c' : Core) : Prop where
  length : c'.ctls.length = c.ctls.length
  uses : ∀ j, (c'.control j).use = (c.control j).use

/-- The use of block `k` has changed, that of no other. -/
structure Changes (c : Core) (k : CtlId) (f : Use → Use) (c' : Core) : Prop where
  length : c'.ctls.length = c.ctls.length
  block : (c'.control k).use = f (c.control k).use
  others : ∀ j, j ≠ k → (c'.control j).use = (c.control j).use

variable {c c' c'' : Core} {k : CtlId} {f : Use → Use}

theorem SameUses.of_ctls (h : c'.ctls = c.ctls) : c.SameUses c' :=
  ⟨by rw [h], fun j => by rw [control_congr h]⟩

theorem SameUses.trans (h : c.SameUses c') (h' : c'.SameUses c'') : c.SameUses c'' :=
  ⟨h'.length.trans h.length, fun j => (h'.uses j).trans (h.uses j)⟩

theorem Changes.trans_same (h : c.Changes k f c') (h' : c'.SameUses c'') : c.Changes k f c'' :=
  ⟨h'.length.trans h.length, (h'.uses k).trans h.block,
    fun j hj => (h'.uses j).trans (h.others j hj)⟩

theorem changes_modify (hk : k < c.ctls.length) {g : Control → Control}
    (hg : (g (c.control k)).use = f (c.control k).use) : c.Changes k f (c.modify k g) :=
  ⟨List.length_modify _ _ _, by rw [c.control_modify g hk, hg],
    fun j hj => by rw [c.control_modify_ne g hj]⟩

theorem changes_set (hk : k < c.ctls.length) {ctl : Control} (hset : c'.ctls = c.ctls.set k ctl)
    (huse : ctl.use = f (c.control k).use) : c.Changes k f c' := by
  refine ⟨by rw [hset, List.length_set], ?_, fun j hj => ?_⟩
  · rw [control_of_set hset hk, if_pos rfl, huse]
  · rw [control_of_set hset hk, if_neg hj]

/-- A change of a block that is not about its use. -/
theorem sameUses_modify (c : Core) (k : CtlId) {g : Control → Control}
    (hg : ∀ ctl, (g ctl).use = ctl.use) : c.SameUses (c.modify k g) := by
  refine ⟨List.length_modify _ _ _, fun j => ?_⟩
  by_cases hjk : j = k
  · subst hjk
    by_cases hj : j < c.ctls.length
    · rw [c.control_modify g hj, hg]
    · unfold control modify
      rw [List.modify_eq_self (Nat.le_of_not_lt hj)]
  · rw [c.control_modify_ne g hjk]

theorem sameUses_retain (c : Core) (k : CtlId) : c.SameUses (c.retain k) :=
  c.sameUses_modify k fun _ => rfl

/-- What a finalization does. -/
theorem finalize_changes (env : Env) (hk : c.Alive k) : ∃ ownership, c.Changes k
    (fun u => { u with ownership := ownership, state := .released, finalized := true })
    (c.finalize env k true) := by
  obtain ⟨backing, ownership, l, pool, hctl, -⟩ := c.rt.finalize_first c.os env true hk.2
  have hset : (c.finalize env k true).ctls
      = c.ctls.set k (RuntimeImpl.finalControl (c.control k) backing ownership) := by
    rw [← hctl]
    rfl
  exact ⟨ownership, changes_set hk.1 hset rfl⟩

end Core

/-! ## The leases of a program -/

namespace Obj

/-- The block that the object is a lease of this kind on. -/
def leasePin (kind : LeaseKind) : Obj → Option CtlId
  | .lease l => if l.kind = kind then l.ctl else none
  | _ => none

theorem leasePin_eq_pin {o : Obj} {kind : LeaseKind} {k : CtlId} (h : o.leasePin kind = some k) :
    o.pin = some k := by
  cases o with
  | lease l =>
      have hctl : (if l.kind = kind then l.ctl else none) = some k := h
      split at hctl
      · exact hctl
      · cases hctl
  | handle _ | map _ | view _ => cases h

theorem Empty.leasePin {o : Obj} (h : o.Empty) (kind : LeaseKind) : o.leasePin kind = none := by
  cases hk : o.leasePin kind with
  | none => rfl
  | some k =>
      have hpin := leasePin_eq_pin hk
      rw [h.pin] at hpin
      cases hpin

/-- What letting go of an object does to the use of its block. -/
def putDown : Obj → Use → Use
  | .lease l => Use.unlease l.kind
  | .map _ => Use.unmap
  | _ => id

end Obj

namespace World

variable {w : World} {op : Op} {base : List BufferId}

/-- The number of leases of one kind on block `k`. -/
def leases (w : World) (kind : LeaseKind) (k : CtlId) : Nat :=
  w.objs.countP (fun o => o.leasePin kind = some k)

theorem leases_append (w : World) (c : Core) (o : Obj) (kind : LeaseKind) (k : CtlId) :
    leases { core := c, objs := w.objs ++ [o] } kind k
      = w.leases kind k + if o.leasePin kind = some k then 1 else 0 := by
  simp [leases, List.countP_append, List.countP_cons]

theorem leases_set {i : Nat} {o : Obj} (ho : w.objs[i]? = some o) (c : Core) (o' : Obj)
    (kind : LeaseKind) (k : CtlId) :
    leases { core := c, objs := w.objs.set i o' } kind k
        + (if o.leasePin kind = some k then 1 else 0)
      = w.leases kind k + if o'.leasePin kind = some k then 1 else 0 := by
  simpa [leases] using countP_set_add (fun o => decide (o.leasePin kind = some k)) (b := o') ho

/-- A lease on a block is a reference to it. -/
theorem leases_le_pins (w : World) (kind : LeaseKind) (k : CtlId) : w.leases kind k ≤ w.pins k :=
  List.countP_mono_left fun o _ h => by
    simp only [decide_eq_true_eq] at h ⊢
    exact Obj.leasePin_eq_pin h

/-- An object that holds nothing takes the place of `o`. -/
theorem leases_drop {i : Nat} {o o' : Obj} (ho : w.objs[i]? = some o) (c : Core)
    (hempty : o'.Empty) (kind : LeaseKind) (k : CtlId) :
    leases { core := c, objs := w.objs.set i o' } kind k
      + (if o.leasePin kind = some k then 1 else 0) = w.leases kind k := by
  have hset := leases_set ho c o' kind k
  rw [hempty.leasePin kind] at hset
  simpa using hset

theorem leases_moveFrom (w : World) (src : Nat) (kind : LeaseKind) (k : CtlId) :
    (w.moveFrom src).2.leases kind k = w.leases kind k := by
  unfold World.moveFrom
  cases ho : w.objs[src]? with
  | none => rfl
  | some o =>
      have hset := leases_drop ho w.core (Obj.empty_movedFrom o) kind k
      rw [← hset]
      exact leases_append { w with objs := w.objs.set src o.movedFrom } w.core o kind k

/-- A move into a position whose object holds nothing. -/
theorem leases_moveTo {dst src : Nat} {o e : Obj} (hne : dst ≠ src)
    (hsrc : w.objs[src]? = some o) (hdst : w.objs[dst]? = some e) (hempty : e.Empty)
    (kind : LeaseKind) (k : CtlId) :
    leases { w with objs := (w.objs.set src o.movedFrom).set dst o } kind k = w.leases kind k := by
  have hdst' : (w.objs.set src o.movedFrom)[dst]? = some e := by
    rw [List.getElem?_set_ne (Ne.symm hne)]
    exact hdst
  have hleft := leases_drop hsrc w.core (Obj.empty_movedFrom o) kind k
  have hmoved := leases_set (w := { w with objs := w.objs.set src o.movedFrom }) hdst' w.core o
    kind k
  rw [hempty.leasePin kind] at hmoved
  simp only [reduceCtorEq, if_false, Nat.add_zero] at hmoved
  rw [hmoved]
  exact hleft

/-- The object that an operation takes the reference from. -/
def dropped (w : World) : Op → Option Obj
  | .moveAssign _ dst src =>
      match w.objs[dst]?, w.objs[src]? with
      | some o, some o' => if dst = src ∨ ¬ o.sameClass o' then none else some o
      | _, _ => none
  | .release _ i => w.objs[i]?
  | .destroy _ i => w.objs[i]?
  | _ => none

theorem released_eq (w : World) (op : Op) : w.released op = (w.dropped op).bind Obj.pin := by
  cases op with
  | moveAssign env dst src =>
      unfold released dropped
      simp only
      generalize w.objs[dst]? = target, w.objs[src]? = source
      cases target with
      | none => rfl
      | some o =>
          cases source with
          | none => rfl
          | some o' =>
              simp only
              split <;> rfl
  | _ => rfl

/-- An operation that takes no reference from any object leaves the program as it is. -/
theorem next_of_not_dropped {env : Env} (henv : op.releases = some env)
    (hnone : w.dropped op = none) : w.next op = w := by
  cases op with
  | release env' i =>
      show w.releaseAt env' i = w
      unfold World.releaseAt
      rw [show w.objs[i]? = none from hnone]
  | destroy env' i =>
      show w.destroyAt env' i = w
      unfold World.destroyAt
      rw [show w.objs[i]? = none from hnone]
  | moveAssign env' dst src =>
      show w.moveAssign env' dst src = w
      unfold World.moveAssign
      unfold dropped at hnone
      simp only at hnone
      split
      · rename_i o o' hdst hsrc
        rw [hdst, hsrc] at hnone
        simp only at hnone
        split
        · rfl
        · rename_i hcond
          rw [if_neg hcond] at hnone
          cases hnone
      · rfl
  | _ => cases henv

/-- What the release of the object `o` does to the runtime and to the leases. -/
theorem RefInv.dropped_next (hinv : w.RefInv base) {o : Obj} (ho : w.dropped op = some o) :
    ∃ env, op.releases = some env ∧ o ∈ w.objs ∧
      (w.next op).core = o.releaseCore w.core env ∧
      ∀ kind k, (w.next op).leases kind k + (if o.leasePin kind = some k then 1 else 0)
        = w.leases kind k := by
  have hdestroy : ∀ (env : Env) {i : Nat}, w.objs[i]? = some o →
      w.destroyAt env i = ⟨o.releaseCore w.core env, w.objs.set i (o.reset w.core env).1⟩ := by
    intro env i hi
    unfold World.destroyAt
    rw [hi]
    simp only
    rw [Obj.reset_core, Obj.release_core (hinv.objs o (List.mem_of_getElem? hi))]
  cases op with
  | release env i =>
      have hi : w.objs[i]? = some o := ho
      have hok := hinv.objs o (List.mem_of_getElem? hi)
      have hnext : w.next (.release env i)
          = ⟨o.releaseCore w.core env, w.objs.set i (o.release w.core env).1⟩ := by
        show w.releaseAt env i = _
        unfold World.releaseAt
        rw [hi]
        simp only
        rw [Obj.release_core hok]
      refine ⟨env, rfl, List.mem_of_getElem? hi, by rw [hnext], fun kind k => ?_⟩
      rw [hnext]
      exact leases_drop hi _ (Obj.empty_release hok _ _) kind k
  | destroy env i =>
      have hi : w.objs[i]? = some o := ho
      have hok := hinv.objs o (List.mem_of_getElem? hi)
      have hnext : w.next (.destroy env i) = _ := hdestroy env hi
      refine ⟨env, rfl, List.mem_of_getElem? hi, by rw [hnext], fun kind k => ?_⟩
      rw [hnext]
      exact leases_drop hi _ (Obj.empty_reset hok _ _) kind k
  | moveAssign env dst src =>
      unfold dropped at ho
      simp only at ho
      split at ho
      · rename_i o₁ o' hdst hsrc
        split at ho
        · cases ho
        rename_i hcond
        cases ho
        have hne : dst ≠ src := fun heq => hcond (Or.inl heq)
        have hok := hinv.objs o (List.mem_of_getElem? hdst)
        have hempty := Obj.empty_reset hok w.core env
        have hlt : dst < w.objs.length := (List.getElem?_eq_some_iff.mp hdst).1
        -- the target is released first, then the source moves into its place
        have hnext : w.next (.moveAssign env dst src)
            = { w.destroyAt env dst with
                objs := ((w.destroyAt env dst).objs.set src o'.movedFrom).set dst o' } := by
          show w.moveAssign env dst src = _
          unfold World.moveAssign
          rw [hdst, hsrc]
          simp only [if_neg hcond]
        refine ⟨env, rfl, List.mem_of_getElem? hdst, ?_, fun kind k => ?_⟩
        · rw [hnext, hdestroy env hdst]
        · have hdrop := leases_drop hdst (o.releaseCore w.core env) hempty kind k
          rw [← hdestroy env hdst] at hdrop
          rw [← hdrop, hnext, leases_moveTo hne _ _ hempty]
          · rw [hdestroy env hdst, List.getElem?_set_ne hne]
            exact hsrc
          · rw [hdestroy env hdst, List.getElem?_set_self hlt]
      · cases ho
  | _ => cases ho

end World

/-! ## What an operation does -/

/-- What an operation can do to the leases of the program and to the use of the blocks. -/
inductive World.Turn (w : World) (op : Op) : Prop
  /-- nothing, apart from references -/
  | rests (still : w.released op = none)
      (counts : ∀ kd j, (w.next op).leases kd j = w.leases kd j)
      (blocks : w.core.SameUses (w.next op).core)
  /-- a new block -/
  | created {u : Use} (still : w.released op = none)
      (counts : ∀ kd j, (w.next op).leases kd j = w.leases kd j)
      (length : (w.next op).core.ctls.length = w.core.ctls.length + 1)
      (new : ((w.next op).core.control w.core.ctls.length).use = u)
      (unused : (∀ kd, u.leases kd = 0) ∧ u.maps = 0 ∧ u.finalized = false)
      (state : u.state = .allocated ∨ u.state = .imported ∧ u.ownership = .imported)
      (old : ∀ j, j < w.core.ctls.length →
        ((w.next op).core.control j).use = (w.core.control j).use)
  /-- a lease is granted -/
  | leased {kind : LeaseKind} {i : Nat} {k : CtlId} (hop : op = .acquire kind i)
      (valid : (w.handle i).validateAlive w.core = .ok k)
      (free : BufferHandle.leaseConflicts kind (w.core.control k) = false)
      (counts : ∀ kd j, (w.next op).leases kd j
        = w.leases kd j + if kd = kind ∧ j = k then 1 else 0)
      (blocks : w.core.Changes k (Use.lease kind) (w.next op).core)
  /-- the buffer is mapped -/
  | mapped {k : CtlId} (still : w.released op = none) (alive : w.core.Alive k)
      (counts : ∀ kd j, (w.next op).leases kd j = w.leases kd j)
      (blocks : w.core.Changes k Use.map (w.next op).core)
  /-- the buffer is migrated to another domain -/
  | moved {k : CtlId} (still : w.released op = none) (moves : w.moves op k = true)
      (alive : w.core.Alive k)
      (counts : ∀ kd j, (w.next op).leases kd j = w.leases kd j)
      (blocks : w.core.Changes k Use.move (w.next op).core)
  /-- an object is released -/
  | dropped {o : Obj} {k : CtlId} {env : Env} (drop : w.dropped op = some o)
      (pin : o.pin = some k)
      (counts : ∀ kd j, (w.next op).leases kd j + (if o.leasePin kd = some j then 1 else 0)
        = w.leases kd j)
      (core : (w.next op).core = (o.letGo w.core k).dropRef env k)

/-- The result adds no block, or one whose record has the property `P`. -/
def Core.Adds (c : Core) (P : Record → Prop) (p : Except Error CtlId × Core) : Prop :=
  p.2.ctls = c.ctls ∨ ∃ (c₁ : Core) (r : Record),
    p = (.ok (c₁.register r).1, (c₁.register r).2) ∧ c₁.ctls = c.ctls ∧ P r

/-- The record of a new buffer. -/
def Record.Starts (r : Record) : Prop :=
  r.mapCount = 0 ∧ (r.state = .allocated ∨ r.state = .imported ∧ r.ownership = .imported)

theorem Core.Brings.adds {c : Core} {P Q : Record → Prop} {p : Except Error CtlId × Core}
    (h : c.Brings P p) (hPQ : ∀ r, P r → Q r) : c.Adds Q p := by
  cases h with
  | failed booked => exact Or.inl booked.ctls
  | known booked => exact Or.inl booked.ctls
  | fresh booked made => exact Or.inr ⟨_, _, rfl, booked.ctls, hPQ _ made⟩

theorem Core.allocate_adds (c : Core) (env : Env) (req : AllocationRequest) :
    c.Adds Record.Starts (c.allocate env req) := by
  have hrun := c.rt.allocateRecord_run c.os env req
  unfold Core.allocate
  generalize c.rt.allocateRecord c.os env req = out at hrun ⊢
  cases hrun with
  | refused | backendFailed | commitFailed | freshZeroFailed | pooledZeroFailed =>
      exact Or.inl rfl
  | fresh | pooled => exact Or.inr ⟨⟨_, _, c.ctls⟩, _, rfl, rfl, rfl, Or.inl rfl⟩

namespace World

variable {w : World} {op : Op} {base : List BufferId}

theorem leases_give {c : Core} {o : Obj} (ho : ∀ kind, o.leasePin kind = none) (kind : LeaseKind)
    (k : CtlId) : leases { core := c, objs := w.objs ++ [o] } kind k = w.leases kind k := by
  rw [leases_append, ho kind, if_neg nofun, Nat.add_zero]

theorem turn_giveHandle {p : Except Error CtlId × Core} (hstill : w.released op = none)
    (hnext : w.next op = (w.giveHandle p).2) (h : w.core.Adds Record.Starts p) : w.Turn op := by
  have hcounts : ∀ kd j, (w.next op).leases kd j = w.leases kd j := by
    intro kd j
    rw [hnext]
    obtain ⟨res, c⟩ := p
    cases res with
    | error e => rfl
    | ok k => exact leases_give (fun _ => rfl) kd j
  -- no block was made, or the new one is the last of the list
  rcases h with hctls | ⟨c₁, r, rfl, hctls, hmaps, hstate⟩
  · refine .rests hstill hcounts ?_
    rw [hnext]
    obtain ⟨res, c⟩ := p
    cases res with
    | error e => exact .of_ctls hctls
    | ok k => exact (Core.SameUses.of_ctls hctls).trans (c.sameUses_retain k)
  · have huse := (c₁.register r).2.sameUses_retain (c₁.register r).1
    have hcore : (w.next op).core = (c₁.register r).2.retain (c₁.register r).1 := by
      rw [hnext]
      rfl
    have hblock := c₁.control_register r
    rw [hctls] at hblock
    refine .created (u := Control.use { record := r, poolEligible := r.poolEligible })
      hstill hcounts ?_ ?_ ⟨fun kd => ?_, hmaps, rfl⟩ hstate fun j hj => ?_
    · rw [hcore, huse.length]
      show (c₁.ctls ++ [_]).length = _
      rw [hctls, List.length_append]
      rfl
    · rw [hcore, huse.uses, hblock, if_pos rfl]
    · cases kd <;> rfl
    · rw [hcore, huse.uses, hblock, if_neg (Nat.ne_of_lt hj), Core.control_congr hctls]

/-- The new world differs only in statistics. -/
theorem turn_idle {c : Core} (hstill : w.released op = none)
    (hnext : w.next op = { w with core := c }) (hctls : c.ctls = w.core.ctls) : w.Turn op := by
  refine .rests hstill (fun kd j => ?_) ?_ <;> rw [hnext]
  · rfl
  · exact .of_ctls hctls

/-- One more handle or view. -/
theorem turn_refers {o : Obj} {k : CtlId} (ho : ∀ kind, o.leasePin kind = none)
    (hstill : w.released op = none)
    (hnext : w.next op = { core := w.core.retain k, objs := w.objs ++ [o] }) : w.Turn op := by
  refine .rests hstill (fun kd j => ?_) ?_ <;> rw [hnext]
  · exact leases_give ho kd j
  · exact w.core.sameUses_retain k

theorem turn_share (w : World) (i : Nat) : w.Turn (.share i) := by
  have hstep : w.next (.share i) = (w.give .handle ((w.handle i).share w.core)).2 := rfl
  unfold BufferHandle.share at hstep
  cases hk : (w.handle i).validateAlive w.core with
  | error e =>
      rw [hk] at hstep
      exact turn_idle rfl hstep rfl
  | ok k =>
      rw [hk] at hstep
      exact turn_refers (fun _ => rfl) rfl hstep

theorem turn_view (w : World) (i : Nat) (offset len : UInt64) (access : AccessMode) :
    w.Turn (.view i offset len access) := by
  have hstep : w.next (.view i offset len access)
    = (w.give .view ((w.handle i).view w.core offset len access)).2 := rfl
  unfold BufferHandle.view at hstep
  simp only at hstep
  split at hstep
  · exact turn_idle rfl hstep rfl
  split at hstep
  · exact turn_idle rfl hstep rfl
  split at hstep
  · exact turn_idle rfl hstep rfl
  split at hstep
  · exact turn_idle rfl hstep rfl
  · exact turn_refers (fun _ => rfl) rfl hstep

theorem turn_map (hinv : w.RefInv base) (env : Env) (i : Nat) (access : AccessMode) :
    w.Turn (.map env i access) := by
  have hstep : w.next (.map env i access)
    = (w.give .map ((w.handle i).map w.core env access)).2 := rfl
  unfold BufferHandle.map at hstep
  simp only at hstep
  split at hstep
  · exact turn_idle rfl hstep rfl
  rename_i k hk
  have halive : w.core.Alive k := hinv.alive (handle_alive hinv (ensureValid_ok hk)).1
  split at hstep
  · exact turn_idle rfl hstep rfl
  split at hstep
  · exact turn_idle rfl hstep rfl
  split at hstep
  · exact turn_idle rfl hstep rfl
  refine .mapped (k := k) rfl halive (fun kd j => ?_) ?_
  · rw [hstep]
    exact leases_give (fun _ => rfl) kd j
  · rw [hstep]
    have hmap := Core.changes_modify (f := Use.map)
      (g := fun ctl => { ctl with record := BufferHandle.mapOnce ctl.record }) halive.1
      (mapOnce_use (w.core.control k))
    exact (hmap.trans_same (Core.sameUses_retain _ k)).trans_same (.of_ctls rfl)

/-- What a lease that is granted does. -/
theorem acquire_granted (hinv : w.RefInv base) {kind : LeaseKind} {i : Nat} {k : CtlId}
    (hk : (w.handle i).validateAlive w.core = .ok k)
    (hfree : BufferHandle.leaseConflicts kind (w.core.control k) = false) :
    (∀ kd j, (w.next (.acquire kind i)).leases kd j
      = w.leases kd j + if kd = kind ∧ j = k then 1 else 0) ∧
    w.core.Changes k (Use.lease kind) (w.next (.acquire kind i)).core := by
  have halive : w.core.Alive k := hinv.alive (handle_alive hinv hk).1
  have hstep : w.next (.acquire kind i)
    = (w.give .lease ((w.handle i).acquire kind w.core)).2 := rfl
  unfold BufferHandle.acquire at hstep
  simp only [hk, hfree, Bool.false_eq_true, if_false] at hstep
  rw [hstep]
  constructor
  · intro kd j
    refine (leases_append w _ _ kd j).trans (congrArg (w.leases kd j + ·) ?_)
    simp only [Obj.leasePin]
    by_cases hkd : kind = kd
    · subst hkd
      simp [eq_comm]
    · simp [hkd, Ne.symm hkd]
  · exact (Core.changes_modify halive.1 (leaseOnce_use kind _)).trans_same
      (Core.sameUses_retain _ k)

theorem turn_acquire (hinv : w.RefInv base) (kind : LeaseKind) (i : Nat) :
    w.Turn (.acquire kind i) := by
  have hstep : w.next (.acquire kind i)
    = (w.give .lease ((w.handle i).acquire kind w.core)).2 := rfl
  unfold BufferHandle.acquire at hstep
  cases hk : (w.handle i).validateAlive w.core with
  | error e =>
      rw [hk] at hstep
      exact turn_idle rfl hstep rfl
  | ok k =>
      cases hfree : BufferHandle.leaseConflicts kind (w.core.control k) with
      | true =>
          simp only [hk, hfree, if_true] at hstep
          exact turn_idle rfl hstep rfl
      | false =>
          obtain ⟨hcounts, hblocks⟩ := acquire_granted hinv hk hfree
          exact .leased rfl hk hfree hcounts hblocks

end World

/-- A migration to another domain resets the state; one that fails, or to the same domain, leaves
the use of all blocks as it is. -/
theorem Core.migrate_uses (c : Core) (env : Env) {k : CtlId} (hk : k < c.ctls.length)
    (target : MemoryDomain) :
    if (c.control k).record.domain ≠ target ∧ (c.migrate env k target).1.isOk = true then
      c.Changes k Use.move (c.migrate env k target).2
    else c.SameUses (c.migrate env k target).2 := by
  have hrun := c.rt.migrate_run c.os env (c.control k) target
  unfold Core.migrate
  generalize c.rt.migrate c.os env (c.control k) target = out at hrun ⊢
  have hkept : ∀ (rt' : RuntimeImpl) (os' : Os),
      c.SameUses { rt := rt', os := os', ctls := c.ctls.set k (c.control k) } := by
    intro rt' os'
    refine ⟨List.length_set, fun j => ?_⟩
    rw [control_of_set (c := c) rfl hk j]
    split
    · rename_i hjk
      rw [hjk]
    · rfl
  cases hrun with
  | refused | backendFailed | copyFailed | commitFailed | verifyFailed =>
      rw [if_neg fun hcond => Bool.noConfusion hcond.2]
      exact hkept _ _
  | stays _ same =>
      rw [if_neg fun hcond => hcond.1 same]
      exact hkept _ _
  | swapped admission =>
      rw [if_pos ⟨RuntimeImpl.migrateAdmit_ne admission, rfl⟩]
      exact changes_set hk rfl rfl

namespace World

variable {w : World} {op : Op} {base : List BufferId}

/-- Which blocks a migration moves. -/
theorem moves_migrate (env : Env) (target : MemoryDomain) {i : Nat} {k : CtlId}
    (hk : (w.handle i).validateAlive w.core = .ok k) :
    w.moves (.migrate env i target) k = true ↔
      (w.core.control k).record.domain ≠ target ∧ (w.core.migrate env k target).1.isOk = true := by
  unfold moves
  simp only [hk, w.migrate_isOk hk, Bool.and_eq_true, decide_eq_true_eq, true_and]

theorem migrate_uses_next (hinv : w.RefInv base) (env : Env) (target : MemoryDomain) {i : Nat}
    {k : CtlId} (hk : (w.handle i).validateAlive w.core = .ok k) :
    (∀ kd j, (w.next (.migrate env i target)).leases kd j = w.leases kd j) ∧
    if w.moves (.migrate env i target) k = true then
      w.core.Changes k Use.move (w.next (.migrate env i target)).core
    else w.core.SameUses (w.next (.migrate env i target)).core := by
  have hlt := (hinv.alive (handle_alive hinv hk).1).1
  have huses := w.core.migrate_uses env hlt target
  simp only [moves_migrate env target hk]
  have hstep : w.next (.migrate env i target) = (w.migrate env i target).2 := rfl
  unfold World.migrate at hstep
  rw [hk] at hstep
  simp only at hstep
  generalize w.core.migrate env k target = out at hstep huses
  obtain ⟨res, c⟩ := out
  -- one more handle, if the migration succeeds
  have hafter : c.SameUses (w.next (.migrate env i target)).core := by
    rw [hstep]
    cases res with
    | error e => exact .of_ctls rfl
    | ok u => exact c.sameUses_retain k
  refine ⟨fun kd j => ?_, ?_⟩
  · rw [hstep]
    cases res with
    | error e => rfl
    | ok u => exact leases_give (fun _ => rfl) kd j
  · split at huses
    · rename_i hcond
      rw [if_pos hcond]
      exact huses.trans_same hafter
    · rename_i hcond
      rw [if_neg hcond]
      exact huses.trans hafter

theorem turn_migrate (hinv : w.RefInv base) (env : Env) (i : Nat) (target : MemoryDomain) :
    w.Turn (.migrate env i target) := by
  cases hk : (w.handle i).validateAlive w.core with
  | error e =>
      have hstep : w.next (.migrate env i target) = (w.migrate env i target).2 := rfl
      unfold World.migrate at hstep
      rw [hk] at hstep
      exact turn_idle rfl hstep rfl
  | ok k =>
      have halive : w.core.Alive k := hinv.alive (handle_alive hinv hk).1
      obtain ⟨hcounts, huses⟩ := migrate_uses_next hinv env target hk
      split at huses
      · rename_i hmoves
        exact .moved rfl hmoves halive hcounts huses
      · exact .rests rfl hcounts huses

/-- A block that is moved is that of a valid handle. -/
theorem moves_changes (hinv : w.RefInv base) {k : CtlId} (h : w.moves op k = true) :
    (∀ kd j, (w.next op).leases kd j = w.leases kd j) ∧
      w.core.Changes k Use.move (w.next op).core := by
  cases op with
  | migrate env i target =>
      cases hk : (w.handle i).validateAlive w.core with
      | error e =>
          unfold moves at h
          simp [hk] at h
      | ok j =>
          obtain rfl : j = k := by
            unfold moves at h
            simp only [hk, Bool.and_eq_true, decide_eq_true_eq] at h
            exact h.1.1
          obtain ⟨hcounts, huses⟩ := migrate_uses_next hinv env target hk
          rw [if_pos h] at huses
          exact ⟨hcounts, huses⟩
  | _ => cases h

theorem turn_dropped (hinv : w.RefInv base) {env : Env} (henv : op.releases = some env) :
    w.Turn op := by
  cases ho : w.dropped op with
  | none =>
      have hstill : w.released op = none := by rw [released_eq, ho, Option.bind_none]
      exact turn_idle hstill (next_of_not_dropped henv ho) rfl
  | some o =>
      obtain ⟨env', -, -, hcore, hcounts⟩ := hinv.dropped_next ho
      unfold Obj.releaseCore at hcore
      cases hpin : o.pin with
      | none =>
          rw [hpin] at hcore
          have hstill : w.released op = none := by rw [released_eq, ho, Option.bind_some, hpin]
          refine .rests hstill (fun kd j => ?_) (.of_ctls (by rw [hcore]))
          have hnone : ¬ o.leasePin kd = some j := fun hj => by
            rw [Obj.leasePin_eq_pin hj] at hpin
            cases hpin
          rw [← hcounts kd j, if_neg hnone, Nat.add_zero]
      | some k =>
          rw [hpin] at hcore
          exact .dropped ho hpin hcounts hcore

/-- **The list is complete.** -/
theorem RefInv.turn (hinv : w.RefInv base) (op : Op) : w.Turn op := by
  cases op with
  | allocate env req =>
      have hstep : w.next (.allocate env req) = (w.allocate env req).2 := rfl
      unfold World.allocate at hstep
      split at hstep
      · exact turn_idle rfl hstep rfl
      · exact turn_giveHandle rfl hstep (w.core.allocate_adds env req)
  | wrapExternal desc =>
      refine turn_giveHandle rfl rfl ((w.core.wrapExternal_brings desc).adds fun r hr => ?_)
      obtain ⟨-, -, dom, id, rfl⟩ := hr
      exact ⟨rfl, Or.inl rfl⟩
  | importBuffer env desc ns label =>
      refine turn_giveHandle rfl rfl
        ((w.core.importDescriptor_brings env desc ns label).adds fun r hr => ?_)
      obtain ⟨-, id, a, -, -, rfl⟩ := hr
      exact ⟨rfl, Or.inr ⟨rfl, rfl⟩⟩
  | exportBuffer env i =>
      have hstep : w.next (.exportBuffer env i) = (w.exportBuffer env i).2 := rfl
      unfold World.exportBuffer at hstep
      split at hstep
      · exact turn_idle rfl hstep rfl
      · exact turn_idle rfl hstep (exportDescriptor_idle _ env _).ctls
  | migrate env i target => exact turn_migrate hinv env i target
  | share i => exact turn_share w i
  | view i offset len access => exact turn_view w i offset len access
  | map env i access => exact turn_map hinv env i access
  | acquire kind i => exact turn_acquire hinv kind i
  | verify env i => exact turn_idle rfl rfl (verify_idle _ _ env).ctls
  | checksum i => exact turn_idle rfl rfl (checksum_idle _ _).ctls
  | copyTo env i dst dstOffset len =>
      exact turn_idle rfl rfl (copyTo_idle _ _ env dst dstOffset len).ctls
  | copyFrom env i src srcOffset len =>
      exact turn_idle rfl rfl (copyFrom_idle _ _ env src srcOffset len).ctls
  | construct o =>
      refine .rests rfl (fun kd j => ?_) (.of_ctls rfl)
      exact leases_give (Obj.empty_empty o).leasePin kd j
  | move src =>
      refine .rests rfl (fun kd j => leases_moveFrom w src kd j) (.of_ctls ?_)
      show (w.moveFrom src).2.core.ctls = w.core.ctls
      unfold World.moveFrom
      split <;> rfl
  | moveAssign env dst src => exact turn_dropped hinv rfl
  | release env i => exact turn_dropped hinv rfl
  | destroy env i => exact turn_dropped hinv rfl
  | invalidate env id =>
      exact turn_idle rfl rfl (congrArg Core.ctls (hinv.invalidate env id))
  | poolTrim => exact turn_idle rfl rfl rfl
  | shutdown env =>
      refine turn_idle rfl rfl ?_
      rw [hinv.core.shutdown_eq env]
      split <;> rfl
  | createNamespace nsc => exact turn_idle rfl rfl rfl

end World

end UnifiedBuffer
