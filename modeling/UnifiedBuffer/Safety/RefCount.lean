import UnifiedBuffer.Lib.Run
import UnifiedBuffer.Safety.References

set_option autoImplicit false

/-! # Reference counting

Between public operations the reference count of a control block is the number of objects of the
program that refer to it, the registry holds exactly the blocks with a reference, and `finalize`
has done its work once on all others. -/

namespace UnifiedBuffer

open Lib

/-! ## Objects -/

namespace Obj

/-- The block that an object holds a reference to. -/
def pin : Obj → Option Nat
  | .handle h => if h.valid then h.ctl else none
  | .lease l => l.ctl
  | .map m => m.ctl
  | .view v => v.ctl

/-- The block that an object maps. -/
def mapPin : Obj → Option Nat
  | .map m => m.ctl
  | _ => none

/-- An object with a pointer to a block also has one to the runtime. -/
def Ok : Obj → Prop
  | .handle h => h.valid = true → h.rt = true
  | .lease l => l.ctl.isSome → l.rt = true
  | .map m => m.ctl.isSome → m.rt = true
  | .view v => v.ctl.isSome → v.rt = true

theorem mapPin_eq_pin {o : Obj} {k : Nat} (h : o.mapPin = some k) : o.pin = some k := by
  cases o with
  | map m => exact h
  | handle h' => cases h
  | lease l => cases h
  | view v => cases h

end Obj

namespace World

/-- The number of objects that refer to block `k`. -/
def pins (w : World) (k : Nat) : Nat := w.objs.countP (fun o => o.pin = some k)

/-- The number of maps of block `k`. -/
def maps (w : World) (k : Nat) : Nat := w.objs.countP (fun o => o.mapPin = some k)

/-- The invariant between two public operations. -/
structure RefInv (base : List BufferId) (w : World) : Prop where
  core : w.core.Refs base w.pins w.maps
  objs : ∀ o ∈ w.objs, o.Ok

end World

/-! ## Release of an object -/

namespace Obj

/-- What the release of an object does to its block before it drops the reference. -/
def letGo (o : Obj) (c : Core) (k : Nat) : Core :=
  match o with
  | .lease l => c.modify k (unlease l.kind)
  | .map _ =>
      (c.modifyRecord k unmapOnce).count (fun t => { t with unmapCount := t.unmapCount + 1 })
  | _ => c

/-- What the release of an object does to the runtime. -/
def releaseCore (o : Obj) (c : Core) (env : Env) : Core :=
  match o.pin with
  | none => c
  | some k => (o.letGo c k).dropRef env k

theorem release_core {o : Obj} (hok : o.Ok) (c : Core) (env : Env) :
    (o.release c env).2 = o.releaseCore c env := by
  cases o with
  | handle h =>
      obtain ⟨rt, ctl, id, gen, valid⟩ := h
      cases valid with
      | false => cases ctl <;> rfl
      | true =>
          -- an object that refers to a block refers to the runtime as well
          obtain rfl : rt = true := hok rfl
          cases ctl <;> rfl
  | lease l =>
      obtain ⟨rt, ctl, gen, kind⟩ := l
      cases ctl with
      | none => rfl
      | some k =>
          obtain rfl : rt = true := hok rfl
          rfl
  | map m =>
      obtain ⟨rt, ctl, gen, access, data⟩ := m
      cases ctl with
      | none => rfl
      | some k =>
          obtain rfl : rt = true := hok rfl
          rfl
  | view v =>
      obtain ⟨rt, ctl, gen, off, len, access, data⟩ := v
      cases ctl with
      | none => rfl
      | some k =>
          obtain rfl : rt = true := hok rfl
          rfl

/-- The destructor of a handle does to the runtime what `release` does. -/
theorem reset_core (o : Obj) (c : Core) (env : Env) : (o.reset c env).2 = (o.release c env).2 := by
  cases o with
  | handle h =>
      obtain ⟨rt, ctl, id, gen, valid⟩ := h
      cases valid <;> cases ctl <;> rfl
  | lease l => rfl
  | map m => rfl
  | view v => rfl

/-- An object that holds no reference. -/
structure Empty (o : Obj) : Prop where
  pin : o.pin = none
  mapPin : o.mapPin = none
  ok : o.Ok

theorem empty_movedFrom (o : Obj) : o.movedFrom.Empty := by
  cases o <;> exact ⟨rfl, rfl, fun h => by cases h⟩

theorem empty_empty (o : Obj) : (World.empty o).Empty := by
  cases o <;> exact ⟨rfl, rfl, fun h => by cases h⟩

theorem empty_release {o : Obj} (hok : o.Ok) (c : Core) (env : Env) :
    (o.release c env).1.Empty := by
  cases o with
  | handle h =>
      obtain ⟨rt, ctl, id, gen, valid⟩ := h
      cases valid with
      | false => cases ctl <;> exact ⟨rfl, rfl, hok⟩
      | true =>
          cases ctl with
          | none => exact ⟨rfl, rfl, hok⟩
          | some k => exact ⟨rfl, rfl, fun h => by cases h⟩
  | lease l =>
      obtain ⟨rt, ctl, gen, kind⟩ := l
      cases ctl <;> exact ⟨rfl, rfl, fun h => by cases h⟩
  | map m =>
      obtain ⟨rt, ctl, gen, access, data⟩ := m
      cases ctl <;> exact ⟨rfl, rfl, fun h => by cases h⟩
  | view v =>
      obtain ⟨rt, ctl, gen, off, len, access, data⟩ := v
      cases ctl <;> exact ⟨rfl, rfl, fun h => by cases h⟩

theorem empty_reset {o : Obj} (hok : o.Ok) (c : Core) (env : Env) : (o.reset c env).1.Empty := by
  cases o with
  | handle h => exact ⟨rfl, rfl, fun h => by cases h⟩
  | lease l => exact empty_release hok c env
  | map m => exact empty_release hok c env
  | view v => exact empty_release hok c env

end Obj

theorem sameRefs_unlease (c : Core) (k : Nat) (kind : LeaseKind) :
    c.SameRefs (c.modify k (unlease kind)) := by
  refine Core.sameRefs_modify c k (fun ctl => ?_)
  unfold unlease
  cases kind <;> simp only <;> split <;> split <;> rfl

/-- Releasing an object drops the reference that it holds, and nothing if it holds none. -/
theorem Core.Refs.release {base : List BufferId} {pins pins' maps maps' : Nat → Nat} {c : Core}
    (h : c.Refs base pins maps) (env : Env) (o : Obj)
    (hpin : ∀ k, o.pin = some k → 0 < pins k) (hmap : ∀ k, o.mapPin = some k → 0 < maps k)
    (hp : ∀ j, pins' j = pins j - if o.pin = some j then 1 else 0)
    (hm : ∀ j, maps' j = maps j - if o.mapPin = some j then 1 else 0) :
    (o.releaseCore c env).Refs base pins' maps' := by
  unfold Obj.releaseCore
  cases hk : o.pin with
  | none =>
      have hnone : ∀ j, o.mapPin ≠ some j := fun j hj => by
        rw [Obj.mapPin_eq_pin hj] at hk
        cases hk
      refine h.congr (fun j => ?_) (fun j => ?_)
      · rw [hp, hk]
        rfl
      · rw [hm, if_neg (hnone j)]
        rfl
  | some k =>
      -- a map first gives up its count; the other objects have none
      have hlet : (o.letGo c k).Refs base pins maps' := by
        cases o with
        | map m =>
            have hmk : ∀ j, ((Obj.map m).mapPin = some j) ↔ j = k := fun j => by
              have : (Obj.map m).mapPin = some k := hk
              rw [this, Option.some.injEq, eq_comm]
            refine (h.unmapOnce (hpin k hk) (hmap k hk) (fun j => ?_)).same
              (Core.sameRefs_count _ _ rfl rfl)
            rw [hm]
            simp only [hmk]
        | lease l =>
            exact (h.congr (fun _ => rfl) hm).same (sameRefs_unlease c k l.kind)
        | handle h' => exact h.congr (fun _ => rfl) hm
        | view v => exact h.congr (fun _ => rfl) hm
      refine hlet.dropRef env (hpin k hk) (fun j => ?_)
      rw [hp, hk]
      simp only [Option.some.injEq, eq_comm]

/-! ## Operations that only count -/

/-- Only statistics and the contents of memory have changed. -/
structure Core.Idle (c c' : Core) : Prop where
  quiet : RuntimeImpl.Quiet c.rt c'.rt
  ctls : c'.ctls = c.ctls
  calls : c'.os.calls = c.os.calls

namespace Core.Idle

theorem refl (c : Core) : c.Idle c := ⟨RuntimeImpl.Quiet.refl _, rfl, rfl⟩

theorem trans {c c' c'' : Core} (h : c.Idle c') (h' : c'.Idle c'') : c.Idle c'' :=
  ⟨h.quiet.trans h'.quiet, h'.ctls.trans h.ctls, h'.calls.trans h.calls⟩

theorem count (c : Core) (f : Telemetry → Telemetry)
    (ha : (f c.rt.telem).totalAllocations = c.rt.telem.totalAllocations)
    (hf : (f c.rt.telem).totalFrees = c.rt.telem.totalFrees) : c.Idle (c.count f) :=
  ⟨RuntimeImpl.quiet_count _ f ha hf, rfl, rfl⟩

theorem sameRefs {c c' : Core} (h : c.Idle c') : c.SameRefs c' :=
  Core.sameRefs_of_quiet h.quiet (congrArg (List.map Control.refView) h.ctls)

end Core.Idle

section Idle

variable (h : BufferHandle) (c : Core) (env : Env)

theorem verify_idle : c.Idle (h.verify c env).2 := by
  unfold BufferHandle.verify
  cases h.validateAlive c with
  | error e => exact .refl c
  | ok k =>
      have hc := Core.Idle.count c (fun t => { t with integrityChecks := t.integrityChecks + 1 })
        rfl rfl
      have hfailed := hc.trans (.count _
        (fun t => { t with integrityFailures := t.integrityFailures + 1 }) rfl rfl)
      simp only
      split
      · exact hc
      split
      · exact hc
      split
      · exact hfailed
      split
      · exact hfailed
      · exact hc

theorem checksum_idle : c.Idle (h.checksum c).2 := by
  unfold BufferHandle.checksum
  cases h.validateAlive c with
  | error e => exact .refl c
  | ok k =>
      simp only
      split
      · exact .refl c
      split
      · exact .refl c
      · exact .count c _ rfl rfl

theorem transfer_idle (dst src : Nat) (len : UInt64) (dstDev srcDev : Bool) :
    c.Idle (BufferHandle.transfer c env dst src len dstDev srcDev).2 := by
  have hcalls := Os.copyMemory_calls c.os env dst src len dstDev srcDev
  unfold BufferHandle.transfer
  generalize c.os.copyMemory env dst src len dstDev srcDev = out at hcalls ⊢
  obtain ⟨res, os⟩ := out
  cases res with
  | error e => exact ⟨RuntimeImpl.Quiet.refl _, rfl, hcalls⟩
  | ok u =>
      have hos : c.Idle { c with os := os } := ⟨RuntimeImpl.Quiet.refl _, rfl, hcalls⟩
      exact hos.trans (.count _ _ rfl rfl)

theorem copyTo_idle (dst : Nat) (dstOffset len : UInt64) :
    c.Idle (h.copyTo c env dst dstOffset len).2 := by
  unfold BufferHandle.copyTo
  cases h.ensureValid c .read with
  | error e => exact .refl c
  | ok k =>
      simp only
      split
      · exact .refl c
      split
      · exact .refl c
      split
      · exact .refl c
      · exact transfer_idle c env _ _ _ _ _

theorem copyFrom_idle (src : Nat) (srcOffset len : UInt64) :
    c.Idle (h.copyFrom c env src srcOffset len).2 := by
  unfold BufferHandle.copyFrom
  cases h.ensureValid c .write with
  | error e => exact .refl c
  | ok k =>
      simp only
      split
      · exact .refl c
      split
      · exact .refl c
      split
      · exact .refl c
      · exact transfer_idle c env _ _ _ _ _

theorem exportDescriptor_idle (k : Nat) : c.Idle (c.exportDescriptor env k).2 := by
  have hdone : ∀ f (s : String), RuntimeImpl.Quiet c.rt ((c.rt.count
      (fun t => { t with exportCount := t.exportCount + 1 })).note f s) := fun f s =>
    (RuntimeImpl.quiet_count c.rt _ rfl rfl).trans (RuntimeImpl.quiet_note _ _ _)
  unfold Core.exportDescriptor
  simp only
  split
  · exact .refl c
  split
  · exact .refl c
  split
  · split
    · exact .refl c
    · exact ⟨hdone _ _, rfl, rfl⟩
  · exact ⟨hdone _ _, rfl, rfl⟩

end Idle

/-! ## The objects of the program -/

namespace World

variable {base : List BufferId} {w : World}

theorem pins_pos {i : Nat} {o : Obj} {k : Nat} (ho : w.objs[i]? = some o) (hk : o.pin = some k) :
    0 < w.pins k :=
  List.countP_pos_iff.mpr ⟨o, List.mem_of_getElem? ho, by simp [hk]⟩

theorem maps_pos {i : Nat} {o : Obj} {k : Nat} (ho : w.objs[i]? = some o)
    (hk : o.mapPin = some k) : 0 < w.maps k :=
  List.countP_pos_iff.mpr ⟨o, List.mem_of_getElem? ho, by simp [hk]⟩

theorem pins_append (w : World) (c : Core) (o : Obj) (k : Nat) :
    pins { core := c, objs := w.objs ++ [o] } k = w.pins k + if o.pin = some k then 1 else 0 := by
  simp [pins, List.countP_append, List.countP_cons]

theorem maps_append (w : World) (c : Core) (o : Obj) (k : Nat) :
    maps { core := c, objs := w.objs ++ [o] } k
      = w.maps k + if o.mapPin = some k then 1 else 0 := by
  simp [maps, List.countP_append, List.countP_cons]

theorem pins_set {i : Nat} {o : Obj} (ho : w.objs[i]? = some o) (c : Core) (o' : Obj) (k : Nat) :
    pins { core := c, objs := w.objs.set i o' } k + (if o.pin = some k then 1 else 0)
      = w.pins k + if o'.pin = some k then 1 else 0 := by
  simpa [pins] using countP_set_add (fun o => decide (o.pin = some k)) (b := o') ho

theorem maps_set {i : Nat} {o : Obj} (ho : w.objs[i]? = some o) (c : Core) (o' : Obj) (k : Nat) :
    maps { core := c, objs := w.objs.set i o' } k + (if o.mapPin = some k then 1 else 0)
      = w.maps k + if o'.mapPin = some k then 1 else 0 := by
  simpa [maps] using countP_set_add (fun o => decide (o.mapPin = some k)) (b := o') ho

/-- The runtime changes in a way that does not count. -/
theorem RefInv.same (h : w.RefInv base) {c : Core} (hs : w.core.SameRefs c) :
    RefInv base { w with core := c } :=
  ⟨h.core.same hs, h.objs⟩

/-- A new object that holds one more reference, or none. -/
theorem RefInv.append (h : w.RefInv base) {c : Core} {o : Obj} (hok : o.Ok)
    (hc : c.Refs base (fun j => w.pins j + if o.pin = some j then 1 else 0)
      (fun j => w.maps j + if o.mapPin = some j then 1 else 0)) :
    RefInv base { core := c, objs := w.objs ++ [o] } := by
  refine ⟨hc.congr (fun j => w.pins_append c o j) (fun j => w.maps_append c o j), fun o' ho' => ?_⟩
  rcases List.mem_append.mp ho' with ho' | ho'
  · exact h.objs o' ho'
  · rw [List.mem_singleton.mp ho']
    exact hok

theorem RefInv.ok_set (h : w.RefInv base) {i : Nat} {o' : Obj} (hok : o'.Ok) :
    ∀ a ∈ w.objs.set i o', a.Ok := by
  intro a ha
  rcases List.mem_or_eq_of_mem_set ha with ha | rfl
  · exact h.objs a ha
  · exact hok

theorem RefInv.release (h : w.RefInv base) (env : Env) {i : Nat} {o o' : Obj}
    (ho : w.objs[i]? = some o) (hempty : o'.Empty) :
    RefInv base { core := o.releaseCore w.core env, objs := w.objs.set i o' } := by
  have hp := pins_set ho (o.releaseCore w.core env) o'
  have hm := maps_set ho (o.releaseCore w.core env) o'
  simp only [hempty.pin, hempty.mapPin, reduceCtorEq, if_false, Nat.add_zero] at hp hm
  refine ⟨h.core.release env o (fun k => w.pins_pos ho) (fun k => w.maps_pos ho) (fun j => ?_)
    (fun j => ?_), h.ok_set hempty.ok⟩
  · have := hp j
    omega
  · have := hm j
    omega

theorem RefInv.releaseAt (h : w.RefInv base) (env : Env) (i : Nat) :
    (w.releaseAt env i).RefInv base := by
  unfold World.releaseAt
  cases ho : w.objs[i]? with
  | none => exact h
  | some o =>
      have hok := h.objs o (List.mem_of_getElem? ho)
      simp only
      rw [Obj.release_core hok]
      exact h.release env ho (Obj.empty_release hok _ _)

theorem RefInv.destroyAt (h : w.RefInv base) (env : Env) (i : Nat) :
    (w.destroyAt env i).RefInv base := by
  unfold World.destroyAt
  cases ho : w.objs[i]? with
  | none => exact h
  | some o =>
      have hok := h.objs o (List.mem_of_getElem? ho)
      simp only
      rw [Obj.reset_core, Obj.release_core hok]
      exact h.release env ho (Obj.empty_reset hok _ _)

/-- A move leaves the number of references as it is. -/
theorem RefInv.moveFrom (h : w.RefInv base) (src : Nat) : (w.moveFrom src).2.RefInv base := by
  unfold World.moveFrom
  cases ho : w.objs[src]? with
  | none => exact h
  | some o =>
      have hempty := Obj.empty_movedFrom o
      have hp := pins_set ho w.core o.movedFrom
      have hm := maps_set ho w.core o.movedFrom
      simp only [hempty.pin, hempty.mapPin, reduceCtorEq, if_false, Nat.add_zero] at hp hm
      refine ⟨h.core.congr (fun j => ?_) (fun j => ?_), fun a ha => ?_⟩
      · rw [← hp j]
        exact pins_append { w with objs := w.objs.set src o.movedFrom } w.core o j
      · rw [← hm j]
        exact maps_append { w with objs := w.objs.set src o.movedFrom } w.core o j
      · rcases List.mem_append.mp ha with ha | ha
        · exact h.ok_set hempty.ok a ha
        · rw [List.mem_singleton.mp ha]
          exact h.objs o (List.mem_of_getElem? ho)

/-- A move into a position whose object holds nothing. -/
theorem RefInv.moveTo (h : w.RefInv base) {dst src : Nat} {o e : Obj} (hne : dst ≠ src)
    (hsrc : w.objs[src]? = some o) (hdst : w.objs[dst]? = some e) (hempty : e.Empty) :
    RefInv base { w with objs := (w.objs.set src o.movedFrom).set dst o } := by
  have hmoved := Obj.empty_movedFrom o
  have hdst' : (w.objs.set src o.movedFrom)[dst]? = some e := by
    rw [List.getElem?_set_ne (Ne.symm hne)]
    exact hdst
  have hp := pins_set hsrc w.core o.movedFrom
  have hm := maps_set hsrc w.core o.movedFrom
  have hp' := pins_set (w := { w with objs := w.objs.set src o.movedFrom }) hdst' w.core o
  have hm' := maps_set (w := { w with objs := w.objs.set src o.movedFrom }) hdst' w.core o
  simp only [hmoved.pin, hmoved.mapPin, hempty.pin, hempty.mapPin, reduceCtorEq, if_false,
    Nat.add_zero] at hp hm hp' hm'
  refine ⟨h.core.congr (fun j => (hp' j).trans (hp j)) (fun j => (hm' j).trans (hm j)),
    fun a ha => ?_⟩
  rcases List.mem_or_eq_of_mem_set ha with ha | rfl
  · exact h.ok_set hmoved.ok a ha
  · exact h.objs a (List.mem_of_getElem? hsrc)

theorem RefInv.moveAssign (h : w.RefInv base) (env : Env) (dst src : Nat) :
    (w.moveAssign env dst src).RefInv base := by
  unfold World.moveAssign
  split
  · rename_i o o' hdst hsrc
    split
    · exact h
    · rename_i hcond
      have hne : dst ≠ src := fun heq => hcond (Or.inl heq)
      have hobjs : (w.destroyAt env dst).objs = w.objs.set dst (o.reset w.core env).1 := by
        unfold World.destroyAt
        rw [hdst]
      have hlt : dst < w.objs.length := (List.getElem?_eq_some_iff.mp hdst).1
      refine (h.destroyAt env dst).moveTo (e := (o.reset w.core env).1) hne ?_ ?_
        (Obj.empty_reset (h.objs o (List.mem_of_getElem? hdst)) _ _)
      · rw [hobjs, List.getElem?_set_ne hne]
        exact hsrc
      · rw [hobjs, List.getElem?_set_self hlt]
  · exact h

/-- A block with a reference is in the list and not finalized. -/
theorem RefInv.alive (h : w.RefInv base) {k : Nat} (hk : 0 < w.pins k) :
    k < w.core.ctls.length ∧ (w.core.control k).finalized = false := by
  obtain ⟨v, hv⟩ := h.core.get hk
  obtain ⟨hlt, hview⟩ := w.core.views_control hv
  have hfin := h.core.finalized k v hv
  rw [← hview] at hfin
  exact ⟨hlt, Bool.eq_false_iff.mpr (fun ht => by have := hfin.mp ht; omega)⟩

/-! ## Operations on a handle -/

/-- A handle that passes `validate_alive` refers to a block with a reference. -/
theorem handle_alive {i k : Nat} (h : w.RefInv base)
    (hk : (w.handle i).validateAlive w.core = .ok k) : 0 < w.pins k ∧ (w.handle i).rt = true := by
  have hlive := BufferHandle.validateAlive_ok_iff.mp hk
  have hh : (w.handle i).valid = true ∧ (w.handle i).ctl = some k := ⟨hlive.valid, hlive.ctl⟩
  unfold World.handle at hh ⊢
  split at hh
  · rename_i h' ho
    refine ⟨pins_pos ho ?_, h.objs _ (List.mem_of_getElem? ho) hh.1⟩
    show (if h'.valid then h'.ctl else none) = some k
    rw [if_pos hh.1, hh.2]
  · exact absurd hh.1 (by simp)

theorem ensureValid_ok {h : BufferHandle} {c : Core} {want : AccessMode} {k : Nat}
    (hk : h.ensureValid c want = .ok k) : h.validateAlive c = .ok k := by
  unfold BufferHandle.ensureValid at hk
  cases hv : h.validateAlive c with
  | error e =>
      rw [hv] at hk
      cases hk
  | ok j =>
      rw [hv] at hk
      simp only at hk
      split at hk
      · cases hk
      · exact hk

/-- The references after one more on block `k`. -/
theorem RefInv.retain (h : w.RefInv base) {c : Core} (hs : w.core.SameRefs c) {k : Nat}
    (hk : 0 < w.pins k) :
    (c.retain k).Refs base (fun j => w.pins j + if some k = some j then 1 else 0)
      (fun j => w.maps j + if none = some j then 1 else 0) := by
  refine ((h.core.same hs).retain hk (fun j => ?_)).congr (fun _ => rfl) (fun j => ?_)
  · simp only [Option.some.injEq, eq_comm]
  · simp

theorem RefInv.share (h : w.RefInv base) (i : Nat) :
    (w.give .handle ((w.handle i).share w.core)).2.RefInv base := by
  unfold BufferHandle.share
  cases hk : (w.handle i).validateAlive w.core with
  | error e => exact h
  | ok k =>
      obtain ⟨hpos, hrt⟩ := handle_alive h hk
      exact h.append (fun _ => hrt) (h.retain (Core.SameRefs.refl _) hpos)

theorem RefInv.view (h : w.RefInv base) (i : Nat) (offset len : UInt64) (access : AccessMode) :
    (w.give .view ((w.handle i).view w.core offset len access)).2.RefInv base := by
  unfold BufferHandle.view
  cases hk : (w.handle i).ensureValid w.core access with
  | error e => exact h
  | ok k =>
      obtain ⟨hpos, hrt⟩ := handle_alive h (ensureValid_ok hk)
      simp only
      split
      · exact h
      split
      · exact h
      split
      · exact h
      · exact h.append (fun _ => hrt) (h.retain (Core.SameRefs.refl _) hpos)

theorem RefInv.map (h : w.RefInv base) (env : Env) (i : Nat) (access : AccessMode) :
    (w.give .map ((w.handle i).map w.core env access)).2.RefInv base := by
  unfold BufferHandle.map
  cases hk : (w.handle i).ensureValid w.core access with
  | error e => exact h
  | ok k =>
      obtain ⟨hpos, hrt⟩ := handle_alive h (ensureValid_ok hk)
      simp only
      split
      · exact h
      cases w.core.rt.domain (w.core.control k).record.domain with
      | none => exact h
      | some dom =>
          simp only
          cases env.map (w.core.control k).record.domain (w.core.control k).record.backing
              access with
          | error e => exact h
          | ok p =>
              refine h.append (fun _ => hrt) (Core.Refs.same ?_ (Core.sameRefs_count _ _ rfl rfl))
              refine (h.core.mapOnce hpos (fun j => ?_)).retain hpos (fun j => ?_)
              · simp only [Obj.mapPin, Option.some.injEq, eq_comm]
              · simp only [Obj.pin, Option.some.injEq, eq_comm]

theorem sameRefs_leaseOnce (c : Core) (k : Nat) (kind : LeaseKind) :
    c.SameRefs (c.modify k (BufferHandle.leaseOnce kind)) :=
  Core.sameRefs_modify c k (fun _ => by cases kind <;> rfl)

theorem RefInv.acquire (h : w.RefInv base) (kind : LeaseKind) (i : Nat) :
    (w.give .lease ((w.handle i).acquire kind w.core)).2.RefInv base := by
  unfold BufferHandle.acquire
  cases hk : (w.handle i).validateAlive w.core with
  | error e => exact h
  | ok k =>
      obtain ⟨hpos, hrt⟩ := handle_alive h hk
      simp only
      split
      · exact h.same (Core.sameRefs_count _ _ rfl rfl)
      · exact h.append (fun _ => hrt) (h.retain (sameRefs_leaseOnce _ k kind) hpos)

theorem give_core (w : World) {α : Type} (wrap : α → Obj) (p : Except Error α × Core) :
    (w.give wrap p).2.core = p.2 := by
  obtain ⟨res, c⟩ := p
  cases res <;> rfl

/-! ## Operations that return a control block -/

theorem RefInv.giveHandle (h : w.RefInv base) {p : Except Error Nat × Core}
    (hp : w.core.Creates p) : (w.giveHandle p).2.RefInv base := by
  cases hp with
  | failed same => exact h.same same
  | known same registered =>
      rename_i k c id
      obtain ⟨v, -, -, hpos⟩ := (h.core.registry id k).mp registered
      exact h.append (fun _ => rfl) (h.retain same hpos)
  | fresh same id used unmapped =>
      rename_i c₁ r
      have h₁ := h.core.same same
      have hhigh := RuntimeImpl.idHigh_eq same.idSeed same.epoch
      have hlo : r.id.lo = w.core.rt.idCounter := by rw [id]; rfl
      refine h.append (fun _ => rfl) ((h₁.register ?_ ?_ ?_ ?_ unmapped (fun j => ?_)).congr
        (fun _ => rfl) (fun j => ?_))
      · rw [id, hhigh]
        rfl
      · rw [hlo]
        exact h.core.counter
      · rw [hlo]
        exact used
      · intro k v hv heq
        rw [same.views] at hv
        have := (h.core.ids k v hv).2.2
        rw [heq, hlo] at this
        exact Nat.lt_irrefl _ this
      · simp only [Obj.pin, BufferHandle.ofControl, Core.register, if_true, Option.some.injEq,
          eq_comm]
      · simp [Obj.mapPin]

theorem RefInv.migrate (h : w.RefInv base) (env : Env) (i : Nat) (target : MemoryDomain) :
    (w.migrate env i target).2.RefInv base := by
  unfold World.migrate
  cases hk : (w.handle i).validateAlive w.core with
  | error e => exact h
  | ok k =>
      have hs := w.core.migrate_same env k target
      have hpos := (handle_alive h hk).1
      simp only
      generalize w.core.migrate env k target = out at hs ⊢
      obtain ⟨res, c⟩ := out
      cases res with
      | error e => exact h.same hs
      | ok u =>
          obtain ⟨v, hv⟩ := h.core.get hpos
          exact h.giveHandle (.known hs ((h.core.registry v.id k).mpr ⟨v, hv, rfl, hpos⟩))

theorem RefInv.answer (h : w.RefInv base) {α : Type} (reply : α → Reply)
    {p : Except Error α × Core} (hidle : w.core.Idle p.2) : (w.answer reply p).2.RefInv base :=
  h.same hidle.sameRefs

theorem RefInv.exportBuffer (h : w.RefInv base) (env : Env) (i : Nat) :
    (w.exportBuffer env i).2.RefInv base := by
  unfold World.exportBuffer
  cases (w.handle i).validateAlive w.core with
  | error e => exact h
  | ok k => exact h.answer _ (exportDescriptor_idle w.core env k)

/-- `invalidate` never finalizes: a registered block has a reference. -/
theorem RefInv.finalizeById (h : w.RefInv base) (env : Env) (id : BufferId) :
    w.core.finalizeById env id = match w.core.rt.registry.find? id with
      | none => (.error ⟨.staleHandle, "finalize_by_id: not found"⟩, w.core)
      | some _ =>
          (.error ⟨.resourceBusy, "finalize_by_id: buffer still has references"⟩, w.core) := by
  unfold Core.finalizeById
  cases hf : w.core.rt.registry.find? id with
  | none => rfl
  | some k =>
      obtain ⟨v, hv, -, hpos⟩ := (h.core.registry id k).mp hf
      have hrefs := h.core.refs k v hv
      rw [← (w.core.views_control hv).2] at hrefs
      have hview : (w.core.control k).refView.refs = (w.core.control k).refs := rfl
      simp only
      rw [if_pos (by omega)]

theorem RefInv.invalidate (h : w.RefInv base) (env : Env) (id : BufferId) :
    (w.core.finalizeById env id).2 = w.core := by
  rw [h.finalizeById env id]
  cases w.core.rt.registry.find? id <;> rfl

/-- Every public operation keeps the invariant. -/
theorem RefInv.next (h : w.RefInv base) (op : Op) : (w.next op).RefInv base := by
  unfold World.next
  cases op with
  | allocate env req =>
      show (w.allocate env req).2.RefInv base
      unfold World.allocate
      split
      · exact h
      · exact h.giveHandle (w.core.allocate_creates env req)
  | wrapExternal desc => exact h.giveHandle (w.core.wrapExternal_creates desc)
  | importBuffer env desc ns label =>
      exact h.giveHandle (w.core.importDescriptor_creates env desc ns label)
  | exportBuffer env i => exact h.exportBuffer env i
  | migrate env i target => exact h.migrate env i target
  | share i => exact h.share i
  | view i offset len access => exact h.view i offset len access
  | map env i access => exact h.map env i access
  | acquire kind i => exact h.acquire kind i
  | verify env i => exact h.answer _ (verify_idle _ _ env)
  | checksum i => exact h.answer _ (checksum_idle _ _)
  | copyTo env i dst dstOffset len => exact h.answer _ (copyTo_idle _ _ env dst dstOffset len)
  | copyFrom env i src srcOffset len => exact h.answer _ (copyFrom_idle _ _ env src srcOffset len)
  | construct o =>
      have hempty := Obj.empty_empty o
      refine h.append hempty.ok (h.core.congr (fun j => ?_) (fun j => ?_))
      · simp [hempty.pin]
      · simp [hempty.mapPin]
  | move src => exact h.moveFrom src
  | moveAssign env dst src => exact h.moveAssign env dst src
  | release env i => exact h.releaseAt env i
  | destroy env i => exact h.destroyAt env i
  | invalidate env id =>
      show RefInv base { w with core := (w.core.finalizeById env id).2 }
      rw [h.invalidate env id]
      exact h
  | poolTrim => exact h.same w.core.poolTrim_same
  | shutdown env => exact ⟨h.core.shutdown env, h.objs⟩
  | createNamespace nsc => exact h.same ⟨rfl, rfl, rfl, rfl, Nat.le_refl _, rfl, rfl⟩

theorem refInv_init (cfg : RuntimeConfig) (plat : RuntimeImpl.Platform) :
    (World.init cfg plat).RefInv [] := by
  have hnone : ∀ (k : Nat) (v : RefView), (World.init cfg plat).core.views[k]? = some v → False :=
    fun k v hv => by cases hv
  refine ⟨⟨fun k v hv => (hnone k v hv).elim, fun k v hv => (hnone k v hv).elim,
    fun k v hv => (hnone k v hv).elim, fun k v hv => (hnone k v hv).elim, fun k _ => ⟨rfl, rfl⟩,
    fun id k => iff_of_false (fun hf => by cases hf) ?_, fun k v hv => (hnone k v hv).elim,
    List.nodup_nil, List.prefix_rfl, Nat.le_refl _, rfl⟩, fun o ho => by cases ho⟩
  rintro ⟨v, hv, -⟩
  exact hnone k v hv

theorem refInv_reach {ok : World → Op → Prop} {cfg : RuntimeConfig} {plat : RuntimeImpl.Platform}
    (h : Reach World.next ok (World.init cfg plat) w) : w.RefInv [] :=
  h.invariant (refInv_init cfg plat) (fun _ op hinv _ => hinv.next op)

/-- The identities of all blocks ever created, in the order of their creation. -/
def ids (w : World) : List BufferId := w.core.ctls.map (fun ctl => ctl.record.id)

theorem ids_eq (w : World) : w.ids = w.core.views.map RefView.id := by
  unfold ids Core.views
  rw [List.map_map]
  rfl

/-- The identities of the blocks of a state stay what they are. -/
theorem RefInv.ids_prefix (h : w.RefInv base) (op : Op) : w.ids <+: (w.next op).ids := by
  have hself : w.RefInv w.ids :=
    ⟨{ h.core with issued := by rw [ids_eq] }, h.objs⟩
  rw [ids_eq (w.next op)]
  exact (hself.next op).core.issued

theorem views_get (c : Core) {k : Nat} (hk : k < c.ctls.length) :
    c.views[k]? = some (c.control k).refView := by
  unfold Core.views Core.control
  rw [List.getElem?_map, List.getD_eq_getElem?_getD, List.getElem?_eq_getElem hk]
  rfl

theorem maps_le_pins (w : World) (k : Nat) : w.maps k ≤ w.pins k :=
  List.countP_mono_left fun o _ h => by
    simp only [decide_eq_true_eq] at h ⊢
    exact Obj.mapPin_eq_pin h

/-- With fewer than `2 ^ 31` objects on a buffer, its counters are in the range of `int`. -/
theorem RefInv.counters_fit {w : World} {base : List BufferId} (h : w.RefInv base) {k : Nat}
    (hk : k < w.core.ctls.length) (hfew : w.pins k < 2 ^ 31) :
    (0 ≤ (w.core.control k).refs ∧ (w.core.control k).refs < 2 ^ 31) ∧
      0 ≤ (w.core.control k).record.mapCount ∧ (w.core.control k).record.mapCount < 2 ^ 31 := by
  have hrefs : (w.core.control k).refs = w.pins k := h.core.refs k _ (views_get w.core hk)
  have hmaps : (w.core.control k).record.mapCount = w.maps k :=
    h.core.mapCount k _ (views_get w.core hk)
  have hle := w.maps_le_pins k
  omega

end World

/-- **Reference counting is exact.** Between public operations the count of a block is the number
of valid handles, leases, maps and views on it, the registry holds exactly the blocks with a
reference, and every other block was finalized once. The counters are `int` in the source and
numbers here, so this is about runs with fewer than `2 ^ 31` objects on a buffer at a time
(`World.RefInv.counters_fit`). -/
theorem references_exact {cfg : RuntimeConfig} {plat : RuntimeImpl.Platform} {w : World}
    (hreach : Reach World.next (fun _ _ => True) (World.init cfg plat) w) :
    (∀ k < w.core.ctls.length,
      (w.core.control k).refs = w.pins k ∧ (w.core.control k).record.mapCount = w.maps k ∧
      (w.core.control k).finalizations = if (w.core.control k).refs = 0 then 1 else 0) ∧
    (∀ (id : BufferId) (k : Nat), w.core.rt.registry.find? id = some k ↔
      k < w.core.ctls.length ∧ (w.core.control k).refs > 0 ∧ (w.core.control k).record.id = id) ∧
    (w.ids.Nodup ∧ (∀ id ∈ w.ids, ¬ id.null) ∧ ∀ op, w.ids <+: (w.next op).ids) ∧
    w.core.rt.telem.totalAllocations = w.core.rt.telem.totalFrees + w.core.rt.registry.size ∧
    ∀ (env : Env) (id : BufferId), (w.step (.invalidate env id)).1
      = if (w.core.rt.registry.find? id).isSome then
          .error ⟨.resourceBusy, "finalize_by_id: buffer still has references"⟩
        else .error ⟨.staleHandle, "finalize_by_id: not found"⟩ := by
  have h : w.RefInv [] := World.refInv_reach hreach
  have hrefs : ∀ k < w.core.ctls.length, (w.core.control k).refs = w.pins k := fun k hk =>
    h.core.refs k _ (World.views_get w.core hk)
  refine ⟨fun k hk => ⟨hrefs k hk, ?_, ?_⟩, fun id k => ?_, ⟨?_, ?_, h.ids_prefix⟩, h.core.totals,
    fun env id => ?_⟩
  · exact h.core.mapCount k _ (World.views_get w.core hk)
  · have hfin := h.core.finalizations k _ (World.views_get w.core hk)
    rw [hrefs k hk]
    simp only [Nat.cast_eq_zero]
    exact hfin
  · rw [h.core.registry id k]
    constructor
    · rintro ⟨v, hv, hid, hpos⟩
      obtain ⟨hk, hview⟩ := w.core.views_control hv
      have := hrefs k hk
      exact ⟨hk, by omega, by rw [← hid, ← hview]; rfl⟩
    · rintro ⟨hk, hpos, hid⟩
      have := hrefs k hk
      exact ⟨_, World.views_get w.core hk, hid, by omega⟩
  · rw [World.ids_eq]
    exact h.core.distinct
  · intro id hid hnull
    rw [World.ids_eq] at hid
    obtain ⟨v, hv, rfl⟩ := List.mem_map.mp hid
    obtain ⟨k, hk⟩ := List.getElem?_of_mem hv
    -- the counter starts at one
    have := (h.core.ids k v hk).2.1
    have := hnull.2
    omega
  · show (w.core.finalizeById env id).1.map _ = _
    rw [h.finalizeById env id]
    cases w.core.rt.registry.find? id <;> rfl

/-- A program that shares its handle, maps the buffer and releases the first handle. -/
def sharedPage : World :=
  runs World.next (World.init {} {})
    [.allocate (.findsAt 4096) { size := 4096 }, .share 0, .map {} 1 .read, .release {} 0]

/-- The theorem at work: a handle and a map are left. -/
theorem references_exact_sharedPage :
    sharedPage.pins 0 = 2 ∧ sharedPage.maps 0 = 1 ∧ (sharedPage.core.control 0).refs = 2 := by
  have hreach : Reach World.next (fun _ _ => True) (World.init {} {}) sharedPage :=
    reach_runs .start (Along.of_mem (fun _ _ _ => trivial) _)
  have hpins : sharedPage.pins 0 = 2 := by decide
  have hmaps : sharedPage.maps 0 = 1 := by decide
  obtain ⟨hrefs, -⟩ := (references_exact hreach).1 0 (by decide)
  exact ⟨hpins, hmaps, by rw [hrefs, hpins]; rfl⟩

end UnifiedBuffer
