import Mathlib.Tactic.Simps.Basic
import UnifiedBuffer.Ideal.Machine
import UnifiedBuffer.Safety.Integrity

set_option autoImplicit false

/-! # The runtime as an ideal machine

`World.ideal` forgets the machinery of the runtime: the records are stripped to what their users
know, the objects lose their pointers, and the rest of the runtime goes. `Core.Looks` says of a piece
of work that nothing of what is left has changed.

What is forgotten comes back from the objects. That a buffer is there while an object refers to it,
that its count of leases is the number of leases held, and that its checksum is the one of its
fields, are the invariants `RefInv`, `InOrder` and `Hashed`. -/

namespace UnifiedBuffer

open Lib

/-- What the users of a buffer know of its record. -/
@[simps] def Record.face (r : Record) : Ideal.Buffer where
  id := r.id
  generation := r.generation
  ns := r.ns
  domain := r.domain
  backend := r.backend
  device := r.device
  size := r.size
  alignment := r.alignment
  access := r.access
  exportable := r.flags.exportable
  label := r.label

/-- An object without its pointers. -/
def Obj.face : Obj → Ideal.Object
  | .handle h => ⟨.handle, if h.valid then h.ctl.map fun k => (k, h.gen) else none⟩
  | .lease l => ⟨.lease l.kind, l.ctl.map fun k => (k, l.gen)⟩
  | .map m => ⟨.map m.access, m.ctl.map fun k => (k, m.gen)⟩
  | .view v => ⟨.view v.off v.len v.access, v.ctl.map fun k => (k, v.gen)⟩

def Control.face (ctl : Control) : Ideal.Buffer := ctl.record.face

theorem Control.SameBuffer.face {ctl ctl' : Control} (h : ctl.SameBuffer ctl') :
    ctl'.face = ctl.face := by
  unfold Control.face
  rw [h.record]
  rfl

def Core.faces (c : Core) : List Ideal.Buffer := c.ctls.map Control.face

/-- The runtime as an ideal machine. -/
def World.ideal (w : World) : Ideal.State where
  buffers := w.core.faces
  objects := w.objs.map Obj.face
  closed := w.core.rt.closed
  backends := w.core.rt.domains
  namespaces := w.core.rt.nss
  device := w.core.rt.deviceCuda

/-! ## Work that the users do not see -/

/-- Of the runtime, only what is not seen has changed. -/
structure RuntimeImpl.Looks (rt rt' : RuntimeImpl) : Prop where
  closed : rt'.closed = rt.closed
  domains : rt'.domains = rt.domains
  nss : rt'.nss = rt.nss
  device : rt'.deviceCuda = rt.deviceCuda

structure Core.Looks (c c' : Core) : Prop where
  rt : c.rt.Looks c'.rt
  faces : c'.faces = c.faces

theorem RuntimeImpl.Looks.refl (rt : RuntimeImpl) : rt.Looks rt := ⟨rfl, rfl, rfl, rfl⟩

theorem RuntimeImpl.Quiet.looks {rt₀ rt rt' : RuntimeImpl} (h : RuntimeImpl.Quiet rt rt')
    (hrt : rt₀.Looks rt) : rt₀.Looks rt' :=
  ⟨h.closed.trans hrt.closed, h.domains.trans hrt.domains, h.nss.trans hrt.nss,
    h.deviceCuda.trans hrt.device⟩

namespace Core

variable {c c' c'' : Core} {k : CtlId}

theorem Looks.refl (c : Core) : c.Looks c := ⟨.refl c.rt, rfl⟩

theorem Looks.trans (h : c.Looks c') (h' : c'.Looks c'') : c.Looks c'' :=
  ⟨⟨h'.rt.closed.trans h.rt.closed, h'.rt.domains.trans h.rt.domains, h'.rt.nss.trans h.rt.nss,
    h'.rt.device.trans h.rt.device⟩, h'.faces.trans h.faces⟩

theorem Looks.of_ctls (h : c.rt.Looks c'.rt) (hctls : c'.ctls = c.ctls) : c.Looks c' :=
  ⟨h, congrArg (List.map Control.face) hctls⟩

/-- Quiet work, on a runtime that looks the same. -/
theorem Looks.of_quiet {rt rt' : RuntimeImpl} (h : RuntimeImpl.Quiet rt rt')
    (hrt : c.rt.Looks rt) (os : Os) : c.Looks { c with rt := rt', os := os } :=
  .of_ctls (h.looks hrt) rfl

theorem looks_modify (c : Core) (k : CtlId) {f : Control → Control}
    (hf : ∀ ctl : Control, (f ctl).face = ctl.face) : c.Looks (c.modify k f) :=
  ⟨(Looks.refl c).rt, map_modify_same Control.face f hf k c.ctls⟩

/-- A block is written back that looks the same. -/
theorem looks_set {rt : RuntimeImpl} (hrt : c.rt.Looks rt) (os : Os) {ctl : Control}
    (hctl : ctl.face = (c.control k).face) :
    c.Looks { rt := rt, os := os, ctls := c.ctls.set k ctl } := by
  refine ⟨hrt, ?_⟩
  calc (c.ctls.set k ctl).map Control.face
      = c.faces.set k ctl.face := List.map_set
    _ = c.faces.set k (c.control k).face := by rw [hctl]
    _ = (c.ctls.set k (c.control k)).map Control.face := List.map_set.symm
    _ = c.faces := by rw [c.set_control, faces]

theorem looks_count (c : Core) (f : Telemetry → Telemetry) : c.Looks (c.count f) :=
  .of_ctls ⟨rfl, rfl, rfl, rfl⟩ rfl

theorem Idle.looks (h : c.Idle c') : c.Looks c' := .of_ctls (h.quiet.looks (.refl _)) h.ctls

theorem looks_retain (c : Core) (k : CtlId) : c.Looks (c.retain k) :=
  c.looks_modify k fun _ => rfl

theorem looks_finalize (c : Core) (env : Env) (k : CtlId) : c.Looks (c.finalize env k true) := by
  have hlooks : c.rt.Looks (c.rt.finalize c.os env (c.control k) true).2.1 ∧
      (c.rt.finalize c.os env (c.control k) true).1.face = (c.control k).face := by
    cases hf : (c.control k).finalized with
    | true =>
        unfold RuntimeImpl.finalize
        rw [if_pos hf]
        exact ⟨(Looks.refl c).rt, rfl⟩
    | false =>
        obtain ⟨backing, ownership, l, pool, hctl, hquiet⟩ := c.rt.finalize_first c.os env true hf
        rw [hctl]
        exact ⟨hquiet.looks ⟨rfl, rfl, rfl, rfl⟩, rfl⟩
  exact looks_set hlooks.1 _ hlooks.2

theorem looks_dropRef (c : Core) (env : Env) (k : CtlId) : c.Looks (c.dropRef env k) := by
  have hless : c.Looks (c.modify k fun ctl => { ctl with refs := ctl.refs - 1 }) :=
    c.looks_modify k fun _ => rfl
  unfold dropRef
  simp only
  split
  · exact hless.trans (looks_finalize _ env k)
  · exact hless

/-- The release of an object. -/
theorem looks_releaseCore (c : Core) (env : Env) (o : Obj) : c.Looks (o.releaseCore c env) := by
  unfold Obj.releaseCore
  cases o.pin with
  | none => exact .refl c
  | some k =>
      have hlet : c.Looks (o.letGo c k) := by
        cases o with
        | handle x => exact .refl c
        | view v => exact .refl c
        | map m =>
            exact (c.looks_modify k fun ctl => (sameBuffer_unmapOnce ctl).face).trans
              (looks_count _ _)
        | lease l => exact c.looks_modify k fun ctl => (sameBuffer_unlease l.kind ctl).face
      exact hlet.trans (looks_dropRef _ env k)

theorem looks_poolTrim (c : Core) : c.Looks c.poolTrim := by
  have hframe := c.rt.poolTrim_frame c.os
  refine .of_ctls ?_ rfl
  show c.rt.Looks (c.rt.poolTrim c.os).1
  rw [hframe]
  exact ⟨rfl, rfl, rfl, rfl⟩

end Core

/-! ## What is forgotten comes back -/

namespace World

variable {w : World} {i : Nat} {k : CtlId}

/-- What is known of every state of a run. -/
structure Regular (w : World) : Prop where
  refs : w.RefInv []
  order : w.InOrder
  hashed : w.core.Hashed

theorem Regular.next (h : w.Regular) (op : Op) : (w.next op).Regular :=
  ⟨h.refs.next op, (h.order.step h.refs op).2.2.1, hashed_next h.refs h.hashed op⟩

theorem ideal_buffer (w : World) (k : CtlId) (hk : k < w.core.ctls.length) :
    w.ideal.buffer k = (w.core.control k).record.face := by
  show (w.core.ctls.map Control.face).getD k {} = _
  rw [List.getD_eq_getElem?_getD, List.getElem?_map, w.core.control_get hk]
  rfl

theorem ideal_backends (w : World) (d : MemoryDomain) :
    w.ideal.backends d = w.core.rt.domain d := rfl

/-- A state that differs in its objects only. -/
theorem ideal_eq {c : Core} (h : w.core.Looks c) (objs : List Obj) :
    ideal { core := c, objs := objs } = { w.ideal with objects := objs.map Obj.face } := by
  unfold ideal
  simp only [h.faces, h.rt.closed, h.rt.domains, h.rt.nss, h.rt.device]

/-- What an object refers to. -/
theorem face_target (o : Obj) : o.face.target.map Prod.fst = o.pin := by
  cases o with
  | handle h =>
      unfold Obj.face Obj.pin
      by_cases hvalid : h.valid = true
      · cases hctl : h.ctl <;> simp [hvalid, hctl]
      · simp [hvalid]
  | lease l => cases hctl : l.ctl <;> simp [Obj.face, Obj.pin, hctl]
  | map m => cases hctl : m.ctl <;> simp [Obj.face, Obj.pin, hctl]
  | view v => cases hctl : v.ctl <;> simp [Obj.face, Obj.pin, hctl]

theorem face_lease (o : Obj) (kind : LeaseKind) (k : CtlId) :
    (o.face.kind = .lease kind ∧ o.pin = some k) ↔ o.leasePin kind = some k := by
  cases o with
  | lease l =>
      by_cases hkind : l.kind = kind
      · simp [Obj.face, Obj.pin, Obj.leasePin, hkind]
      · simp [Obj.face, Obj.leasePin, hkind]
  | _ => simp [Obj.face, Obj.leasePin]

theorem refers_iff (w : World) (k : CtlId) :
    w.ideal.refers k (fun _ => true) = true ↔ 0 < w.pins k := by
  unfold Ideal.State.refers pins
  rw [List.countP_pos_iff, List.any_eq_true]
  simp only [ideal, List.mem_map, Bool.true_and, exists_exists_and_eq_and, face_target]

theorem leased_iff (w : World) (k : CtlId) (kind : LeaseKind) :
    w.ideal.leased k kind = true ↔ 0 < w.leases kind k := by
  unfold Ideal.State.leased Ideal.State.refers leases
  rw [List.countP_pos_iff, List.any_eq_true]
  simp only [ideal, List.mem_map, Bool.and_eq_true, exists_exists_and_eq_and, face_target,
    decide_eq_true_eq, face_lease]

/-- The count of a kind of leases. -/
theorem Regular.leases_pos (h : w.Regular) (hk : k < w.core.ctls.length) (kind : LeaseKind) :
    (0 < (w.core.control k).leases kind) ↔ w.ideal.leased k kind = true := by
  have hcount : (w.core.control k).leases kind = w.leases kind k := h.order.leases kind k hk
  rw [leased_iff, hcount]
  exact Int.natCast_pos

/-- The registry finds the buffers that something refers to. -/
theorem Regular.find_eq (h : w.Regular) (id : BufferId) :
    w.ideal.find id = w.core.rt.registry.find? id := by
  refine find?_range_eq fun k => ?_
  rw [Bool.and_eq_true, decide_eq_true_eq, refers_iff]
  constructor
  · intro hfind
    obtain ⟨halive, hid⟩ := h.refs.registered_block hfind
    rw [ideal_buffer w k halive.1]
    exact ⟨halive.1.trans_eq (List.length_map _).symm, hid,
      ((h.refs.core.find_iff id k).mp hfind).2⟩
  · rintro ⟨hlt, hid, hpos⟩
    have hk : k < w.core.ctls.length := hlt.trans_eq (List.length_map _)
    rw [ideal_buffer w k hk] at hid
    exact (h.refs.core.registry id k).mpr ⟨_, views_get w.core hk, hid, hpos⟩

/-- The handle gives access to what the runtime says. -/
theorem Regular.reach_eq (h : w.Regular) (i : Nat) :
    w.ideal.reach i = match (w.handle i).validateAlive w.core with
      | .error e => .error e.code
      | .ok k => .ok k := by
  unfold Ideal.State.reach
  have hget : w.ideal.objects[i]? = w.objs[i]?.map Obj.face := List.getElem?_map
  rw [hget]
  unfold handle
  cases ho : w.objs[i]? with
  | none => rfl
  | some o =>
      cases o with
      | lease l => rfl
      | map m => rfl
      | view v => rfl
      | handle x =>
          simp only [Option.map_some, Obj.face]
          cases hvalid : x.valid with
          | false => simp [BufferHandle.validateAlive, hvalid]
          | true =>
              cases hctl : x.ctl with
              | none => simp [BufferHandle.validateAlive, hvalid, hctl]
              | some k =>
                  have hpin : (Obj.handle x).pin = some k := by simp [Obj.pin, hvalid, hctl]
                  have halive := h.refs.alive (pins_pos ho hpin)
                  rw [if_pos rfl, Option.map_some]
                  simp only
                  rw [ideal_buffer w k halive.1]
                  by_cases hgen : x.gen = (w.core.control k).record.generation
                  · rw [BufferHandle.validateAlive_eq hvalid hctl halive.2 hgen
                      (h.order.alive k halive).known]
                    exact if_pos hgen
                  · simp only [BufferHandle.validateAlive, hvalid, hctl, halive.2,
                      Bool.false_eq_true, if_false, ne_eq, hgen, not_false_iff, if_true]
                    exact if_neg hgen

end World

end UnifiedBuffer
