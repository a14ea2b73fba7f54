import UnifiedBuffer.Ideal.View
import UnifiedBuffer.Safety.Recycling
import UnifiedBuffer.Safety.RoundTrip

set_option autoImplicit false

/-! # The runtime refines the ideal machine

Each public operation of the runtime is a step of the ideal machine. A proof follows the operation:
its checks are those of the ideal machine, read in what `World.ideal` leaves, and what it does behind
them either is not seen (`Core.Looks`) or makes the new state. -/

namespace UnifiedBuffer

open Lib

namespace World

variable {w : World} {i : Nat} {k : CtlId}

/-! ## Outcomes -/

def outcome (p : Except Error Reply × World) : Ideal.State.Outcome := (p.1, p.2.ideal)

section Outcomes

variable {c : Core} (hlooks : w.core.Looks c)

include hlooks

theorem fails_of (e : Error) : outcome (.error e, { w with core := c }) ∈ w.ideal.fails e :=
  Prod.ext rfl (ideal_eq hlooks w.objs)

theorem mayFail_of (code : ErrorCode) :
    outcome (.error (Ideal.State.silent code), { w with core := c }) ∈ w.ideal.mayFail :=
  ⟨code, fails_of hlooks _⟩

theorem replies_of (reply : Reply) :
    outcome (.ok reply, { w with core := c }) ∈ w.ideal.replies reply :=
  Prod.ext rfl (ideal_eq hlooks w.objs)

theorem becomes_of (reply : Reply) {objs : List Obj} {objects : List Ideal.Object}
    (hobjs : objs.map Obj.face = objects) :
    outcome (.ok reply, { core := c, objs := objs }) ∈ w.ideal.becomes reply objects := by
  refine Prod.ext rfl ((ideal_eq hlooks objs).trans ?_)
  rw [hobjs]

theorem hands_of {o : Obj} {kind : Ideal.Kind}
    (ho : o.face = ⟨kind, some (k, (w.ideal.buffer k).generation)⟩) :
    outcome (.ok (.object w.objs.length), { core := c, objs := w.objs ++ [o] })
      ∈ w.ideal.hands kind k := by
  refine Prod.ext ?_ ((ideal_eq hlooks _).trans ?_)
  · show Except.ok (Reply.object w.objs.length) = .ok (.object (w.objs.map Obj.face).length)
    rw [List.length_map]
  · rw [List.map_append, List.map_singleton, ho]
    rfl

end Outcomes

/-- The handle was made for the buffer as it is. -/
theorem handle_gen (halive : w.core.Alive k)
    (hk : (w.handle i).validateAlive w.core = .ok k) :
    (w.handle i).gen = (w.ideal.buffer k).generation := by
  rw [ideal_buffer w k halive.1]
  exact (BufferHandle.validateAlive_ok_iff.mp hk).gen

/-- An operation that begins with `validate_alive`. -/
theorem Regular.withBuffer (h : w.Regular) {out : Ideal.State.Outcome}
    {f : Nat → Set Ideal.State.Outcome}
    (hstale : ∀ e, (w.handle i).validateAlive w.core = .error e →
      out = outcome (.error e.passOn, w))
    (hlive : ∀ k, (w.handle i).validateAlive w.core = .ok k → w.core.Alive k → out ∈ f k) :
    out ∈ w.ideal.withBuffer i f := by
  unfold Ideal.State.withBuffer
  rw [h.reach_eq]
  cases hk : (w.handle i).validateAlive w.core with
  | error e => exact hstale e hk
  | ok k => exact hlive k hk (h.refs.alive (handle_alive h.refs hk).1)

/-- An operation that begins with `ensure_valid`. -/
theorem Regular.withAccess (h : w.Regular) {access : AccessMode} {out : Ideal.State.Outcome}
    {f : Nat → Set Ideal.State.Outcome}
    (hstale : ∀ e, (w.handle i).ensureValid w.core access = .error e →
      out = outcome (.error e.passOn, w))
    (hlive : ∀ k, (w.handle i).ensureValid w.core access = .ok k → w.core.Alive k → out ∈ f k) :
    out ∈ w.ideal.withAccess i access f := by
  unfold Ideal.State.withAccess Ideal.State.reachFor
  rw [h.reach_eq]
  cases hk : (w.handle i).validateAlive w.core with
  | error e => exact hstale e (by rw [BufferHandle.ensureValid, hk])
  | ok k =>
      have halive : w.core.Alive k := h.refs.alive (handle_alive h.refs hk).1
      have hensure := BufferHandle.ensureValid_live hk access
      simp only [ideal_buffer w k halive.1, Record.face_access]
      by_cases hdenied : access = .write ∧ (w.core.control k).record.access = .read
      · rw [if_pos hdenied] at hensure ⊢
        exact hstale _ hensure
      · rw [if_neg hdenied] at hensure ⊢
        exact hlive k hensure halive

/-! ## Objects for a buffer -/

theorem Regular.share (h : w.Regular) (i : Nat) :
    outcome (w.step (.share i)) ∈ w.ideal.allowed (.share i) := by
  refine h.withBuffer (fun e he => ?_) fun k hk halive => ?_
  · simp only [step, BufferHandle.share, he]
    rfl
  · simp only [step, BufferHandle.share, hk]
    refine hands_of (w.core.looks_retain k) ?_
    simp [Obj.face, handle_gen halive hk]

theorem Regular.view (h : w.Regular) (i : Nat) (offset len : UInt64) (access : AccessMode) :
    outcome (w.step (.view i offset len access)) ∈ w.ideal.allowed (.view i offset len access) := by
  refine h.withAccess (fun e he => ?_) fun k hensure halive => ?_
  · simp only [step, BufferHandle.view, he]
    rfl
  · have hk := ensureValid_ok hensure
    have hpermitted : ¬ (access = .write ∧ (w.core.control k).record.access = .read) := by
      intro hdenied
      rw [BufferHandle.ensureValid_live hk access, if_pos hdenied] at hensure
      cases hensure
    simp only [step, BufferHandle.view, hensure, ideal_buffer w k halive.1, Record.face_size]
    by_cases hbounds : rangeInBounds offset len (w.core.control k).record.size = true
    · rw [if_neg (not_not.mpr hbounds), if_neg (Nat.not_lt.mpr (rangeInBounds_iff.mp hbounds))]
      by_cases hlen : len = 0
      · rw [if_pos hlen, if_pos hlen]
        exact fails_of (.refl w.core) _
      · rw [if_neg hlen, if_neg hlen, if_neg hpermitted]
        refine hands_of (w.core.looks_retain k) ?_
        simp [Obj.face, handle_gen halive hk]
    · rw [if_pos hbounds, if_pos (Nat.not_le.mp (mt rangeInBounds_iff.mpr hbounds))]
      exact fails_of (.refl w.core) _

theorem Regular.map (h : w.Regular) (env : Env) (i : Nat) (access : AccessMode) :
    outcome (w.step (.map env i access)) ∈ w.ideal.allowed (.map env i access) := by
  refine h.withAccess (fun e he => ?_) fun k hensure halive => ?_
  · simp only [step, BufferHandle.map, he]
    rfl
  · have hk := ensureValid_ok hensure
    simp only [step, BufferHandle.map, hensure, ideal_buffer w k halive.1, Record.face_domain,
      ideal_backends]
    by_cases hdevice : (w.core.control k).record.domain = .device
    · rw [if_pos hdevice, if_pos hdevice]
      exact fails_of (.refl w.core) _
    rw [if_neg hdevice, if_neg hdevice]
    cases w.core.rt.domain (w.core.control k).record.domain with
    | none => exact fails_of (.refl w.core) _
    | some dom =>
        cases env.map (w.core.control k).record.domain (w.core.control k).record.backing access with
        | error e => exact .inl (mayFail_of (.refl w.core) e.code)
        | ok p =>
            have hmapped : w.core.Looks (w.core.modifyRecord k BufferHandle.mapOnce) :=
              w.core.looks_modify k fun ctl => (sameBuffer_mapOnce ctl).face
            refine .inr (hands_of ((hmapped.trans (Core.looks_retain _ k)).trans
              (Core.looks_count _ _)) ?_)
            simp [Obj.face, handle_gen halive hk]

/-- The conflicts of a new lease. -/
theorem Regular.contested_eq (h : w.Regular) (hk : k < w.core.ctls.length) (kind : LeaseKind) :
    w.ideal.contested k kind = BufferHandle.leaseConflicts kind (w.core.control k) := by
  unfold Ideal.State.contested BufferHandle.leaseConflicts
  rw [Bool.eq_iff_iff]
  cases kind with
  | read => simp [← h.leases_pos hk, Control.leases]
  | write => simp [← h.leases_pos hk, Control.leases]
  | exclusive => simp [← h.leases_pos hk, Control.leases]

theorem Regular.acquire (h : w.Regular) (kind : LeaseKind) (i : Nat) :
    outcome (w.step (.acquire kind i)) ∈ w.ideal.allowed (.acquire kind i) := by
  refine h.withBuffer (fun e he => ?_) fun k hk halive => ?_
  · simp only [step, BufferHandle.acquire, he]
    rfl
  · simp only [step, BufferHandle.acquire, hk, h.contested_eq halive.1]
    cases BufferHandle.leaseConflicts kind (w.core.control k) with
    | true => exact fails_of (Core.looks_count _ _) _
    | false =>
        have hleased : w.core.Looks (w.core.modify k (BufferHandle.leaseOnce kind)) :=
          w.core.looks_modify k fun ctl => (sameBuffer_leaseOnce kind ctl).face
        refine hands_of (hleased.trans (Core.looks_retain _ k)) ?_
        simp [Obj.face, handle_gen halive hk]

/-! ## Contents -/

/-- The checksum of a record is the one of its fields, or was not taken. -/
theorem Regular.checksum_matches (h : w.Regular) (halive : w.core.Alive k) :
    ¬ ((w.core.control k).record.metaCrc ≠ 0 ∧
      metaCrcOf (w.core.control k).record ≠ (w.core.control k).record.metaCrc) := by
  rintro ⟨hsome, hne⟩
  rcases (h.hashed.blocks k halive).crc with ⟨-, hnone⟩ | ⟨-, hsame⟩
  · exact hsome hnone
  · exact hne hsame.symm

section Answers

-- an operation that returns no object, and changes nothing that is seen
variable {α : Type} {reply : α → Reply} {p : Except Error α × Core} (hidle : w.core.Idle p.2)

include hidle

theorem answer_error {e : Error} (he : p.1 = .error e) :
    outcome (w.answer reply p) = (.error e, w.ideal) :=
  Prod.ext (by show p.1.map reply = _; rw [he]; rfl) (ideal_eq hidle.looks w.objs)

theorem answer_ok {a : α} (ha : p.1 = .ok a) :
    outcome (w.answer reply p) = (.ok (reply a), w.ideal) :=
  Prod.ext (by show p.1.map reply = _; rw [ha]; rfl) (ideal_eq hidle.looks w.objs)

end Answers

theorem Regular.verify (h : w.Regular) (env : Env) (i : Nat) :
    outcome (w.step (.verify env i)) ∈ w.ideal.allowed (.verify env i) := by
  have hidle := verify_idle (w.handle i) w.core env
  refine h.withBuffer (fun e he => ?_) fun k hk halive => ?_
  · refine answer_error hidle ?_
    rw [BufferHandle.verify, he]
  simp only [ideal_buffer w k halive.1, Record.face_domain, ideal_backends]
  cases hdom : w.core.rt.domain (w.core.control k).record.domain with
  | none => exact answer_error hidle (BufferHandle.verify_disabled env hk hdom)
  | some dom =>
      cases hcheck : env.verify (w.core.control k).record.domain (w.core.control k).record.backing
          (w.core.control k).record.committed with
      | error e =>
          refine .inl ⟨e.code, answer_error hidle ?_⟩
          have hreleased : (w.core.control k).record.state ≠ .released := fun hs =>
            (BufferHandle.validateAlive_ok_iff.mp hk).state (.inl hs)
          have hcount : ∀ f, (w.core.count f).rt.domain (w.core.control k).record.domain
              = some dom := fun _ => hdom
          unfold BufferHandle.verify
          rw [hk]
          simp only [hcount, if_neg hreleased, hcheck]
          rfl
      | ok u =>
          refine .inr (answer_ok hidle (a := ()) ?_)
          rw [BufferHandle.verify_enabled env hk (h.order.alive k halive).known
            (Option.isSome_of_eq_some hdom) hcheck, if_neg (h.checksum_matches halive)]

theorem Regular.checksum (h : w.Regular) (i : Nat) :
    outcome (w.step (.checksum i)) ∈ w.ideal.allowed (.checksum i) := by
  have hidle := checksum_idle (w.handle i) w.core
  refine h.withBuffer (fun e he => ?_) fun k hk halive => ?_
  · refine answer_error hidle ?_
    rw [BufferHandle.checksum, he]
  simp only [ideal_buffer w k halive.1, Record.face_domain]
  by_cases hdevice : (w.core.control k).record.domain = .device
  · rw [if_pos hdevice]
    refine answer_error hidle ?_
    rw [BufferHandle.checksum, hk]
    simp only [if_pos hdevice]
  rw [if_neg hdevice]
  by_cases hbase : (w.core.control k).record.backing.base = 0
  · refine .inl (answer_error hidle ?_)
    rw [BufferHandle.checksum, hk]
    simp only [if_neg hdevice, if_pos hbase]
  · have hsum : ((w.handle i).checksum w.core).1
        = .ok (crc32c ((List.range (w.core.control k).record.size.toNat).map fun j =>
            w.core.os.bytes .host ((w.core.control k).record.backing.base + j)) 0) := by
      rw [BufferHandle.checksum, hk]
      simp only [if_neg hdevice, if_neg hbase]
    exact .inr (Set.mem_iUnion.mpr ⟨_, answer_ok hidle hsum⟩)

/-- A transfer succeeds, or fails with some error. -/
theorem transfer_of {p : Except Error Unit × Core} (hidle : w.core.Idle p.2) :
    outcome (w.answer (fun _ => .done) p) ∈ (⋃ e, w.ideal.fails e) ∪ w.ideal.replies .done := by
  cases hp : p.1 with
  | error e => exact .inl (Set.mem_iUnion.mpr ⟨e, answer_error hidle hp⟩)
  | ok u => exact .inr (answer_ok hidle hp)

theorem Regular.copyTo (h : w.Regular) (env : Env) (i dst : Nat) (dstOffset len : UInt64) :
    outcome (w.step (.copyTo env i dst dstOffset len))
      ∈ w.ideal.allowed (.copyTo env i dst dstOffset len) := by
  have hidle := copyTo_idle (w.handle i) w.core env dst dstOffset len
  refine h.withBuffer (fun e he => ?_) fun k hk halive => ?_
  · refine answer_error hidle ?_
    rw [BufferHandle.copyTo, BufferHandle.ensureValid, he]
  have hensure : (w.handle i).ensureValid w.core .read = .ok k := by
    rw [BufferHandle.ensureValid_live hk]
    exact if_neg fun hwrite => by cases hwrite.1
  simp only [ideal_buffer w k halive.1, Record.face_size]
  by_cases hdst : dst = 0
  · rw [if_pos hdst]
    refine answer_error hidle ?_
    rw [BufferHandle.copyTo, hensure]
    simp only [if_pos hdst]
  rw [if_neg hdst]
  by_cases hout : dstOffset > (w.core.control k).record.size ∨
      len > (w.core.control k).record.size - dstOffset
  · rw [if_pos (Nat.not_le.mp (mt not_outside_iff.mpr (not_not.mpr hout)))]
    refine answer_error hidle ?_
    rw [BufferHandle.copyTo, hensure]
    simp only [if_neg hdst, if_pos hout]
  · rw [if_neg (Nat.not_lt.mpr (not_outside_iff.mp hout))]
    exact transfer_of hidle

theorem Regular.copyFrom (h : w.Regular) (env : Env) (i src : Nat) (srcOffset len : UInt64) :
    outcome (w.step (.copyFrom env i src srcOffset len))
      ∈ w.ideal.allowed (.copyFrom env i src srcOffset len) := by
  have hidle := copyFrom_idle (w.handle i) w.core env src srcOffset len
  refine h.withAccess (fun e he => ?_) fun k hensure halive => ?_
  · refine answer_error hidle ?_
    rw [BufferHandle.copyFrom, he]
  simp only [ideal_buffer w k halive.1, Record.face_size]
  by_cases hsrc : src = 0
  · rw [if_pos hsrc]
    refine answer_error hidle ?_
    rw [BufferHandle.copyFrom, hensure]
    simp only [if_pos hsrc]
  rw [if_neg hsrc]
  by_cases hlen : (w.core.control k).record.size < len
  · rw [if_pos hlen]
    refine answer_error hidle ?_
    rw [BufferHandle.copyFrom, hensure]
    simp only [if_neg hsrc]
    rw [if_pos hlen]
  · rw [if_neg hlen]
    exact transfer_of hidle

/-! ## Objects come and go -/

theorem face_empty (o : Obj) : (empty o).face = Ideal.State.constructed o := by
  cases o <;> rfl

theorem face_movedFrom (o : Obj) : o.movedFrom.face = o.face.emptied := by
  cases o <;> rfl

theorem face_release (o : Obj) (c : Core) (env : Env) :
    (o.release c env).1.face = o.face.emptied := by
  cases o with
  | handle x =>
      rcases x with ⟨rt, ctl, id, gen, valid⟩
      cases valid <;> cases ctl <;> rfl
  | lease l =>
      rcases l with ⟨rt, ctl, gen, kind⟩
      cases ctl <;> rfl
  | map m =>
      rcases m with ⟨rt, ctl, gen, access, data⟩
      cases ctl <;> rfl
  | view v =>
      rcases v with ⟨rt, ctl, gen, off, len, access, data⟩
      cases ctl <;> rfl

theorem face_reset (o : Obj) (c : Core) (env : Env) :
    (o.reset c env).1.face = o.face.emptied := by
  cases o with
  | handle x => rfl
  | lease l => exact face_release (.lease l) c env
  | map m => exact face_release (.map m) c env
  | view v => exact face_release (.view v) c env

theorem sameClass_face (o o' : Obj) : o.face.kind.sameClass o'.face.kind = o.sameClass o' := by
  cases o <;> cases o' <;> rfl

/-- The objects after one of them has lost its reference. -/
theorem map_face_set {o o' : Obj} (ho : w.objs[i]? = some o) (hface : o'.face = o.face.emptied) :
    (w.objs.set i o').map Obj.face = w.ideal.objects.modify i Ideal.Object.emptied := by
  have hget : w.ideal.objects[i]? = some o.face := by
    rw [ideal, List.getElem?_map, ho, Option.map_some]
  rw [List.map_set, hface, List.modify_eq_set_getElem?, hget]
  rfl

theorem map_face_none (ho : w.objs[i]? = none) :
    w.objs.map Obj.face = w.ideal.objects.modify i Ideal.Object.emptied := by
  rw [List.modify_eq_set_getElem?, ideal, List.getElem?_map, ho]
  rfl

theorem Regular.looks_release (h : w.Regular) (env : Env) {o : Obj} (ho : w.objs[i]? = some o) :
    w.core.Looks (o.release w.core env).2 := by
  rw [Obj.release_core (h.refs.objs o (List.mem_of_getElem? ho))]
  exact Core.looks_releaseCore _ env o

theorem Regular.looks_reset (h : w.Regular) (env : Env) {o : Obj} (ho : w.objs[i]? = some o) :
    w.core.Looks (o.reset w.core env).2 := by
  rw [Obj.reset_core]
  exact h.looks_release env ho

theorem Regular.release (h : w.Regular) (env : Env) (i : Nat) :
    outcome (w.step (.release env i)) ∈ w.ideal.allowed (.release env i) := by
  show outcome (.ok .done, w.releaseAt env i) ∈ w.ideal.becomes .done _
  unfold releaseAt
  cases ho : w.objs[i]? with
  | none => exact becomes_of (.refl w.core) .done (map_face_none ho)
  | some o =>
      exact becomes_of (h.looks_release env ho) .done (map_face_set ho (face_release o w.core env))

theorem Regular.destroy (h : w.Regular) (env : Env) (i : Nat) :
    outcome (w.step (.destroy env i)) ∈ w.ideal.allowed (.destroy env i) := by
  show outcome (.ok .done, w.destroyAt env i) ∈ w.ideal.becomes .done _
  unfold destroyAt
  cases ho : w.objs[i]? with
  | none => exact becomes_of (.refl w.core) .done (map_face_none ho)
  | some o =>
      exact becomes_of (h.looks_reset env ho) .done (map_face_set ho (face_reset o w.core env))

theorem step_move (w : World) (src : Nat) :
    outcome (w.step (.move src)) ∈ w.ideal.allowed (.move src) := by
  have hget : w.ideal.objects[src]? = w.objs[src]?.map Obj.face := List.getElem?_map
  simp only [step, moveFrom, Ideal.State.allowed, hget]
  cases ho : w.objs[src]? with
  | none => exact replies_of (.refl w.core) .done
  | some o =>
      have hlen : w.ideal.objects.length = w.objs.length := List.length_map _
      simp only [Option.map_some, hlen]
      refine becomes_of (.refl w.core) _ ?_
      rw [List.map_append, List.map_set, face_movedFrom]
      rfl

theorem Regular.moveAssign (h : w.Regular) (env : Env) (dst src : Nat) :
    outcome (w.step (.moveAssign env dst src)) ∈ w.ideal.allowed (.moveAssign env dst src) := by
  have hget : ∀ j, w.ideal.objects[j]? = w.objs[j]?.map Obj.face := fun _ => List.getElem?_map
  simp only [step, World.moveAssign, Ideal.State.allowed, hget]
  cases hdst : w.objs[dst]? with
  | none => exact replies_of (.refl w.core) .done
  | some o =>
      cases hsrc : w.objs[src]? with
      | none => exact replies_of (.refl w.core) .done
      | some o' =>
          simp only [Option.map_some, sameClass_face]
          by_cases hno : dst = src ∨ ¬ o.sameClass o' = true
          · rw [if_pos hno, if_pos hno]
            exact replies_of (.refl w.core) .done
          · rw [if_neg hno, if_neg hno]
            simp only [destroyAt, hdst]
            refine becomes_of (h.looks_reset env hdst) .done ?_
            have hne : dst ≠ src := fun heq => hno (.inl heq)
            rw [List.set_comm _ _ hne, List.set_set, List.map_set, List.map_set, face_movedFrom]
            rfl

/-! ## New buffers -/

/-- What the creation of a buffer returns: it fails, or registers a record with the given face. -/
inductive Builds (c : Core) (make : BufferId → Ideal.Buffer) : Except Error CtlId × Core → Prop
  | failed {e : Error} {c' : Core} (looks : c.Looks c') : Builds c make (.error e, c')
  | fresh {c₁ : Core} {r : Record} (looks : c.Looks c₁) (face : r.face = make c.rt.nextId.1) :
      Builds c make (.ok (c₁.register r).1, (c₁.register r).2)

/-- The next identity is new. -/
theorem Regular.nextId_new (h : w.Regular) :
    w.core.rt.nextId.1 ∉ w.ideal.buffers.map Ideal.Buffer.id := by
  have hids : w.ideal.buffers.map Ideal.Buffer.id = w.core.views.map RefView.id := by
    show (w.core.ctls.map Control.face).map Ideal.Buffer.id = (w.core.ctls.map Control.refView).map _
    rw [List.map_map, List.map_map]
    rfl
  rw [hids]
  intro hmem
  exact Nat.lt_irrefl _ (h.refs.core.mem_ids hmem).2.2

/-- A new record, and a handle to it. -/
theorem ideal_register {c : Core} (h : w.core.Looks c) (r : Record) :
    ideal
        { core := (c.register r).2.retain (c.register r).1
          objs := w.objs ++ [.handle (.ofControl (c.register r).2 (c.register r).1)] }
      = { w.ideal with
          buffers := w.ideal.buffers ++ [r.face]
          objects := w.ideal.objects ++
            [⟨.handle, some (w.ideal.buffers.length, r.face.generation)⟩] } := by
  have hfaces : ((c.register r).2.retain (c.register r).1).faces = w.core.faces ++ [r.face] := by
    rw [(Core.looks_retain _ _).faces, ← h.faces]
    exact List.map_append
  have hlen : w.ideal.buffers.length = c.ctls.length := by
    show w.core.faces.length = _
    rw [← h.faces]
    exact List.length_map _
  have hgen : ((c.register r).2.control c.ctls.length).record.generation = r.generation := by
    rw [Core.control_register, if_pos rfl]
  have hrt : w.core.rt.Looks ((c.register r).2.retain (c.register r).1).rt :=
    ⟨h.rt.closed, h.rt.domains, h.rt.nss, h.rt.device⟩
  have hobject : (Obj.handle (.ofControl (c.register r).2 (c.register r).1)).face
      = ⟨.handle, some (w.ideal.buffers.length, r.face.generation)⟩ := by
    rw [hlen, Record.face_generation, ← hgen]
    rfl
  unfold ideal at hobject ⊢
  simp only [hfaces, hrt.closed, hrt.domains, hrt.nss, hrt.device, List.map_append,
    List.map_singleton, hobject]

theorem Regular.builds (h : w.Regular) {make : BufferId → Ideal.Buffer}
    {p : Except Error CtlId × Core} (hp : Builds w.core make p) :
    outcome (w.giveHandle p) ∈ w.ideal.mayFail ∪ w.ideal.creates make := by
  cases hp with
  | @failed e c looks => exact .inl (mayFail_of looks e.code)
  | @fresh c r looks face =>
      refine .inr ⟨_, h.nextId_new, Prod.ext ?_ ?_⟩
      · show Except.ok (Reply.object w.objs.length) = .ok (.object (w.objs.map Obj.face).length)
        rw [List.length_map]
      · rw [← face]
        exact ideal_register looks r

/-- The rounded size of a request fits into a word. -/
theorem alignUp_fits {dom : IDomain} {req : AllocationRequest}
    (hpow : isPowerOfTwo (RuntimeImpl.requestAlignment dom req) = true)
    (hlarge : ¬ RuntimeImpl.requestAlignment dom req > 4096)
    (hhuge : ¬ req.size > (1 : UInt64) <<< 48) :
    ∃ up, alignUp req.size (RuntimeImpl.requestAlignment dom req) = some up := by
  have hne : RuntimeImpl.requestAlignment dom req ≠ 0 := by
    unfold RuntimeImpl.requestAlignment
    simp only
    generalize (if req.alignment = 0 then _ else req.alignment) = alignment
    split
    · decide
    · assumption
  obtain ⟨k, hk⟩ := (isPowerOfTwo_iff hne).mp hpow
  have hsmall : 2 ^ k ≤ 2 ^ 12 := by
    rw [← hk]
    exact UInt64.le_iff_toNat_le.mp (UInt64.not_lt.mp hlarge)
  have hk12 : k ≤ 12 := (Nat.pow_le_pow_iff_right Nat.one_lt_two).mp hsmall
  have hsize : req.size.toNat ≤ 2 ^ 48 :=
    UInt64.le_iff_toNat_le.mp (UInt64.not_lt.mp hhuge)
  exact alignUp_isSome hk (Nat.pow_dvd_pow 2 (by omega)) hsize (by decide)

/-- The checks of a request. -/
theorem request_eq (w : World) (req : AllocationRequest) :
    (∃ e, w.core.rt.validateRequest req = .error e ∧ w.ideal.request req = .error e.code) ∨
      ∃ alignment classSize make, w.core.rt.validateRequest req = .ok (alignment, classSize) ∧
        w.ideal.request req = .ok make ∧
        ∀ env id, (w.core.rt.requestRecord env req alignment id).face = make id := by
  unfold RuntimeImpl.validateRequest Ideal.State.request
  by_cases hzero : req.size = 0
  · exact .inl ⟨_, if_pos hzero, if_pos (.inl hzero)⟩
  by_cases hhuge : req.size > (1 : UInt64) <<< 48
  · exact .inl ⟨_, (if_neg hzero).trans (if_pos hhuge), if_pos (.inr hhuge)⟩
  rw [if_neg hzero, if_neg hhuge, if_neg (not_or.mpr ⟨hzero, hhuge⟩), ideal_backends]
  cases hdom : w.core.rt.domain req.domain with
  | none => exact .inl ⟨_, rfl, rfl⟩
  | some dom =>
      simp only
      by_cases hpow : isPowerOfTwo (RuntimeImpl.requestAlignment dom req) = true
      · by_cases hlarge : RuntimeImpl.requestAlignment dom req > 4096
        · exact .inl ⟨_, (if_neg (not_not.mpr hpow)).trans (if_pos hlarge), if_pos (.inr hlarge)⟩
        rw [if_neg (not_not.mpr hpow), if_neg hlarge,
          if_neg (not_or.mpr ⟨not_not.mpr hpow, hlarge⟩)]
        by_cases hdevice : req.domain = .device ∧ req.device.index < 0
        · exact .inl ⟨_, if_pos hdevice, if_pos hdevice⟩
        rw [if_neg hdevice, if_neg hdevice]
        obtain ⟨up, hup⟩ := alignUp_fits hpow hlarge hhuge
        refine .inr ⟨_, up, _, by rw [hup], rfl, fun env id => ?_⟩
        unfold RuntimeImpl.requestRecord
        rw [hdom]
        rfl
      · exact .inl ⟨_, if_pos hpow, if_pos (.inl hpow)⟩

/-- A valid request. Whatever happens behind the checks is seen as a failure or as the buffer that
was asked for, wherever its memory comes from. -/
theorem allocate_builds (env : Env) {req : AllocationRequest} {alignment classSize : UInt64}
    {make : BufferId → Ideal.Buffer}
    (hvalid : w.core.rt.validateRequest req = .ok (alignment, classSize))
    (hface : ∀ id, (w.core.rt.requestRecord env req alignment id).face = make id) :
    Builds w.core make (w.core.allocate env req) := by
  have halignment : ∀ {a s : UInt64} {l : Ledger}, w.core.rt.admits req = some (a, s, l) →
      a = alignment := by
    intro a s l hadmits
    have hok := (RuntimeImpl.admits_valid hadmits).symm.trans hvalid
    exact (Prod.mk.inj (Except.ok.inj hok)).1
  have hrun := RuntimeImpl.allocateRecord_run w.core.rt w.core.os env req
  unfold Core.allocate
  generalize w.core.rt.allocateRecord w.core.os env req = out at hrun ⊢
  cases hrun with
  | refused admission counts state => exact .failed (.of_quiet state ⟨rfl, rfl, rfl, rfl⟩ _)
  | backendFailed admission offer backend counts state =>
      exact .failed (.of_quiet state ⟨rfl, rfl, rfl, rfl⟩ _)
  | commitFailed admission offer backend commit counts state =>
      exact .failed (.of_quiet state ⟨rfl, rfl, rfl, rfl⟩ _)
  | freshZeroFailed admission offer backend commit zero counts state =>
      exact .failed (.of_quiet state ⟨rfl, rfl, rfl, rfl⟩ _)
  | pooledZeroFailed admission offer zero state =>
      exact .failed (.of_quiet state ⟨rfl, rfl, rfl, rfl⟩ _)
  | fresh admission offer backend commit zero state =>
      obtain rfl := halignment admission
      exact .fresh (.of_quiet state ⟨rfl, rfl, rfl, rfl⟩ _) (hface _)
  | pooled admission offer zero state =>
      obtain rfl := halignment admission
      exact .fresh (.of_quiet state ⟨rfl, rfl, rfl, rfl⟩ _) (hface _)

theorem Regular.allocate (h : w.Regular) (env : Env) (req : AllocationRequest) :
    outcome (w.step (.allocate env req)) ∈ w.ideal.allowed (.allocate env req) := by
  simp only [step, World.allocate, Ideal.State.allowed]
  have hclosed : w.ideal.closed = w.core.rt.closed := rfl
  rw [hclosed]
  cases hc : w.core.rt.closed with
  | true => exact fails_of (.refl w.core) _
  | false =>
      simp only [Bool.false_eq_true, if_false]
      rcases request_eq w req with ⟨e, hbad, hreq⟩ | ⟨alignment, classSize, make, hgood, hreq, hface⟩
      · rw [hreq]
        have hrefused : w.core.allocate env req
            = (.error e.passOn.passOn, { w.core with rt := w.core.rt.countFailed }) := by
          unfold Core.allocate RuntimeImpl.allocateRecord
          simp only [hc, Bool.false_eq_true, if_false, hbad]
        rw [hrefused]
        exact fails_of (.of_ctls ⟨rfl, rfl, rfl, rfl⟩ rfl) _
      · rw [hreq]
        exact h.builds (allocate_builds env hgood (hface env))

theorem Regular.wrapExternal (h : w.Regular) (desc : ExternalMemoryDesc) :
    outcome (w.step (.wrapExternal desc)) ∈ w.ideal.allowed (.wrapExternal desc) := by
  have hclosed : w.ideal.closed = w.core.rt.closed := rfl
  simp only [step, Core.wrapExternal, Ideal.State.allowed, Ideal.State.wrapping, hclosed,
    ideal_backends]
  cases hc : w.core.rt.closed with
  | true => exact fails_of (.refl w.core) _
  | false =>
      simp only [Bool.false_eq_true, if_false]
      by_cases hbad : desc.pointer = 0 ∨ desc.size = 0
      · rw [if_pos hbad, if_pos hbad]
        exact fails_of (.refl w.core) _
      rw [if_neg hbad, if_neg hbad]
      cases w.core.rt.domain desc.domain with
      | none => exact fails_of (.refl w.core) _
      | some dom =>
          refine h.builds ?_
          generalize hres : w.core.rt.reserveCount kDefaultNamespace = out
          obtain ⟨res, rt⟩ := out
          rcases RuntimeImpl.reserveCount_cases hres with ⟨e, rfl, hquiet⟩ | ⟨rfl, rfl⟩
          · exact .failed (.of_quiet hquiet (.refl _) _)
          · exact .fresh (.of_ctls ⟨rfl, rfl, rfl, rfl⟩ rfl) rfl

/-- The checks of a descriptor. -/
theorem importing_eq (w : World) (desc : ExportDescriptor) (ns : NamespaceId)
    (hopen : w.core.rt.closed = false) :
    (∃ e, w.core.checkImport desc ns = .error e ∧ w.ideal.importing desc ns = .error e.code) ∨
      w.core.checkImport desc ns = .ok () ∧ w.ideal.importing desc ns = .ok () := by
  have hclosed : ¬ w.ideal.closed = true := Bool.eq_false_iff.mp hopen
  have hinfo : ∀ n, w.ideal.namespaces.find? n = w.core.rt.namespaceInfo n := fun _ => rfl
  unfold Ideal.State.importing Ideal.State.permits Core.checkImport
  rw [if_neg hclosed]
  simp only [hinfo]
  by_cases hformat : desc.formatVersion ≠ kExportFormatVersion
  · exact .inl ⟨_, if_pos hformat, if_pos (.inl hformat)⟩
  by_cases hzero : desc.size = 0
  · exact .inl ⟨_, (if_neg hformat).trans (if_pos hzero), if_pos (.inr (.inl hzero))⟩
  by_cases hhuge : desc.size > (1 : UInt64) <<< 48
  · exact .inl ⟨_, ((if_neg hformat).trans (if_neg hzero)).trans (if_pos hhuge),
      if_pos (.inr (.inr (.inl hhuge)))⟩
  rw [if_neg hformat, if_neg hzero, if_neg hhuge]
  by_cases halign : desc.alignment ≠ 0 ∧ ¬ isPowerOfTwo desc.alignment
  · exact .inl ⟨_, if_pos halign, if_pos (.inr (.inr (.inr halign)))⟩
  rw [if_neg halign,
    if_neg (not_or.mpr ⟨hformat, not_or.mpr ⟨hzero, not_or.mpr ⟨hhuge, halign⟩⟩⟩)]
  cases w.core.rt.namespaceInfo ns with
  | none => exact .inl ⟨_, rfl, rfl⟩
  | some target =>
      simp only
      by_cases hsource : ((w.core.rt.namespaceInfo desc.ns).map fun src => !src.allowImport).getD
          false = true
      · exact .inl ⟨_, if_pos hsource, if_pos (.inl hsource)⟩
      by_cases htarget : target.allowImport = false
      · exact .inl ⟨_, (if_neg hsource).trans (if_pos htarget), if_pos (.inr (.inl htarget))⟩
      rw [if_neg hsource, if_neg htarget]
      by_cases hns : desc.ns ≠ ns
      · exact .inl ⟨_, if_pos hns, if_pos (.inr (.inr hns))⟩
      · exact .inr ⟨if_neg hns, if_neg (not_or.mpr ⟨hsource, not_or.mpr ⟨htarget, hns⟩⟩)⟩

/-- The import of a segment. -/
theorem Regular.importSegment (h : w.Regular) {c : Core} (hlooks : w.core.Looks c) (env : Env)
    (desc : ExportDescriptor) {ns : NamespaceId} {label : String} {dom : IDomain}
    (hdom : c.rt.domain desc.domain = some dom) :
    outcome (w.giveHandle
        (c.importSegment env desc (Core.importRecord env desc ns label w.core.rt.nextId.1)))
      ∈ w.ideal.mayFail ∪ w.ideal.creates (Ideal.State.imported desc ns label) := by
  refine h.builds ?_
  unfold Core.importSegment
  rw [hdom]
  generalize c.os.importHandle env desc.domain desc.handle desc.size _ = out
  obtain ⟨res, os⟩ := out
  cases res with
  | error e => exact .failed (hlooks.trans (.of_ctls ⟨rfl, rfl, rfl, rfl⟩ rfl))
  | ok a =>
      simp only
      split
      · exact .failed (hlooks.trans (.of_ctls ⟨rfl, rfl, rfl, rfl⟩ rfl))
      · exact .fresh (hlooks.trans (.of_quiet (Core.noteImport_quiet _ _ _) (.refl _) _)) rfl

/-- A handle to a buffer that is there. -/
theorem hands_known {c : Core} (hlooks : w.core.Looks c) (hctls : c.ctls = w.core.ctls)
    (hk : k < w.core.ctls.length) :
    outcome (w.giveHandle (.ok k, c)) ∈ w.ideal.hands .handle k := by
  refine hands_of (hlooks.trans (Core.looks_retain c k)) ?_
  rw [ideal_buffer w k hk, ← Core.control_congr hctls]
  rfl

section Local

-- the import of a descriptor that is not one of a segment
variable {s : Ideal.State} {desc : ExportDescriptor} {ns : NamespaceId} {label : String}
  (hkind : Core.handleKind desc.domain = none)

include hkind

theorem takesIn_known (hfind : s.find desc.bufferId = some k)
    (hgrants : desc.handleKind = "local" ∧ desc.generation = (s.buffer k).generation) :
    s.takesIn desc ns label = s.hands .handle k := by
  simp only [Ideal.State.takesIn, hkind, hfind]
  exact if_pos hgrants

theorem takesIn_refused (hno : ∀ k, s.find desc.bufferId = some k →
      ¬ (desc.handleKind = "local" ∧ desc.generation = (s.buffer k).generation)) :
    s.takesIn desc ns label = s.fails (Ideal.State.silent .importFailure) := by
  simp only [Ideal.State.takesIn, hkind]
  cases hfind : s.find desc.bufferId with
  | none => rfl
  | some k => exact if_neg (hno k hfind)

end Local

/-- A lookup finds a buffer that something refers to and that has this generation. -/
theorem Regular.lookup_cases (h : w.Regular) {c : Core}
    (hregistry : c.rt.registry = w.core.rt.registry) (hctls : c.ctls = w.core.ctls)
    (id : BufferId) (gen : BufferGeneration) :
    (∃ k, c.lookup id gen = (.ok k, c) ∧ w.ideal.find id = some k ∧ k < w.core.ctls.length ∧
        gen = (w.ideal.buffer k).generation) ∨
      ∃ e c', c.lookup id gen = (.error e, c') ∧ c.Looks c' ∧
        ∀ k, w.ideal.find id = some k → gen ≠ (w.ideal.buffer k).generation := by
  rw [h.find_eq]
  unfold Core.lookup
  rw [hregistry]
  cases hfind : w.core.rt.registry.find? id with
  | none => exact .inr ⟨_, _, rfl, Core.looks_count _ _, fun k hk => by cases hk⟩
  | some k =>
      have hk := (h.refs.registered_block hfind).1.1
      simp only [Core.control_congr hctls]
      by_cases hgen : gen = (w.core.control k).record.generation
      · refine .inl ⟨k, if_neg (not_not.mpr hgen), rfl, hk, ?_⟩
        rw [ideal_buffer w k hk]
        exact hgen
      · refine .inr ⟨_, _, if_pos hgen, Core.looks_count _ _, fun j hj => ?_⟩
        obtain rfl := Option.some.inj hj
        rw [ideal_buffer w k hk]
        exact hgen

theorem Regular.importBuffer (h : w.Regular) (env : Env) (desc : ExportDescriptor)
    (ns : NamespaceId) (label : String) :
    outcome (w.step (.importBuffer env desc ns label))
      ∈ w.ideal.allowed (.importBuffer env desc ns label) := by
  simp only [step, Core.importDescriptor, Ideal.State.allowed]
  cases hopen : w.core.rt.closed with
  | true =>
      have himporting : w.ideal.importing desc ns = .error .closed := if_pos hopen
      rw [himporting]
      exact fails_of (.refl w.core) _
  | false =>
      simp only [Bool.false_eq_true, if_false]
      rcases importing_eq w desc ns hopen with ⟨e, hcheck, himporting⟩ | ⟨hcheck, himporting⟩
      · rw [hcheck, himporting]
        exact fails_of (.refl w.core) _
      rw [hcheck, himporting]
      have hlooks : w.core.Looks { w.core with rt := w.core.rt.nextId.2 } :=
        .of_ctls ⟨rfl, rfl, rfl, rfl⟩ rfl
      cases hkind : Core.handleKind desc.domain with
      | some kind =>
          simp only [Ideal.State.takesIn, hkind, Option.isSome_some, if_true, ideal_backends]
          cases hdom : w.core.rt.domain desc.domain with
          | none =>
              have hnone : w.core.rt.nextId.2.domain desc.domain = none := hdom
              simp only [Core.importSegment, hnone]
              exact fails_of hlooks _
          | some dom => exact h.importSegment hlooks env desc hdom
      | none =>
          simp only [Option.isSome_none, Bool.false_eq_true, if_false]
          rcases h.lookup_cases (c := { w.core with rt := w.core.rt.nextId.2 }) rfl rfl
              desc.bufferId desc.generation with
            ⟨k, hlookup, hfind, hk, hgen⟩ | ⟨e, c, hlookup, hcounted, hno⟩
          · by_cases hlocal : desc.handleKind = "local"
            · rw [takesIn_known hkind hfind ⟨hlocal, hgen⟩, if_pos hlocal, hlookup]
              exact hands_known (hlooks.trans (Core.looks_count _ _)) rfl hk
            · rw [takesIn_refused hkind fun j _ hboth => hlocal hboth.1, if_neg hlocal]
              exact fails_of hlooks _
          · rw [takesIn_refused hkind fun j hj hboth => hno j hj hboth.2, hlookup]
            split
            · exact fails_of (hlooks.trans hcounted) _
            · exact fails_of hlooks _

/-! ## Export and migration -/

theorem Regular.exportBuffer (h : w.Regular) (env : Env) (i : Nat) :
    outcome (w.step (.exportBuffer env i)) ∈ w.ideal.allowed (.exportBuffer env i) := by
  refine h.withBuffer (fun e he => ?_) fun k hk halive => ?_
  · simp only [step, World.exportBuffer, he]
  simp only [step, World.exportBuffer, hk, Ideal.State.givesOut, ideal_buffer w k halive.1]
  have hidle := exportDescriptor_idle w.core env k
  simp only [Record.face_exportable, Record.face_domain, ideal_backends]
  by_cases hsecret : (w.core.control k).record.flags.exportable = false
  · rw [if_pos hsecret]
    refine answer_error hidle ?_
    simp only [Core.exportDescriptor, if_pos hsecret]
  rw [if_neg hsecret]
  cases hdom : w.core.rt.domain (w.core.control k).record.domain with
  | none =>
      refine answer_error hidle ?_
      simp only [Core.exportDescriptor, if_neg hsecret, hdom]
  | some dom =>
      cases hkind : Core.handleKind (w.core.control k).record.domain with
      | none =>
          refine Set.mem_iUnion.mpr ⟨toString w.core.rt.address, answer_ok hidle ?_⟩
          simp only [Core.exportDescriptor, if_neg hsecret, hdom, hkind]
          rfl
      | some kind =>
          cases hname : env.exportHandle (w.core.control k).record.domain
              (w.core.control k).record.backing with
          | error e =>
              refine .inl ⟨e.code, answer_error hidle ?_⟩
              simp only [Core.exportDescriptor, if_neg hsecret, hdom, hkind, hname]
              rfl
          | ok name =>
              refine .inr (Set.mem_iUnion.mpr ⟨name, answer_ok hidle ?_⟩)
              simp only [Core.exportDescriptor, if_neg hsecret, hdom, hkind, hname]
              rfl

/-- The state after a migration. -/
theorem ideal_migrated (hk : k < w.core.ctls.length) {rt' : RuntimeImpl}
    (hrt : w.core.rt.Looks rt') (os : Os) (target : MemoryDomain) (dom : IDomain)
    (a : NativeAllocation) :
    ideal
        { w with
          core :=
            { rt := rt'
              os := os
              ctls := w.core.ctls.set k
                { w.core.control k with
                  record := w.core.rt.rebind dom target (w.core.control k).record a } } }
      = { w.ideal with buffers := w.ideal.buffers.set k (w.ideal.migrated k target dom) } := by
  have hface : (w.core.rt.rebind dom target (w.core.control k).record a).face
      = w.ideal.migrated k target dom := by
    rw [Ideal.State.migrated, ideal_buffer w k hk]
    rfl
  rw [← hface]
  unfold ideal
  simp only [Core.faces, List.map_set, hrt.closed, hrt.domains, hrt.nss, hrt.device]
  rfl

/-- The leases that stand in the way of a migration. -/
theorem Regular.held_iff (h : w.Regular) (hk : k < w.core.ctls.length) :
    ((w.core.control k).writeLeases > 0 ∨ (w.core.control k).exclusiveLeases > 0) ↔
      (w.ideal.leased k .write || w.ideal.leased k .exclusive) = true := by
  rw [Bool.or_eq_true, ← h.leases_pos hk, ← h.leases_pos hk]
  rfl

/-- A migration that the checks let through. -/
theorem migrate_moves (hk : (w.handle i).validateAlive w.core = .ok k) (halive : w.core.Alive k)
    (env : Env) {target : MemoryDomain} {dom : IDomain}
    (hne : (w.core.control k).record.domain ≠ target)
    (hdom : w.core.rt.domain target = some dom) :
    outcome (w.migrate env i target) ∈ w.ideal.mayFail ∪ Ideal.State.hands
      { w.ideal with buffers := w.ideal.buffers.set k (w.ideal.migrated k target dom) }
      .handle k := by
  have hrun := RuntimeImpl.migrate_run w.core.rt w.core.os env (w.core.control k) target
  simp only [World.migrate, hk, Core.migrate]
  generalize w.core.rt.migrate w.core.os env (w.core.control k) target = out at hrun ⊢
  cases hrun with
  | @refused e rt' admission state =>
      exact .inl (mayFail_of (Core.looks_set (state.looks (.refl _)) _ rfl) e.code)
  | stays admission same => exact absurd same hne
  | @backendFailed e e' rt' tdom l admission backend state =>
      exact .inl (mayFail_of (Core.looks_set (state.looks ⟨rfl, rfl, rfl, rfl⟩) _ rfl) e.code)
  | @copyFailed e e' rt' tdom l a admission backend copy state =>
      exact .inl (mayFail_of (Core.looks_set (state.looks ⟨rfl, rfl, rfl, rfl⟩) _ rfl) e.code)
  | @commitFailed e rt' tdom l a admission backend copy commit state =>
      exact .inl (mayFail_of (Core.looks_set (state.looks ⟨rfl, rfl, rfl, rfl⟩) _ rfl) e.code)
  | @verifyFailed e e' rt' tdom l l' a admission backend copy commit verify state =>
      exact .inl (mayFail_of (Core.looks_set (state.looks ⟨rfl, rfl, rfl, rfl⟩) _ rfl) e.code)
  | @swapped rt' tdom l l' a admission backend copy commit verify state =>
      obtain rfl : tdom = dom :=
        Option.some.inj ((RuntimeImpl.migrateAdmit_domain admission).symm.trans hdom)
      have hrt : w.core.rt.Looks rt' := state.looks ⟨rfl, rfl, rfl, rfl⟩
      refine .inr ?_
      rw [← ideal_migrated halive.1 hrt _ target tdom (w.core.os.stamp a)]
      refine hands_of (Core.looks_retain _ k) ?_
      rw [ideal_buffer _ k (by simpa using halive.1)]
      rfl

theorem Regular.migrate (h : w.Regular) (env : Env) (i : Nat) (target : MemoryDomain) :
    outcome (w.step (.migrate env i target)) ∈ w.ideal.allowed (.migrate env i target) := by
  refine h.withBuffer (fun e he => ?_) fun k hk halive => ?_
  · simp only [step, World.migrate, he]
  have hunreleased : ¬ ((w.core.control k).record.state = .released ∨
      (w.core.control k).record.state = .invalid) := fun hbad =>
    (BufferHandle.validateAlive_ok_iff.mp hk).state
      (hbad.elim .inl fun hinvalid => .inr (.inr hinvalid))
  simp only [step, Ideal.State.moves, ideal_buffer w k halive.1, Record.face_domain,
    ideal_backends]
  by_cases hclosed : w.core.rt.closed = true
  · rw [if_pos (show w.ideal.closed = true from hclosed)]
    simp only [World.migrate, hk, Core.migrate, RuntimeImpl.migrate, if_pos hclosed]
    exact fails_of (Core.looks_set (.refl _) _ rfl) _
  rw [if_neg (show ¬ w.ideal.closed = true from hclosed)]
  by_cases hsame : (w.core.control k).record.domain = target
  · rw [if_pos hsame]
    simp only [World.migrate, hk, Core.migrate, RuntimeImpl.migrate, if_neg hclosed, if_pos hsame]
    exact hands_known (Core.looks_set (.refl _) _ rfl) (w.core.set_control k) halive.1
  rw [if_neg hsame]
  by_cases hheld : (w.core.control k).writeLeases > 0 ∨ (w.core.control k).exclusiveLeases > 0
  · rw [if_pos ((h.held_iff halive.1).mp hheld)]
    simp only [World.migrate, hk, Core.migrate, RuntimeImpl.migrate, if_neg hclosed, if_neg hsame,
      if_neg hunreleased, if_pos hheld]
    refine fails_of (Core.looks_set ?_ _ rfl) _
    exact ⟨rfl, rfl, rfl, rfl⟩
  rw [if_neg (mt (h.held_iff halive.1).mpr hheld)]
  cases hdom : w.core.rt.domain target with
  | none =>
      simp only [World.migrate, hk, Core.migrate, RuntimeImpl.migrate, if_neg hclosed,
        if_neg hsame, if_neg hunreleased, if_neg hheld, hdom]
      exact fails_of (Core.looks_set (.refl _) _ rfl) _
  | some dom => exact migrate_moves hk halive env hsame hdom

/-! ## The rest -/

theorem Regular.invalidate (h : w.Regular) (env : Env) (id : BufferId) :
    outcome (w.step (.invalidate env id)) ∈ w.ideal.allowed (.invalidate env id) := by
  have hidle : w.core.Idle (w.core.finalizeById env id).2 := by
    rw [h.refs.invalidate env id]
    exact .refl w.core
  simp only [step, Ideal.State.allowed, h.find_eq]
  have heq := h.refs.finalizeById env id
  cases hfind : w.core.rt.registry.find? id with
  | none =>
      rw [hfind] at heq
      exact answer_error hidle (congrArg Prod.fst heq)
  | some k =>
      rw [hfind] at heq
      exact answer_error hidle (congrArg Prod.fst heq)

/-- The state after a shutdown. -/
theorem ideal_closeDown (w : World) :
    ideal { w with core := Core.closeDown { w.core with rt := { w.core.rt with closed := true } } }
      = { w.ideal with closed := true, backends := fun _ => none } := by
  have hlooks := Core.looks_poolTrim { w.core with rt := { w.core.rt with closed := true } }
  simp only [ideal, Ideal.State.mk.injEq, true_and]
  exact ⟨hlooks.faces, hlooks.rt.closed, rfl, hlooks.rt.nss, hlooks.rt.device⟩

theorem Regular.shutdown (h : w.Regular) (env : Env) :
    outcome (w.step (.shutdown env)) ∈ w.ideal.allowed (.shutdown env) := by
  simp only [step, Ideal.State.allowed, h.refs.core.shutdown_eq env]
  by_cases hclosed : w.core.rt.closed = true
  · rw [if_pos hclosed, if_pos (show w.ideal.closed = true from hclosed)]
    exact replies_of (.refl w.core) .done
  · rw [if_neg hclosed, if_neg (show ¬ w.ideal.closed = true from hclosed)]
    exact Prod.ext rfl (ideal_closeDown w)

/-- Every operation of the runtime is an operation of the ideal machine. -/
theorem Regular.step_allowed (h : w.Regular) (op : Op) :
    outcome (w.step op) ∈ w.ideal.allowed op := by
  cases op with
  | allocate env req => exact h.allocate env req
  | wrapExternal desc => exact h.wrapExternal desc
  | importBuffer env desc ns label => exact h.importBuffer env desc ns label
  | exportBuffer env i => exact h.exportBuffer env i
  | migrate env i target => exact h.migrate env i target
  | share i => exact h.share i
  | view i offset len access => exact h.view i offset len access
  | map env i access => exact h.map env i access
  | acquire kind i => exact h.acquire kind i
  | verify env i => exact h.verify env i
  | checksum i => exact h.checksum i
  | copyTo env i dst dstOffset len => exact h.copyTo env i dst dstOffset len
  | copyFrom env i src srcOffset len => exact h.copyFrom env i src srcOffset len
  | construct o =>
      have hlen : w.ideal.objects.length = w.objs.length := List.length_map _
      simp only [step, Ideal.State.allowed, hlen]
      refine becomes_of (.refl w.core) _ ?_
      rw [List.map_append, List.map_singleton, face_empty]
      rfl
  | move src => exact w.step_move src
  | moveAssign env dst src => exact h.moveAssign env dst src
  | release env i => exact h.release env i
  | destroy env i => exact h.destroy env i
  | invalidate env id => exact h.invalidate env id
  | poolTrim => exact replies_of w.core.looks_poolTrim .done
  | shutdown env => exact h.shutdown env
  | createNamespace nsc => rfl

/-- A run of the runtime is one of the ideal machine. -/
theorem Regular.path (h : w.Regular) (ops : List Op) :
    Path (fun s op reply t => (reply, t) ∈ Ideal.State.allowed s op) w.ideal
      (dialogue World.step w ops) (runs World.next w ops).ideal :=
  path_dialogue (I := World.Regular) World.ideal (fun _ op h => h.next op)
    (fun _ op h => h.step_allowed op) h ops

theorem regular_init (cfg : RuntimeConfig) (plat : RuntimeImpl.Platform) :
    (World.init cfg plat).Regular := by
  have hreach : Reach World.next (fun _ _ => True) (World.init cfg plat) (World.init cfg plat) :=
    .start
  exact ⟨refInv_init cfg plat, (inOrder_reach hreach).1, hashed_reach hreach⟩

end World

/-- A program that uses the runtime cannot tell it from the ideal machine: from the start on, over
every sequence of operations and whatever the backends answer, each reply is one that the ideal
machine may give in the state it has come to. -/
theorem runtime_refines_ideal (cfg : RuntimeConfig) (plat : RuntimeImpl.Platform) (ops : List Op) :
    Path (fun s op reply t => (reply, t) ∈ Ideal.State.allowed s op)
      (World.init cfg plat).ideal
      (dialogue World.step (World.init cfg plat) ops)
      (runs World.next (World.init cfg plat) ops).ideal :=
  (World.regular_init cfg plat).path ops

end UnifiedBuffer
