import UnifiedBuffer.Ideal.Refinement

set_option autoImplicit false

/-! # What the machinery decides

The pool, the limits of the domains and the backends decide whether an operation succeeds and which
identity a new buffer gets. They decide nothing else: two runtimes that are given the same calls,
succeed at the same ones and draw the same identities are in the same ideal state, and their
successful replies differ in nothing but checksums and handles of descriptors
(`machinery_invisible`).

The ideal machine shows this of one operation (`Settled`), the lockstep rule of a run, and the
refinement of the runtime. -/

namespace UnifiedBuffer

open Lib

/-- The reply without what depends on memory and on the process: the checksum of the contents, and
the handle of a descriptor, which names a segment or a file or is the address of the runtime. -/
def Reply.plain : Reply → Reply
  | .descriptor d => .descriptor { d with handle := "" }
  | .checksum _ => .checksum 0
  | reply => reply

/-- What both of two runs have to show: nothing of an error, and of a reply what is plain. -/
def shown (r : Except Error Reply) : Option Reply := r.toOption.map Reply.plain

/-- The call without what the backends do meanwhile. -/
def Op.call : Op → Op
  | .allocate _ req => .allocate {} req
  | .importBuffer _ desc ns label => .importBuffer {} desc ns label
  | .exportBuffer _ i => .exportBuffer {} i
  | .migrate _ i target => .migrate {} i target
  | .map _ i access => .map {} i access
  | .verify _ i => .verify {} i
  | .copyTo _ i dst dstOffset len => .copyTo {} i dst dstOffset len
  | .copyFrom _ i src srcOffset len => .copyFrom {} i src srcOffset len
  | .moveAssign _ dst src => .moveAssign {} dst src
  | .release _ i => .release {} i
  | .destroy _ i => .destroy {} i
  | .invalidate _ id => .invalidate {} id
  | .shutdown _ => .shutdown {}
  | op => op

namespace Ideal.State

variable {s : State} {S F : Set Outcome}

/-- The identities given so far. -/
def ids (s : State) : List BufferId := s.buffers.map Buffer.id

/-- Success and the identities settle which of these outcomes it is. -/
structure Settled (s : State) (S : Set Outcome) : Prop where
  grows : ∀ out ∈ S, s.ids <+: out.2.ids
  agree : ∀ out ∈ S, ∀ out' ∈ S, out.1.isOk = out'.1.isOk →
    out.2.ids.length = out'.2.ids.length ∧
      (out.2.ids = out'.2.ids → out.2 = out'.2 ∧ shown out.1 = shown out'.1)

/-! ## The outcomes of the ideal machine -/

theorem settled_one {out : Outcome} (h : s.ids <+: out.2.ids) : s.Settled {out} := by
  refine ⟨?_, ?_⟩
  · rintro _ rfl
    exact h
  · rintro _ rfl _ rfl _
    exact ⟨rfl, fun _ => ⟨rfl, rfl⟩⟩

/-- Failures leave the state, and they are not confused with successes. -/
theorem Settled.union (hF : ∀ out ∈ F, ∃ e, out = (.error e, s)) (hS : s.Settled S)
    (hok : ∀ out ∈ S, out.1.isOk = true) : s.Settled (F ∪ S) := by
  refine ⟨?_, ?_⟩
  · rintro out (hout | hout)
    · obtain ⟨e, rfl⟩ := hF out hout
      exact List.prefix_refl _
    · exact hS.grows out hout
  · rintro out (hout | hout) out' (hout' | hout') heq
    · obtain ⟨e, rfl⟩ := hF out hout
      obtain ⟨e', rfl⟩ := hF out' hout'
      exact ⟨rfl, fun _ => ⟨rfl, rfl⟩⟩
    · obtain ⟨e, rfl⟩ := hF out hout
      rw [hok out' hout'] at heq
      cases heq
    · obtain ⟨e, rfl⟩ := hF out' hout'
      rw [hok out hout] at heq
      cases heq
    · exact hS.agree out hout out' hout' heq

theorem settled_fails (s : State) (e : Error) : s.Settled (s.fails e) :=
  settled_one (List.prefix_refl _)

theorem settled_replies (s : State) (reply : Reply) : s.Settled (s.replies reply) :=
  settled_one (List.prefix_refl _)

theorem settled_becomes (s : State) (reply : Reply) (objects : List Object) :
    s.Settled (s.becomes reply objects) :=
  settled_one (List.prefix_refl _)

theorem settled_hands (s : State) (kind : Kind) (k : Nat) : s.Settled (s.hands kind k) :=
  settled_one (List.prefix_refl _)

/-- The new buffer is known by its identity. -/
theorem settled_creates (s : State) {make : BufferId → Buffer} (hmake : ∀ id, (make id).id = id) :
    s.Settled (s.creates make) := by
  have hids (id : BufferId) : (s.buffers ++ [make id]).map Buffer.id = s.ids ++ [id] := by
    rw [List.map_append, List.map_singleton, hmake]
    rfl
  refine ⟨?_, ?_⟩
  · rintro _ ⟨id, _, rfl⟩
    exact ⟨[id], (hids id).symm⟩
  · rintro _ ⟨id, _, rfl⟩ _ ⟨id', _, rfl⟩ _
    refine ⟨by simp [ids], fun heq => ?_⟩
    have hlast : s.ids ++ [id] = s.ids ++ [id'] := (hids id).symm.trans (heq.trans (hids id'))
    obtain rfl : id = id' := by simpa using hlast
    exact ⟨rfl, rfl⟩

/-- One of several replies that show the same. -/
theorem settled_chosen {ι : Type} (s : State) {reply : ι → Reply}
    (h : ∀ a b, (reply a).plain = (reply b).plain) : s.Settled (⋃ a, s.replies (reply a)) := by
  refine ⟨?_, ?_⟩
  · rintro _ ⟨_, ⟨a, rfl⟩, rfl⟩
    exact List.prefix_refl _
  · rintro _ ⟨_, ⟨a, rfl⟩, rfl⟩ _ ⟨_, ⟨b, rfl⟩, rfl⟩ _
    exact ⟨rfl, fun _ => ⟨rfl, congrArg some (h a b)⟩⟩

theorem ok_one {reply : Reply} {t : State} :
    ∀ out ∈ ({(.ok reply, t)} : Set Outcome), out.1.isOk = true := by
  rintro _ rfl
  rfl

theorem ok_chosen {ι : Type} {reply : ι → Reply} :
    ∀ out ∈ ⋃ a, s.replies (reply a), out.1.isOk = true := by
  rintro _ ⟨_, ⟨a, rfl⟩, rfl⟩
  rfl

/-- An operation that may fail for want of memory or of a backend. -/
theorem Settled.orFail (hS : s.Settled S) (hok : ∀ out ∈ S, out.1.isOk = true) :
    s.Settled (s.mayFail ∪ S) := by
  refine Settled.union ?_ hS hok
  rintro _ ⟨code, rfl⟩
  exact ⟨silent code, rfl⟩

theorem settled_mayCreate (s : State) {make : BufferId → Buffer}
    (hmake : ∀ id, (make id).id = id) : s.Settled (s.mayFail ∪ s.creates make) := by
  refine (s.settled_creates hmake).orFail ?_
  rintro _ ⟨id, _, rfl⟩
  rfl

/-- A transfer fails with the error of the backend. -/
theorem settled_transfers (s : State) : s.Settled ((⋃ e, s.fails e) ∪ s.replies .done) := by
  refine Settled.union ?_ (s.settled_replies _) ok_one
  rintro _ ⟨_, ⟨e, rfl⟩, rfl⟩
  exact ⟨e, rfl⟩

/-- A migration keeps the identity of the buffer. -/
theorem ids_migrated (s : State) (k : Nat) (target : MemoryDomain) (dom : IDomain) :
    (s.buffers.set k (s.migrated k target dom)).map Buffer.id = s.ids := by
  by_cases hk : k < s.buffers.length
  · refine map_set_same Buffer.id (List.getElem?_eq_getElem hk) ?_
    show (s.buffers.getD k {}).id = _
    rw [List.getD_eq_getElem?_getD, List.getElem?_eq_getElem hk]
    rfl
  · rw [List.set_eq_of_length_le (not_lt.mp hk)]
    rfl

/-! ## The operations -/

theorem settled_withBuffer (i : Nat) {f : Nat → Set Outcome} (hf : ∀ k, s.Settled (f k)) :
    s.Settled (s.withBuffer i f) := by
  rw [withBuffer]
  split
  · exact s.settled_fails _
  · exact hf _

theorem settled_withAccess (i : Nat) (access : AccessMode) {f : Nat → Set Outcome}
    (hf : ∀ k, s.Settled (f k)) : s.Settled (s.withAccess i access f) := by
  rw [withAccess]
  split
  · exact s.settled_fails _
  · exact hf _

theorem request_id {req : AllocationRequest} {make : BufferId → Buffer}
    (h : s.request req = .ok make) (id : BufferId) : (make id).id = id := by
  unfold request at h
  grind

theorem wrapping_id {desc : ExternalMemoryDesc} {make : BufferId → Buffer}
    (h : s.wrapping desc = .ok make) (id : BufferId) : (make id).id = id := by
  unfold wrapping at h
  grind

theorem settled_takesIn (s : State) (desc : ExportDescriptor) (ns : NamespaceId) (label : String) :
    s.Settled (s.takesIn desc ns label) := by
  unfold takesIn
  split
  · split
    · exact s.settled_fails _
    · exact s.settled_mayCreate fun _ => rfl
  · split
    · split
      · exact s.settled_hands _ _
      · exact s.settled_fails _
    · exact s.settled_fails _

theorem settled_givesOut (s : State) (k : Nat) : s.Settled (s.givesOut k) := by
  simp only [givesOut]
  split
  · exact s.settled_fails _
  · split
    · exact s.settled_fails _
    -- the backend chooses the name of the segment, and the plain reply leaves it out
    · exact (s.settled_chosen fun _ _ => rfl).orFail ok_chosen
    · exact s.settled_chosen fun _ _ => rfl

theorem settled_moves (s : State) (k : Nat) (target : MemoryDomain) :
    s.Settled (s.moves k target) := by
  unfold moves
  split
  · exact s.settled_fails _
  split
  · exact s.settled_hands _ _
  split
  · exact s.settled_fails _
  split
  · exact s.settled_fails _
  · refine Settled.orFail (settled_one ?_) ok_one
    exact ⟨[], (List.append_nil _).trans (s.ids_migrated k target _).symm⟩

theorem allowed_settled (s : State) (op : Op) : s.Settled (s.allowed op) := by
  cases op with
  | allocate env req =>
      simp only [allowed]
      split
      · exact s.settled_fails _
      split
      · exact s.settled_fails _
      · next hmake => exact s.settled_mayCreate (request_id hmake)
  | wrapExternal desc =>
      simp only [allowed]
      split
      · exact s.settled_fails _
      · next hmake => exact s.settled_mayCreate (wrapping_id hmake)
  | importBuffer env desc ns label =>
      simp only [allowed]
      split
      · exact s.settled_fails _
      · exact s.settled_takesIn desc ns label
  | exportBuffer env i => exact settled_withBuffer i s.settled_givesOut
  | migrate env i target => exact settled_withBuffer i fun k => s.settled_moves k target
  | share i => exact settled_withBuffer i (s.settled_hands .handle)
  | view i offset len access =>
      refine settled_withAccess i access fun k => ?_
      split
      · exact s.settled_fails _
      split
      · exact s.settled_fails _
      · exact s.settled_hands _ k
  | map env i access =>
      refine settled_withAccess i access fun k => ?_
      split
      · exact s.settled_fails _
      split
      · exact s.settled_fails _
      · exact (s.settled_hands _ k).orFail ok_one
  | acquire kind i =>
      refine settled_withBuffer i fun k => ?_
      split
      · exact s.settled_fails _
      · exact s.settled_hands _ k
  | verify env i =>
      refine settled_withBuffer i fun k => ?_
      split
      · exact s.settled_fails _
      · exact (s.settled_replies _).orFail ok_one
  | checksum i =>
      refine settled_withBuffer i fun k => ?_
      split
      · exact s.settled_fails _
      · refine Settled.union ?_ (s.settled_chosen fun _ _ => rfl) ok_chosen
        rintro _ rfl
        exact ⟨_, rfl⟩
  | copyTo env i dst dstOffset len =>
      refine settled_withBuffer i fun k => ?_
      split
      · exact s.settled_fails _
      split
      · exact s.settled_fails _
      · exact s.settled_transfers
  | copyFrom env i src srcOffset len =>
      refine settled_withAccess i .write fun k => ?_
      split
      · exact s.settled_fails _
      split
      · exact s.settled_fails _
      · exact s.settled_transfers
  | construct o => exact s.settled_becomes _ _
  | move src =>
      simp only [allowed]
      split
      · exact s.settled_replies _
      · exact s.settled_becomes _ _
  | moveAssign env dst src =>
      simp only [allowed]
      split
      · split
        · exact s.settled_replies _
        · exact s.settled_becomes _ _
      · exact s.settled_replies _
  | release env i => exact s.settled_becomes _ _
  | destroy env i => exact s.settled_becomes _ _
  | invalidate env id =>
      simp only [allowed]
      split
      · exact s.settled_fails _
      · exact s.settled_fails _
  | poolTrim => exact s.settled_replies _
  | shutdown env =>
      simp only [allowed]
      split
      · exact s.settled_replies _
      · exact settled_one (List.prefix_refl _)
  | createNamespace nsc => exact settled_one (List.prefix_refl _)

/-- The ideal machine knows nothing of the backends' doings. -/
theorem allowed_call (s : State) (op : Op) : s.allowed op.call = s.allowed op := by
  cases op <;> rfl

end Ideal.State

/-! ## Two runtimes -/

namespace World

theorem ideal_ids (w : World) : w.ideal.ids = w.ids := List.map_map

end World

/-- The same call, with success in both runs or in none. -/
def SameCall (p p' : Op × Except Error Reply) : Prop :=
  p.1.call = p'.1.call ∧ p.2.isOk = p'.2.isOk

/-- Two runtimes that users know alike at the start may have other pools, limits and backends. As
long as these let the same calls succeed and draw the same identities, the users know the runtimes
alike at the end, and they have been shown the same replies, up to checksums and handles of
descriptors. -/
theorem machinery_invisible {cfg cfg' : RuntimeConfig} {plat plat' : RuntimeImpl.Platform}
    {ops ops' : List Op} (hstart : (World.init cfg plat).ideal = (World.init cfg' plat').ideal)
    (hcalls : List.Forall₂ SameCall (dialogue World.step (World.init cfg plat) ops)
      (dialogue World.step (World.init cfg' plat') ops'))
    (hids : (runs World.next (World.init cfg plat) ops).ids =
      (runs World.next (World.init cfg' plat') ops').ids) :
    (runs World.next (World.init cfg plat) ops).ideal =
        (runs World.next (World.init cfg' plat') ops').ideal ∧
      List.Forall₂ (fun p p' => shown p.2 = shown p'.2)
        (dialogue World.step (World.init cfg plat) ops)
        (dialogue World.step (World.init cfg' plat') ops') := by
  have hrun := (World.regular_init cfg plat).path ops
  have hrun' := (World.regular_init cfg' plat').path ops'
  rw [← hstart] at hrun'
  rw [← World.ideal_ids, ← World.ideal_ids] at hids
  refine Path.lockstep Ideal.State.ids ?_ ?_ hcalls hrun hrun' hids
  · intro s op reply t h
    exact (s.allowed_settled op).grows _ h
  · intro s op reply t op' reply' t' h h' hcall
    have h'' : (reply', t') ∈ s.allowed op := by
      rw [← s.allowed_call, hcall.1, s.allowed_call]
      exact h'
    exact (s.allowed_settled op).agree _ h _ h'' hcall.2

/-- A buffer is made and released, and another one is made; the backends find memory at an address
the first time and do `again` the second time. -/
def twiceOn (address : Nat) (again : Env) : List Op :=
  [.allocate (Env.findsAt address) { size := 6000 }, .release {} 0, .allocate again { size := 5000 }]

/-- No pool, and a limit for the host. -/
def unpooled : RuntimeConfig := { enablePool := false, hostCap := 65536 }

/-- The theorem at work: the second buffer has its memory from the pool, although the backends find
none any more, or from the backend of a runtime without a pool. -/
theorem machinery_invisible_pool :
    ((runs World.next (World.init {} {}) (twiceOn 4096 {})).core.control 1).record.pooled = true ∧
      ((runs World.next (World.init unpooled {})
        (twiceOn 8192 (Env.findsAt 12288))).core.control 1).record.pooled = false ∧
      (runs World.next (World.init {} {}) (twiceOn 4096 {})).ideal =
        (runs World.next (World.init unpooled {}) (twiceOn 8192 (Env.findsAt 12288))).ideal := by
  have hstart : (World.init {} {}).ideal = (World.init unpooled {}).ideal := rfl
  have hcalls : List.Forall₂ SameCall (dialogue World.step (World.init {} {}) (twiceOn 4096 {}))
      (dialogue World.step (World.init unpooled {}) (twiceOn 8192 (Env.findsAt 12288))) :=
    .cons ⟨rfl, by decide⟩ (.cons ⟨rfl, by decide⟩ (.cons ⟨rfl, by decide⟩ .nil))
  have hids : (runs World.next (World.init {} {}) (twiceOn 4096 {})).ids =
      (runs World.next (World.init unpooled {}) (twiceOn 8192 (Env.findsAt 12288))).ids := by
    decide
  exact ⟨by decide, by decide, (machinery_invisible hstart hcalls hids).1⟩

end UnifiedBuffer
