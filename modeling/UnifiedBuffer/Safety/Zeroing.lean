import UnifiedBuffer.Safety.Contents

set_option autoImplicit false

/-! # Zeroing and the reuse of memory

Memory is written by public operations and by clients that store through the address of a buffer. A
`History` keeps, beside the state of the program, the namespace through whose buffer each byte was
written last and the zeroing policy each buffer was allocated with; the runtime knows neither.

The pool remembers one namespace for each slot, the one that released it. `Only` is the property
that this stands for: no other namespace has written a byte of the slot that is still there.

A segment that is imported while the runtime holds it is a second way to its bytes, which goes past
the owner of a slot and past its zeroing. Both results are about runs without such an import. -/

namespace UnifiedBuffer

open Lib

instance (c : Core) (k : CtlId) : Decidable (c.Alive k) :=
  inferInstanceAs (Decidable (k < c.ctls.length ∧ (c.control k).finalized = false))

instance (x : Backing) (s : Space) (a : Nat) : Decidable (x.Has s a) :=
  inferInstanceAs (Decidable (s = x.1.space ∧ x.start ≤ a ∧ a < x.start + x.length))

instance (x : Access) (s : Space) (a : Nat) : Decidable (x.Writes s a) :=
  inferInstanceAs (Decidable (x.write = true ∧ s = x.space ∧ x.backing.base + x.offset ≤ a ∧
    a < x.backing.base + x.offset + x.len))

/-! ## Histories -/

/-- What happens to memory. -/
inductive Event where
  | op (op : Op)
  /-- a client writes byte `i` of a buffer, through a map, a view or the host pointer -/
  | store (k : CtlId) (i : Nat) (b : UInt8)

/-- The byte of a live buffer at offset `i` is overwritten. -/
def World.store (w : World) (k : CtlId) (i : Nat) (b : UInt8) : World :=
  let r := (w.core.control k).record
  { w with core := { w.core with
      os := w.core.os.fill r.domain.space (r.backing.base + i) 1 (fun _ => b) } }

structure History where
  world : World
  /-- the namespace through whose buffer a byte was written last -/
  writer : Space → Nat → Option NamespaceId := fun _ _ => none
  /-- the effective zeroing policy that a buffer was allocated with -/
  policy : BufferId → Option ZeroingPolicy := fun _ => none

namespace History

def init (cfg : RuntimeConfig) (plat : RuntimeImpl.Platform) : History :=
  { world := .init cfg plat }

/-- `allocate`: fresh memory holds nobody's data, and neither does a slot that was zeroed. -/
def allocateWriter (h : History) (env : Env) (req : AllocationRequest) (s : Space) (a : Nat) :
    Option NamespaceId :=
  let rt := h.world.core.rt
  match rt.admits req with
  | none => h.writer s a
  | some (alignment, classSize, _) =>
      match rt.poolOffer req alignment classSize with
      | none =>
          match env.allocate req.domain classSize alignment with
          | .error _ => h.writer s a
          | .ok b => if Backing.Has (req.domain, b) s a then none else h.writer s a
      | some (slot, _) =>
          if RuntimeImpl.wantZero (rt.effectiveZeroing req) (some slot.lastOwner) req.ns = true ∧
              (env.zero req.domain slot.backing slot.backing.committed).isOk = true ∧
              Backing.Has (req.domain, slot.backing) s a then none
          else h.writer s a

/-- `migrate`: a copied byte is that of the source, the rest of the fresh memory is nobody's. -/
def migrateWriter (h : History) (env : Env) (k : CtlId) (target : MemoryDomain) (s : Space)
    (a : Nat) : Option NamespaceId :=
  let r := (h.world.core.control k).record
  match h.world.core.rt.migrateAdmit (h.world.core.control k) target with
  | none => h.writer s a
  | some _ =>
      match env.allocate target (RuntimeImpl.migrateSize r) r.alignment with
      | .error _ => h.writer s a
      | .ok b =>
          if Backing.Has (target, b) s a then
            if a < b.base + (min r.committed b.committed).toNat then
              h.writer r.domain.space (r.backing.base + (a - b.base))
            else none
          else h.writer s a

/-- The namespace that wrote a byte last, after an operation. What `copy_to` writes is memory of
the caller. -/
def writerAfter (h : History) (op : Op) (s : Space) (a : Nat) : Option NamespaceId :=
  match op with
  | .allocate env req => h.allocateWriter env req s a
  | .migrate env i target =>
      match (h.world.handle i).validateAlive h.world.core with
      | .error _ => h.writer s a
      | .ok k => h.migrateWriter env k target s a
  | .copyFrom _ i src _ len =>
      match (h.world.handle i).ensureValid h.world.core .write with
      | .error _ => h.writer s a
      | .ok k =>
          if ∃ x ∈ (h.world.handle i).copyFromAccesses h.world.core src len, x.Writes s a then
            some (h.world.core.control k).record.ns
          else h.writer s a
  | op =>
      match op.releases, h.world.released op with
      | some env, some k =>
          let r := (h.world.core.control k).record
          if (∃ x ∈ h.world.accesses op, x.Writes s a) ∧
              (env.zero r.domain r.backing r.committed).isOk = true then none
          else h.writer s a
      | _, _ => h.writer s a

/-- A successful allocation is remembered with its effective policy. -/
def policyAfter (h : History) (op : Op) (id : BufferId) : Option ZeroingPolicy :=
  match op with
  | .allocate _ req =>
      if h.world.core.ctls.length < (h.world.next op).core.ctls.length ∧
          id = ((h.world.next op).core.control h.world.core.ctls.length).record.id then
        some (h.world.core.rt.effectiveZeroing req)
      else h.policy id
  | _ => h.policy id

/-- One event. A store is one to a byte of a live buffer. -/
def next (h : History) : Event → History
  | .op op =>
      { world := h.world.next op, writer := h.writerAfter op, policy := h.policyAfter op }
  | .store k i b =>
      let r := (h.world.core.control k).record
      if h.world.core.Alive k ∧ i < r.size.toNat then
        { h with
          world := h.world.store k i b
          writer := fun s a =>
            if s = r.domain.space ∧ a = r.backing.base + i then some r.ns else h.writer s a }
      else h

/-! ## Who writes -/

variable {h : History} {op : Op} {s : Space} {a : Nat}

/-- What an operation does to the writer of a byte. -/
inductive Rewrites (h : History) (op : Op) (s : Space) (a : Nat) : Prop
  | same (eq : h.writerAfter op s a = h.writer s a)
  | wiped (eq : h.writerAfter op s a = none)
  | copied {k : CtlId} (alive : h.world.core.Alive k)
      (has : (h.world.core.control k).record.filed.Has s a)
      (eq : h.writerAfter op s a = some (h.world.core.control k).record.ns)
  | fresh {x : Backing} (clear : ∀ y ∈ h.world.core.stock.held, x.Clear y) (has : x.Has s a)

theorem allocateWriter_cases (h : History) (env : Env) (req : AllocationRequest) (s : Space)
    (a : Nat) : h.allocateWriter env req s a = h.writer s a ∨
      h.allocateWriter env req s a = none := by
  unfold allocateWriter
  simp only
  split
  · exact Or.inl rfl
  split
  · split
    · exact Or.inl rfl
    · split
      · exact Or.inr rfl
      · exact Or.inl rfl
  · split
    · exact Or.inr rfl
    · exact Or.inl rfl

theorem migrateWriter_cases {env : Env} (hsep : env.Separate h.world.core.stock.held) (k : CtlId)
    (target : MemoryDomain) : h.migrateWriter env k target s a = h.writer s a ∨
      ∃ x : Backing, (∀ y ∈ h.world.core.stock.held, x.Clear y) ∧ x.Has s a := by
  unfold migrateWriter
  simp only
  split
  · exact Or.inl rfl
  split
  · exact Or.inl rfl
  rename_i b backend
  split
  · rename_i has
    exact Or.inr ⟨_, hsep.allocate _ _ _ b backend, has⟩
  · exact Or.inl rfl

/-- A byte keeps its writer, is zeroed or fresh, or is written through the buffer that has it. -/
theorem rewrites (horderly : h.world.Orderly) (hop : h.world.Separate op) (s : Space) (a : Nat) :
    h.Rewrites op s a := by
  have hreleased : (match op.releases, h.world.released op with
      | some env, some k =>
          let r := (h.world.core.control k).record
          if (∃ x ∈ h.world.accesses op, x.Writes s a) ∧
              (env.zero r.domain r.backing r.committed).isOk = true then none
          else h.writer s a
      | _, _ => h.writer s a) = h.writerAfter op s a → h.Rewrites op s a := by
    intro heq
    split at heq
    · simp only at heq
      split at heq
      · exact .wiped heq.symm
      · exact .same heq.symm
    · exact .same heq.symm
  cases op with
  | allocate env req =>
      rcases h.allocateWriter_cases env req s a with heq | heq
      · exact .same heq
      · exact .wiped heq
  | migrate env i target =>
      cases hvalid : (h.world.handle i).validateAlive h.world.core with
      | error e =>
          refine .same ?_
          unfold writerAfter
          simp only [hvalid]
      | ok k =>
          have heq : h.writerAfter (.migrate env i target) s a
              = h.migrateWriter env k target s a := by
            unfold writerAfter
            simp only [hvalid]
          rcases migrateWriter_cases hop k target with hsame | ⟨x, hclear, hhas⟩
          · exact .same (heq.trans hsame)
          · exact .fresh hclear hhas
  | copyFrom env i src srcOffset len =>
      cases hvalid : (h.world.handle i).ensureValid h.world.core .write with
      | error e =>
          refine .same ?_
          unfold writerAfter
          simp only [hvalid]
      | ok k =>
          by_cases hwrites :
              ∃ x ∈ (h.world.handle i).copyFromAccesses h.world.core src len, x.Writes s a
          · -- the range that is written is one of the buffer
            have hk := World.ensureValid_ok hvalid
            refine .copied (horderly.refs.alive (World.handle_alive horderly.refs hk).1) ?_ ?_
            · obtain ⟨x, hx, hxw⟩ := hwrites
              have hbounds := World.accesses_inBounds horderly.refs horderly.geometric
                (.copyFrom env i src srcOffset len) x hx
              unfold BufferHandle.copyFromAccesses at hx
              simp only [hvalid] at hx
              split at hx
              · cases hx
              · rw [List.mem_singleton] at hx
                subst hx
                exact Access.To.has (x := (h.world.core.control k).record.filed) ⟨rfl, rfl⟩
                  hbounds hxw
            · unfold writerAfter
              simp only [hvalid]
              exact if_pos hwrites
          · refine .same ?_
            unfold writerAfter
            simp only [hvalid]
            exact if_neg hwrites
  | _ => exact hreleased rfl

/-- The bytes of `x` that anybody wrote were last written through buffers of `ns`. -/
def Only (h : History) (x : Backing) (ns : NamespaceId) : Prop :=
  ∀ s a, x.Has s a → h.writer s a = none ∨ h.writer s a = some ns

/-- The bytes of a buffer that may return to the pool are those of its namespace, and the bytes of
a slot those of its last owner. -/
structure Tidy (h : History) : Prop where
  blocks : ∀ k, h.world.core.Alive k → (h.world.core.control k).record.poolEligible = true →
    h.Only (h.world.core.control k).record.filed (h.world.core.control k).record.ns
  slots : ∀ e ∈ h.world.core.rt.pool.all, h.Only (filedSlot e) e.2.lastOwner

/-- An operation on other memory. `hother` says that the buffers of other namespaces share no byte
with `x`. -/
theorem Only.next (horderly : h.world.Orderly) (hop : h.world.Separate op) {x : Backing}
    {ns : NamespaceId} (hx : x ∈ h.world.core.stock.held)
    (hother : ∀ k, h.world.core.Alive k → (h.world.core.control k).record.ns ≠ ns →
      (h.world.core.control k).record.filed.Clear x) (honly : h.Only x ns) :
    (h.next (.op op)).Only x ns := by
  intro s a has
  show h.writerAfter op s a = none ∨ h.writerAfter op s a = some ns
  cases rewrites horderly hop s a with
  | same eq =>
      rw [eq]
      exact honly s a has
  | wiped eq => exact Or.inl eq
  | copied alive hask eq =>
      rename_i k
      by_cases hns : (h.world.core.control k).record.ns = ns
      · exact Or.inr (hns ▸ eq)
      · exact absurd has ((hother k alive hns).not_has hask)
  | fresh clear hasy => exact absurd has ((clear x hx).not_has hasy)

theorem Only.next_block (horderly : h.world.Orderly) (hop : h.world.Separate op) {k : CtlId}
    (hk : h.world.core.Alive k)
    (honly : h.Only (h.world.core.control k).record.filed (h.world.core.control k).record.ns) :
    (h.next (.op op)).Only (h.world.core.control k).record.filed
      (h.world.core.control k).record.ns := by
  refine honly.next horderly hop (Core.held_of_alive hk) (fun j hj hns => ?_)
  exact (Core.clear_blocks horderly.disjoint hk hj (fun heq => hns (heq ▸ rfl))).symm

theorem Only.next_slot (horderly : h.world.Orderly) (hop : h.world.Separate op)
    {e : PoolKey × PoolSlot} (he : e ∈ h.world.core.rt.pool.all)
    (honly : h.Only (filedSlot e) e.2.lastOwner) :
    (h.next (.op op)).Only (filedSlot e) e.2.lastOwner :=
  honly.next horderly hop (Core.held_of_slot he)
    (fun _ hj _ => Core.clear_slot horderly.disjoint hj he)

/-! ### Allocations -/

/-- The policies that protect a namespace from what others have left in the pool. -/
def Protects (zp : ZeroingPolicy) : Prop := zp ≠ .never ∧ zp ≠ .onRelease

/-- If the request does not ask for protection, then the slot it takes has no bytes of another
namespace. -/
def Guards (h : History) (req : AllocationRequest) : Prop :=
  ∀ alignment classSize l slot pool,
    h.world.core.rt.admits req = some (alignment, classSize, l) →
    h.world.core.rt.poolOffer req alignment classSize = some (slot, pool) →
    ¬ Protects (h.world.core.rt.effectiveZeroing req) → h.Only (req.domain, slot.backing) req.ns

/-- A protected reuse without zeroing is one by the last owner. -/
theorem lastOwner_of_not_wantZero {zp : ZeroingPolicy} {owner ns : NamespaceId}
    (hzp : Protects zp) (hwant : RuntimeImpl.wantZero zp (some owner) ns = false) : owner = ns := by
  cases zp with
  | never => exact absurd rfl hzp.1
  | onRelease => exact absurd rfl hzp.2
  | onAllocate | always => cases hwant
  | onCrossOwnerReuse => exact not_not.mp (of_decide_eq_false hwant)

section Allocate

variable {env : Env} {req : AllocationRequest} {alignment classSize : UInt64} {l : Ledger}

theorem only_fresh {b : NativeAllocation} {ns : NamespaceId}
    (admission : h.world.core.rt.admits req = some (alignment, classSize, l))
    (offer : h.world.core.rt.poolOffer req alignment classSize = none)
    (backend : env.allocate req.domain classSize alignment = .ok b) :
    (h.next (.op (.allocate env req))).Only (req.domain, h.world.core.os.stamp b) ns := by
  intro s a has
  left
  show h.allocateWriter env req s a = none
  unfold allocateWriter
  simp only [admission, offer, backend]
  exact if_pos has

theorem only_reused {slot : PoolSlot} {pool : Pool} (htidy : h.Tidy) (hguards : h.Guards req)
    (admission : h.world.core.rt.admits req = some (alignment, classSize, l))
    (offer : h.world.core.rt.poolOffer req alignment classSize = some (slot, pool))
    (zero : h.world.core.rt.zeroFails env req slot.backing (some slot.lastOwner) = false) :
    (h.next (.op (.allocate env req))).Only (req.domain, slot.backing) req.ns := by
  intro s a has
  show h.allocateWriter env req s a = none ∨ h.allocateWriter env req s a = some req.ns
  unfold allocateWriter
  simp only [admission, offer]
  by_cases hwant : RuntimeImpl.wantZero (h.world.core.rt.effectiveZeroing req)
      (some slot.lastOwner) req.ns = true
  · -- the slot was zeroed, or the allocation would have failed
    left
    unfold RuntimeImpl.zeroFails at zero
    rw [hwant, Bool.true_and, Bool.not_eq_false'] at zero
    exact if_pos ⟨hwant, zero, has⟩
  · rw [if_neg (fun hc => hwant hc.1)]
    by_cases hzp : Protects (h.world.core.rt.effectiveZeroing req)
    · obtain ⟨key, hkey, hperm, -⟩ := RuntimeImpl.poolOffer_perm offer
      have howner := lastOwner_of_not_wantZero hzp (Bool.eq_false_iff.mpr hwant)
      have hslot := htidy.slots (key, slot) (hperm.mem_iff.mpr List.mem_cons_self)
      rw [← howner]
      refine hslot s a ?_
      unfold filedSlot
      rw [hkey]
      exact has
    · exact hguards _ _ _ _ _ admission offer hzp s a has

end Allocate

/-! ### Runs -/

/-- The conditions on a run: backends and incoming memory as in `World.Sane`, and `copy_to` writes
to memory that the runtime does not hold. -/
structure Proper (h : History) (op : Op) : Prop where
  sane : h.world.Sane op
  fills : ∀ s a, op.Fills s a → ∀ x ∈ h.world.core.stock.held, ¬ x.Has s a

theorem Tidy.next_op (horderly : h.world.Orderly) (hop : h.world.Separate op)
    (hguards : ∀ env req, op = .allocate env req → h.Guards req) (htidy : h.Tidy) :
    (h.next (.op op)).Tidy := by
  have hfates := World.fates horderly.refs op
  refine ⟨fun k hk heligible => ?_, fun e he => ?_⟩
  · have heligible : ((h.world.next op).core.control k).record.poolEligible = true := heligible
    show (h.next (.op op)).Only ((h.world.next op).core.control k).record.filed
      ((h.world.next op).core.control k).record.ns
    cases hfates.blocks k hk with
    | kept alive same =>
        unfold Record.filed
        rw [same] at heligible ⊢
        exact (htidy.blocks k alive heligible).next_block horderly hop alive
    | moved _ _ _ _ _ same =>
        rw [same] at heligible
        -- only what an allocation made may go back to the pool
        cases heligible
    | fresh heq _ admission backend offer _ same =>
        subst heq
        unfold Record.filed
        rw [same]
        exact only_fresh admission offer backend
    | reused heq _ admission offer zero same =>
        subst heq
        unfold Record.filed
        rw [same]
        exact only_reused htidy (hguards _ _ rfl) admission offer zero
    | wrapped _ _ made same =>
        obtain ⟨-, -, dom, id, rfl⟩ := made
        rw [same] at heligible
        cases heligible
    | opened _ _ made same =>
        obtain ⟨-, id, b, -, -, rfl⟩ := made
        rw [same] at heligible
        cases heligible
  · cases hfates.slots e he with
    | stayed mem => exact (htidy.slots e mem).next_slot horderly hop mem
    | entered _ _ _ alive eligible _ slot =>
        subst slot
        have heligible := RuntimeImpl.poolEligible_of_returnsToPool eligible
        exact (htidy.blocks _ alive heligible).next_block horderly hop alive

/-- A store changes one byte of one buffer. -/
theorem Only.next_store {k : CtlId} {i : Nat} {b : UInt8} {x : Backing} {ns : NamespaceId}
    (hother : h.world.core.Alive k → i < (h.world.core.control k).record.size.toNat →
      (h.world.core.control k).record.ns ≠ ns →
      ¬ x.Has (h.world.core.control k).record.domain.space
        ((h.world.core.control k).record.backing.base + i)) (honly : h.Only x ns) :
    (h.next (.store k i b)).Only x ns := by
  unfold History.next
  simp only
  split
  · rename_i hstore
    intro s a has
    show (if _ then _ else _ : Option NamespaceId) = none ∨ (if _ then _ else _) = some ns
    split
    · rename_i hbyte
      obtain ⟨rfl, rfl⟩ := hbyte
      by_cases hns : (h.world.core.control k).record.ns = ns
      · exact Or.inr (hns ▸ rfl)
      · exact absurd has (hother hstore.1 hstore.2 hns)
    · exact honly s a has
  · exact honly

/-- The runtime does not see a store. -/
theorem store_idle (h : History) (k : CtlId) (i : Nat) (b : UInt8) :
    h.world.core.Idle (h.next (.store k i b)).world.core ∧
      (h.next (.store k i b)).world.objs = h.world.objs := by
  unfold next
  simp only
  split
  · exact ⟨⟨.refl _, rfl, rfl⟩, rfl⟩
  · exact ⟨.refl _, rfl⟩

theorem Tidy.next_store (horderly : h.world.Orderly) (htidy : h.Tidy) (k : CtlId) (i : Nat)
    (b : UInt8) : (h.next (.store k i b)).Tidy := by
  have hidle := (h.store_idle k i b).1
  have hbyte : h.world.core.Alive k → i < (h.world.core.control k).record.size.toNat →
      (h.world.core.control k).record.filed.Has (h.world.core.control k).record.domain.space
        ((h.world.core.control k).record.backing.base + i) :=
    fun halive hi => (horderly.geometric.blocks k halive).has hi
  refine ⟨fun j hj heligible => ?_, fun e he => ?_⟩
  · rw [Core.control_congr hidle.ctls] at heligible ⊢
    have hj := (Core.alive_congr hidle.ctls j).mp hj
    refine (htidy.blocks j hj heligible).next_store (fun halive hi hns => ?_)
    have hne : k ≠ j := fun heq => hns (heq ▸ rfl)
    exact (Core.clear_blocks horderly.disjoint hj halive hne).symm.not_has (hbyte halive hi)
  · rw [hidle.quiet.pool] at he
    refine (htidy.slots e he).next_store (fun halive hi _ => ?_)
    exact (Core.clear_slot horderly.disjoint halive he).not_has (hbyte halive hi)

/-- What a run is assumed to do: proper operations, and any stores. -/
def Sane (h : History) : Event → Prop
  | .op op => h.Proper op
  | .store .. => True

/-- What is assumed of the backends and of `copy_to`. -/
def Trusted (h : History) : Event → Prop
  | .op op => h.world.Trusted op ∧
      ∀ s a, op.Fills s a → ∀ x ∈ h.world.core.stock.held, ¬ x.Has s a
  | .store .. => True

/-- No segment and no file is imported that the runtime holds. -/
def OpensOthers (h : History) : Event → Prop
  | .op op => h.world.OpensOthers op
  | .store .. => True

theorem Trusted.sane {e : Event} (htrusted : h.Trusted e) (hothers : h.OpensOthers e) :
    h.Sane e := by
  cases e with
  | op op => exact ⟨htrusted.1.sane hothers, htrusted.2⟩
  | store => trivial

theorem orderly_store (horderly : h.world.Orderly) (k : CtlId) (i : Nat) (b : UInt8) :
    (h.next (.store k i b)).world.Orderly := by
  obtain ⟨hidle, hobjs⟩ := h.store_idle k i b
  have hrefs := horderly.refs.same hidle.sameRefs
  rw [← hobjs] at hrefs
  refine ⟨hrefs, horderly.geometric.same hidle.ctls hidle.quiet.pool, ?_⟩
  rw [hidle.stock]
  exact horderly.disjoint

/-- The world of a history is orderly. -/
theorem orderly_reach {ok : History → Event → Prop} {cfg : RuntimeConfig}
    {plat : RuntimeImpl.Platform} (hreach : Reach History.next ok (History.init cfg plat) h)
    (hok : ∀ h e, ok h e → h.Sane e) : h.world.Orderly := by
  refine Reach.invariant (I := fun h => h.world.Orderly) hreach (.init cfg plat) ?_
  intro h e horderly he
  cases e with
  | op op => exact horderly.next (hok h _ he).sane
  | store k i b => exact orderly_store horderly k i b

/-- An allocation that asks for no protection takes no slot with bytes of another namespace. -/
def Guarded (h : History) : Event → Prop
  | .op (.allocate _ req) => h.Guards req
  | _ => True

theorem tidy_reach {cfg : RuntimeConfig} {plat : RuntimeImpl.Platform}
    (hreach : Reach History.next (fun h e => h.Sane e ∧ h.Guarded e) (History.init cfg plat) h) :
    h.Tidy := by
  refine hreach.invariant_of (I := Tidy) (fun h hh => orderly_reach hh fun _ _ he => he.1)
    ⟨fun k hk => absurd hk.1 (Nat.not_lt_zero k), fun e he => by cases he⟩ ?_
  intro h e horderly htidy he
  cases e with
  | op op =>
      refine htidy.next_op horderly (he.1.sane.separate) ?_
      rintro env req rfl
      exact he.2
  | store k i b => exact htidy.next_store horderly k i b

end History

/-- A successful allocation returns a handle to a new buffer. -/
theorem World.allocate_new {w : World} (hinv : w.RefInv []) {env : Env} {req : AllocationRequest}
    (hok : (w.step (.allocate env req)).1.isOk = true) :
    ((w.next (.allocate env req)).handle w.objs.length).ctl = some w.core.ctls.length ∧
      (w.next (.allocate env req)).core.Alive w.core.ctls.length := by
  have hnew : ∃ hd : BufferHandle, (w.next (.allocate env req)).objs[w.objs.length]? =
      some (.handle hd) ∧ hd.ctl = some w.core.ctls.length ∧ hd.valid = true := by
    have hok : (w.allocate env req).1.isOk = true := hok
    show ∃ hd : BufferHandle, (w.allocate env req).2.objs[w.objs.length]? = some (.handle hd) ∧ _
    unfold World.allocate Core.allocate at hok ⊢
    by_cases hclosed : w.core.rt.closed = true
    · rw [if_pos hclosed] at hok
      cases hok
    · rw [if_neg hclosed] at hok ⊢
      generalize w.core.rt.allocateRecord w.core.os env req = out at hok ⊢
      obtain ⟨res, rt, os⟩ := out
      cases res with
      | error e => cases hok
      | ok r => exact ⟨_, List.getElem?_concat_length, rfl, rfl⟩
  obtain ⟨hd, hobj, hctl, hvalid⟩ := hnew
  refine ⟨?_, (hinv.next _).alive (pins_pos hobj ?_)⟩
  · unfold World.handle
    rw [hobj]
    exact hctl
  · show (if hd.valid then hd.ctl else none) = _
    rw [hvalid, if_pos rfl, hctl]

/-- **Protected allocations see no foreign data**, in every run in which no segment is imported that
the runtime holds and an allocation that asks for no protection takes no slot with bytes of another
namespace: whenever `allocate` succeeds with the policy `ON_CROSS_OWNER_REUSE`, `ON_ALLOCATE` or
`ALWAYS`, no byte of the new backing was last written through a buffer of another namespace. -/
theorem reuse_protects_namespace {cfg : RuntimeConfig} {plat : RuntimeImpl.Platform} {h : History}
    (hreach : Reach History.next (fun h e => h.Trusted e ∧ h.OpensOthers e ∧ h.Guarded e)
      (History.init cfg plat) h)
    {env : Env} {req : AllocationRequest}
    (hpolicy : History.Protects (h.world.core.rt.effectiveZeroing req))
    (hok : (h.world.step (.allocate env req)).1.isOk = true) :
    ∃ k, ((h.next (.op (.allocate env req))).world.handle h.world.objs.length).ctl = some k ∧
      (h.next (.op (.allocate env req))).Only
        ((h.next (.op (.allocate env req))).world.core.control k).record.filed req.ns := by
  have hsane := hreach.mono fun h e (he : h.Trusted e ∧ h.OpensOthers e ∧ h.Guarded e) =>
    (⟨he.1.sane he.2.1, he.2.2⟩ : h.Sane e ∧ h.Guarded e)
  have horderly := History.orderly_reach hsane fun _ _ he => he.1
  obtain ⟨hctl, halive⟩ := World.allocate_new horderly.refs hok
  refine ⟨h.world.core.ctls.length, hctl, ?_⟩
  show (h.next (.op (.allocate env req))).Only
    ((h.world.next (.allocate env req)).core.control h.world.core.ctls.length).record.filed req.ns
  -- the block is new, so its backing is fresh or from the pool
  cases (World.fates horderly.refs (.allocate env req)).blocks _ halive with
  | kept alive => exact absurd alive.1 (Nat.lt_irrefl _)
  | moved heq | wrapped heq | opened heq => cases heq
  | fresh heq _ admission backend offer _ same =>
      cases heq
      unfold Record.filed
      rw [same]
      exact History.only_fresh admission offer backend
  | reused heq _ admission offer zero same =>
      cases heq
      unfold Record.filed
      rw [same]
      exact History.only_reused (History.tidy_reach hsane)
        (fun _ _ _ _ _ _ _ hno => absurd hpolicy hno) admission offer zero

theorem World.mem_ids {w : World} {k : CtlId} (hk : k < w.core.ctls.length) :
    (w.core.control k).record.id ∈ w.ids := by
  refine List.mem_map.mpr ⟨w.core.control k, ?_, rfl⟩
  unfold Core.control
  rw [List.getD_eq_getElem?_getD, List.getElem?_eq_getElem hk]
  exact List.getElem_mem hk

/-- An operation that neither imports nor copies to memory. -/
theorem History.trusted_of {h : History} {op : Op} (htrusted : h.world.Trusted op)
    (hothers : h.world.OpensOthers op) (hfills : ∀ s a, ¬ op.Fills s a) :
    h.Trusted (.op op) ∧ h.OpensOthers (.op op) :=
  ⟨⟨htrusted, fun s a hf => absurd hf (hfills s a)⟩, hothers⟩

/-- A page of namespace 1 with a 7 in it is in the pool. -/
def usedPage : List Event :=
  [.op (.allocate (.servesAt 4096) { size := 4096, ns := 1 }), .store 0 0 7, .op (.release {} 0)]

theorem usedPage_trusted :
    Along History.next (fun h e => h.Trusted e ∧ h.OpensOthers e) (History.init {} {}) usedPage :=
  ⟨History.trusted_of ⟨Env.servesAt_faithful _, Env.servesAt_separate (by decide)⟩ trivial
      (fun _ _ => id),
    ⟨trivial, trivial⟩, History.trusted_of ⟨trivial, trivial⟩ trivial (fun _ _ => id), trivial⟩

/-- The theorem at work: namespace 2 is handed the page of namespace 1, without its data. -/
theorem reuse_protects_namespace_usedPage :
    (runs History.next (History.init {} {}) usedPage).writer .host 4096 = some 1 ∧
      ∃ k, (((runs History.next (History.init {} {}) usedPage).next
          (.op (.allocate {} { size := 4096, ns := 2 }))).world.handle 1).ctl = some k ∧
        ((runs History.next (History.init {} {}) usedPage).next
          (.op (.allocate {} { size := 4096, ns := 2 }))).Only
          (((runs History.next (History.init {} {}) usedPage).next
            (.op (.allocate {} { size := 4096, ns := 2 }))).world.core.control k).record.filed 2 := by
  have hguarded : Along History.next (fun h e => h.Guarded e) (History.init {} {}) usedPage :=
    ⟨fun _ _ _ _ _ _ _ hno => absurd ⟨by decide, by decide⟩ hno, trivial, trivial, trivial⟩
  have hrun := Along.mono (fun _ _ hok => and_assoc.mp hok) (usedPage_trusted.and hguarded)
  exact ⟨by decide, reuse_protects_namespace (reach_runs .start hrun) ⟨by decide, by decide⟩
    (by decide)⟩

/-- Namespace 2 takes the page and gives it back under the policy `NEVER`. -/
def launderedPage : List Event :=
  usedPage ++
    [.op (.allocate {} { size := 4096, ns := 2, zeroing := some .never }), .op (.release {} 1)]

theorem launderedPage_trusted :
    Along History.next (fun h e => h.Trusted e ∧ h.OpensOthers e) (History.init {} {})
      launderedPage :=
  usedPage_trusted.append
    ⟨History.trusted_of ⟨Env.default_faithful, Env.default_separate _⟩ trivial (fun _ _ => id),
      History.trusted_of ⟨trivial, trivial⟩ trivial (fun _ _ => id), trivial⟩

/-- Namespace 2 now allocates under `ON_CROSS_OWNER_REUSE` and is handed the 7 of namespace 1: the
slot has the right owner but the wrong bytes. -/
theorem laundered_page_exposed :
    ∃ h, Reach History.next (fun h e => h.Trusted e ∧ h.OpensOthers e) (History.init {} {}) h ∧
      h.world.core.rt.effectiveZeroing { size := 4096, ns := 2 } = .onCrossOwnerReuse ∧
      (h.world.step (.allocate {} { size := 4096, ns := 2 })).1.isOk = true ∧
      ((h.next (.op (.allocate {} { size := 4096, ns := 2 }))).world.handle 2).ctl = some 2 ∧
      ((h.next (.op (.allocate {} { size := 4096, ns := 2 }))).world.core.control
        2).record.filed.Has .host 4096 ∧
      (h.next (.op (.allocate {} { size := 4096, ns := 2 }))).writer .host 4096 = some 1 ∧
      (h.next (.op (.allocate {} { size := 4096, ns := 2 }))).world.core.os.bytes .host 4096 = 7 :=
  ⟨runs History.next (History.init {} {}) launderedPage, reach_runs .start launderedPage_trusted,
    by decide, by decide, by decide, by decide, by decide, by decide⟩

/-- A segment that is opened by its name is found where it is mapped already. -/
def Env.reopens (address : Nat) (name : String) : Env where
  importHandle := fun _ _ bytes alignment => .ok (.found address bytes alignment)
  exportHandle := fun _ _ => .ok name

/-- Namespace 1 imports the segment of a page that it holds. The page goes to the pool, namespace 2
takes it, zeroed, and gives it back, and namespace 1 writes to it through the import. -/
def reopenedPage : List Event :=
  [.op (.allocate (.servesAt 4096) { size := 4096, domain := .sharedHost, ns := 1 }),
    .op (.importBuffer (.reopens 4096 "/page")
      { domain := .sharedHost, size := 4096, ns := 1, handle := "/page" } 1 ""),
    .op (.release {} 0), .op (.allocate {} { size := 4096, domain := .sharedHost, ns := 2 }),
    .op (.release {} 2), .store 1 0 7]

-- the policy protects nothing here: the slot is of namespace 2, and so is the new page
example :
    ((runs History.next (History.init {} {}) reopenedPage).next
      (.op (.allocate {} { size := 4096, domain := .sharedHost, ns := 2 }))).world.core.os.bytes
        .host 4096 = 7 := by
  decide

/-! ## Zeroing on release -/

namespace History

variable {h : History} {op : Op} {s : Space} {a : Nat}

/-- The policies under which a backing is zeroed when it enters the pool. -/
def Wipes (zp : Option ZeroingPolicy) : Prop := zp = some .onRelease ∨ zp = some .always

/-- What it takes for the zeroing on release: the policy of the namespace asks for it as well, the
backend is there and the zeroing succeeds. -/
structure CanWipe (h : History) (env : Env) (r : Record) : Prop where
  ns : ∃ nsc, h.world.core.rt.namespaceInfo r.ns = some nsc ∧
    (nsc.zeroing = .onRelease ∨ nsc.zeroing = .always)
  domain : (h.world.core.rt.domain r.domain).isSome = true
  zero : env.zero r.domain r.backing r.committed = .ok ()

/-- Whenever a buffer whose policy is `ON_RELEASE` or `ALWAYS` goes to the pool, it can be
zeroed. -/
def Wiping (h : History) : Event → Prop
  | .op op => ∀ env k, op.releases = some env → h.world.released op = some k →
      (h.world.core.control k).refs = 1 →
      h.world.core.rt.returnsToPool (h.world.core.control k).record true = true →
      Wipes (h.policy (h.world.core.control k).record.id) →
      h.CanWipe env (h.world.core.control k).record
  | .store .. => True

/-- The slots of buffers that are zeroed on release are all zero. -/
structure Wiped (h : History) : Prop where
  slots : ∀ e ∈ h.world.core.rt.pool.all, Wipes (h.policy e.2.originalId) →
    ∀ s a, (filedSlot e).Has s a → h.world.core.os.bytes s a = 0
  ids : ∀ e ∈ h.world.core.rt.pool.all, e.2.originalId ∈ h.world.ids

/-- The buffer that an allocation creates has a new identity. -/
theorem policyAfter_old (hinv : h.world.RefInv []) {id : BufferId} (hid : id ∈ h.world.ids) :
    h.policyAfter op id = h.policy id := by
  cases op with
  | allocate env req =>
      refine if_neg ?_
      rintro ⟨hlt, rfl⟩
      -- the new identity would stand twice in the list of all identities
      obtain ⟨t, ht⟩ := hinv.ids_prefix (.allocate env req)
      have hnodup : (h.world.next (.allocate env req)).ids.Nodup := by
        rw [World.ids_eq]
        exact (hinv.next _).core.distinct
      rw [← ht, List.nodup_append] at hnodup
      refine hnodup.2.2 _ hid _ (List.mem_of_getElem? (i := 0) ?_) rfl
      have hat : (h.world.next (.allocate env req)).ids[h.world.core.ctls.length]?
          = some ((h.world.next (.allocate env req)).core.control
            h.world.core.ctls.length).record.id := by
        unfold World.ids Core.control
        rw [List.getElem?_map, List.getD_eq_getElem?_getD, List.getElem?_eq_getElem hlt]
        rfl
      have hlen : h.world.ids.length = h.world.core.ctls.length := List.length_map _
      rw [← ht, List.getElem?_append_right (Nat.le_of_eq hlen), hlen, Nat.sub_self] at hat
      exact hat
  | _ => rfl

/-- A slot that stays in the pool keeps its bytes. -/
theorem slot_untouched (horderly : h.world.Orderly) (hop : h.Proper op) {e : PoolKey × PoolSlot}
    (he : e ∈ h.world.core.rt.pool.all) (he' : e ∈ (h.world.next op).core.rt.pool.all)
    (has : (filedSlot e).Has s a) :
    (h.world.next op).core.os.bytes s a = h.world.core.os.bytes s a := by
  refine horderly.untouched
    (fun hfills => hop.fills s a hfills _ (Core.held_of_slot he) has) (fun x htarget hx => ?_)
  cases htarget with
  | fresh _ _ clear => exact (clear hop.sane.separate _ (Core.held_of_slot he)).not_has hx has
  | copied _ valid filed =>
      subst filed
      have halive := horderly.refs.alive (World.handle_alive horderly.refs valid).1
      exact (Core.clear_slot horderly.disjoint halive he).not_has hx has
  | released hrel _ filed =>
      subst filed
      have halive := horderly.refs.alive (World.released_pins hrel)
      exact (Core.clear_slot horderly.disjoint halive he).not_has hx has
  | taken heq admission offer filed =>
      subst heq filed
      rw [World.allocate_untaken admission offer] at he'
      exact (Core.clear_taken horderly.disjoint offer he').not_has hx has

/-- The zeroing covers all of a backing that may enter the pool. -/
theorem CanWipe.bytes {env : Env} {r : Record} (h' : h.CanWipe env r)
    (hwhole : r.committed = r.backing.committed) (has : r.filed.Has s a) :
    (h.world.core.rt.zeroOnRelease h.world.core.os env r).2.bytes s a = 0 := by
  obtain ⟨nsc, hnsc, hzeroing⟩ := h'.ns
  unfold RuntimeImpl.zeroOnRelease
  simp only [hnsc]
  rw [if_pos ⟨hzeroing, h'.domain⟩]
  show (Os.zero _ _ _ _ _).2.bytes s a = 0
  unfold Os.zero
  rw [h'.zero, hwhole]
  exact if_pos has

theorem Wiped.next_op (horderly : h.world.Orderly) (hop : h.Proper op) (hwiping : h.Wiping (.op op))
    (hwiped : h.Wiped) : (h.next (.op op)).Wiped := by
  have hids : ∀ id ∈ h.world.ids, id ∈ (h.world.next op).ids := fun id hid =>
    (horderly.refs.ids_prefix op).subset hid
  refine ⟨fun e he hpolicy s a has => ?_, fun e he => ?_⟩
  · have hpolicy : Wipes (h.policyAfter op e.2.originalId) := hpolicy
    show (h.world.next op).core.os.bytes s a = 0
    cases (World.fates horderly.refs op).slots e he with
    | stayed mem =>
        rw [policyAfter_old horderly.refs (hwiped.ids e mem)] at hpolicy
        rw [slot_untouched horderly hop mem he has]
        exact hwiped.slots e mem hpolicy s a has
    | entered henv hrel last alive eligible _ slot _ bytes =>
        subst slot
        rw [policyAfter_old horderly.refs (World.mem_ids alive.1)] at hpolicy
        -- the slot was wiped on its way into the pool
        have hcan := hwiping _ _ henv hrel last eligible hpolicy
        have heligible := RuntimeImpl.poolEligible_of_returnsToPool eligible
        rw [bytes]
        exact hcan.bytes ((horderly.geometric.blocks _ alive).whole heligible) has
  · cases (World.fates horderly.refs op).slots e he with
    | stayed mem => exact hids _ (hwiped.ids e mem)
    | entered _ _ _ alive _ _ slot =>
        subst slot
        exact hids _ (World.mem_ids alive.1)

theorem Wiped.next_store (horderly : h.world.Orderly) (hwiped : h.Wiped) (k : CtlId) (i : Nat)
    (b : UInt8) : (h.next (.store k i b)).Wiped := by
  by_cases hstore : h.world.core.Alive k ∧ i < (h.world.core.control k).record.size.toNat
  · have hnext : h.next (.store k i b) = { h with
        world := h.world.store k i b
        writer := fun s a => if s = (h.world.core.control k).record.domain.space ∧
            a = (h.world.core.control k).record.backing.base + i then
          some (h.world.core.control k).record.ns else h.writer s a } := if_pos hstore
    rw [hnext]
    refine ⟨fun e he hpolicy s a has => ?_, hwiped.ids⟩
    refine Eq.trans (Os.fill_bytes_outside _ _ _ _ _ _ _ ?_) (hwiped.slots e he hpolicy s a has)
    rintro ⟨rfl, hle, hlt⟩
    obtain rfl : a = (h.world.core.control k).record.backing.base + i := by omega
    exact (Core.clear_slot horderly.disjoint hstore.1 he).not_has
      ((horderly.geometric.blocks k hstore.1).has hstore.2) has
  · have hnext : h.next (.store k i b) = h := if_neg hstore
    rw [hnext]
    exact hwiped

end History

/-- **Zeroing on release follows the policy**, in every run in which no segment is imported that the
runtime holds and the backing of a buffer with the effective policy `ON_RELEASE` or `ALWAYS` only
goes to the pool while its namespace has one of these policies, its backend is there and the zeroing
succeeds: such a backing is all zero as long as it is in the pool. -/
theorem wiped_slots_are_zero {cfg : RuntimeConfig} {plat : RuntimeImpl.Platform} {h : History}
    (hreach : Reach History.next (fun h e => h.Trusted e ∧ h.OpensOthers e ∧ h.Wiping e)
      (History.init cfg plat) h)
    {e : PoolKey × PoolSlot} (he : e ∈ h.world.core.rt.pool.all)
    (hpolicy : History.Wipes (h.policy e.2.originalId)) {i : Nat}
    (hi : i < e.2.backing.committed.toNat) :
    h.world.core.os.bytes e.1.domain.space (e.2.backing.base + i) = 0 := by
  have hwiped : h.Wiped := by
    refine hreach.invariant_of (I := History.Wiped)
      (fun _ hh => History.orderly_reach hh fun _ _ he => he.1.sane he.2.1)
      ⟨fun e he => (by cases he), fun e he => (by cases he)⟩ ?_
    intro h e horderly hwiped hok
    cases e with
    | op op => exact hwiped.next_op horderly (hok.1.sane hok.2.1) hok.2.2
    | store k i b => exact hwiped.next_store horderly k i b
  exact hwiped.slots e he hpolicy _ _ ⟨rfl, Nat.le_add_right _ _, Nat.add_lt_add_left hi _⟩

/-- A namespace with the policy `ON_RELEASE` uses a page and gives it back. -/
def wipedPage (env : Env) : List Event :=
  [.op (.createNamespace { zeroing := .onRelease }),
    .op (.allocate (.servesAt 4096) { size := 4096, ns := 2 }), .store 0 0 7, .op (.release env 0)]

theorem wipedPage_trusted (env : Env) :
    Along History.next (fun h e => h.Trusted e ∧ h.OpensOthers e) (History.init {} {})
      (wipedPage env) :=
  ⟨History.trusted_of ⟨trivial, trivial⟩ trivial (fun _ _ => id),
    History.trusted_of ⟨Env.servesAt_faithful _, Env.servesAt_separate (by decide)⟩ trivial
      (fun _ _ => id),
    ⟨trivial, trivial⟩, History.trusted_of ⟨trivial, trivial⟩ trivial (fun _ _ => id), trivial⟩

/-- The theorem at work: the 7 is gone when the page is in the pool. -/
theorem wiped_slots_are_zero_wipedPage :
    ∃ e ∈ (runs History.next (History.init {} {}) (wipedPage {})).world.core.rt.pool.all,
      e.2.backing.base = 4096 ∧ e.2.backing.committed = 4096 ∧
      ∀ i < 4096, (runs History.next (History.init {} {}) (wipedPage {})).world.core.os.bytes
        .host (4096 + i) = 0 := by
  have hwiping : Along History.next (fun h e => h.Wiping e) (History.init {} {}) (wipedPage {}) := by
    refine ⟨fun _ _ h => (by cases h), fun _ _ h => (by cases h), trivial, ?_, trivial⟩
    intro env k henv hrel _ _ _
    cases henv
    cases hrel
    exact ⟨⟨_, rfl, Or.inl rfl⟩, rfl, rfl⟩
  have hreach := reach_runs .start
    (Along.mono (fun _ _ hok => and_assoc.mp hok) ((wipedPage_trusted {}).and hwiping))
  refine ⟨_, List.mem_of_getElem? (i := 0) rfl, rfl, rfl, fun i hi => ?_⟩
  exact wiped_slots_are_zero hreach (List.mem_of_getElem? (i := 0) rfl) (Or.inl (by decide)) hi

/-- A page that is allocated with the override `ON_RELEASE`, used and given back. -/
def overriddenPage : List Event :=
  [.op (.allocate (.servesAt 4096) { size := 4096, zeroing := some .onRelease }), .store 0 0 7,
    .op (.release {} 0)]

/-- The override is forgotten at the release, and a zeroing that fails (and here changes nothing)
goes unnoticed: both pages are in the pool with the 7 in them. -/
theorem pool_holds_unwiped_pages :
    ∃ h h', Reach History.next (fun h e => h.Trusted e ∧ h.OpensOthers e) (History.init {} {}) h ∧
      Reach History.next (fun h e => h.Trusted e ∧ h.OpensOthers e) (History.init {} {}) h' ∧
      (∃ e ∈ h.world.core.rt.pool.all, h.policy e.2.originalId = some .onRelease ∧
        h.world.core.os.bytes e.1.domain.space e.2.backing.base = 7) ∧
      ∃ e ∈ h'.world.core.rt.pool.all, h'.policy e.2.originalId = some .onRelease ∧
        h'.world.core.os.bytes e.1.domain.space e.2.backing.base = 7 := by
  refine ⟨runs History.next (History.init {} {}) overriddenPage,
    runs History.next (History.init {} {}) (wipedPage
      { zero := fun _ _ _ => .error ⟨.stateInvalid, ""⟩,
        scrap := fun a => if a = 4096 then 7 else 0 }),
    reach_runs .start ⟨History.trusted_of
        ⟨Env.servesAt_faithful _, Env.servesAt_separate (by decide)⟩ trivial (fun _ _ => id),
      ⟨trivial, trivial⟩, History.trusted_of ⟨trivial, trivial⟩ trivial (fun _ _ => id), trivial⟩,
    reach_runs .start (wipedPage_trusted _),
    ⟨_, List.mem_of_getElem? (i := 0) rfl, by decide, by decide⟩,
    ⟨_, List.mem_of_getElem? (i := 0) rfl, by decide, by decide⟩⟩

end UnifiedBuffer
