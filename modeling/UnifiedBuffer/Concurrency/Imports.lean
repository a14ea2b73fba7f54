import UnifiedBuffer.Lib.ListAt
import UnifiedBuffer.Lib.Run
import UnifiedBuffer.Buffer.World

set_option autoImplicit false

/-! # References of concurrent allocations, imports and releases

Threads allocate, import, share and release buffers. The atomic steps are `register_control`,
`lookup` under the mutex of the registry, the increment of `retain`, the decrement of `drop_ref` and
the body of `finalize` under the mutex of the block.

An import of a local descriptor looks the buffer up and retains it in two steps, without a look at
the reference count. Another thread may drop the last reference in between. -/

namespace UnifiedBuffer

open Lib

namespace Importing

/-! ## Threads -/

/-- What the steps see of a control block. -/
structure Block where
  refs : Int := 0
  finalized : Bool := false
  registered : Bool := false
  deriving DecidableEq, Repr

inductive Phase where
  | idle
  /-- `allocate` has registered the buffer -/
  | created (k : CtlId)
  /-- `lookup` has found the buffer -/
  | found (k : CtlId)
  /-- `drop_ref` comes next -/
  | dropping (k : CtlId)
  /-- `drop_ref` has found the last reference -/
  | finalizing (k : CtlId)
  deriving DecidableEq, Repr

/-- The buffers so far, and the handles in the hands of clients. -/
structure Shared where
  size : Nat := 0
  block : CtlId → Block := fun _ => {}
  handles : List CtlId := []

structure Sys where
  mem : Shared := {}
  threads : List Phase := []

inductive Act where
  | spawn
  /-- `register_control` in `allocate` -/
  | register (i : Nat)
  /-- `lookup` in `import` -/
  | lookup (i : Nat) (k : CtlId)
  /-- `retain` in `allocate` or `import`, which then return the handle -/
  | retain (i : Nat)
  /-- `share` of a handle -/
  | share (i : Nat) (j : Nat)
  /-- the release of a handle -/
  | letGo (i : Nat) (j : Nat)
  /-- the decrement of `drop_ref` -/
  | drop (i : Nat)
  | finalize (i : Nat)

def Block.retain (b : Block) : Block := { b with refs := b.refs + 1 }

def Block.drop (b : Block) : Block := { b with refs := b.refs - 1 }

def Block.finalize (b : Block) : Block :=
  if b.finalized then b else { b with finalized := true, registered := false }

def Shared.on (m : Shared) (k : CtlId) (f : Block → Block) : Shared :=
  { m with block := Function.update m.block k (f (m.block k)) }

def Shared.hand (m : Shared) (k : CtlId) : Shared :=
  { m.on k .retain with handles := m.handles ++ [k] }

def Shared.create (m : Shared) : Shared :=
  { m.on m.size (fun _ => { registered := true }) with size := m.size + 1 }

/-- The next step of a thread. A step that the thread is not at does nothing. -/
def advance (m : Shared) (p : Phase) : Act → Phase × Shared
  | .register _ =>
      match p with
      | .idle => (.created m.size, m.create)
      | p => (p, m)
  | .lookup _ k =>
      match p with
      | .idle => if (m.block k).registered then (.found k, m) else (p, m)
      | p => (p, m)
  | .retain _ =>
      match p with
      | .created k => (.idle, m.hand k)
      | .found k => (.idle, m.hand k)
      | p => (p, m)
  | .share _ j =>
      match p, m.handles[j]? with
      | .idle, some k => if (m.block k).finalized then (p, m) else (p, m.hand k)
      | p, _ => (p, m)
  | .letGo _ j =>
      match p, m.handles[j]? with
      | .idle, some k => (.dropping k, { m with handles := m.handles.eraseIdx j })
      | p, _ => (p, m)
  | .drop _ =>
      match p with
      | .dropping k =>
          (if (m.block k).refs = 1 then .finalizing k else .idle, m.on k .drop)
      | p => (p, m)
  | .finalize _ =>
      match p with
      | .finalizing k => (.idle, m.on k .finalize)
      | p => (p, m)
  | .spawn => (p, m)

def Act.thread : Act → Option Nat
  | .spawn => none
  | .register i => some i
  | .lookup i _ => some i
  | .retain i => some i
  | .share i _ => some i
  | .letGo i _ => some i
  | .drop i => some i
  | .finalize i => some i

def Sys.next (s : Sys) (a : Act) : Sys :=
  match a.thread with
  | none => { s with threads := s.threads ++ [.idle] }
  | some i =>
      match s.threads[i]? with
      | some p => ⟨(advance s.mem p a).2, s.threads.set i (advance s.mem p a).1⟩
      | none => s

/-- What a block is in the sequential model. -/
def Block.of (c : Core) (k : CtlId) : Block where
  refs := (c.control k).refs
  finalized := (c.control k).finalized
  registered := decide (c.rt.registry.find? (c.control k).record.id = some k)

/-- The two steps of `drop_ref`. -/
def Block.dropRef (b : Block) : Block := if b.refs = 1 then b.drop.finalize else b.drop

/-- They do to the count and to the flag what the sequential `dropRef` does. -/
theorem Block.dropRef_of (c : Core) {k : CtlId} (hk : k < c.ctls.length) (env : Env) :
    (Block.of c k).dropRef.refs = ((c.dropRef env k).control k).refs ∧
      (Block.of c k).dropRef.finalized = ((c.dropRef env k).control k).finalized := by
  have hlen : k < (c.modify k (fun ctl => { ctl with refs := ctl.refs - 1 })).ctls.length := by
    rw [Core.modify, List.length_modify]
    exact hk
  have hctl := c.control_modify (fun ctl => { ctl with refs := ctl.refs - 1 }) hk
  unfold Block.dropRef Core.dropRef
  by_cases hone : (c.control k).refs = 1
  · have hone' : (Block.of c k).refs = 1 := hone
    simp only [hone, hone', if_true]
    generalize c.modify k (fun ctl => { ctl with refs := ctl.refs - 1 }) = c' at hlen hctl ⊢
    have hset : (c'.finalize env k true).ctls
        = c'.ctls.set k (c'.rt.finalize c'.os env (c'.control k) true).1 := rfl
    rw [Core.control_of_set hset hlen k, if_pos rfl]
    have hrun := c'.rt.finalize_run c'.os env (c'.control k) true
    generalize c'.rt.finalize c'.os env (c'.control k) true = out at hrun ⊢
    cases hrun <;> rename_i hfin <;> rw [hctl] at hfin ⊢ <;>
      simp_all [Block.finalize, Block.drop, Block.of, RuntimeImpl.finalControl]
  · have hone' : (Block.of c k).refs ≠ 1 := hone
    simp only [hone, hone', if_false]
    rw [hctl]
    exact ⟨rfl, rfl⟩

/-- A thread that drops a reference without interruption. -/
theorem drop_sections (c : Core) (k : CtlId) :
    let m : Shared := ⟨c.ctls.length, Block.of c, []⟩
    (runs Sys.next ⟨m, [.dropping k]⟩ [.drop 0, .finalize 0]).mem.block k
      = (Block.of c k).dropRef := by
  intro m
  unfold Block.dropRef
  by_cases hone : (c.control k).refs = 1 <;>
    simp [runs, Sys.next, Act.thread, advance, m, Block.of, hone, Shared.on]

/-! ## Steps -/

/-- All that a step of a thread can do. -/
inductive Did (m : Shared) : Phase → Phase × Shared → Prop
  | still (p : Phase) : Did m p (p, m)
  | registered : Did m .idle (.created m.size, m.create)
  | looked (k : CtlId) : Did m .idle (.found k, m)
  | retained {p : Phase} (k : CtlId) (hp : p = .created k ∨ p = .found k) :
      Did m p (.idle, m.hand k)
  | shared {k : CtlId} (hmem : k ∈ m.handles) : Did m .idle (.idle, m.hand k)
  | released {k : CtlId} {j : Nat} (hj : m.handles[j]? = some k) :
      Did m .idle (.dropping k, { m with handles := m.handles.eraseIdx j })
  | dropped {k : CtlId} (hrefs : (m.block k).refs ≠ 1) :
      Did m (.dropping k) (.idle, m.on k .drop)
  | last {k : CtlId} (hrefs : (m.block k).refs = 1) :
      Did m (.dropping k) (.finalizing k, m.on k .drop)
  | finalized (k : CtlId) : Did m (.finalizing k) (.idle, m.on k .finalize)

theorem did (m : Shared) (p : Phase) (a : Act) : Did m p (advance m p a) := by
  cases a with
  | spawn => exact .still p
  | register i =>
      cases p with
      | idle => exact .registered
      | created | found | dropping | finalizing => exact .still _
  | lookup i k =>
      cases p with
      | idle =>
          simp only [advance]
          split
          · exact .looked k
          · exact .still _
      | created | found | dropping | finalizing => exact .still _
  | retain i =>
      cases p with
      | created k => exact .retained k (Or.inl rfl)
      | found k => exact .retained k (Or.inr rfl)
      | idle | dropping | finalizing => exact .still _
  | share i j =>
      cases p with
      | idle =>
          cases hj : m.handles[j]? with
          | none =>
              simp only [advance, hj]
              exact .still _
          | some k =>
              simp only [advance, hj]
              split
              · exact .still _
              · exact .shared (List.mem_of_getElem? hj)
      | created | found | dropping | finalizing => exact .still _
  | letGo i j =>
      cases p with
      | idle =>
          cases hj : m.handles[j]? with
          | none =>
              simp only [advance, hj]
              exact .still _
          | some k =>
              simp only [advance, hj]
              exact .released hj
      | created | found | dropping | finalizing => exact .still _
  | drop i =>
      cases p with
      | dropping k =>
          simp only [advance]
          split
          · rename_i hone
            exact .last hone
          · rename_i hone
            exact .dropped hone
      | idle | created | found | finalizing => exact .still _
  | finalize i =>
      cases p with
      | finalizing k => exact .finalized k
      | idle | created | found | dropping => exact .still _

/-- What holds of one buffer between the steps, given the numbers of its handles and of the threads
in each phase. `new` says that it is still to be created. -/
structure Fine (b : Block) (new : Prop) (handles created found dropping finalizing : Nat) :
    Prop where
  refs : b.refs = handles + dropping
  once : created ≤ 1
  ofCreated : 0 < created → b.refs = 0
  ofFound : 0 < found → 0 < b.refs
  ofFinalizing : 0 < finalizing → b.refs = 0 ∧ created = 0
  ofFinalized : b.finalized = true → b.refs = 0 ∧ created = 0
  ofNew : new → b.refs = 0 ∧ b.finalized = false ∧ created = 0 ∧ finalizing = 0

def Sys.Inv (s : Sys) : Prop :=
  ∀ k, Fine (s.mem.block k) (s.mem.size ≤ k) (s.mem.handles.count k) (s.threads.count (.created k))
    (s.threads.count (.found k)) (s.threads.count (.dropping k)) (s.threads.count (.finalizing k))

/-- Lookups find only buffers that have a reference, and the last reference to a buffer is not
dropped while an import is between its lookup and its retain. -/
def Sys.Safe (s : Sys) : Act → Prop
  | .lookup _ k => (s.mem.block k).registered = true → 0 < (s.mem.block k).refs
  | .drop i =>
      match s.threads[i]? with
      | some (.dropping k) => (s.mem.block k).refs = 1 → .found k ∉ s.threads
      | _ => True
  | _ => True

instance Sys.decidableSafe (s : Sys) : ∀ a, Decidable (s.Safe a)
  | .lookup _ k =>
      inferInstanceAs (Decidable ((s.mem.block k).registered = true → 0 < (s.mem.block k).refs))
  | .drop i =>
      match h : s.threads[i]? with
      | some (.dropping k) => decidable_of_iff ((s.mem.block k).refs = 1 → .found k ∉ s.threads)
          (by simp only [Sys.Safe, h])
      | none | some .idle | some (.created _) | some (.found _) | some (.finalizing _) =>
          .isTrue (by simp only [Sys.Safe, h])
  | .spawn | .register _ | .retain _ | .share _ _ | .letGo _ _ | .finalize _ => .isTrue trivial

section Threads

variable {threads : List Phase} {i : Nat} {p : Phase}

theorem count_set (hp : threads[i]? = some p) (p' q : Phase) :
    (threads.set i p').count q + (if p = q then 1 else 0)
      = threads.count q + if p' = q then 1 else 0 := by
  have h := countP_set_add (fun x => x == q) (b := p') hp
  simpa [List.count] using h

end Threads

theorem count_eraseIdx {l : List CtlId} {j k : Nat} (hj : l[j]? = some k) (k' : CtlId) :
    l.count k' = (l.eraseIdx j).count k' + if k = k' then 1 else 0 := by
  obtain ⟨hlt, rfl⟩ := List.getElem?_eq_some_iff.mp hj
  rw [← (List.getElem_cons_eraseIdx_perm hlt).count_eq k', List.count_cons]
  simp

@[simp] theorem Shared.on_self (m : Shared) (k : CtlId) (f : Block → Block) :
    (m.on k f).block k = f (m.block k) := Function.update_self ..

theorem Shared.on_ne (m : Shared) {k j : CtlId} (hj : j ≠ k) (f : Block → Block) :
    (m.on k f).block j = m.block j := Function.update_of_ne hj ..

/-- One more handle to the buffer. -/
theorem hand_block (m : Shared) (k j : CtlId) :
    ((m.hand k).block j).refs = (m.block j).refs + (if k = j then 1 else 0) ∧
      ((m.hand k).block j).finalized = (m.block j).finalized ∧
      (m.hand k).handles.count j = m.handles.count j + if k = j then 1 else 0 := by
  refine ⟨?_, ?_, ?_⟩
  · show ((m.on k .retain).block j).refs = _
    by_cases hj : k = j
    · subst hj
      rw [Shared.on_self, if_pos rfl]
      rfl
    · rw [Shared.on_ne m (Ne.symm hj), if_neg hj, Int.add_zero]
  · show ((m.on k .retain).block j).finalized = _
    by_cases hj : k = j
    · subst hj
      rw [Shared.on_self]
      rfl
    · rw [Shared.on_ne m (Ne.symm hj)]
  · show (m.handles ++ [k]).count j = _
    rw [List.count_append, List.count_singleton]
    simp

theorem drop_block (m : Shared) (k j : CtlId) :
    ((m.on k .drop).block j).refs = (m.block j).refs - (if k = j then 1 else 0) ∧
      ((m.on k .drop).block j).finalized = (m.block j).finalized := by
  by_cases hj : k = j
  · subst hj
    rw [Shared.on_self, if_pos rfl]
    exact ⟨rfl, rfl⟩
  · rw [Shared.on_ne m (Ne.symm hj), if_neg hj, Int.sub_zero]
    exact ⟨rfl, rfl⟩

theorem finalize_block (m : Shared) (k j : CtlId) :
    ((m.on k .finalize).block j).refs = (m.block j).refs ∧
      (((m.on k .finalize).block j).finalized = true → (m.block j).finalized = true ∨ k = j) := by
  by_cases hj : k = j
  · subst hj
    rw [Shared.on_self]
    unfold Block.finalize
    split <;> exact ⟨rfl, fun _ => Or.inr rfl⟩
  · rw [Shared.on_ne m (Ne.symm hj)]
    exact ⟨rfl, Or.inl⟩

theorem create_block (m : Shared) (j : CtlId) :
    m.create.block j = if m.size = j then { registered := true } else m.block j := by
  unfold Shared.create Shared.on
  simp only [Function.update_apply]
  exact if_congr eq_comm rfl rfl

section Fine

variable {b b' : Block} {new new' : Prop}
  {handles created found dropping finalizing handles' created' found' dropping' finalizing' : Nat}

/-- A step that leaves the references of the buffer as they are. -/
theorem Fine.keep (h : Fine b new handles created found dropping finalizing)
    (hrefs : b'.refs = b.refs) (hfin : b'.finalized = b.finalized) (hnew : new' → new)
    (hsum : handles' + dropping' = handles + dropping) (hcreated : created' = created)
    (hfound : found' = found) (hfinalizing : finalizing' = finalizing) :
    Fine b' new' handles' created' found' dropping' finalizing' := by
  subst hcreated hfound hfinalizing
  have hcount := h.refs
  refine ⟨by omega, h.once, ?_, ?_, ?_, fun hend => ?_, fun hn => ?_⟩
  · exact fun hc => hrefs.trans (h.ofCreated hc)
  · exact fun hf => hrefs ▸ h.ofFound hf
  · exact fun hz => hrefs ▸ h.ofFinalizing hz
  · exact hrefs ▸ h.ofFinalized (hfin ▸ hend)
  · rw [hrefs, hfin]
    exact h.ofNew (hnew hn)

theorem Fine.not_created (h : Fine b new handles created found dropping finalizing)
    (hpos : 0 < b.refs) : created = 0 := by
  refine Nat.eq_zero_of_not_pos fun hc => ?_
  rw [h.ofCreated hc] at hpos
  exact absurd hpos (Int.lt_irrefl 0)

/-- A buffer with a reference, and one that was just created, is neither finalized nor about to
be. -/
theorem Fine.live (h : Fine b new handles created found dropping finalizing)
    (hlive : 0 < b.refs ∨ 0 < created) : finalizing = 0 ∧ b.finalized = false ∧ ¬ new := by
  refine ⟨Nat.eq_zero_of_not_pos fun hz => ?_, Bool.eq_false_iff.mpr fun hend => ?_, fun hn => ?_⟩
  · have := h.ofFinalizing hz
    omega
  · have := h.ofFinalized hend
    omega
  · have := h.ofNew hn
    omega

/-- A buffer that is neither finalized nor about to be, and that no thread has just created. -/
theorem Fine.of_live (hfinalizing : finalizing' = 0) (hfin : b'.finalized = false) (hnew : ¬ new')
    (hcreated : created' = 0) (hrefs : b'.refs = handles' + dropping')
    (hfound : 0 < found' → 0 < b'.refs) :
    Fine b' new' handles' created' found' dropping' finalizing' := by
  refine ⟨hrefs, by omega, by omega, hfound, by omega, fun hend => ?_, fun hn => absurd hn hnew⟩
  rw [hfin] at hend
  cases hend

end Fine

namespace Sys.Inv

variable {s : Sys} {i : Nat}

/-- The invariant after a step of thread `i` that puts it into phase `p'`: of each buffer it asks
for the block after the step and for the numbers of threads in each phase. -/
theorem of_counts {p p' : Phase} {m : Shared} (hp : s.threads[i]? = some p)
    (h : ∀ j created found dropping finalizing,
      created + (if p = .created j then 1 else 0)
        = s.threads.count (.created j) + (if p' = .created j then 1 else 0) →
      found + (if p = .found j then 1 else 0)
        = s.threads.count (.found j) + (if p' = .found j then 1 else 0) →
      dropping + (if p = .dropping j then 1 else 0)
        = s.threads.count (.dropping j) + (if p' = .dropping j then 1 else 0) →
      finalizing + (if p = .finalizing j then 1 else 0)
        = s.threads.count (.finalizing j) + (if p' = .finalizing j then 1 else 0) →
      Fine (m.block j) (m.size ≤ j) (m.handles.count j) created found dropping finalizing) :
    Sys.Inv ⟨m, s.threads.set i p'⟩ :=
  fun j => h j _ _ _ _ (count_set hp p' _) (count_set hp p' _) (count_set hp p' _)
    (count_set hp p' _)

theorem count_pos {p : Phase} (hp : s.threads[i]? = some p) : 0 < s.threads.count p :=
  List.count_pos_iff.mpr (List.mem_of_getElem? hp)

theorem registered (h : s.Inv) (hp : s.threads[i]? = some .idle) :
    Sys.Inv ⟨s.mem.create, s.threads.set i (.created s.mem.size)⟩ := by
  refine of_counts hp fun j created found dropping finalizing hcreated hfound hdropping
    hfinalizing => ?_
  simp at hcreated hfound hdropping hfinalizing
  have hj := h j
  have hcount := hj.refs
  show Fine (s.mem.create.block j) (s.mem.size + 1 ≤ j) (s.mem.handles.count j) _ _ _ _
  rw [create_block]
  by_cases hnew : s.mem.size = j
  · -- the buffer is the new one: nothing refers to it but the thread
    obtain ⟨hzero, -, hnone, hnot⟩ := hj.ofNew (Nat.le_of_eq hnew)
    rw [if_pos hnew] at hcreated ⊢
    refine ⟨?_, by omega, fun _ => rfl, fun hf => ?_, by omega, fun hf => (by cases hf),
      by omega⟩
    · show (0 : Int) = _
      omega
    · have := hj.ofFound (by omega)
      omega
  · rw [if_neg hnew] at hcreated ⊢
    exact hj.keep rfl rfl Nat.le_of_succ_le (by omega) (by omega) (by omega) (by omega)

theorem looked (h : s.Inv) (hp : s.threads[i]? = some .idle) {k : CtlId}
    (hpositive : 0 < (s.mem.block k).refs) : Sys.Inv ⟨s.mem, s.threads.set i (.found k)⟩ := by
  refine of_counts hp fun j created found dropping finalizing hcreated hfound hdropping
    hfinalizing => ?_
  simp at hcreated hfound hdropping hfinalizing
  have hj := h j
  have hcount := hj.refs
  by_cases hkj : k = j
  · subst hkj
    have hnone := hj.not_created hpositive
    obtain ⟨hnot, hflag, hold⟩ := hj.live (Or.inl hpositive)
    exact .of_live (by omega) hflag hold (by omega) (by omega) (fun _ => hpositive)
  · rw [if_neg hkj] at hfound
    exact hj.keep rfl rfl id (by omega) (by omega) (by omega) (by omega)

/-- The thread had found the buffer, or it had just created it: in both cases it is alive. -/
theorem retained (h : s.Inv) {p : Phase} (hp : s.threads[i]? = some p) {k : CtlId}
    (hk : p = .created k ∨ p = .found k) : Sys.Inv ⟨s.mem.hand k, s.threads.set i .idle⟩ := by
  refine of_counts hp fun j created found dropping finalizing hcreated hfound hdropping
    hfinalizing => ?_
  have hj := h j
  have hcount := hj.refs
  obtain ⟨hr, hf, hh⟩ := hand_block s.mem k j
  by_cases hkj : k = j
  · subst hkj
    rw [if_pos rfl] at hr hh
    have honce := hj.once
    have hlive : 0 < (s.mem.block k).refs ∨ 0 < s.threads.count (.created k) := by
      rcases hk with rfl | rfl
      · exact Or.inr (count_pos hp)
      · exact Or.inl (hj.ofFound (count_pos hp))
    have hnone : created = 0 ∧ dropping = s.threads.count (.dropping k) := by
      rcases hk with rfl | rfl
      · simp at hcreated hdropping
        exact ⟨by omega, by omega⟩
      · simp at hcreated hdropping
        have hfresh := hj.not_created (hj.ofFound (count_pos hp))
        exact ⟨by omega, by omega⟩
    obtain ⟨hnot, hflag, hold⟩ := hj.live hlive
    refine .of_live ?_ (hf.trans hflag) hold hnone.1 (by omega) (fun _ => by omega)
    rcases hk with rfl | rfl <;> simp at hfinalizing <;> omega
  · rw [if_neg hkj] at hr hh
    rcases hk with rfl | rfl <;> simp [hkj] at hcreated hfound hdropping hfinalizing <;>
      exact hj.keep (by omega) hf id (by omega) (by omega) (by omega) (by omega)

theorem shared (h : s.Inv) (hp : s.threads[i]? = some .idle) {k : CtlId}
    (hmem : k ∈ s.mem.handles) : Sys.Inv ⟨s.mem.hand k, s.threads.set i .idle⟩ := by
  refine of_counts hp fun j created found dropping finalizing hcreated hfound hdropping
    hfinalizing => ?_
  simp at hcreated hfound hdropping hfinalizing
  have hj := h j
  have hcount := hj.refs
  obtain ⟨hr, hf, hh⟩ := hand_block s.mem k j
  by_cases hkj : k = j
  · subst hkj
    have hhandle : 0 < s.mem.handles.count k := List.count_pos_iff.mpr hmem
    rw [if_pos rfl] at hr hh
    have hnone := hj.not_created (by omega)
    obtain ⟨hnot, hflag, hold⟩ := hj.live (Or.inl (by omega))
    exact .of_live (by omega) (hf.trans hflag) hold (by omega) (by omega) (fun _ => by omega)
  · rw [if_neg hkj] at hr hh
    exact hj.keep (by omega) hf id (by omega) (by omega) (by omega) (by omega)

/-- The handle goes, and the thread has its reference to drop. -/
theorem released (h : s.Inv) (hp : s.threads[i]? = some .idle) {k : CtlId} {l : Nat}
    (hgone : s.mem.handles[l]? = some k) :
    Sys.Inv ⟨{ s.mem with handles := s.mem.handles.eraseIdx l },
      s.threads.set i (.dropping k)⟩ := by
  refine of_counts hp fun j created found dropping finalizing hcreated hfound hdropping
    hfinalizing => ?_
  have hh := count_eraseIdx hgone j
  simp at hcreated hfound hdropping hfinalizing
  show Fine (s.mem.block j) (s.mem.size ≤ j) ((s.mem.handles.eraseIdx l).count j) _ _ _ _
  exact (h j).keep rfl rfl id (by omega) (by omega) (by omega) (by omega)

/-- Another reference is left. -/
theorem dropped (h : s.Inv) {k : CtlId} (hp : s.threads[i]? = some (.dropping k))
    (hrefs : (s.mem.block k).refs ≠ 1) :
    Sys.Inv ⟨s.mem.on k .drop, s.threads.set i .idle⟩ := by
  refine of_counts hp fun j created found dropping finalizing hcreated hfound hdropping
    hfinalizing => ?_
  simp at hcreated hfound hdropping hfinalizing
  have hj := h j
  have hcount := hj.refs
  obtain ⟨hr, hf⟩ := drop_block s.mem k j
  show Fine ((s.mem.on k .drop).block j) (s.mem.size ≤ j) (s.mem.handles.count j) _ _ _ _
  by_cases hkj : k = j
  · subst hkj
    have hone := count_pos hp
    rw [if_pos rfl] at hr hdropping
    have hnone := hj.not_created (by omega)
    obtain ⟨hnot, hflag, hold⟩ := hj.live (Or.inl (by omega))
    exact .of_live (by omega) (hf.trans hflag) hold (by omega) (by omega) (fun _ => by omega)
  · rw [if_neg hkj] at hr hdropping
    exact hj.keep (by omega) hf id (by omega) (by omega) (by omega) (by omega)

/-- The last reference goes, and no import is on its way to the buffer. -/
theorem last (h : s.Inv) {k : CtlId} (hp : s.threads[i]? = some (.dropping k))
    (hrefs : (s.mem.block k).refs = 1) (hlast : .found k ∉ s.threads) :
    Sys.Inv ⟨s.mem.on k .drop, s.threads.set i (.finalizing k)⟩ := by
  refine of_counts hp fun j created found dropping finalizing hcreated hfound hdropping
    hfinalizing => ?_
  have hnone := List.count_eq_zero.mpr hlast
  simp at hcreated hfound hdropping hfinalizing
  have hj := h j
  have hcount := hj.refs
  obtain ⟨hr, hf⟩ := drop_block s.mem k j
  show Fine ((s.mem.on k .drop).block j) (s.mem.size ≤ j) (s.mem.handles.count j) _ _ _ _
  by_cases hkj : k = j
  · subst hkj
    rw [if_pos rfl] at hr hdropping hfinalizing
    have hfresh := hj.ofCreated
    obtain ⟨-, hflag, hold⟩ := hj.live (Or.inl (by omega))
    refine ⟨by omega, by omega, by omega, by omega, by omega, fun hend => ?_,
      fun hle => absurd hle hold⟩
    rw [hf, hflag] at hend
    cases hend
  · rw [if_neg hkj] at hr hdropping hfinalizing
    exact hj.keep (by omega) hf id (by omega) (by omega) (by omega) (by omega)

theorem finalized (h : s.Inv) {k : CtlId} (hp : s.threads[i]? = some (.finalizing k)) :
    Sys.Inv ⟨s.mem.on k .finalize, s.threads.set i .idle⟩ := by
  refine of_counts hp fun j created found dropping finalizing hcreated hfound hdropping
    hfinalizing => ?_
  simp at hcreated hfound hdropping hfinalizing
  obtain ⟨hr, hf⟩ := finalize_block s.mem k j
  have hnot : k = j → 0 < s.threads.count (.finalizing j) := fun hkj => hkj ▸ count_pos hp
  obtain ⟨refs, once, ofCreated, ofFound, ofFinalizing, ofFinalized, ofNew⟩ := h j
  show Fine ((s.mem.on k .finalize).block j) (s.mem.size ≤ j) (s.mem.handles.count j) _ _ _ _
  refine ⟨by omega, by omega, by omega, by omega, by omega, fun hend => ?_, fun hle => ?_⟩
  · rcases hf hend with hold | hkj
    · have hold := ofFinalized hold
      omega
    · have hold := ofFinalizing (hnot hkj)
      omega
  · obtain ⟨hzero, hflag, hnone, hempty⟩ := ofNew hle
    refine ⟨by omega, Bool.eq_false_iff.mpr fun hend => ?_, by omega, by omega⟩
    rcases hf hend with hold | hkj
    · simp [hflag] at hold
    · exact absurd hempty (Nat.pos_iff_ne_zero.mp (hnot hkj))

/-- A step of a thread. -/
theorem thread (h : s.Inv) {p : Phase} {out : Phase × Shared}
    (hp : s.threads[i]? = some p) (hdid : Did s.mem p out)
    (hlooked : ∀ k, p = .idle → out.1 = .found k → 0 < (s.mem.block k).refs)
    (hlast : ∀ k, p = .dropping k → out.1 = .finalizing k → .found k ∉ s.threads) :
    Sys.Inv ⟨out.2, s.threads.set i out.1⟩ := by
  cases hdid with
  | still p =>
      obtain ⟨hlt, rfl⟩ := List.getElem?_eq_some_iff.mp hp
      rw [List.set_getElem_self]
      exact h
  | registered => exact h.registered hp
  | looked k => exact h.looked hp (hlooked k rfl rfl)
  | retained k hk => exact h.retained hp hk
  | shared hmem => exact h.shared hp hmem
  | released hgone => exact h.released hp hgone
  | dropped hrefs => exact h.dropped hp hrefs
  | last hrefs => exact h.last hp hrefs (hlast _ rfl rfl)
  | finalized k => exact h.finalized hp

end Sys.Inv

theorem advance_found {m : Shared} {a : Act} {k : CtlId} (h : (advance m .idle a).1 = .found k) :
    ∃ i, a = .lookup i k ∧ (m.block k).registered = true := by
  cases a with
  | lookup i k' =>
      simp only [advance] at h
      split at h
      · cases h
        exact ⟨i, rfl, ‹_›⟩
      · cases h
  | share i j =>
      simp only [advance] at h
      split at h
      · split at h <;> cases h
      · simp_all
  | letGo i j =>
      simp only [advance] at h
      split at h <;> simp_all
  | spawn | register | retain | drop | finalize => cases h

theorem advance_finalizing {m : Shared} {a : Act} {k : CtlId}
    (h : (advance m (.dropping k) a).1 = .finalizing k) :
    ∃ i, a = .drop i ∧ (m.block k).refs = 1 := by
  cases a with
  | drop i =>
      simp only [advance] at h
      split at h
      · exact ⟨i, rfl, ‹_›⟩
      · cases h
  | spawn | register | lookup | retain | share | letGo | finalize => cases h

theorem Sys.Inv.next {s : Sys} (h : s.Inv) {a : Act} (hsafe : s.Safe a) : (s.next a).Inv := by
  unfold Sys.next
  split
  · intro j
    simpa [List.count_append] using h j
  · rename_i i hi
    split
    · rename_i p hp
      refine h.thread hp (did s.mem p a) (fun k hidle hfound => ?_) (fun k hdrop hfinal => ?_)
      · subst hidle
        obtain ⟨i', rfl, hreg⟩ := advance_found hfound
        exact hsafe hreg
      · subst hdrop
        obtain ⟨i', rfl, hone⟩ := advance_finalizing hfinal
        cases hi
        simp only [Sys.Safe, hp] at hsafe
        exact hsafe hone
    · exact h

theorem inv_reach {s : Sys} (hreach : Reach Sys.next Sys.Safe {} s) : s.Inv :=
  hreach.invariant (fun k => ⟨rfl, by simp, by simp, by simp, by simp, by simp, by simp⟩)
    (fun _ _ h hsafe => h.next hsafe)

/-- A buffer with a reference is not finalized. -/
theorem Sys.Inv.live {s : Sys} (h : s.Inv) {k : CtlId} (hrefs : 0 < (s.mem.block k).refs) :
    (s.mem.block k).finalized = false :=
  Bool.eq_false_iff.mpr fun hend => by
    have hzero := ((h k).ofFinalized hend).1
    omega

/-! ## Handles to live buffers -/

/-- In every run of safe steps, no client has a handle to a finalized buffer, and an import that is
about to take its reference returns a handle to a buffer that is not finalized. -/
theorem handles_are_live {s : Sys} (hreach : Reach Sys.next Sys.Safe {} s) :
    (∀ k ∈ s.mem.handles, (s.mem.block k).finalized = false) ∧
      ∀ i k, s.threads[i]? = some (.found k) →
        (s.next (.retain i)).mem.handles = s.mem.handles ++ [k] ∧
          ((s.next (.retain i)).mem.block k).finalized = false := by
  have hinv := inv_reach hreach
  refine ⟨fun k hk => hinv.live ?_, fun i k hi => ?_⟩
  · have hcount := List.count_pos_iff.mpr hk
    have hrefs := (hinv k).refs
    omega
  · have hmem : (s.next (.retain i)).mem = s.mem.hand k := by
      simp [Sys.next, Act.thread, hi, advance]
    rw [hmem]
    refine ⟨rfl, (hand_block s.mem k k).2.1.trans (hinv.live ?_)⟩
    exact (hinv k).ofFound (List.count_pos_iff.mpr (List.mem_of_getElem? hi))

/-- One thread allocates a buffer and releases its handle while another one imports it. The import
takes its reference before the last one is dropped. -/
def handover : List Act :=
  [.spawn, .spawn, .register 0, .retain 0, .lookup 1 0, .letGo 0 0, .retain 1, .drop 0]

/-- The theorem at work: after the handover one handle to the live buffer is left. -/
theorem handles_are_live_handover :
    (runs Sys.next {} handover).mem.handles = [0] ∧
      ((runs Sys.next {} handover).mem.block 0).finalized = false := by
  have hreach : Reach Sys.next Sys.Safe {} (runs Sys.next {} handover) :=
    reach_runs .start (by decide)
  have hmem : (runs Sys.next {} handover).mem.handles = [0] := by decide
  exact ⟨hmem, (handles_are_live hreach).1 0 (by rw [hmem]; decide)⟩

/-- `import` does not look at the reference count: the last reference is dropped and the buffer
finalized between its lookup and its retain, and it returns a handle to the finalized buffer. -/
theorem import_returns_finalized :
    let s := runs Sys.next {} [.spawn, .spawn, .register 0, .retain 0, .lookup 1 0, .letGo 0 0,
      .drop 0, .finalize 0]
    s.threads[1]? = some (.found 0) ∧ (s.mem.block 0).finalized = true ∧
      (s.next (.retain 1)).mem.handles = [0] ∧
      ((s.next (.retain 1)).mem.block 0).finalized = true := by
  decide

end Importing

end UnifiedBuffer
