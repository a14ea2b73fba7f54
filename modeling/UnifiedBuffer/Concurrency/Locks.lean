import UnifiedBuffer.Lib.Locks
import UnifiedBuffer.Concurrency.Imports

set_option autoImplicit false

/-! # Lock discipline

The public operations as programs over the mutexes of the runtime. Of the shared data they see what
decides whether a buffer is finalized: the reference counts, the flags and the registry. Every other
test of the source (quotas, pool hits, failures of a backend) is left open, as a choice. -/

namespace UnifiedBuffer

open Lib

namespace Locking

open Importing (Block)

/-! ## Mutexes and data -/

inductive Mutex where
  /-- `Control::mtx` of a buffer -/
  | control (k : CtlId)
  /-- `pool_mtx_` -/
  | pool
  /-- `ns_mtx_` -/
  | ns
  /-- `registry_mtx_` -/
  | registry
  /-- `dec_mtx_` -/
  | dec
  deriving DecidableEq, Repr

/-- The ranking. All the mutexes of control blocks have one rank: no thread has two of them. -/
def rank : Mutex → Nat
  | .control _ => 0
  | .pool => 1
  | .ns => 2
  | .registry => 3
  | .dec => 4

structure Data where
  closed : Bool := false
  size : Nat := 0
  block : CtlId → Block := fun _ => {}

def Data.on (d : Data) (k : CtlId) (f : Block → Block) : Data :=
  { d with block := Function.update d.block k (f (d.block k)) }

abbrev Run (α : Type) : Type := Code Mutex Data α

/-- A look at the data. -/
def look : Run Data := Code.act id

/-- A test that the data does not decide. -/
def test : Run Bool := Code.choose

/-! ## Accounting, the pool and the log -/

def namespaceInfo : Run Unit := Code.locked .ns .exclusive (pure ())

def reserveCount : Run Bool := Code.locked .ns .exclusive test

def releaseCount : Run Unit := Code.locked .ns .exclusive (pure ())

/-- `reserve_amount`. Zero bytes are reserved without the mutex. -/
def reserveAmount : Run Bool := do
  if ← test then return true
  Code.locked .ns .exclusive test

def commitAmount : Run Bool := Code.locked .ns .exclusive test

def unreserveAmount : Run Unit := Code.locked .ns .exclusive (pure ())

def checkoutAmount : Run Unit := Code.locked .ns .exclusive (pure ())

def releaseAmount : Run Unit := Code.locked .ns .exclusive (pure ())

def freeAccounting : Run Unit := Code.locked .ns .exclusive (pure ())

def note : Run Unit := Code.locked .dec .exclusive (pure ())

def poolTake : Run Bool := Code.locked .pool .exclusive test

def poolPut : Run Bool := Code.locked .pool .exclusive test

/-- `free_accounting` for each slot. -/
def freeSlots : Nat → Run Unit
  | 0 => pure ()
  | n + 1 => do
      freeAccounting
      freeSlots n

def poolTrim (slots : Nat) : Run Unit := Code.locked .pool .exclusive (freeSlots slots)

/-! ## References and finalization -/

def retain (k : CtlId) : Run Unit := do
  let _ ← Code.act fun d => d.on k .retain

/-- What `finalize` does with the backing. -/
def disposeBacking : Run Unit := do
  if ← test then                       -- a backing that is not borrowed
    if ← test then                     -- pooled
      namespaceInfo
      if ← poolPut then releaseAmount else freeAccounting
    else
      freeAccounting

def finalize (k : CtlId) : Run Unit :=
  Code.locked (.control k) .exclusive do
    let before ← Code.act fun d => d.on k fun b => { b with finalized := true }
    if (before.block k).finalized then return
    disposeBacking
    releaseCount
    Code.locked .registry .exclusive do
      let _ ← Code.act fun d => d.on k fun b => { b with registered := false }
    note

def dropRef (k : CtlId) : Run Unit := do
  let before ← Code.act fun d => d.on k .drop
  if (before.block k).refs = 1 then finalize k

def registerControl : Run CtlId := do
  let before ← Code.locked .registry .exclusive do
    Code.act fun d => { d.on d.size (fun _ => { registered := true }) with size := d.size + 1 }
  return before.size

/-- `lookup`, which also compares the generations. -/
def lookup (k : CtlId) : Run Bool :=
  Code.locked .registry .shared do
    let d ← look
    if (d.block k).registered then test else return false

/-- `finalize_by_id`. It calls `finalize` with the mutex of the buffer locked. The second load is
expected to find the buffer finalized: the code goes wrong otherwise. -/
def finalizeById (k : CtlId) : Run Unit := do
  let d ← Code.locked .registry .exclusive look
  if !(d.block k).registered then return
  Code.locked (.control k) .exclusive do
    let d ← look
    if 0 < (d.block k).refs then return
    let d ← Code.expect (fun d => (d.block k).finalized = true) id
    if (d.block k).finalized then return
    let _ ← Code.act fun d => d.on k fun b => { b with refs := 0 }
    finalize k

/-! ## Allocation -/

/-- A new backing: the backend may fail, and so may the commit. -/
def freshBacking : Run Bool := do
  if ← test then
    unreserveAmount
    releaseCount
    return false
  if ← commitAmount then return true
  unreserveAmount
  releaseCount
  return false

/-- The zeroing policy, of the request or of the namespace, and its rollback. -/
def zeroBacking (fromPool : Bool) : Run Bool := do
  if ← test then namespaceInfo
  if ← test then return true
  if fromPool then
    freeAccounting
  else
    unreserveAmount
    releaseCount
  return false

def allocateRecord : Run Bool := do
  let d ← look
  if d.closed then return false
  if ← test then return false
  if !(← reserveCount) then return false
  if !(← reserveAmount) then
    releaseCount
    return false
  let fromPool ← (do if ← test then poolTake else return false)
  if fromPool then
    checkoutAmount
    zeroBacking true
  else if ← freshBacking then
    zeroBacking false
  else
    return false

/-! ## Operations -/

def allocate : Run Unit := do
  let d ← look
  if d.closed then return
  if ← allocateRecord then
    let k ← registerControl
    retain k

def wrapExternal : Run Unit := do
  let d ← look
  if d.closed then return
  if ← test then return
  if ← reserveCount then
    let k ← registerControl
    retain k

/-- `import_descriptor`, with the buffer that a local descriptor names. -/
def importDescriptor (k : CtlId) : Run (Option CtlId) := do
  let d ← look
  if d.closed then return none
  if ← test then return none
  namespaceInfo
  if ← test then return none
  namespaceInfo
  if ← test then return none
  if ← test then                       -- SHARED_HOST and MMAP_STORAGE
    if ← test then return none
    if ← test then note
    note
    let k ← registerControl
    return some k
  else if ← test then
    return none
  else if ← lookup k then
    return some k
  else
    return none

/-- `Runtime::import`. -/
def «import» (k : CtlId) : Run Unit := do
  match ← importDescriptor k with
  | some k => retain k
  | none => return

def validateAlive (k : CtlId) : Run Bool := do
  let d ← look
  if (d.block k).finalized then return false
  Code.locked (.control k) .exclusive test

/-- `RuntimeImpl::migrate`. -/
def migrateRecord (k : CtlId) : Run Bool := do
  let d ← look
  if d.closed then return false
  Code.locked (.control k) .exclusive do
    if ← test then return true         -- the buffer is there already
    if ← test then return false        -- released, leased, or no such domain
    if !(← reserveAmount) then return false
    if ← test then                     -- the backend or the copy fails
      unreserveAmount
      return false
    if !(← commitAmount) then
      unreserveAmount
      return false
    if ← test then                     -- the new backing does not verify
      if ← test then freeAccounting
      unreserveAmount
      return false
    if ← test then freeAccounting
    note
    return true

def migrate (k : CtlId) : Run Unit := do
  if ← validateAlive k then
    if ← migrateRecord k then retain k

def exportBuffer (k : CtlId) : Run Unit := do
  if ← validateAlive k then
    if ← test then note

def share (k : CtlId) : Run Unit := do
  if ← validateAlive k then retain k

/-- `acquire_read`, `acquire_write` and `acquire_exclusive`. -/
def acquire (k : CtlId) : Run Unit := do
  if ← validateAlive k then
    Code.locked (.control k) .exclusive do
      if ← test then retain k

def ensureValid (k : CtlId) : Run Bool := do
  if ← validateAlive k then Code.locked (.control k) .exclusive test else return false

def view (k : CtlId) : Run Unit := do
  if ← ensureValid k then
    if ← Code.locked (.control k) .exclusive test then
      Code.locked (.control k) .exclusive (pure ())
      retain k

def map (k : CtlId) : Run Unit := do
  if ← ensureValid k then
    if ← test then return
    if ← Code.locked (.control k) .exclusive test then retain k

/-- The release of a lease or of a mapping. -/
def unpin (k : CtlId) : Run Unit := do
  Code.locked (.control k) .exclusive (pure ())
  dropRef k

def stats : Run Unit := do
  let _ ← Code.locked .registry .shared look
  Code.locked .ns .exclusive (pure ())
  Code.locked .pool .exclusive (pure ())

/-- The buffers that `shutdown` finds without references. -/
def finalizeAll : List CtlId → Run Unit
  | [] => pure ()
  | k :: todo => do
      let d ← look
      if (d.block k).refs = 0 then finalize k
      finalizeAll todo

def shutdown (slots : Nat) : Run Unit := do
  let before ← Code.act fun d => { d with closed := true }
  if before.closed then return
  let d ← Code.locked .registry .exclusive look
  finalizeAll ((List.range d.size).filter fun k => (d.block k).registered)
  poolTrim slots

inductive Op where
  | allocate
  | wrapExternal
  | «import» (k : CtlId)
  | migrate (k : CtlId)
  | exportBuffer (k : CtlId)
  | share (k : CtlId)
  | acquire (k : CtlId)
  | view (k : CtlId)
  | map (k : CtlId)
  /-- the release of a handle or of a view -/
  | release (k : CtlId)
  | unpin (k : CtlId)
  | invalidate (k : CtlId)
  | poolTrim (slots : Nat)
  | stats
  | shutdown (slots : Nat)

def Op.code : Op → Run Unit
  | .allocate => Locking.allocate
  | .wrapExternal => Locking.wrapExternal
  | .import k => Locking.import k
  | .migrate k => Locking.migrate k
  | .exportBuffer k => Locking.exportBuffer k
  | .share k => Locking.share k
  | .acquire k => Locking.acquire k
  | .view k => Locking.view k
  | .map k => Locking.map k
  | .release k => dropRef k
  | .unpin k => Locking.unpin k
  | .invalidate k => finalizeById k
  | .poolTrim slots => Locking.poolTrim slots
  | .stats => Locking.stats
  | .shutdown slots => Locking.shutdown slots

/-! ## Runs without interruption -/

/-- What the programs see of the sequential model. -/
def Data.of (c : Core) : Data := ⟨c.rt.closed, c.ctls.length, Block.of c⟩

theorem plain_ends {m : Mutex} {mode : Mode} {next : Unit → Prog Mutex Data} {d d' : Data}
    (h : (Code.locked m mode (pure ()) next).Ends d d') : (next ()).Ends d d' := by
  cases h with
  | lock h =>
      cases h with
      | unlock h => exact h

theorem disposeBacking_ends {next : Unit → Prog Mutex Data} {d d' : Data}
    (h : (disposeBacking next).Ends d d') : (next ()).Ends d d' := by
  cases h with
  | choose borrowed h =>
      cases borrowed with
      | false => exact h
      | true =>
          cases h with
          | choose pooled h =>
              cases pooled with
              | false => exact plain_ends h
              | true =>
                  cases plain_ends h with
                  | lock h =>
                      cases h with
                      | choose kept h =>
                          cases h with
                          | unlock h => cases kept <;> exact plain_ends h

/-- `finalize` without interruption. -/
theorem finalize_ends {k : CtlId} {d d' : Data} (h : (finalize k).prog.Ends d d') :
    d'.block k = (d.block k).finalize := by
  unfold Block.finalize
  cases h with
  | lock h =>
      cases h with
      | act h =>
          by_cases hfin : (d.block k).finalized = true
          · rw [if_pos hfin]
            simp only [hfin, if_true] at h
            cases h with
            | unlock h =>
                cases h
                simp [Data.on, ← hfin]
          · rw [if_neg hfin]
            simp only [hfin] at h
            cases plain_ends (disposeBacking_ends h) with
            | lock h =>
                cases h with
                | act h =>
                    cases h with
                    | unlock h =>
                        cases plain_ends h with
                        | unlock h =>
                            cases h
                            simp [Data.on]

theorem dropRef_ends {k : CtlId} {d d' : Data} (h : (dropRef k).prog.Ends d d') :
    d'.block k = (d.block k).dropRef := by
  unfold Block.dropRef
  cases h with
  | act h =>
      by_cases hone : (d.block k).refs = 1
      · rw [if_pos hone]
        simp only [hone, if_true] at h
        rw [finalize_ends h]
        simp [Data.on]
      · rw [if_neg hone]
        simp only [hone, if_false] at h
        cases h
        simp [Data.on]

/-- A thread that drops a reference without interruption does to the count and to the flag what the
sequential `dropRef` does. -/
theorem dropRef_alone (c : Core) {k : CtlId} (hk : k < c.ctls.length) (env : Env)
    {bs : List Bool} {d' : Data} {held' : List (Mutex × Mode)}
    (h : runs Threads.next ⟨Data.of c, [{ prog := (dropRef k).prog }]⟩ (bs.map (.step 0))
      = ⟨d', [⟨held', .done⟩]⟩) :
    (d'.block k).refs = ((c.dropRef env k).control k).refs ∧
      (d'.block k).finalized = ((c.dropRef env k).control k).finalized := by
  rw [dropRef_ends (Threads.ends_of_runs h)]
  exact Block.dropRef_of c hk env

/-! ## Order -/

/-- The code locks in increasing order if its thread has only mutexes of rank below `r`. -/
abbrev Fits {α : Type} (r : Nat) (c : Run α) : Prop := Code.Fits rank r (fun _ => True) c

section Sections

variable {r : Nat}

theorem return_fits {α : Type} {a : α} : Fits r (pure a : Run α) := .pure trivial

theorem look_fits : Fits r look := .act id

theorem test_fits : Fits r test := .choose

/-- A critical section that takes no other mutex. -/
theorem plain_fits {m : Mutex} {mode : Mode} (h : r ≤ rank m) :
    Fits r (Code.locked m mode (pure ()) : Run Unit) :=
  .locked h return_fits mode

theorem tested_fits {m : Mutex} {mode : Mode} (h : r ≤ rank m) :
    Fits r (Code.locked m mode test : Run Bool) :=
  .locked h test_fits mode

theorem looked_fits {m : Mutex} {mode : Mode} (h : r ≤ rank m) :
    Fits r (Code.locked m mode look : Run Data) :=
  .locked h look_fits mode

/-- A critical section of a buffer. -/
theorem control_fits {α : Type} {c : Run α} (k : CtlId) (hc : Fits 1 c) :
    Fits 0 (Code.locked (.control k) .exclusive c) :=
  .locked (Nat.zero_le _) hc _

theorem retain_fits (k : CtlId) : Fits r (retain k) := (Code.Fits.act _).seq fun _ => return_fits

theorem reserveAmount_fits (h : r ≤ rank .ns) : Fits r reserveAmount :=
  test_fits.seq fun _ => .branch return_fits (tested_fits h)

theorem registerControl_fits (h : r ≤ rank .registry) : Fits r registerControl :=
  (Code.Fits.locked h (.act _) _).seq fun _ => return_fits

theorem lookup_fits (k : CtlId) (h : r ≤ rank .registry) : Fits r (lookup k) :=
  .locked h (look_fits.seq fun _ => .branch test_fits return_fits) _

theorem freeSlots_fits (n : Nat) (h : r ≤ rank .ns) : Fits r (freeSlots n) := by
  induction n with
  | zero => exact return_fits
  | succ n ih => exact (plain_fits h).seq fun _ => ih

theorem poolTrim_fits (slots : Nat) (h : r ≤ rank .pool) : Fits r (poolTrim slots) :=
  .locked h (freeSlots_fits slots (by decide)) _

theorem disposeBacking_fits (h : r ≤ rank .pool) : Fits r disposeBacking := by
  have hns : r ≤ rank .ns := Nat.le_succ_of_le h
  refine test_fits.seq fun _ => .branch (test_fits.seq fun _ => .branch ?_ ?_) return_fits
  · exact (plain_fits hns).seq fun _ => (tested_fits h).seq fun _ =>
      .branch (plain_fits hns) (plain_fits hns)
  · exact plain_fits hns

end Sections

/-- `finalize` locks the mutex of the buffer first, and the others inside. -/
theorem finalize_fits (k : CtlId) : Fits 0 (finalize k) := by
  refine control_fits k ((Code.Fits.act _).seq fun _ => .branch return_fits ?_)
  refine (disposeBacking_fits (by decide)).seq fun _ => (plain_fits (by decide)).seq fun _ => ?_
  refine (Code.Fits.locked (by decide) ?_ _).seq fun _ => plain_fits (by decide)
  exact (Code.Fits.act _).seq fun _ => return_fits

theorem dropRef_fits (k : CtlId) : Fits 0 (dropRef k) :=
  (Code.Fits.act _).seq fun _ => .branch (finalize_fits k) return_fits

/-- `finalize_by_id` locks the mutex of the buffer only once if it finds the buffer as expected. -/
theorem finalizeById_fits (k : CtlId) : Fits 0 (finalizeById k) := by
  refine (looked_fits (by decide)).seq fun _ => .branch return_fits ?_
  refine control_fits k (look_fits.seq fun _ => .branch return_fits ?_)
  refine (Code.Fits.expect _ _).bind fun d hd => .ite (fun _ => return_fits) fun hnot => ?_
  exact absurd hd hnot

theorem freshBacking_fits : Fits 0 freshBacking := by
  have hundo : Fits 0 (do unreserveAmount; releaseCount; return false : Run Bool) :=
    (plain_fits (by decide)).seq fun _ => (plain_fits (by decide)).seq fun _ => return_fits
  exact test_fits.seq fun _ => .branch hundo
    ((tested_fits (by decide)).seq fun _ => .branch return_fits hundo)

theorem zeroBacking_fits (fromPool : Bool) : Fits 0 (zeroBacking fromPool) := by
  have hrest : Fits 0 (do
      if ← test then return true
      if fromPool then
        freeAccounting
      else
        unreserveAmount
        releaseCount
      return false : Run Bool) := by
    refine test_fits.seq fun _ => .branch return_fits (.branch ?_ ?_)
    · exact (plain_fits (by decide)).seq fun _ => return_fits
    · exact (plain_fits (by decide)).seq fun _ => (plain_fits (by decide)).seq fun _ => return_fits
  exact test_fits.seq fun _ => .branch ((plain_fits (by decide)).seq fun _ => hrest) hrest

theorem allocateRecord_fits : Fits 0 allocateRecord := by
  refine look_fits.seq fun _ => .branch return_fits ?_
  refine test_fits.seq fun _ => .branch return_fits ?_
  refine (tested_fits (by decide)).seq fun _ => .branch return_fits ?_
  refine (reserveAmount_fits (by decide)).seq fun _ => .branch ?_ ?_
  · exact (plain_fits (by decide)).seq fun _ => return_fits
  · refine Code.Fits.seq (test_fits.seq fun _ => .branch (tested_fits (by decide)) return_fits)
      fun _ => .branch ?_ ?_
    · exact (plain_fits (by decide)).seq fun _ => zeroBacking_fits true
    · exact freshBacking_fits.seq fun _ => .branch (zeroBacking_fits false) return_fits

theorem importDescriptor_fits (k : CtlId) : Fits 0 (importDescriptor k) := by
  have hnew : Fits 0 (do note; let k ← registerControl; return some k : Run (Option CtlId)) :=
    (plain_fits (by decide)).seq fun _ => (registerControl_fits (by decide)).seq fun _ =>
      return_fits
  refine look_fits.seq fun _ => .branch return_fits ?_
  refine test_fits.seq fun _ => .branch return_fits ?_
  refine (plain_fits (by decide)).seq fun _ => test_fits.seq fun _ => .branch return_fits ?_
  refine (plain_fits (by decide)).seq fun _ => test_fits.seq fun _ => .branch return_fits ?_
  refine test_fits.seq fun _ => .branch ?_ ?_
  · refine test_fits.seq fun _ => .branch return_fits ?_
    exact test_fits.seq fun _ => .branch ((plain_fits (by decide)).seq fun _ => hnew) hnew
  · refine test_fits.seq fun _ => .branch return_fits ?_
    exact (lookup_fits k (by decide)).seq fun _ => .branch return_fits return_fits

theorem validateAlive_fits (k : CtlId) : Fits 0 (validateAlive k) :=
  look_fits.seq fun _ => .branch return_fits (control_fits k test_fits)

theorem ensureValid_fits (k : CtlId) : Fits 0 (ensureValid k) :=
  (validateAlive_fits k).seq fun _ => .branch (control_fits k test_fits) return_fits

theorem migrateRecord_fits (k : CtlId) : Fits 0 (migrateRecord k) := by
  have hundo : Fits 1 (do unreserveAmount; return false : Run Bool) :=
    (plain_fits (by decide)).seq fun _ => return_fits
  have hend : Fits 1 (do note; return true : Run Bool) :=
    (plain_fits (by decide)).seq fun _ => return_fits
  refine look_fits.seq fun _ => .branch return_fits (control_fits k ?_)
  refine test_fits.seq fun _ => .branch return_fits ?_
  refine test_fits.seq fun _ => .branch return_fits ?_
  refine (reserveAmount_fits (by decide)).seq fun _ => .branch return_fits ?_
  refine test_fits.seq fun _ => .branch hundo ?_
  refine (tested_fits (by decide)).seq fun _ => .branch hundo ?_
  refine test_fits.seq fun _ => .branch (test_fits.seq fun _ => .branch ?_ hundo)
    (test_fits.seq fun _ => .branch ?_ hend)
  · exact (plain_fits (by decide)).seq fun _ => hundo
  · exact (plain_fits (by decide)).seq fun _ => hend

theorem finalizeAll_fits (todo : List CtlId) : Fits 0 (finalizeAll todo) := by
  induction todo with
  | nil => exact return_fits
  | cons k todo ih =>
      exact look_fits.seq fun _ => .branch ((finalize_fits k).seq fun _ => ih) ih

theorem Op.fits (op : Op) : Fits 0 op.code := by
  cases op with
  | allocate =>
      refine look_fits.seq fun _ => .branch return_fits ?_
      refine allocateRecord_fits.seq fun _ => .branch ?_ return_fits
      exact (registerControl_fits (by decide)).seq retain_fits
  | wrapExternal =>
      refine look_fits.seq fun _ => .branch return_fits ?_
      refine test_fits.seq fun _ => .branch return_fits ?_
      refine (tested_fits (by decide)).seq fun _ => .branch ?_ return_fits
      exact (registerControl_fits (by decide)).seq retain_fits
  | «import» k =>
      refine (importDescriptor_fits k).seq fun found => ?_
      cases found with
      | none => exact return_fits
      | some k => exact retain_fits k
  | migrate k =>
      refine (validateAlive_fits k).seq fun _ => .branch ?_ return_fits
      exact (migrateRecord_fits k).seq fun _ => .branch (retain_fits k) return_fits
  | exportBuffer k =>
      refine (validateAlive_fits k).seq fun _ => .branch ?_ return_fits
      exact test_fits.seq fun _ => .branch (plain_fits (by decide)) return_fits
  | share k => exact (validateAlive_fits k).seq fun _ => .branch (retain_fits k) return_fits
  | acquire k =>
      -- `retain` takes no mutex, so it may stand in the section of the control block
      refine (validateAlive_fits k).seq fun _ => .branch (control_fits k ?_) return_fits
      exact test_fits.seq fun _ => .branch (retain_fits k) return_fits
  | view k =>
      refine (ensureValid_fits k).seq fun _ => .branch ?_ return_fits
      refine (control_fits k test_fits).seq fun _ => .branch ?_ return_fits
      exact (control_fits k return_fits).seq fun _ => retain_fits k
  | map k =>
      refine (ensureValid_fits k).seq fun _ => .branch ?_ return_fits
      refine test_fits.seq fun _ => .branch return_fits ?_
      exact (control_fits k test_fits).seq fun _ => .branch (retain_fits k) return_fits
  | release k => exact dropRef_fits k
  | unpin k => exact (control_fits k return_fits).seq fun _ => dropRef_fits k
  | invalidate k => exact finalizeById_fits k
  | poolTrim slots => exact poolTrim_fits slots (by decide)
  | stats =>
      refine (looked_fits (by decide)).seq fun _ => ?_
      exact (plain_fits (by decide)).seq fun _ => plain_fits (by decide)
  | shutdown slots =>
      refine (Code.Fits.act _).seq fun _ => .branch return_fits ?_
      refine (looked_fits (by decide)).seq fun _ => (finalizeAll_fits _).seq fun _ => ?_
      exact poolTrim_fits slots (by decide)

/-! ## Discipline -/

/-- New threads run operations. -/
def Starts (a : Threads.Act Mutex Data) : Prop :=
  ∀ p, a = .start p → ∃ op : Op, p = op.code.prog

theorem ordered_reach {s : Threads Mutex Data}
    (hreach : Reach Threads.next (fun s a => Starts a ∧ s.Expected a) ⟨{}, []⟩ s) :
    s.AllOrdered rank := by
  refine hreach.invariant (fun _ h => by cases h) fun s a h ha => h.next (fun p hp => ?_) ha.2
  obtain ⟨op, rfl⟩ := ha.1 p hp
  exact op.fits.ordered

/-- In every run in which `invalidate` finds a buffer without references finalized, mutexes are
locked in increasing order of the ranking, no threads wait for each other, and threads that run on
as long as one of them can all return in the end. -/
theorem lock_discipline {s : Threads Mutex Data}
    (hreach : Reach Threads.next (fun s a => Starts a ∧ s.Expected a) ⟨{}, []⟩ s) :
    (∀ i m m', s.Wants i m → s.Has i m' → rank m' < rank m) ∧ ¬ s.Deadlocked ∧
      ∀ (run : Nat → Threads Mutex Data) (sched : Nat → Nat × Bool), run 0 = s →
        (∀ n, run (n + 1) = (run n).next (.step (sched n).1 (sched n).2)) →
        (∀ n, (run n).Expected (.step (sched n).1 (sched n).2)) →
        (∀ n, (∃ i, (run n).Enabled i) → (run n).Enabled (sched n).1) → ∃ n, (run n).Done := by
  have hord := ordered_reach hreach
  refine ⟨fun i m m' hwants hhas => hord.lt hwants hhas, hord.not_deadlocked, ?_⟩
  intro run sched hzero hrun hexp hon
  exact Threads.AllOrdered.eventually_done run sched (hzero ▸ hord) hrun hexp hon

/-- A thread trims the pool while another one takes the statistics. -/
def trimming : List (Threads.Act Mutex Data) :=
  [.start (poolTrim 1).prog, .start stats.prog, .step 0 true, .step 1 true]

/-- The theorem at work: the first thread has locked the pool and wants the namespaces. -/
theorem lock_discipline_trimming :
    rank .pool < rank .ns ∧ ¬ (runs Threads.next ⟨{}, []⟩ trimming).Deadlocked := by
  have hreach : Reach Threads.next (fun s a => Starts a ∧ s.Expected a) ⟨{}, []⟩
      (runs Threads.next ⟨{}, []⟩ trimming) :=
    reach_runs .start ⟨⟨fun _ hp => ⟨.poolTrim 1, by cases hp; rfl⟩, trivial⟩,
      ⟨fun _ hp => ⟨.stats, by cases hp; rfl⟩, trivial⟩,
      ⟨nofun, fun _ ht => (by cases ht; trivial)⟩, ⟨nofun, fun _ ht => (by cases ht; trivial)⟩,
      trivial⟩
  obtain ⟨hlt, hnot, -⟩ := lock_discipline hreach
  exact ⟨hlt 0 .ns .pool ⟨_, _, _, rfl, rfl⟩ ⟨_, rfl, _, List.mem_singleton.mpr rfl⟩, hnot⟩

/-- `allocate` up to the moment when the buffer is registered but has no reference yet. -/
def registering : List (Threads.Act Mutex Data) :=
  .start allocate.prog ::
    [false, false, false, false, true, false, false, false, true, false, false, false, false, true,
      false, false, true, false, false, false].map (.step 0)

/-- `invalidate` of that buffer. -/
def invalidating : List (Threads.Act Mutex Data) :=
  .start (finalizeById 0).prog :: (List.replicate 7 false).map (.step 1)

/-- `finalize_by_id` calls `finalize` for a registered buffer without references that is not
finalized. It waits for the mutex that it has itself locked, and never returns. -/
theorem invalidate_locks_twice :
    ∃ s, Reach Threads.next (fun _ a => Starts a) ⟨{}, []⟩ s ∧ s.Wants 1 (.control 0) ∧
      s.Has 1 (.control 0) ∧ s.Deadlocked ∧ ∀ as, ¬ (runs Threads.next s as).Done := by
  have hstarts : ∀ a ∈ registering ++ invalidating, Starts a := by
    intro a ha p hp
    subst hp
    rcases List.mem_append.mp ha with ha | ha
    · rcases List.mem_cons.mp ha with hfirst | hrest
      · exact ⟨.allocate, Threads.Act.start.inj hfirst⟩
      · simp at hrest
    · rcases List.mem_cons.mp ha with hfirst | hrest
      · exact ⟨.invalidate 0, Threads.Act.start.inj hfirst⟩
      · simp at hrest
  -- the second thread stands before a `lock` of the mutex that it holds
  obtain ⟨t, k, hi, hprog, hheld⟩ : ∃ (t : Thread Mutex Data) (k : Prog Mutex Data),
      (runs Threads.next ⟨{}, []⟩ (registering ++ invalidating)).threads[1]? = some t ∧
        t.prog = .lock (.control 0) .exclusive k ∧ (.control 0, .exclusive) ∈ t.held :=
    ⟨_, _, rfl, rfl, List.mem_singleton.mpr rfl⟩
  have hhas : (runs Threads.next ⟨{}, []⟩ (registering ++ invalidating)).Has 1 (.control 0) :=
    ⟨t, hi, _, hheld⟩
  have hwants : (runs Threads.next ⟨{}, []⟩ (registering ++ invalidating)).Wants 1 (.control 0) :=
    ⟨t, _, k, hi, hprog⟩
  refine ⟨_, reach_runs .start (Along.of_mem (fun a ha _ => hstarts a ha) _), hwants, hhas,
    ⟨{1}, ⟨1, rfl⟩, fun i h => ?_⟩, fun as hdone => ?_⟩
  · rw [Set.mem_singleton_iff.mp h]
    exact ⟨_, hwants, 1, rfl, hhas⟩
  · have hstill := Threads.stuck hi hprog hheld as
    have hend := hdone t (List.mem_of_getElem? hstill)
    rw [hprog] at hend
    cases hend

end Locking

end UnifiedBuffer
