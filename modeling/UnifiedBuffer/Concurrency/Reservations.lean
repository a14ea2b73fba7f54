import UnifiedBuffer.Lib.ListAt
import UnifiedBuffer.Lib.Run
import UnifiedBuffer.Safety.Ownership

set_option autoImplicit false

/-! # Reservations of concurrent operations

Any number of threads run `allocate_record` and `migrate`, and their steps under `ns_mtx_`
interleave. A thread is somewhere between two such steps (`Phase`), and `Act` is the next step of a
thread with the outcome that its backend, the pool or the ledger gives it.

A reservation is consumed exactly once on every path but three: a pool hit returns without giving it
back, and after the commit a failed zeroing or verification gives back what the commit has already
consumed, at the expense of another operation that holds a reservation in the same cell. -/

namespace UnifiedBuffer

open Lib

namespace Reserving

/-! ## Threads -/

/-- What an operation that reserves is about. A migration has an old backing to account for, if it
is present. -/
inductive Kind where
  | allocation
  | migration (old : Option (MemoryDomain × UInt64))
  deriving DecidableEq, Repr

/-- A reservation: namespace, domain and class size. -/
structure Job where
  kind : Kind
  ns : NamespaceId
  domain : MemoryDomain
  bytes : UInt64
  deriving DecidableEq, Repr

/-- Where a thread is between two steps under `ns_mtx_`. -/
inductive Phase where
  | idle
  /-- the reservation is made, a backing is looked for -/
  | holding (j : Job)
  /-- the commit failed -/
  | refused (j : Job)
  /-- a slot of the pool was checked out -/
  | pooled (j : Job) (bytes : UInt64)
  /-- the backing is committed -/
  | backed (j : Job) (bytes : UInt64)
  /-- the verification of the backing failed and the commit was undone -/
  | undone (j : Job)
  deriving DecidableEq, Repr

structure Sys where
  ledger : Ledger := {}
  threads : List Phase := []

/-- The steps. Those of a thread carry its number. -/
inductive Act where
  | spawn
  /-- `reserve_amount` at the start of an operation, with the limits it reads -/
  | reserve (i : Nat) (j : Job) (cap quota : UInt64)
  /-- the backend has no memory, or the copy fails: `unreserve_amount` -/
  | refuse (i : Nat)
  /-- a pool hit: `checkout_amount` -/
  | checkout (i : Nat) (bytes : UInt64)
  /-- `commit_amount` -/
  | commit (i : Nat) (bytes : UInt64)
  /-- `unreserve_amount` after a failed commit or verification -/
  | giveBack (i : Nat)
  /-- zeroing or verification succeeds; a migration accounts for the old backing -/
  | finish (i : Nat)
  /-- the zeroing fails: `free_accounting` for a slot, `unreserve_amount` for a fresh backing -/
  | zeroFails (i : Nat)
  /-- the verification fails: `free_accounting`, but not for a device -/
  | verifyFails (i : Nat) (undo : UInt64)
  /-- `release_amount` and `free_accounting` of a finalization or a trim -/
  | release (ns : NamespaceId) (d : MemoryDomain) (bytes : UInt64) (pooled : Bool)
  | free (ns : NamespaceId) (d : MemoryDomain) (bytes : UInt64)

/-- What the next step of a thread does to its phase and to the ledger. A step that the thread is
not at does nothing. -/
def advance (l : Ledger) (p : Phase) : Act → Phase × Ledger
  | .reserve _ j cap quota =>
      match p, l.reserveAmount cap quota j.ns j.domain j.bytes with
      | .idle, .ok l' => (.holding j, l')
      | p, _ => (p, l)
  | .refuse _ =>
      match p with
      | .holding j => (.idle, l.unreserveAmount j.ns j.domain j.bytes)
      | p => (p, l)
  | .checkout _ bytes =>
      match p with
      | .holding j =>
          if j.kind = .allocation then (.pooled j bytes, l.checkoutAmount j.ns j.domain bytes)
          else (p, l)
      | p => (p, l)
  | .commit _ bytes =>
      match p with
      | .holding j =>
          match l.commitAmount j.ns j.domain bytes with
          | .ok l' => (.backed j bytes, l')
          | .error _ => (.refused j, l)
      | p => (p, l)
  | .giveBack _ =>
      match p with
      | .refused j => (.idle, l.unreserveAmount j.ns j.domain j.bytes)
      | .undone j => (.idle, l.unreserveAmount j.ns j.domain j.bytes)
      | p => (p, l)
  | .finish _ =>
      match p with
      | .pooled _ _ => (.idle, l)
      | .backed j _ =>
          match j.kind with
          | .migration (some (d, bytes)) => (.idle, l.freeAccounting j.ns d bytes)
          | _ => (.idle, l)
      | p => (p, l)
  | .zeroFails _ =>
      match p with
      | .pooled j bytes => (.idle, l.freeAccounting j.ns j.domain bytes)
      | .backed j _ =>
          if j.kind = .allocation then (.idle, l.unreserveAmount j.ns j.domain j.bytes) else (p, l)
      | p => (p, l)
  | .verifyFails _ undo =>
      match p with
      | .backed j _ =>
          if j.kind = .allocation then (p, l)
          else (.undone j,
            if j.domain ≠ .device then l.freeAccounting j.ns j.domain undo else l)
      | p => (p, l)
  | _ => (p, l)

def Act.thread : Act → Option Nat
  | .spawn => none
  | .reserve i _ _ _ => some i
  | .refuse i => some i
  | .checkout i _ => some i
  | .commit i _ => some i
  | .giveBack i => some i
  | .finish i => some i
  | .zeroFails i => some i
  | .verifyFails i _ => some i
  | .release _ _ _ _ => none
  | .free _ _ _ => none

def Sys.next (s : Sys) (a : Act) : Sys :=
  match a.thread with
  | some i =>
      match s.threads[i]? with
      | some p =>
          ⟨(advance s.ledger p a).2, s.threads.set i (advance s.ledger p a).1⟩
      | none => s
  | none =>
      match a with
      | .spawn => { s with threads := s.threads ++ [.idle] }
      | .release ns d bytes pooled => { s with ledger := s.ledger.releaseAmount ns d bytes pooled }
      | .free ns d bytes => { s with ledger := s.ledger.freeAccounting ns d bytes }
      | _ => s

/-! ## What is held -/

/-- The amount that an operation has reserved and neither committed nor given back. -/
def Phase.holds (n : NamespaceId) (d : MemoryDomain) : Phase → Nat
  | .holding j => portion j.ns j.domain j.bytes n d
  | .refused j => portion j.ns j.domain j.bytes n d
  | .pooled j _ => portion j.ns j.domain j.bytes n d
  | _ => 0

/-- The amounts that the operations in flight hold. -/
def Sys.held (s : Sys) (n : NamespaceId) (d : MemoryDomain) : Nat :=
  (s.threads.map (Phase.holds n d)).sum

/-- The next step of a thread in phase `p` is not one of those that lose or steal a reservation:
the sum of a reservation does not wrap, no slot of the pool is taken, the backing has the requested
size, and a step that gives back after the commit finds nothing reserved in the cell. -/
def Fair (l : Ledger) (p : Phase) : Act → Prop
  | .reserve _ j _ _ => l.res j.ns j.domain + j.bytes.toNat < 2 ^ 64
  | .checkout _ _ => False
  | .commit _ bytes =>
      match p with
      | .holding j => bytes = j.bytes
      | _ => True
  | .giveBack _ =>
      match p with
      | .undone j => l.res j.ns j.domain = 0
      | _ => True
  | .zeroFails _ =>
      match p with
      | .backed j _ => l.res j.ns j.domain = 0
      | _ => True
  | _ => True

instance (l : Ledger) (p : Phase) (a : Act) : Decidable (Fair l p a) := by
  cases a <;> cases p <;> unfold Fair <;> infer_instance

/-- The step is fair for the thread that takes it. -/
def Sys.Fair (s : Sys) (a : Act) : Prop :=
  ∀ i ∈ a.thread, ∀ p ∈ s.threads[i]?, Reserving.Fair s.ledger p a

/-! ## Conservation -/

/-- The phase is not the one of a pool hit. -/
def Phase.Fresh : Phase → Prop
  | .pooled _ _ => False
  | _ => True

section Step

variable {l : Ledger} {p : Phase} {a : Act}

/-- Giving back after the commit: there is nothing in the cell to take. -/
theorem giveBack_nothing {j : Job} (hzero : l.res j.ns j.domain = 0) (n : NamespaceId)
    (d : MemoryDomain) : (l.unreserveAmount j.ns j.domain j.bytes).res n d = l.res n d := by
  rw [Ledger.res_unreserveAmount]
  unfold portion
  split
  · rename_i hk
    rw [← hk.1, ← hk.2, hzero, Nat.zero_sub]
  · rfl

/-- Giving back what the thread holds. -/
theorem giveBack_held {j : Job} {n : NamespaceId} {d : MemoryDomain}
    (hle : portion j.ns j.domain j.bytes n d ≤ l.res n d) :
    (l.unreserveAmount j.ns j.domain j.bytes).res n d + portion j.ns j.domain j.bytes n d
      = l.res n d + 0 := by
  rw [Ledger.res_unreserveAmount]
  omega

/-- A reservation that does not wrap adds its bytes to its cell. -/
theorem reserve_res {cap quota : UInt64} {j : Job} {l' : Ledger}
    (hr : l.reserveAmount cap quota j.ns j.domain j.bytes = .ok l')
    (hfit : l.res j.ns j.domain + j.bytes.toNat < 2 ^ 64) (n : NamespaceId) (d : MemoryDomain) :
    l'.res n d = l.res n d + portion j.ns j.domain j.bytes n d := by
  refine (Ledger.res_reserveAmount n d hr).2 ?_
  unfold portion
  split
  · rename_i hk
    rw [← hk.1, ← hk.2]
    exact hfit
  · exact (l.reserved.get n d).toNat_lt

/-- A step of a thread changes the reserved cell by as much as what the thread holds. -/
theorem advance_res (hfresh : p.Fresh) (hfair : Fair l p a)
    (hcover : ∀ n d, p.holds n d ≤ l.res n d) (n : NamespaceId) (d : MemoryDomain) :
    (advance l p a).2.res n d + p.holds n d = l.res n d + (advance l p a).1.holds n d := by
  have hcell := hcover n d
  cases a with
  | spawn | release | free => rfl
  | checkout => exact absurd hfair id
  | reserve i j cap quota =>
      cases p with
      | idle =>
          cases hr : l.reserveAmount cap quota j.ns j.domain j.bytes with
          | error e =>
              simp only [advance, hr]
          | ok l' =>
              simp only [advance, hr]
              exact reserve_res hr hfair n d
      | holding | refused | pooled | backed | undone =>
          simp only [advance]
  | refuse i =>
      cases p with
      | holding j => exact giveBack_held hcell
      | idle | refused | pooled | backed | undone => rfl
  | commit i bytes =>
      cases p with
      | holding j =>
          have hsize : bytes = j.bytes := hfair
          subst hsize
          cases hc : l.commitAmount j.ns j.domain j.bytes with
          | error e => simp only [advance, hc]; rfl
          | ok l' =>
              have hres := Ledger.res_commitAmount n d hc
              simp only [advance, hc, Phase.holds]
              omega
      | idle | refused | pooled | backed | undone => rfl
  | giveBack i =>
      cases p with
      | refused j => exact giveBack_held hcell
      | undone j => exact congrArg (· + 0) (giveBack_nothing hfair n d)
      | idle | holding | pooled | backed => rfl
  | finish i =>
      cases p with
      | pooled => exact absurd hfresh id
      | backed j bytes =>
          simp only [advance]
          split <;> rfl
      | idle | holding | refused | undone => rfl
  | zeroFails i =>
      cases p with
      | pooled => exact absurd hfresh id
      | backed j bytes =>
          simp only [advance]
          split
          · exact congrArg (· + 0) (giveBack_nothing hfair n d)
          · rfl
      | idle | holding | refused | undone => rfl
  | verifyFails i undo =>
      cases p with
      | backed j bytes =>
          simp only [advance]
          split
          · rfl
          · split <;> rfl
      | idle | holding | refused | pooled | undone => rfl

/-- Only a checkout leads to the phase of a pool hit. -/
theorem advance_fresh (hfresh : p.Fresh) (hfair : Fair l p a) : (advance l p a).1.Fresh := by
  cases a with
  | checkout => exact absurd hfair id
  | spawn | release | free => exact hfresh
  | reserve | refuse | commit | giveBack | finish | zeroFails | verifyFails =>
      simp only [advance]
      repeat' split
      all_goals first | exact hfresh | trivial

end Step

structure Sys.Inv (s : Sys) : Prop where
  fresh : ∀ p ∈ s.threads, p.Fresh
  conserved : ∀ n d, s.ledger.res n d = s.held n d

theorem Sys.holds_le {s : Sys} {p : Phase} (hmem : p ∈ s.threads) (n : NamespaceId)
    (d : MemoryDomain) : p.holds n d ≤ s.held n d :=
  List.single_le_sum (fun _ _ => Nat.zero_le _) _ (List.mem_map_of_mem hmem)

theorem Sys.next_thread {s : Sys} {a : Act} {i : Nat} {p : Phase} (ha : a.thread = some i)
    (hp : s.threads[i]? = some p) :
    s.next a = ⟨(advance s.ledger p a).2, s.threads.set i (advance s.ledger p a).1⟩ := by
  unfold Sys.next
  simp only [ha, hp]

theorem Sys.next_absent {s : Sys} {a : Act} {i : Nat} (ha : a.thread = some i)
    (hp : s.threads[i]? = none) : s.next a = s := by
  unfold Sys.next
  simp only [ha, hp]

theorem Sys.Inv.next {s : Sys} {a : Act} (h : s.Inv) (hfair : s.Fair a) : (s.next a).Inv := by
  cases ha : a.thread with
  | none =>
      cases a with
      | spawn =>
          refine ⟨fun p hp => ?_, fun n d => ?_⟩
          · rcases List.mem_append.mp hp with hp | hp
            · exact h.fresh p hp
            · obtain rfl := List.mem_singleton.mp hp
              trivial
          · show s.ledger.res n d = ((s.threads ++ [Phase.idle]).map (Phase.holds n d)).sum
            rw [List.map_append, List.sum_append]
            exact h.conserved n d
      | release ns d bytes pooled =>
          refine ⟨h.fresh, fun n' d' => ?_⟩
          show (s.ledger.releaseAmount ns d bytes pooled).res n' d' = s.held n' d'
          rw [← h.conserved n' d']
          cases pooled <;> rfl
      | free ns d bytes => exact ⟨h.fresh, h.conserved⟩
      | reserve | refuse | checkout | commit | giveBack | finish | zeroFails | verifyFails =>
          cases ha
  | some i =>
      cases hp : s.threads[i]? with
      | none =>
          rw [s.next_absent ha hp]
          exact h
      | some p =>
          rw [s.next_thread ha hp]
          have hmem := List.mem_of_getElem? hp
          have hstep : Reserving.Fair s.ledger p a := hfair i ha p hp
          refine ⟨fun q hq => ?_, fun n d => ?_⟩
          · rcases List.mem_or_eq_of_mem_set hq with hq | rfl
            · exact h.fresh q hq
            · exact advance_fresh (h.fresh p hmem) hstep
          · -- the sum changes by what the thread gains or gives up
            have hcover : ∀ n d, p.holds n d ≤ s.ledger.res n d := fun n d =>
              (h.conserved n d).symm ▸ s.holds_le hmem n d
            have hres := advance_res (h.fresh p hmem) hstep hcover n d
            have hsum := sum_map_set (Phase.holds n d) hp (advance s.ledger p a).1
            have hold := h.conserved n d
            unfold Sys.held at hold ⊢
            simp only
            omega

/-! ## The operations as threads

Run alone, `allocate_record` and `migrate` do to the ledger what the steps of one thread do. -/

/-- `as` are steps of a single thread that take it from rest to rest and change the ledger from `l`
to `l'`. -/
def Solo (l l' : Ledger) (as : List Act) : Prop :=
  (∀ a ∈ as, a.thread = some 0) ∧ runs Sys.next ⟨l, [.idle]⟩ as = ⟨l', [.idle]⟩

/-- One step of a single thread. -/
theorem runs_single {l : Ledger} {p : Phase} {a : Act} (ha : a.thread = some 0) (as : List Act) :
    runs Sys.next ⟨l, [p]⟩ (a :: as)
      = runs Sys.next ⟨(advance l p a).2, [(advance l p a).1]⟩ as := by
  show runs Sys.next (Sys.next ⟨l, [p]⟩ a) as = _
  rw [Sys.next_thread ha rfl]
  rfl

section Solo

variable {l l₁ l₂ : Ledger} {j : Job} {cap quota : UInt64}
  (hreserve : l.reserveAmount cap quota j.ns j.domain j.bytes = .ok l₁)

include hreserve

/-- An operation that reserves starts with `reserve`. -/
theorem solo_reserve {l' : Ledger} (as : List Act) (has : ∀ a ∈ as, a.thread = some 0)
    (hrun : runs Sys.next ⟨l₁, [.holding j]⟩ as = ⟨l', [.idle]⟩) :
    Solo l l' (.reserve 0 j cap quota :: as) := by
  refine ⟨fun a ha => ?_, ?_⟩
  · rcases List.mem_cons.mp ha with rfl | ha
    · rfl
    · exact has a ha
  · have hstep : advance l .idle (.reserve 0 j cap quota) = (.holding j, l₁) := by
      simp only [advance, hreserve]
    rw [runs_single rfl, hstep]
    exact hrun

/-- No backing: the reservation is given back. -/
theorem solo_refused :
    Solo l (l₁.unreserveAmount j.ns j.domain j.bytes) [.reserve 0 j cap quota, .refuse 0] :=
  solo_reserve hreserve _ (by simp [Act.thread]) rfl

/-- The commit fails and the reservation is given back. -/
theorem solo_commitFailed {bytes : UInt64} {e : Error}
    (hcommit : l₁.commitAmount j.ns j.domain bytes = .error e) :
    Solo l (l₁.unreserveAmount j.ns j.domain j.bytes)
      [.reserve 0 j cap quota, .commit 0 bytes, .giveBack 0] := by
  refine solo_reserve hreserve _ (by simp [Act.thread]) ?_
  have hstep : advance l₁ (.holding j) (.commit 0 bytes) = (.refused j, l₁) := by
    simp only [advance, hcommit]
  rw [runs_single rfl, hstep]
  rfl

/-- The commit succeeds and the thread goes on from there. -/
theorem solo_committed {l' : Ledger} {bytes : UInt64} (as : List Act)
    (has : ∀ a ∈ as, a.thread = some 0) (hcommit : l₁.commitAmount j.ns j.domain bytes = .ok l₂)
    (hrun : runs Sys.next ⟨l₂, [.backed j bytes]⟩ as = ⟨l', [.idle]⟩) :
    Solo l l' (.reserve 0 j cap quota :: .commit 0 bytes :: as) := by
  refine solo_reserve hreserve _ (fun a ha => ?_) ?_
  · rcases List.mem_cons.mp ha with rfl | ha
    · rfl
    · exact has a ha
  · have hstep : advance l₁ (.holding j) (.commit 0 bytes) = (.backed j bytes, l₂) := by
      simp only [advance, hcommit]
    rw [runs_single rfl, hstep]
    exact hrun

end Solo

def allocateJob (req : AllocationRequest) (classSize : UInt64) : Job where
  kind := .allocation
  ns := req.ns
  domain := req.domain
  bytes := classSize

/-- `allocate_record` is a thread. -/
theorem allocateRecord_solo (rt : RuntimeImpl) (os : Os) (env : Env) (req : AllocationRequest) :
    ∃ as, Solo rt.ledger (rt.allocateRecord os env req).2.1.ledger as := by
  have hrun := rt.allocateRecord_run os env req
  generalize rt.allocateRecord os env req = out at hrun ⊢
  cases hrun with
  | refused _ _ state =>
      exact ⟨[], by simp, by rw [state.ledger]; rfl⟩
  | @backendFailed _ _ _ _ _ classSize _ admission _ _ _ state =>
      simp only [state.ledger]
      exact ⟨_, solo_refused (j := allocateJob req classSize)
        (RuntimeImpl.admits_reserve admission)⟩
  | @commitFailed _ _ _ _ classSize _ _ admission _ _ commit _ state =>
      simp only [state.ledger]
      exact ⟨_, solo_commitFailed (j := allocateJob req classSize)
        (RuntimeImpl.admits_reserve admission)
        (Ledger.commitAmount_of_lt commit)⟩
  | @freshZeroFailed _ _ _ _ classSize _ _ _ admission _ _ commit _ _ state =>
      simp only [state.ledger]
      exact ⟨_, solo_committed (j := allocateJob req classSize)
        (RuntimeImpl.admits_reserve admission) [.zeroFails 0] (by simp [Act.thread])
        commit rfl⟩
  | @fresh _ _ classSize _ _ _ admission _ _ commit _ state =>
      simp only [state.ledger]
      exact ⟨_, solo_committed (j := allocateJob req classSize)
        (RuntimeImpl.admits_reserve admission) [.finish 0] (by simp [Act.thread])
        commit rfl⟩
  | @pooledZeroFailed _ _ _ classSize _ slot _ admission _ _ state =>
      simp only [state.ledger]
      -- a pool hit keeps the reservation, whether or not the zeroing fails
      exact ⟨_, solo_reserve (j := allocateJob req classSize)
        (RuntimeImpl.admits_reserve admission)
        [.checkout 0 slot.backing.committed, .zeroFails 0] (by simp [Act.thread]) rfl⟩
  | @pooled _ _ classSize _ slot _ admission _ _ state =>
      simp only [state.ledger]
      exact ⟨_, solo_reserve (j := allocateJob req classSize)
        (RuntimeImpl.admits_reserve admission)
        [.checkout 0 slot.backing.committed, .finish 0] (by simp [Act.thread]) rfl⟩

/-- The reservation of a migration, and the old backing that it accounts for. -/
def migrateJob (r : Record) (target : MemoryDomain) : Job where
  kind := .migration (if r.backing.present then some (r.domain, r.committed) else none)
  ns := r.ns
  domain := target
  bytes := RuntimeImpl.migrateSize r

/-- The end of a migration accounts for the old backing. -/
theorem advance_finish_migrate (l : Ledger) (r : Record) (target : MemoryDomain) (bytes : UInt64) :
    advance l (.backed (migrateJob r target) bytes) (.finish 0)
      = (.idle, RuntimeImpl.releaseOld r l) := by
  unfold advance migrateJob RuntimeImpl.releaseOld
  cases r.backing.present <;> rfl

/-- `migrate` is a thread. -/
theorem migrate_solo (rt : RuntimeImpl) (os : Os) (env : Env) (ctl : Control)
    (target : MemoryDomain) :
    ∃ as, Solo rt.ledger (rt.migrate os env ctl target).2.2.1.ledger as := by
  have hrun := rt.migrate_run os env ctl target
  generalize rt.migrate os env ctl target = out at hrun ⊢
  cases hrun with
  | refused _ state => exact ⟨[], by simp, by rw [state.ledger]; rfl⟩
  | stays _ _ => exact ⟨[], by simp, rfl⟩
  | backendFailed admission _ state | copyFailed admission _ _ state =>
      simp only [state.ledger]
      exact ⟨_, solo_refused (j := migrateJob ctl.record target)
        (RuntimeImpl.migrateAdmit_reserve admission)⟩
  | commitFailed admission _ _ commit state =>
      simp only [state.ledger]
      exact ⟨_, solo_commitFailed (j := migrateJob ctl.record target)
        (RuntimeImpl.migrateAdmit_reserve admission) (Ledger.commitAmount_of_lt commit)⟩
  | @verifyFailed _ _ _ _ _ l' a admission _ _ commit _ state =>
      simp only [state.ledger]
      exact ⟨_, solo_committed (j := migrateJob ctl.record target)
        (RuntimeImpl.migrateAdmit_reserve admission)
        [.verifyFails 0 (env.afterFree target (os.stamp a)).committed, .giveBack 0]
        (by simp [Act.thread]) commit rfl⟩
  | swapped admission _ _ commit _ state =>
      simp only [state.ledger]
      refine ⟨_, solo_committed (j := migrateJob ctl.record target)
        (RuntimeImpl.migrateAdmit_reserve admission) [.finish 0] (by simp [Act.thread]) commit ?_⟩
      rw [runs_single rfl, advance_finish_migrate]
      rfl

/-! ## Main result -/

/-- **Reservations are conserved** for any interleaving of threads in which no reservation wraps, no
pool hit occurs, backings have the requested size, and zeroing or verification fails only while
nothing is reserved in the cell: the reserved cell is the sum of what the operations in flight hold,
it is zero when none is, and the commit of a reserved amount does not fail. -/
theorem reservations_conserved {s : Sys} (hreach : Reach Sys.next Sys.Fair {} s) :
    (∀ n d, s.ledger.res n d = s.held n d) ∧
    ((∀ p ∈ s.threads, p = .idle) → ∀ n d, s.ledger.reserved.get n d = 0) ∧
    ∀ (i : Nat) (j : Job), s.threads[i]? = some (.holding j) →
      ∃ l, s.ledger.commitAmount j.ns j.domain j.bytes = .ok l := by
  have h : s.Inv := hreach.invariant ⟨fun p hp => (by cases hp), fun _ _ => rfl⟩
    (fun _ _ h hfair => h.next hfair)
  refine ⟨h.conserved, fun hidle n d => ?_, fun i j hi => ?_⟩
  · have hzero : s.held n d = 0 := by
      refine List.sum_eq_zero (fun x hx => ?_)
      obtain ⟨p, hp, rfl⟩ := List.mem_map.mp hx
      rw [hidle p hp]
      rfl
    exact (toNat_eq_zero_iff _).mp ((h.conserved n d).trans hzero)
  · have hle := s.holds_le (List.mem_of_getElem? hi) j.ns j.domain
    rw [← h.conserved, Phase.holds, portion_self] at hle
    exact Ledger.commitAmount_isOk_iff.mpr (UInt64.le_iff_toNat_le.mpr hle)

/-- Three threads: one commits, one is refused by its backend, one still holds its reservation. -/
def threeThreads : Sys :=
  runs Sys.next {}
    [.spawn, .spawn, .spawn, .reserve 0 ⟨.allocation, 1, .host, 4096⟩ 0 0,
      .reserve 1 ⟨.allocation, 1, .host, 64⟩ 0 0, .commit 0 4096,
      .reserve 2 ⟨.migration none, 1, .host, 128⟩ 0 0, .refuse 1, .finish 0]

instance (s : Sys) (a : Act) : Decidable (s.Fair a) :=
  inferInstanceAs (Decidable (∀ i ∈ a.thread, ∀ p ∈ s.threads[i]?, Reserving.Fair s.ledger p a))

/-- The theorem at work: only the reservation of the third thread is left. -/
theorem reservations_conserved_threeThreads :
    threeThreads.threads = [.idle, .idle, .holding ⟨.migration none, 1, .host, 128⟩] ∧
      threeThreads.ledger.res 1 .host = 128 := by
  have hreach : Reach Sys.next Sys.Fair {} threeThreads :=
    reach_runs .start (by decide)
  have h := (reservations_conserved hreach).1 1 .host
  exact ⟨by decide, h.trans (by decide)⟩

/-- A pool hit returns with its reservation in place: a thread allocates, releases to the pool and
allocates again, no operation is in flight, and the bytes stay reserved. -/
theorem pool_hit_keeps_reservation :
    (∃ as, ∃ s : Sys, s = runs Sys.next {} as ∧ s.threads = [.idle] ∧
      s.ledger.res 1 .host = 4096) ∧
    reusedPage.core.rt.ledger.res 1 .host = 4096 :=
  ⟨⟨[.spawn, .reserve 0 ⟨.allocation, 1, .host, 4096⟩ 0 0, .commit 0 4096, .finish 0,
      .release 1 .host 4096 true, .reserve 0 ⟨.allocation, 1, .host, 4096⟩ 0 0,
      .checkout 0 4096, .finish 0], _, rfl, by decide, by decide⟩, by decide⟩

end Reserving

end UnifiedBuffer
