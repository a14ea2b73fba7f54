import UnifiedBuffer.Lib.ListAt
import UnifiedBuffer.Lib.Run
import UnifiedBuffer.Buffer.World

set_option autoImplicit false

/-! # Leases on one buffer, with threads

Any number of threads acquire and release leases on one buffer, move lease objects around, share and
release handles and migrate the buffer. A step is a critical section under the mutex of the control
block, or an atomic operation on its reference count; what other threads do to the rest of the
runtime is left open, so the sections of `migrate` and `finalize` run in any state of it.

An acquisition consists of two sections, `validate_alive` and the grant. The lease counters are
exact and exclusive in every interleaving, but a migration may come between the two. -/

namespace UnifiedBuffer

open Lib

namespace Leasing

/-! ## Threads -/

inductive Phase where
  | idle
  /-- `validate_alive` has passed for a handle of this generation -/
  | acquiring (kind : LeaseKind) (gen : BufferGeneration)
  /-- `BufferLease::release` has reset the pointer of the object -/
  | releasing (kind : LeaseKind)
  /-- `drop_ref` comes next -/
  | dropping
  /-- `drop_ref` has found the last reference -/
  | finalizing
  deriving DecidableEq, Repr

/-- The buffer, the lease objects, and the number of other references: handles, maps and views. -/
structure Shared where
  ctl : Control
  leases : List BufferLease := []
  handles : Nat := 1

structure Sys where
  buf : Shared
  threads : List Phase := []

/-- A buffer that was just allocated. -/
def Sys.init (r : Record) : Sys := { buf := { ctl := { record := r, refs := 1 } } }

inductive Act where
  | spawn
  /-- the section of `validate_alive` in an acquisition -/
  | validate (i : Nat) (kind : LeaseKind) (gen : BufferGeneration)
  /-- the section that grants the lease or reports a conflict -/
  | grant (i : Nat)
  /-- `BufferLease::release`, also by a destructor or a move assignment, takes the object apart -/
  | detach (i : Nat) (j : Nat)
  /-- the section of `BufferLease::release` -/
  | unlease (i : Nat)
  /-- a handle, a map or a view is released -/
  | letGo (i : Nat)
  /-- the decrement of `drop_ref` -/
  | drop (i : Nat)
  /-- the section of `finalize` -/
  | finalize (i : Nat) (rt : RuntimeImpl) (os : Os) (env : Env)
  /-- one more reference, taken through an existing one -/
  | share
  | migrate (rt : RuntimeImpl) (os : Os) (env : Env) (target : MemoryDomain)
  | map
  | unmap
  /-- a lease object by default construction -/
  | construct
  /-- move construction -/
  | move (src : Nat)
  /-- the assignments of a move assignment, after the release of the target -/
  | assign (dst src : Nat)

/-- The checks of `validate_alive`. -/
def Passes (gen : BufferGeneration) (ctl : Control) : Prop :=
  ctl.finalized = false ∧ gen = ctl.record.generation ∧ ctl.record.state ≠ .released ∧
    ctl.record.state ≠ .quarantined ∧ ctl.record.state ≠ .invalid

instance (gen : BufferGeneration) (ctl : Control) : Decidable (Passes gen ctl) :=
  inferInstanceAs (Decidable (_ ∧ _))

def Shared.grant (b : Shared) (kind : LeaseKind) (gen : BufferGeneration) : Shared :=
  { b with
    ctl := { BufferHandle.leaseOnce kind b.ctl with refs := b.ctl.refs + 1 }
    leases := b.leases ++ [{ rt := true, ctl := some 0, gen := gen, kind := kind }] }

/-- The next step of a thread. A step that the thread is not at does nothing. -/
def advance (b : Shared) (p : Phase) : Act → Phase × Shared
  | .validate _ kind gen =>
      match p with
      | .idle => if 0 < b.handles ∧ Passes gen b.ctl then (.acquiring kind gen, b) else (p, b)
      | p => (p, b)
  | .grant _ =>
      match p with
      | .acquiring kind gen =>
          if BufferHandle.leaseConflicts kind b.ctl then (.idle, b)
          else (.idle, b.grant kind gen)
      | p => (p, b)
  | .detach _ j =>
      match p, b.leases[j]? with
      | .idle, some l =>
          if l.ctl.isSome then
            (.releasing l.kind, { b with leases := b.leases.set j { l with ctl := none } })
          else (p, b)
      | p, _ => (p, b)
  | .unlease _ =>
      match p with
      | .releasing kind => (.dropping, { b with ctl := UnifiedBuffer.unlease kind b.ctl })
      | p => (p, b)
  | .letGo _ =>
      match p with
      | .idle =>
          if 0 < b.handles then (.dropping, { b with handles := b.handles - 1 }) else (p, b)
      | p => (p, b)
  | .drop _ =>
      match p with
      | .dropping =>
          (if b.ctl.refs = 1 then .finalizing else .idle,
            { b with ctl := { b.ctl with refs := b.ctl.refs - 1 } })
      | p => (p, b)
  | .finalize _ rt os env =>
      match p with
      | .finalizing => (.idle, { b with ctl := (rt.finalize os env b.ctl true).1 })
      | p => (p, b)
  | _ => (p, b)

/-- A step that belongs to no phase of a thread. -/
def Shared.step (b : Shared) : Act → Shared
  | .share =>
      if 0 < b.handles then
        { b with ctl := { b.ctl with refs := b.ctl.refs + 1 }, handles := b.handles + 1 }
      else b
  | .migrate rt os env target =>
      if 0 < b.handles then { b with ctl := (rt.migrate os env b.ctl target).2.1 } else b
  | .map =>
      if 0 < b.handles then
        { b with ctl := { b.ctl with record := BufferHandle.mapOnce b.ctl.record } }
      else b
  | .unmap =>
      if 0 < b.handles then { b with ctl := { b.ctl with record := unmapOnce b.ctl.record } } else b
  | .construct => { b with leases := b.leases ++ [{}] }
  | .move src =>
      match b.leases[src]? with
      | none => b
      | some l =>
          { b with leases := b.leases.set src { l with rt := false, ctl := none } ++ [l] }
  | .assign dst src =>
      match b.leases[dst]?, b.leases[src]? with
      | some l, some l' =>
          if dst = src ∨ l.ctl.isSome then b
          else { b with
            leases := (b.leases.set src { l' with rt := false, ctl := none }).set dst l' }
      | _, _ => b
  | _ => b

def Act.thread : Act → Option Nat
  | .validate i _ _ => some i
  | .grant i => some i
  | .detach i _ => some i
  | .unlease i => some i
  | .letGo i => some i
  | .drop i => some i
  | .finalize i _ _ _ => some i
  | _ => none

def Sys.next (s : Sys) (a : Act) : Sys :=
  match a.thread with
  | some i =>
      match s.threads[i]? with
      | some p => ⟨(advance s.buf p a).2, s.threads.set i (advance s.buf p a).1⟩
      | none => s
  | none =>
      match a with
      | .spawn => { s with threads := s.threads ++ [.idle] }
      | a => { s with buf := s.buf.step a }

/-- A handle is not released while another thread is in a call on it: as long as a thread acquires,
one handle stays. -/
def Sys.Proper (s : Sys) : Act → Prop
  | .letGo _ => (∃ kind gen, .acquiring kind gen ∈ s.threads) → 1 < s.buf.handles
  | _ => True

/-- A thread that takes its two sections without interruption does what `acquire` does. -/
theorem acquire_sections {h : BufferHandle} {c : Core} {k : CtlId} (hk : k < c.ctls.length)
    (hvalid : h.valid = true) (hctl : h.ctl = some k) (kind : LeaseKind) (n : Nat) :
    (runs Sys.next ⟨{ ctl := c.control k, handles := n + 1 }, [.idle]⟩
      [.validate 0 kind h.gen, .grant 0]).buf.ctl = (h.acquire kind c).2.control k := by
  unfold BufferHandle.acquire
  by_cases hpass : Passes h.gen (c.control k)
  · have halive : h.validateAlive c = .ok k := by
      obtain ⟨hfin, hgen, hreleased, hquarantined, hinvalid⟩ := hpass
      simp [BufferHandle.validateAlive, hvalid, hctl, hfin, hgen, hreleased, hquarantined, hinvalid]
    rw [halive]
    by_cases hno : BufferHandle.leaseConflicts kind (c.control k) = true
    · simp [runs, Sys.next, Act.thread, advance, hpass, hno]
      rfl
    · -- both sides grant the lease and take one more reference
      have hlen : k < (c.modify k (BufferHandle.leaseOnce kind)).ctls.length := by
        rw [Core.modify, List.length_modify]
        exact hk
      have hsteps : (runs Sys.next ⟨{ ctl := c.control k, handles := n + 1 }, [.idle]⟩
          [.validate 0 kind h.gen, .grant 0]).buf
            = Shared.grant { ctl := c.control k, handles := n + 1 } kind h.gen := by
        simp [runs, Sys.next, Act.thread, advance, hpass, hno]
      simp only [hsteps, hno]
      show _ = (Core.retain _ k).control k
      rw [Core.retain, Core.control_modify _ _ hlen, Core.control_modify _ _ hk]
      cases kind <;> rfl
  · have hstale : ∃ e, h.validateAlive c = .error e := by
      cases hres : h.validateAlive c with
      | error e => exact ⟨e, rfl⟩
      | ok j =>
          obtain ⟨-, hj, hfin, hgen, hstate⟩ := BufferHandle.validateAlive_ok_iff.mp hres
          obtain rfl : k = j := Option.some.inj (hctl.symm.trans hj)
          simp only [not_or] at hstate
          exact absurd ⟨hfin, hgen, hstate.1, hstate.2.1, hstate.2.2⟩ hpass
    obtain ⟨e, he⟩ := hstale
    rw [he]
    simp [runs, Sys.next, Act.thread, advance, hpass]

/-! ## Counting -/

/-- The counter of a kind of leases. -/
def count (kind : LeaseKind) (ctl : Control) : Int :=
  match kind with
  | .read => ctl.readLeases
  | .write => ctl.writeLeases
  | .exclusive => ctl.exclusiveLeases

/-- The lease is one of this kind and not released. -/
def Holds (kind : LeaseKind) (l : BufferLease) : Bool := l.ctl.isSome && l.kind = kind

/-- The number of lease objects of a kind that are not released. -/
def Shared.objects (b : Shared) (kind : LeaseKind) : Nat := b.leases.countP (Holds kind)

/-- The number of outstanding leases of a kind: an object counts until the section of its
release. -/
def Sys.outstanding (s : Sys) (kind : LeaseKind) : Nat :=
  s.buf.objects kind + s.threads.countP (fun p => p = .releasing kind)

/-- A release of this kind is about to enter its section. -/
def Phase.releases (kind : LeaseKind) (p : Phase) : Int := if p = .releasing kind then 1 else 0

/-- The references that a thread still has to drop. -/
def Phase.owes (p : Phase) : Int :=
  p.releases .read + p.releases .write + p.releases .exclusive + if p = .dropping then 1 else 0

/-- The counter minus the objects. -/
def Shared.gap (b : Shared) (kind : LeaseKind) : Int := count kind b.ctl - b.objects kind

/-- The reference count minus the references that objects hold. -/
def Shared.slack (b : Shared) : Int :=
  b.ctl.refs - b.handles - b.objects .read - b.objects .write - b.objects .exclusive

theorem count_leaseOnce (kind kind' : LeaseKind) (ctl : Control) :
    count kind' (BufferHandle.leaseOnce kind ctl)
      = count kind' ctl + if kind = kind' then 1 else 0 := by
  cases kind <;> cases kind' <;> simp [count, BufferHandle.leaseOnce]

theorem sub_clamp {n : Int} (h : n ≤ 0) : n = n - if 0 < n then 1 else 0 := by
  rw [if_neg (not_lt.mpr h), Int.sub_zero]

theorem count_unlease (kind kind' : LeaseKind) (ctl : Control) :
    count kind' (unlease kind ctl)
      = count kind' ctl - if kind = kind' ∧ 0 < count kind ctl then 1 else 0 := by
  cases kind <;> cases kind' <;> simp only [count, unlease] <;> split <;> split <;> simp_all
  all_goals exact sub_clamp (by assumption)

theorem leaseOnce_finalized (kind : LeaseKind) (ctl : Control) :
    (BufferHandle.leaseOnce kind ctl).finalized = ctl.finalized := by
  cases kind <;> rfl

/-- What a migration does to the block: nothing, or it rebinds the record under the next generation,
and then no write or exclusive lease is held. -/
theorem migrate_block (rt : RuntimeImpl) (os : Os) (env : Env) (ctl : Control)
    (target : MemoryDomain) : (rt.migrate os env ctl target).2.1 = ctl ∨
      ctl.writeLeases ≤ 0 ∧ ctl.exclusiveLeases ≤ 0 ∧
        ∃ r, (rt.migrate os env ctl target).2.1 = { ctl with record := r } ∧
          r.generation = ctl.record.generation + 1 := by
  have hrun := rt.migrate_run os env ctl target
  generalize rt.migrate os env ctl target = out at hrun ⊢
  cases hrun with
  | refused | stays | backendFailed | copyFailed | commitFailed | verifyFailed => exact Or.inl rfl
  | swapped admission =>
      unfold RuntimeImpl.migrateAdmit at admission
      split at admission
      · cases admission
      · rename_i hno
        simp only [not_or, not_lt] at hno
        exact Or.inr ⟨hno.2.2.2.1, hno.2.2.2.2, _, rfl, rfl⟩

/-- `finalize` sees neither the leases nor the references. -/
theorem finalize_block (rt : RuntimeImpl) (os : Os) (env : Env) (ctl : Control) :
    (rt.finalize os env ctl true).1.refs = ctl.refs ∧
      ∀ kind, count kind (rt.finalize os env ctl true).1 = count kind ctl := by
  have hrun := rt.finalize_run os env ctl true
  generalize rt.finalize os env ctl true = out at hrun ⊢
  cases hrun <;> exact ⟨rfl, fun kind => by cases kind <;> rfl⟩

/-! ### Objects -/

section Objects

variable {leases : List BufferLease} {l l' : BufferLease} {j : Nat} {kind : LeaseKind}

theorem countP_concat (l : BufferLease) :
    (leases ++ [l]).countP (Holds kind) = leases.countP (Holds kind)
      + if Holds kind l then 1 else 0 := by
  rw [List.countP_append, List.countP_singleton]

/-- Taking an object apart. -/
theorem countP_detach (hl : leases[j]? = some l) (hl' : l'.ctl = none) :
    (leases.set j l').countP (Holds kind) + (if Holds kind l then 1 else 0)
      = leases.countP (Holds kind) := by
  have h := countP_set_add (Holds kind) (b := l') hl
  have hnone : Holds kind l' = false := by rw [Holds, hl']; rfl
  rw [hnone] at h
  simpa using h

end Objects

/-! ## Steps -/

section Step

variable {b : Shared} {p : Phase} {a : Act}

/-- What a step of a thread can do. -/
inductive Turn (b : Shared) : Phase → Act → Phase × Shared → Prop
  | still {p : Phase} {a : Act} : Turn b p a (p, b)
  | validate {i : Nat} {kind : LeaseKind} {gen : BufferGeneration} (handles : 0 < b.handles) :
      Turn b .idle (.validate i kind gen) (.acquiring kind gen, b)
  | refuse {i : Nat} {kind : LeaseKind} {gen : BufferGeneration} :
      Turn b (.acquiring kind gen) (.grant i) (.idle, b)
  | grant {i : Nat} {kind : LeaseKind} {gen : BufferGeneration}
      (free : ¬ BufferHandle.leaseConflicts kind b.ctl = true) :
      Turn b (.acquiring kind gen) (.grant i) (.idle, b.grant kind gen)
  | detach {i j : Nat} {l : BufferLease} (lease : b.leases[j]? = some l)
      (attached : l.ctl.isSome = true) :
      Turn b .idle (.detach i j)
        (.releasing l.kind, { b with leases := b.leases.set j { l with ctl := none } })
  | unlease {i : Nat} {kind : LeaseKind} :
      Turn b (.releasing kind) (.unlease i)
        (.dropping, { b with ctl := UnifiedBuffer.unlease kind b.ctl })
  | letGo {i : Nat} (handles : 0 < b.handles) :
      Turn b .idle (.letGo i) (.dropping, { b with handles := b.handles - 1 })
  /-- the decrement that takes the last reference -/
  | last {i : Nat} (one : b.ctl.refs = 1) :
      Turn b .dropping (.drop i)
        (.finalizing, { b with ctl := { b.ctl with refs := b.ctl.refs - 1 } })
  | drop {i : Nat} :
      Turn b .dropping (.drop i) (.idle, { b with ctl := { b.ctl with refs := b.ctl.refs - 1 } })
  | finalize {i : Nat} {rt : RuntimeImpl} {os : Os} {env : Env} :
      Turn b .finalizing (.finalize i rt os env)
        (.idle, { b with ctl := (rt.finalize os env b.ctl true).1 })

theorem advance_turn (b : Shared) (p : Phase) (a : Act) : Turn b p a (advance b p a) := by
  cases a with
  | validate i kind gen =>
      cases p with
      | idle =>
          simp only [advance]
          split
          · rename_i hpass
            exact .validate hpass.1
          · exact .still
      | acquiring | releasing | dropping | finalizing => exact .still
  | grant i =>
      cases p with
      | acquiring kind gen =>
          simp only [advance]
          split
          · exact .refuse
          · rename_i hfree
            exact .grant hfree
      | idle | releasing | dropping | finalizing => exact .still
  | detach i j =>
      cases p with
      | idle =>
          cases hl : b.leases[j]? with
          | none =>
              simp only [advance, hl]
              exact .still
          | some l =>
              simp only [advance, hl]
              split
              · rename_i hsome
                exact .detach hl hsome
              · exact .still
      | acquiring | releasing | dropping | finalizing => exact .still
  | unlease i =>
      cases p with
      | releasing kind => exact .unlease
      | idle | acquiring | dropping | finalizing => exact .still
  | letGo i =>
      cases p with
      | idle =>
          simp only [advance]
          split
          · rename_i hpos
            exact .letGo hpos
          · exact .still
      | acquiring | releasing | dropping | finalizing => exact .still
  | drop i =>
      cases p with
      | dropping =>
          simp only [advance]
          split
          · rename_i hone
            exact .last hone
          · exact .drop
      | idle | acquiring | releasing | finalizing => exact .still
  | finalize i rt os env =>
      cases p with
      | finalizing => exact .finalize
      | idle | acquiring | releasing | dropping => exact .still
  | spawn | share | migrate | map | unmap | construct | move | assign => exact .still

theorem grant_count (b : Shared) (kind kind' : LeaseKind) (gen : BufferGeneration) :
    count kind' (b.grant kind gen).ctl = count kind' b.ctl + if kind = kind' then 1 else 0 := by
  rw [← count_leaseOnce]
  cases kind' <;> rfl

theorem objects_detach {j : Nat} {l : BufferLease} (hl : b.leases[j]? = some l)
    (hsome : l.ctl.isSome = true) (kind : LeaseKind) :
    Shared.objects { b with leases := b.leases.set j { l with ctl := none } } kind
      + (if l.kind = kind then 1 else 0) = b.objects kind := by
  have hset : (b.leases.set j { l with ctl := none }).countP (Holds kind)
      + (if Holds kind l then 1 else 0) = b.leases.countP (Holds kind) := countP_detach hl rfl
  simpa [Shared.objects, Holds, hsome] using hset

theorem objects_grant (b : Shared) (kind kind' : LeaseKind) (gen : BufferGeneration) :
    (b.grant kind gen).objects kind' = b.objects kind' + if kind = kind' then 1 else 0 := by
  simp [Shared.objects, Shared.grant, Holds]

/-- A step of a thread changes counters and objects alike. -/
theorem advance_gap (hcover : ∀ kind, p.releases kind ≤ count kind b.ctl) (kind : LeaseKind) :
    (advance b p a).2.gap kind - (advance b p a).1.releases kind
      = b.gap kind - p.releases kind := by
  have hturn := advance_turn b p a
  generalize advance b p a = out at hturn ⊢
  cases hturn with
  | grant =>
      simp only [Shared.gap, grant_count, objects_grant, Phase.releases]
      split <;> simp
  | @detach _ _ l hl hsome =>
      have hcount := objects_detach hl hsome kind
      simp only [Shared.gap, Phase.releases, Phase.releasing.injEq, reduceCtorEq, if_false]
      by_cases hk : l.kind = kind
      · rw [if_pos hk] at hcount ⊢
        omega
      · rw [if_neg hk] at hcount ⊢
        omega
  | @unlease _ kind' =>
      have hpos := hcover kind'
      simp only [Phase.releases, if_true] at hpos
      simp only [Shared.gap, Shared.objects, Phase.releases, count_unlease]
      by_cases hk : kind' = kind
      · subst hk
        rw [if_pos ⟨rfl, by omega⟩]
        simp
        omega
      · simp [hk]
  | @finalize _ rt os env =>
      simp only [Shared.gap, Shared.objects, (finalize_block rt os env b.ctl).2 kind]
      rfl
  | last | drop => cases kind <;> rfl
  | still | validate | refuse | letGo => rfl

/-- A step of a thread changes the reference count by the references it takes or drops. -/
theorem advance_slack (b : Shared) (p : Phase) (a : Act) :
    (advance b p a).2.slack - (advance b p a).1.owes = b.slack - p.owes := by
  have hturn := advance_turn b p a
  generalize advance b p a = out at hturn ⊢
  cases hturn with
  | @grant _ kind gen =>
      have hrefs : (b.grant kind gen).ctl.refs = b.ctl.refs + 1 := rfl
      have hhandles : (b.grant kind gen).handles = b.handles := rfl
      simp only [Shared.slack, hrefs, hhandles, objects_grant]
      cases kind <;> simp [Phase.owes, Phase.releases] <;> omega
  | @detach _ _ l hl hsome =>
      have hread := objects_detach hl hsome .read
      have hwrite := objects_detach hl hsome .write
      have hexclusive := objects_detach hl hsome .exclusive
      simp only [Shared.slack]
      cases hkind : l.kind <;>
        simp [hkind, Phase.owes, Phase.releases] at hread hwrite hexclusive ⊢ <;> omega
  | @unlease _ kind =>
      simp only [Shared.slack, Shared.objects, (unlease_refs kind b.ctl).1]
      cases kind <;> simp [Phase.owes, Phase.releases]
  | letGo hpos =>
      simp [Shared.slack, Shared.objects, Phase.owes, Phase.releases]
      omega
  | last | drop =>
      simp [Shared.slack, Shared.objects, Phase.owes, Phase.releases]
      omega
  | @finalize _ rt os env =>
      simp only [Shared.slack, Shared.objects, (finalize_block rt os env b.ctl).1]
      rfl
  | still | validate | refuse => rfl

/-- Moves and assignments keep the number of leases of each kind. -/
theorem step_objects (b : Shared) (a : Act) (kind : LeaseKind) :
    (b.step a).objects kind = b.objects kind := by
  cases a with
  | construct =>
      simp only [Shared.step, Shared.objects, countP_concat]
      simp [Holds]
  | move src =>
      cases hl : b.leases[src]? with
      | none => simp only [Shared.step, hl]
      | some l =>
          have hset : (b.leases.set src { l with rt := false, ctl := none }).countP (Holds kind)
              + (if Holds kind l then 1 else 0) = b.leases.countP (Holds kind) :=
            countP_detach hl rfl
          simp only [Shared.step, hl, Shared.objects, countP_concat]
          exact hset
  | assign dst src =>
      cases hl : b.leases[dst]? with
      | none => simp only [Shared.step, hl]
      | some l =>
          cases hl' : b.leases[src]? with
          | none => simp only [Shared.step, hl, hl']
          | some l' =>
              simp only [Shared.step, hl, hl']
              split
              · rfl
              · rename_i hne
                simp only [not_or, Bool.not_eq_true, Option.isSome_eq_false_iff,
                  Option.isNone_iff_eq_none] at hne
                have hset : (b.leases.set src { l' with rt := false, ctl := none }).countP
                    (Holds kind) + (if Holds kind l' then 1 else 0)
                      = b.leases.countP (Holds kind) := countP_detach hl' rfl
                have hdst : (b.leases.set src { l' with rt := false, ctl := none })[dst]?
                    = some l := by
                  rw [List.getElem?_set_ne (Ne.symm hne.1)]
                  exact hl
                have hput := countP_set_add (Holds kind) (b := l') hdst
                have hempty : Holds kind l = false := by rw [Holds, hne.2]; rfl
                rw [hempty] at hput
                simp only [Shared.objects]
                simp at hput
                omega
  | share | migrate | map | unmap =>
      simp only [Shared.step]
      split <;> rfl
  | _ => rfl

/-- What the steps outside of the threads do to the block. -/
theorem step_block (b : Shared) (a : Act) :
    (b.step a).ctl.refs - (b.step a).handles = b.ctl.refs - b.handles ∧
      (b.step a).ctl.finalized = b.ctl.finalized ∧
      (∀ kind, count kind (b.step a).ctl = count kind b.ctl) ∧ b.handles ≤ (b.step a).handles ∧
      (b.handles = 0 → (b.step a).handles = 0) := by
  cases a with
  | migrate rt os env target =>
      simp only [Shared.step]
      split
      · rcases migrate_block rt os env b.ctl target with hsame | ⟨-, -, r, hr, -⟩
        · rw [hsame]
          exact ⟨rfl, rfl, fun _ => rfl, Nat.le_refl _, id⟩
        · rw [hr]
          exact ⟨rfl, rfl, fun kind => by cases kind <;> rfl, Nat.le_refl _, id⟩
      · exact ⟨rfl, rfl, fun _ => rfl, Nat.le_refl _, id⟩
  | share =>
      simp only [Shared.step]
      split
      · refine ⟨?_, rfl, fun kind => by cases kind <;> rfl, Nat.le_succ _, ?_⟩
        · push_cast
          omega
        · intro hzero
          omega
      · exact ⟨rfl, rfl, fun _ => rfl, Nat.le_refl _, id⟩
  | map | unmap =>
      simp only [Shared.step]
      split
      · exact ⟨rfl, rfl, fun kind => by cases kind <;> rfl, Nat.le_refl _, id⟩
      · exact ⟨rfl, rfl, fun _ => rfl, Nat.le_refl _, id⟩
  | move src =>
      simp only [Shared.step]
      split <;> exact ⟨rfl, rfl, fun _ => rfl, Nat.le_refl _, id⟩
  | assign dst src =>
      simp only [Shared.step]
      split
      · split <;> exact ⟨rfl, rfl, fun _ => rfl, Nat.le_refl _, id⟩
      · exact ⟨rfl, rfl, fun _ => rfl, Nat.le_refl _, id⟩
  | _ => exact ⟨rfl, rfl, fun _ => rfl, Nat.le_refl _, id⟩

/-- At most one write or exclusive lease, and then no read lease. -/
def Exclusion (ctl : Control) : Prop :=
  count .write ctl + count .exclusive ctl ≤ 1 ∧
    (count .write ctl + count .exclusive ctl = 1 → count .read ctl = 0)

/-- A grant checks for conflicts, and all other steps leave the counters alone or lower one. -/
theorem advance_exclusion (hpos : ∀ kind, 0 ≤ count kind b.ctl) (h : Exclusion b.ctl) :
    Exclusion (advance b p a).2.ctl := by
  have hread := hpos .read
  have hwrite := hpos .write
  have hexclusive := hpos .exclusive
  have hturn := advance_turn b p a
  generalize advance b p a = out at hturn ⊢
  unfold Exclusion at h ⊢
  cases hturn with
  | @grant _ kind _ hfree =>
      simp only [grant_count]
      cases kind <;>
        simp [BufferHandle.leaseConflicts, count] at hfree h hread hwrite hexclusive ⊢ <;> omega
  | @unlease _ kind =>
      simp only [count_unlease]
      cases kind <;> simp [count] at h hread hwrite hexclusive ⊢ <;> split <;> omega
  | @finalize _ rt os env =>
      simp only [(finalize_block rt os env b.ctl).2]
      exact h
  | still | validate | refuse | detach | letGo | last | drop => exact h

/-- What a step of a thread does to references, to the end of the buffer and to its own phase. -/
structure Moves (b : Shared) (p : Phase) (a : Act) : Prop where
  refs : (advance b p a).2.ctl.refs = b.ctl.refs ∨ p = .dropping ∨
    ∃ kind gen, p = .acquiring kind gen
  finalized : (advance b p a).2.ctl.finalized = true → b.ctl.finalized = true ∨ p = .finalizing
  finalizing : (advance b p a).1 = .finalizing →
    p = .finalizing ∧ (advance b p a).2.ctl.refs = b.ctl.refs ∨ (advance b p a).2.ctl.refs = 0
  handles : (advance b p a).2.handles = b.handles ∨
    (∃ i, a = .letGo i) ∧ (advance b p a).2.handles + 1 = b.handles
  acquiring : ∀ kind gen, (advance b p a).1 = .acquiring kind gen →
    0 < b.handles ∧ (advance b p a).2.handles = b.handles ∨ p = .acquiring kind gen

theorem moves (b : Shared) (p : Phase) (a : Act) : Moves b p a := by
  have hturn := advance_turn b p a
  constructor
  all_goals generalize advance b p a = out at hturn ⊢
  case refs =>
    cases hturn with
    | @grant _ kind gen => exact Or.inr (Or.inr ⟨kind, gen, rfl⟩)
    | last | drop => exact Or.inr (Or.inl rfl)
    | @unlease _ kind => exact Or.inl (unlease_refs kind b.ctl).1
    | @finalize _ rt os env => exact Or.inl (finalize_block rt os env b.ctl).1
    | still | validate | refuse | detach | letGo => exact Or.inl rfl
  case finalized =>
    intro hfin
    cases hturn with
    | @grant _ kind => exact Or.inl ((leaseOnce_finalized kind b.ctl).symm.trans hfin)
    | @unlease _ kind => exact Or.inl ((unlease_refs kind b.ctl).2.symm.trans hfin)
    | finalize => exact Or.inr rfl
    | still | validate | refuse | detach | letGo | last | drop => exact Or.inl hfin
  case finalizing =>
    intro hp
    cases hturn with
    | still => exact Or.inl ⟨hp, rfl⟩
    | last hone =>
        have hzero : b.ctl.refs - 1 = 0 := by omega
        exact Or.inr hzero
    | validate | refuse | grant | detach | unlease | letGo | drop | finalize => cases hp
  case handles =>
    cases hturn with
    | @letGo i hpos => exact Or.inr ⟨⟨i, rfl⟩, Nat.sub_add_cancel hpos⟩
    | still | validate | refuse | grant | detach | unlease | last | drop | finalize =>
        exact Or.inl rfl
  case acquiring =>
    intro kind gen hp
    cases hturn with
    | still => exact Or.inr hp
    | validate hpos => exact Or.inl ⟨hpos, rfl⟩
    | refuse | grant | detach | unlease | letGo | last | drop | finalize => cases hp

end Step

/-! ## Runs -/

theorem Phase.releases_nonneg (kind : LeaseKind) (p : Phase) : 0 ≤ p.releases kind := by
  unfold Phase.releases
  split <;> decide

theorem Phase.owes_nonneg (p : Phase) : 0 ≤ p.owes := by
  have hread := p.releases_nonneg .read
  have hwrite := p.releases_nonneg .write
  have hexclusive := p.releases_nonneg .exclusive
  unfold Phase.owes
  split <;> omega

structure Sys.Inv (s : Sys) : Prop where
  gaps : ∀ kind, s.buf.gap kind = (s.threads.map (Phase.releases kind)).sum
  slack : s.buf.slack = (s.threads.map Phase.owes).sum
  exclusion : Exclusion s.buf.ctl
  ended : s.buf.ctl.finalized = true ∨ .finalizing ∈ s.threads → s.buf.ctl.refs = 0
  pinned : ∀ kind gen, .acquiring kind gen ∈ s.threads → 0 < s.buf.handles

namespace Sys.Inv

variable {s : Sys} {p : Phase} {a : Act}

theorem releases_le (h : s.Inv) (hp : p ∈ s.threads) (kind : LeaseKind) :
    p.releases kind ≤ count kind s.buf.ctl := by
  have hle : p.releases kind ≤ (s.threads.map (Phase.releases kind)).sum :=
    List.single_le_sum (fun x hx => by
      obtain ⟨q, -, rfl⟩ := List.mem_map.mp hx
      exact q.releases_nonneg kind) _ (List.mem_map_of_mem hp)
  have hgap := h.gaps kind
  unfold Shared.gap at hgap
  omega

theorem count_nonneg (h : s.Inv) (kind : LeaseKind) : 0 ≤ count kind s.buf.ctl := by
  have hsum : 0 ≤ (s.threads.map (Phase.releases kind)).sum :=
    List.sum_nonneg (fun x hx => by
      obtain ⟨q, -, rfl⟩ := List.mem_map.mp hx
      exact q.releases_nonneg kind)
  have hgap := h.gaps kind
  unfold Shared.gap at hgap
  omega

/-- There are at least as many references as objects hold and threads have to drop. -/
theorem refs_ge (h : s.Inv) : (s.buf.handles : Int) + s.buf.objects .read + s.buf.objects .write
    + s.buf.objects .exclusive ≤ s.buf.ctl.refs := by
  have hsum : 0 ≤ (s.threads.map Phase.owes).sum :=
    List.sum_nonneg (fun x hx => by
      obtain ⟨q, -, rfl⟩ := List.mem_map.mp hx
      exact q.owes_nonneg)
  have hslack := h.slack
  unfold Shared.slack at hslack
  omega

theorem owes_le (h : s.Inv) (hp : p ∈ s.threads) : p.owes ≤ s.buf.ctl.refs := by
  have hle : p.owes ≤ (s.threads.map Phase.owes).sum :=
    List.single_le_sum (fun x hx => by
      obtain ⟨q, -, rfl⟩ := List.mem_map.mp hx
      exact q.owes_nonneg) _ (List.mem_map_of_mem hp)
  have hslack := h.slack
  unfold Shared.slack at hslack
  omega

/-- A step of a thread. -/
theorem thread (h : s.Inv) {i : Nat} (hp : s.threads[i]? = some p)
    (hproper : (∃ j, a = .letGo j) → (∃ kind gen, .acquiring kind gen ∈ s.threads) →
      1 < s.buf.handles) :
    Sys.Inv ⟨(advance s.buf p a).2, s.threads.set i (advance s.buf p a).1⟩ := by
  have hmem := List.mem_of_getElem? hp
  have hmoves := moves s.buf p a
  -- the end of the buffer is final: nobody takes or drops a reference any more
  have hend : s.buf.ctl.refs = 0 → (advance s.buf p a).2.ctl.refs = 0 := by
    intro hzero
    rcases hmoves.refs with hsame | rfl | ⟨kind, gen, rfl⟩
    · rw [hsame]
      exact hzero
    · have howes := h.owes_le hmem
      rw [hzero] at howes
      exact absurd howes (by decide)
    · have hpin := h.pinned kind gen hmem
      have hge := h.refs_ge
      omega
  refine ⟨fun kind => ?_, ?_, advance_exclusion h.count_nonneg h.exclusion, ?_, ?_⟩
  · have hgap := advance_gap (a := a) (h.releases_le hmem) kind
    have hsum := sum_map_set (Phase.releases kind) hp (advance s.buf p a).1
    have hold := h.gaps kind
    show (advance s.buf p a).2.gap kind
      = ((s.threads.set i (advance s.buf p a).1).map (Phase.releases kind)).sum
    omega
  · have hslack := advance_slack s.buf p a
    have hsum := sum_map_set Phase.owes hp (advance s.buf p a).1
    have hold := h.slack
    show (advance s.buf p a).2.slack
      = ((s.threads.set i (advance s.buf p a).1).map Phase.owes).sum
    omega
  · rintro (hfin | hfin)
    · refine hend (h.ended ?_)
      rcases hmoves.finalized hfin with hf | rfl
      · exact Or.inl hf
      · exact Or.inr hmem
    · rcases List.mem_or_eq_of_mem_set hfin with hold | hnew
      · exact hend (h.ended (Or.inr hold))
      · rcases hmoves.finalizing hnew.symm with ⟨rfl, -⟩ | hzero
        · exact hend (h.ended (Or.inr hmem))
        · exact hzero
  · intro kind gen hacq
    have hkeep : .acquiring kind gen ∈ s.threads → 0 < (advance s.buf p a).2.handles := by
      intro hold
      have hpin := h.pinned kind gen hold
      rcases hmoves.handles with hsame | ⟨hlet, hsub⟩
      · rw [hsame]
        exact hpin
      · have hmore := hproper hlet ⟨kind, gen, hold⟩
        omega
    rcases List.mem_or_eq_of_mem_set hacq with hold | hnew
    · exact hkeep hold
    · rcases hmoves.acquiring kind gen hnew.symm with ⟨hpos, hsame⟩ | rfl
      · rw [hsame]
        exact hpos
      · exact hkeep hmem

/-- A step outside of the threads. -/
theorem step (h : s.Inv) (a : Act) : Sys.Inv { s with buf := s.buf.step a } := by
  obtain ⟨hrefs, hfin, hcount, hhandles, hnone⟩ := step_block s.buf a
  refine ⟨fun kind => ?_, ?_, ?_, fun hend => ?_, fun kind gen hacq => ?_⟩
  · show (s.buf.step a).gap kind = _
    rw [Shared.gap, hcount, step_objects]
    exact h.gaps kind
  · show (s.buf.step a).slack = _
    rw [← h.slack]
    simp only [Shared.slack, step_objects]
    omega
  · show Exclusion (s.buf.step a).ctl
    unfold Exclusion
    simp only [hcount]
    exact h.exclusion
  · have hzero : s.buf.ctl.refs = 0 := h.ended (by rw [← hfin]; exact hend)
    have hge := h.refs_ge
    have hhandles : s.buf.handles = 0 := by omega
    have hnone := hnone hhandles
    show (s.buf.step a).ctl.refs = 0
    omega
  · exact Nat.lt_of_lt_of_le (h.pinned kind gen hacq) hhandles

theorem next (h : s.Inv) (hproper : s.Proper a) : (s.next a).Inv := by
  unfold Sys.next
  split
  · split
    · rename_i i _ p hp
      refine h.thread hp ?_
      rintro ⟨j, rfl⟩ hacq
      exact hproper hacq
    · exact h
  · split
    · refine ⟨fun kind => ?_, ?_, h.exclusion, fun hend => ?_, fun kind gen hacq => ?_⟩
      · rw [List.map_append, List.sum_append, ← h.gaps kind]
        exact (Int.add_zero _).symm
      · rw [List.map_append, List.sum_append, ← h.slack]
        exact (Int.add_zero _).symm
      · refine h.ended (hend.imp_right fun hfin => ?_)
        rcases List.mem_append.mp hfin with hold | hnew
        · exact hold
        · cases List.mem_singleton.mp hnew
      · rcases List.mem_append.mp hacq with hold | hnew
        · exact h.pinned kind gen hold
        · cases List.mem_singleton.mp hnew
    · exact h.step _

end Sys.Inv

theorem inv_init (r : Record) : (Sys.init r).Inv := by
  refine ⟨fun kind => by cases kind <;> rfl, rfl, ⟨?_, fun h => rfl⟩, fun h => ?_,
    fun _ _ h => by cases h⟩
  · show (0 : Int) + 0 ≤ 1
    decide
  · rcases h with h | h <;> cases h

theorem inv_reach {ok : Sys → Act → Prop} {r : Record} {s : Sys}
    (hreach : Reach Sys.next ok (Sys.init r) s) (hok : ∀ s a, ok s a → s.Proper a) : s.Inv :=
  hreach.invariant (inv_init r) (fun _ _ h ha => h.next (hok _ _ ha))

/-! ## Exclusion -/

theorem sum_releases (threads : List Phase) (kind : LeaseKind) :
    (threads.map (Phase.releases kind)).sum = threads.countP (fun p => p = .releasing kind) := by
  induction threads with
  | nil => rfl
  | cons p threads ih =>
      rw [List.map_cons, List.sum_cons, ih, List.countP_cons]
      unfold Phase.releases
      by_cases hp : p = .releasing kind <;> simp [hp]
      omega

theorem Sys.Inv.count_eq {s : Sys} (h : s.Inv) (kind : LeaseKind) :
    count kind s.buf.ctl = s.outstanding kind := by
  have hgap := h.gaps kind
  rw [sum_releases, Shared.gap] at hgap
  unfold Sys.outstanding
  push_cast
  omega

/-- Where the bytes of a buffer are, and under which generation. -/
structure SamePlace (r r' : Record) : Prop where
  domain : r'.domain = r.domain
  backing : r'.backing = r.backing
  generation : r'.generation = r.generation

theorem SamePlace.refl (r : Record) : SamePlace r r := ⟨rfl, rfl, rfl⟩

theorem SamePlace.trans {r r' r'' : Record} (h : SamePlace r r') (h' : SamePlace r' r'') :
    SamePlace r r'' :=
  ⟨h'.domain.trans h.domain, h'.backing.trans h.backing, h'.generation.trans h.generation⟩

/-- A thread that is not about to finalize does not move the buffer. -/
theorem advance_place {b : Shared} {p : Phase} (a : Act) (hp : p ≠ .finalizing) :
    SamePlace b.ctl.record (advance b p a).2.ctl.record := by
  have hturn := advance_turn b p a
  generalize advance b p a = out at hturn ⊢
  cases hturn with
  | @grant _ kind => cases kind <;> exact ⟨rfl, rfl, rfl⟩
  | @unlease _ kind =>
      simp only [unlease]
      cases kind <;> simp only <;> split <;> split <;> exact ⟨rfl, rfl, rfl⟩
  | finalize => exact absurd rfl hp
  | still | validate | refuse | detach | letGo | last | drop => exact .refl _

/-- Only a migration moves the buffer. -/
theorem step_place {b : Shared} (a : Act)
    (hmigrate : ∀ rt os env target, a = .migrate rt os env target →
      (rt.migrate os env b.ctl target).2.1 = b.ctl) :
    SamePlace b.ctl.record (b.step a).ctl.record := by
  cases a with
  | migrate rt os env target =>
      simp only [Shared.step, hmigrate rt os env target rfl]
      split <;> exact .refl _
  | unmap =>
      simp only [Shared.step, unmapOnce]
      repeat' split
      all_goals exact ⟨rfl, rfl, rfl⟩
  | share | map =>
      simp only [Shared.step]
      split <;> exact ⟨rfl, rfl, rfl⟩
  | move | assign =>
      simp only [Shared.step]
      repeat' split
      all_goals exact .refl _
  | _ => exact .refl _

/-- A write or an exclusive lease is outstanding. -/
def Sys.Locked (s : Sys) : Prop := 0 < s.outstanding .write + s.outstanding .exclusive

theorem Sys.Inv.place {s : Sys} (h : s.Inv) (hlocked : s.Locked) (a : Act) :
    SamePlace s.buf.ctl.record (s.next a).buf.ctl.record := by
  have hw := h.count_eq .write
  have hx := h.count_eq .exclusive
  unfold Sys.Locked at hlocked
  unfold Sys.next
  split
  · split
    · rename_i i _ p hp
      refine advance_place a ?_
      -- the lease holds a reference, so nobody has dropped the last one
      rintro rfl
      have hzero := h.ended (Or.inr (List.mem_of_getElem? hp))
      have howes : ∀ q ∈ s.threads, q.owes ≤ 0 := fun q hq => hzero ▸ h.owes_le hq
      have hnone : ∀ kind, s.threads.countP (fun p => p = .releasing kind) = 0 := by
        intro kind
        refine List.countP_eq_zero.mpr (fun q hq heq => ?_)
        have hle := howes q hq
        rw [decide_eq_true_eq] at heq
        subst heq
        cases kind <;> exact absurd hle (by decide)
      have hge := h.refs_ge
      have hwnone := hnone .write
      have hxnone := hnone .exclusive
      unfold Sys.outstanding at hlocked
      omega
    · exact .refl _
  · split
    · exact .refl _
    · refine step_place _ (fun rt os env target _ => ?_)
      rcases migrate_block rt os env s.buf.ctl target with hsame | ⟨hnow, hnox, -⟩
      · exact hsame
      · simp only [count] at hw hx
        omega

/-- **Lease exclusion.** In every interleaving, the counters are the numbers of outstanding leases,
there is at most one write or exclusive lease and then no read lease, and as long as such a lease is
outstanding the buffer keeps its domain, its backing and its generation. The counters are `int` in
the source and numbers here, so this is about interleavings with fewer than `2 ^ 31` leases and
references at a time. -/
theorem lease_exclusion {r : Record} {s : Sys}
    (hreach : Reach Sys.next Sys.Proper (Sys.init r) s) :
    (s.buf.ctl.readLeases = s.outstanding .read ∧ s.buf.ctl.writeLeases = s.outstanding .write ∧
      s.buf.ctl.exclusiveLeases = s.outstanding .exclusive) ∧
    s.buf.ctl.writeLeases + s.buf.ctl.exclusiveLeases ≤ 1 ∧
    (s.buf.ctl.writeLeases + s.buf.ctl.exclusiveLeases = 1 → s.buf.ctl.readLeases = 0) ∧
    ∀ as, Along Sys.next (fun s a => s.Proper a ∧ s.Locked) s as →
      SamePlace s.buf.ctl.record (runs Sys.next s as).buf.ctl.record := by
  have hinv := inv_reach hreach (fun _ _ h => h)
  refine ⟨⟨hinv.count_eq .read, hinv.count_eq .write, hinv.count_eq .exclusive⟩,
    hinv.exclusion.1, hinv.exclusion.2, fun as has => ?_⟩
  clear hreach
  induction as generalizing s with
  | nil => exact .refl _
  | cons a as ih =>
      exact (hinv.place has.1.2 a).trans (ih (hinv.next has.1.1) has.2)

/-- A buffer of 128 bytes in host memory. -/
def page : Record :=
  { size := 100, committed := 128, alignment := 64, generation := 1, state := .allocated,
    backing := .found 4096 128 64 }

/-- Two threads pass `validate_alive`; the first gets its write lease, the second does not get its
read lease, and the first one moves its lease to another object. -/
def contest : List Act :=
  [.spawn, .spawn, .validate 0 .write 1, .validate 1 .read 1, .grant 0, .grant 1, .move 0]

/-- The theorem at work: one object holds the write lease, and a migration is refused. -/
theorem lease_exclusion_contest :
    (runs Sys.next (Sys.init page) contest).outstanding .write = 1 ∧
      (runs Sys.next (Sys.init page) contest).buf.ctl.writeLeases = 1 ∧
      SamePlace (runs Sys.next (Sys.init page) contest).buf.ctl.record
        (runs Sys.next (runs Sys.next (Sys.init page) contest)
          [.migrate (.init {} {}) {} {} .sharedHost]).buf.ctl.record := by
  have hreach : Reach Sys.next Sys.Proper (Sys.init page)
      (runs Sys.next (Sys.init page) contest) :=
    reach_runs .start ⟨trivial, trivial, trivial, trivial, trivial, trivial, trivial, trivial⟩
  obtain ⟨⟨-, hwrite, -⟩, -, -, hplace⟩ := lease_exclusion hreach
  have hone : (runs Sys.next (Sys.init page) contest).outstanding .write = 1 := by decide
  have hlocked : (runs Sys.next (Sys.init page) contest).Locked := by
    unfold Sys.Locked
    decide
  exact ⟨hone, by rw [hwrite, hone]; rfl, hplace _ ⟨⟨trivial, hlocked⟩, trivial⟩⟩

/-! ## Stale grants -/

/-- No migration takes effect while a thread is between `validate_alive` and its grant. -/
def Sys.Calm (s : Sys) : Act → Prop
  | .migrate rt os env target => (∃ kind gen, .acquiring kind gen ∈ s.threads) →
      (rt.migrate os env s.buf.ctl target).2.1 = s.buf.ctl
  | _ => True

/-- The threads that are about to get a lease have the current generation. -/
def Sys.Current (s : Sys) : Prop :=
  ∀ kind gen, .acquiring kind gen ∈ s.threads → gen = s.buf.ctl.record.generation

theorem advance_validates {b : Shared} {p : Phase} {a : Act} {kind : LeaseKind}
    {gen : BufferGeneration} (h : (advance b p a).1 = .acquiring kind gen) :
    p = .acquiring kind gen ∨ gen = b.ctl.record.generation := by
  cases a with
  | validate i kind' gen' =>
      cases p with
      | idle =>
          simp only [advance] at h
          split at h
          · rename_i hpass
            cases h
            exact Or.inr hpass.2.2.1
          · cases h
      | acquiring | releasing | dropping | finalizing => exact Or.inl h
  | grant | detach | unlease | letGo | drop | finalize =>
      left
      simp only [advance] at h
      repeat' split at h
      all_goals first | exact h | cases h
  | spawn | share | migrate | map | unmap | construct | move | assign => exact Or.inl h

theorem Sys.Current.next {s : Sys} {a : Act} (hinv : s.Inv) (hcurrent : s.Current)
    (hcalm : s.Calm a) : (s.next a).Current := by
  unfold Sys.next
  split
  · split
    · rename_i i _ p hp
      intro kind gen hacq
      show gen = (advance s.buf p a).2.ctl.record.generation
      have hmem := List.mem_of_getElem? hp
      have hpinned : .acquiring kind gen ∈ s.threads ∨ gen = s.buf.ctl.record.generation := by
        rcases List.mem_or_eq_of_mem_set hacq with hold | hnew
        · exact Or.inl hold
        · rcases advance_validates hnew.symm with rfl | hgen
          · exact Or.inl hmem
          · exact Or.inr hgen
      by_cases hfin : p = .finalizing
      · -- no handle is left, so no thread acquires
        subst hfin
        have hzero := hinv.ended (Or.inr hmem)
        have hge := hinv.refs_ge
        rcases List.mem_or_eq_of_mem_set hacq with hold | hnew
        · have hpin := hinv.pinned kind gen hold
          omega
        · rcases (moves s.buf .finalizing a).acquiring kind gen hnew.symm with ⟨hpos, -⟩ | heq
          · omega
          · cases heq
      · rw [(advance_place a hfin).generation]
        exact hpinned.elim (hcurrent kind gen) id
    · exact hcurrent
  · split
    · intro kind gen hacq
      rcases List.mem_append.mp hacq with hold | hnew
      · exact hcurrent kind gen hold
      · cases List.mem_singleton.mp hnew
    · intro kind gen hacq
      show gen = (s.buf.step _).ctl.record.generation
      rw [(step_place _ ?_).generation]
      · exact hcurrent kind gen hacq
      · rintro rt os env target rfl
        exact hcalm ⟨kind, gen, hacq⟩

/-- The next step of the thread grants it a lease. -/
def Sys.Grants (s : Sys) (i : Nat) (kind : LeaseKind) (gen : BufferGeneration) : Prop :=
  s.threads[i]? = some (.acquiring kind gen) ∧
    BufferHandle.leaseConflicts kind s.buf.ctl = false

/-- **Leases are granted on the current generation**, in every interleaving in which no migration
takes effect while a thread is between `validate_alive` and its grant. -/
theorem grant_is_current {r : Record} {s : Sys}
    (hreach : Reach Sys.next (fun s a => s.Proper a ∧ s.Calm a) (Sys.init r) s) {i : Nat}
    {kind : LeaseKind} {gen : BufferGeneration} (hgrants : s.Grants i kind gen) :
    (s.next (.grant i)).outstanding kind = s.outstanding kind + 1 ∧
      s.buf.ctl.finalized = false ∧ s.buf.ctl.record.generation = gen := by
  obtain ⟨hp, hno⟩ := hgrants
  have hmem := List.mem_of_getElem? hp
  have hinv := inv_reach hreach (fun _ _ h => h.1)
  have hcurrent : s.Current := by
    refine hreach.invariant_of (I := Sys.Current) (fun _ hs => inv_reach hs (fun _ _ h => h.1))
      (fun _ _ h => by cases h) (fun s a hinv hcurrent ha => hcurrent.next hinv ha.2)
  refine ⟨?_, ?_, (hcurrent kind gen hmem).symm⟩
  · have hnext := (hinv.next (a := .grant i) trivial).count_eq kind
    have hctl : (s.next (.grant i)).buf.ctl = (s.buf.grant kind gen).ctl := by
      simp only [Sys.next, Act.thread, hp, advance, hno]
      rfl
    have hcount : count kind (s.buf.grant kind gen).ctl = count kind s.buf.ctl + 1 := by
      have hone := count_leaseOnce kind kind s.buf.ctl
      rw [if_pos rfl] at hone
      rw [← hone]
      cases kind <;> rfl
    have hold := hinv.count_eq kind
    rw [hctl, hcount] at hnext
    omega
  · cases hfin : s.buf.ctl.finalized with
    | false => rfl
    | true =>
        have hzero := hinv.ended (Or.inl hfin)
        have hpin := hinv.pinned kind gen hmem
        have hge := hinv.refs_ge
        omega

/-- Two threads, a migration, and then both threads get past `validate_alive` with the handle that
the migration has returned. -/
def movedContest : List Act :=
  [.spawn, .spawn, .migrate (.init {} {}) {} (.findsAt 8192) .sharedHost, .validate 0 .write 2,
    .validate 1 .read 2]

/-- The theorem at work: the first thread gets its lease on generation 2. -/
theorem grant_is_current_movedContest :
    (runs Sys.next (Sys.init page) movedContest).Grants 0 .write 2 ∧
      (runs Sys.next (Sys.init page) movedContest).buf.ctl.record.generation = 2 := by
  have hcalm : (runs Sys.next (Sys.init page) (movedContest.take 2)).Calm
      (.migrate (.init {} {}) {} (.findsAt 8192) .sharedHost) := by
    rintro ⟨kind, gen, hacq⟩
    simp [movedContest, runs, Sys.next, Act.thread, Sys.init] at hacq
  have hreach : Reach Sys.next (fun s a => s.Proper a ∧ s.Calm a) (Sys.init page)
      (runs Sys.next (Sys.init page) movedContest) :=
    reach_runs .start ⟨⟨trivial, trivial⟩, ⟨trivial, trivial⟩, ⟨trivial, hcalm⟩,
      ⟨trivial, trivial⟩, ⟨trivial, trivial⟩, trivial⟩
  have hgrants : (runs Sys.next (Sys.init page) movedContest).Grants 0 .write 2 :=
    ⟨by decide, by decide⟩
  exact ⟨hgrants, (grant_is_current hreach hgrants).2.2⟩

/-- A migration between `validate_alive` and the grant: the thread gets a write lease that carries
generation 1 on a buffer of generation 2. -/
theorem migration_before_grant :
    ∃ s, Reach Sys.next Sys.Proper (Sys.init page) s ∧ s.Grants 0 .write 1 ∧
      s.buf.ctl.record.generation = 2 ∧
      (s.next (.grant 0)).buf.leases = [{ rt := true, ctl := some 0, gen := 1, kind := .write }] :=
  ⟨runs Sys.next (Sys.init page)
      [.spawn, .validate 0 .write 1,
        .migrate (.init {} {}) {} (.findsAt 8192) .sharedHost],
    reach_runs .start ⟨trivial, trivial, trivial, trivial⟩, ⟨by decide, by decide⟩, by decide,
    by decide⟩

end Leasing

end UnifiedBuffer
