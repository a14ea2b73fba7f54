import UnifiedBuffer.Buffer.Transfers
import UnifiedBuffer.Concurrency.Leases
import UnifiedBuffer.Safety.Fates

set_option autoImplicit false

/-! # Copies on one buffer, with threads

`copy_to` and `copy_from` make their checks in three critical sections, and then read the pointer
and the domain of the record and move the bytes without the mutex. In the meantime other threads
take and release leases, let go of the buffer and migrate it (`Leasing.Sys`), and a migration frees
the backing that the pointer is into.

What protects a copy is a lease, but not every lease: `migrate` looks at write and exclusive leases
only. `copies_safe_iff` says that copies made under leases of one kind are safe in every
interleaving if and only if the kind is not `READ`. -/

namespace UnifiedBuffer

open Lib

namespace Copying

/-! ## Threads -/

/-- The arguments of a copy: the array of the caller, the offset that is held against the size of
the buffer (zero for `copy_from`) and the length. -/
structure Transfer where
  want : AccessMode
  array : Nat
  offset : UInt64
  len : UInt64
  deriving DecidableEq, Repr

/-- Where a thread is in `copy_to` or `copy_from`. -/
inductive Phase where
  | idle
  /-- `validate_alive` has passed -/
  | alive (t : Transfer)
  /-- `ensure_valid` has passed -/
  | permitted (t : Transfer)
  /-- the bounds are checked -/
  | checked (t : Transfer)
  /-- the pointer is read -/
  | aimed (t : Transfer) (p : Nat)
  /-- the domain is read, and `copy_memory` runs -/
  | copying (t : Transfer) (p : Nat) (device : Bool)
  deriving DecidableEq, Repr

/-- The buffer with its leases, and the threads that copy. -/
structure Sys where
  leasing : Leasing.Sys
  copiers : List Phase := []

def Sys.init (r : Record) : Sys := { leasing := Leasing.Sys.init r }

inductive Act where
  /-- a step that has to do with references, leases or a migration -/
  | lease (a : Leasing.Act)
  | spawn
  | validate (i : Nat) (t : Transfer) (gen : BufferGeneration)
  | permit (i : Nat)
  | bounds (i : Nat)
  | aim (i : Nat)
  | fetch (i : Nat)
  /-- `copy_memory` has returned -/
  | finish (i : Nat)

/-- The next step of a thread. A step that the thread is not at does nothing. -/
def advance (ctl : Control) (p : Phase) : Act → Phase
  | .validate _ t gen =>
      match p with
      | .idle => if Leasing.Passes gen ctl then .alive t else .idle
      | p => p
  | .permit _ =>
      match p with
      | .alive t =>
          if t.want = .write ∧ ctl.record.access = .read then .idle else .permitted t
      | p => p
  | .bounds _ =>
      match p with
      | .permitted t =>
          if t.array = 0 then .idle
          else if t.offset > ctl.record.size ∨ t.len > ctl.record.size - t.offset then .idle
          else if ¬ rangeInBounds 0 t.len ctl.record.committed then .idle
          else .checked t
      | p => p
  | .aim _ =>
      match p with
      | .checked t => .aimed t ctl.record.backing.base
      | p => p
  | .fetch _ =>
      match p with
      | .aimed t q => .copying t q (ctl.record.domain = .device)
      | p => p
  | .finish _ =>
      match p with
      | .copying _ _ _ => .idle
      | p => p
  | _ => p

def Act.thread : Act → Option Nat
  | .validate i _ _ => some i
  | .permit i => some i
  | .bounds i => some i
  | .aim i => some i
  | .fetch i => some i
  | .finish i => some i
  | _ => none

def Sys.next (s : Sys) (a : Act) : Sys :=
  match a.thread with
  | some i =>
      match s.copiers[i]? with
      | some p => { s with copiers := s.copiers.set i (advance s.leasing.buf.ctl p a) }
      | none => s
  | none =>
      match a with
      | .lease a => { s with leasing := s.leasing.next a }
      | .spawn => { s with copiers := s.copiers ++ [.idle] }
      | _ => s

def Sys.Busy (s : Sys) : Prop := ∃ p ∈ s.copiers, p ≠ .idle

/-- Copies are made under leases of this kind: one is outstanding when a copy begins, and as long
as a copy is under way. -/
def Sys.Guarded (kind : LeaseKind) (s : Sys) : Act → Prop
  | .lease a => s.leasing.Proper a ∧ (s.Busy → 0 < (s.leasing.next a).outstanding kind)
  | .validate _ _ _ => 0 < s.leasing.outstanding kind
  | _ => True

/-- What a thread has found out about the record. -/
def Phase.Sound (r : Record) : Phase → Prop
  | .checked t => BufferHandle.Fits r t.array t.offset t.len
  | .aimed t p => BufferHandle.Fits r t.array t.offset t.len ∧ p = r.backing.base
  | .copying t p device => BufferHandle.Fits r t.array t.offset t.len ∧ p = r.backing.base ∧
      device = decide (r.domain = .device)
  | _ => True

/-- The backing has the bytes that the record is charged for. -/
def Roomy (r : Record) : Prop := r.committed ≤ r.backing.committed

instance (r : Record) : Decidable (Roomy r) := inferInstanceAs (Decidable (_ ≤ _))

/-- The buffer of a copy that is under way is alive, and what is copied lies in its backing. -/
def Sys.Safe (s : Sys) : Prop :=
  ∀ p ∈ s.copiers, p ≠ .idle → s.leasing.buf.ctl.finalized = false ∧
    Roomy s.leasing.buf.ctl.record ∧ p.Sound s.leasing.buf.ctl.record

/-! ## A copy without interruption -/

/-- The steps of a copy up to the transfer. -/
def steps (t : Transfer) (gen : BufferGeneration) : List Act :=
  [.validate 0 t gen, .permit 0, .bounds 0, .aim 0, .fetch 0]

/-- The buffer as it is, and one thread. -/
def alone (ctl : Control) : Sys := ⟨⟨{ ctl := ctl }, []⟩, [.idle]⟩

structure Admits (ctl : Control) (gen : BufferGeneration) (t : Transfer) : Prop where
  passes : Leasing.Passes gen ctl
  permitted : ¬ (t.want = .write ∧ ctl.record.access = .read)
  array : t.array ≠ 0
  inside : ¬ (t.offset > ctl.record.size ∨ t.len > ctl.record.size - t.offset)
  room : rangeInBounds 0 t.len ctl.record.committed = true

theorem steps_admitted {ctl : Control} {gen : BufferGeneration} {t : Transfer}
    (h : Admits ctl gen t) : (runs Sys.next (alone ctl) (steps t gen)).copiers
      = [.copying t ctl.record.backing.base (ctl.record.domain = .device)] := by
  have hpermit := h.permitted
  have hinside := h.inside
  simp only [runs, steps, alone, List.foldl_cons, List.foldl_nil, Sys.next, Act.thread, advance,
    List.getElem?_cons_zero, List.set_cons_zero, if_pos h.passes, if_neg hpermit, if_neg h.array,
    if_neg hinside, h.room, not_true_eq_false, if_false]

theorem steps_rejected {ctl : Control} {gen : BufferGeneration} {t : Transfer}
    (h : ¬ Admits ctl gen t) : (runs Sys.next (alone ctl) (steps t gen)).copiers = [.idle] := by
  by_cases hpasses : Leasing.Passes gen ctl
  swap
  · simp [runs, steps, alone, Sys.next, Act.thread, advance, hpasses]
  by_cases hpermit : t.want = .write ∧ ctl.record.access = .read
  · simp [runs, steps, alone, Sys.next, Act.thread, advance, hpasses, hpermit]
  by_cases harray : t.array = 0
  · simp [runs, steps, alone, Sys.next, Act.thread, advance, hpasses, hpermit, harray]
  by_cases hinside : t.offset > ctl.record.size ∨ t.len > ctl.record.size - t.offset
  · simp only [runs, steps, alone, List.foldl_cons, List.foldl_nil, Sys.next, Act.thread, advance,
      List.getElem?_cons_zero, List.set_cons_zero, if_pos hpasses, if_neg hpermit, if_neg harray,
      if_pos hinside]
  by_cases hroom : rangeInBounds 0 t.len ctl.record.committed = true
  · exact absurd ⟨hpasses, hpermit, harray, hinside, hroom⟩ h
  · simp only [runs, steps, alone, List.foldl_cons, List.foldl_nil, Sys.next, Act.thread, advance,
      List.getElem?_cons_zero, List.set_cons_zero, if_pos hpasses, if_neg hpermit, if_neg harray,
      if_neg hinside, if_pos hroom]

theorem validateAlive_of_passes {h : BufferHandle} {c : Core} {k : CtlId} (hvalid : h.valid = true)
    (hctl : h.ctl = some k) : h.validateAlive c = .ok k ↔ Leasing.Passes h.gen (c.control k) := by
  rw [BufferHandle.validateAlive_ok_iff]
  constructor
  · rintro ⟨-, -, hfirst, hgen, hstate⟩
    simp only [not_or] at hstate
    exact ⟨hfirst, hgen, hstate.1, hstate.2.1, hstate.2.2⟩
  · rintro ⟨hfirst, hgen, hreleased, hquarantined, hinvalid⟩
    exact ⟨hvalid, hctl, hfirst, hgen, by simp [hreleased, hquarantined, hinvalid]⟩

theorem ctl_of_validateAlive {h : BufferHandle} {c : Core} {k j : CtlId} (hctl : h.ctl = some k)
    (hres : h.validateAlive c = .ok j) : k = j :=
  Option.some.inj (hctl.symm.trans (BufferHandle.validateAlive_ok_iff.mp hres).ctl)

theorem Admits.fits {ctl : Control} {gen : BufferGeneration} {t : Transfer}
    (h : Admits ctl gen t) : BufferHandle.Fits ctl.record t.array t.offset t.len :=
  ⟨h.array, not_outside_iff.mp h.inside, by simpa using rangeInBounds_le h.room⟩

theorem admits_of_fits {ctl : Control} {gen : BufferGeneration} {t : Transfer}
    (hfits : BufferHandle.Fits ctl.record t.array t.offset t.len) (hpasses : Leasing.Passes gen ctl)
    (hpermit : ¬ (t.want = .write ∧ ctl.record.access = .read)) : Admits ctl gen t :=
  ⟨hpasses, hpermit, hfits.array, not_outside_iff.mpr hfits.size,
    rangeInBounds_of_le (by simpa using hfits.committed)⟩

/-- A thread that takes its steps without interruption does what `copy_to` does: it ends at the
transfer that `copy_to` makes, or it has given up where `copy_to` returns an error. -/
theorem copyTo_steps {h : BufferHandle} {c : Core} {k : CtlId} (hvalid : h.valid = true)
    (hctl : h.ctl = some k) (env : Env) (t : Transfer) (hread : t.want = .read) :
    (∃ p device, (runs Sys.next (alone (c.control k)) (steps t h.gen)).copiers
        = [.copying t p device] ∧ h.copyTo c env t.array t.offset t.len
          = BufferHandle.transfer c env (t.array + t.offset.toNat) p t.len false device) ∨
      (runs Sys.next (alone (c.control k)) (steps t h.gen)).copiers = [.idle] ∧
        ∃ e, h.copyTo c env t.array t.offset t.len = (.error e, c) := by
  by_cases hadmits : Admits (c.control k) h.gen t
  · refine .inl ⟨_, _, steps_admitted hadmits, ?_⟩
    have hk := (validateAlive_of_passes hvalid hctl).mpr hadmits.passes
    exact BufferHandle.copyTo_of_fits hk hadmits.fits
  · refine .inr ⟨steps_rejected hadmits, ?_⟩
    cases hres : h.validateAlive c with
    | error e =>
        unfold BufferHandle.copyTo BufferHandle.ensureValid
        rw [hres]
        exact ⟨_, rfl⟩
    | ok j =>
        obtain rfl := ctl_of_validateAlive hctl hres
        refine BufferHandle.copyTo_refused hres fun hfits => hadmits ?_
        refine admits_of_fits hfits ((validateAlive_of_passes hvalid hctl).mp hres) fun hw => ?_
        rw [hread] at hw
        cases hw.1

/-- The same for `copy_from`, which holds no offset against the buffer. -/
theorem copyFrom_steps {h : BufferHandle} {c : Core} {k : CtlId} (hvalid : h.valid = true)
    (hctl : h.ctl = some k) (env : Env) (srcOffset : UInt64) (t : Transfer)
    (hwrite : t.want = .write) (hzero : t.offset = 0) :
    (∃ p device, (runs Sys.next (alone (c.control k)) (steps t h.gen)).copiers
        = [.copying t p device] ∧ h.copyFrom c env t.array srcOffset t.len
          = BufferHandle.transfer c env p (t.array + srcOffset.toNat) t.len device false) ∨
      (runs Sys.next (alone (c.control k)) (steps t h.gen)).copiers = [.idle] ∧
        ∃ e, h.copyFrom c env t.array srcOffset t.len = (.error e, c) := by
  by_cases hadmits : Admits (c.control k) h.gen t
  · refine .inl ⟨_, _, steps_admitted hadmits, ?_⟩
    have hk := (validateAlive_of_passes hvalid hctl).mpr hadmits.passes
    have hfits := hadmits.fits
    rw [hzero] at hfits
    exact BufferHandle.copyFrom_of_fits hk (fun hread => hadmits.permitted ⟨hwrite, hread⟩) hfits
  · refine .inr ⟨steps_rejected hadmits, ?_⟩
    cases hres : h.validateAlive c with
    | error e =>
        unfold BufferHandle.copyFrom BufferHandle.ensureValid
        rw [hres]
        exact ⟨_, rfl⟩
    | ok j =>
        obtain rfl := ctl_of_validateAlive hctl hres
        by_cases hread : (c.control k).record.access = .read
        · unfold BufferHandle.copyFrom
          rw [BufferHandle.ensureValid_live hres, if_pos ⟨rfl, hread⟩]
          exact ⟨_, rfl⟩
        refine BufferHandle.copyFrom_refused hres hread fun hfits => hadmits ?_
        rw [← hzero] at hfits
        exact admits_of_fits hfits ((validateAlive_of_passes hvalid hctl).mp hres)
          fun hw => hread hw.2

/-! ## What a lease protects -/

/-- While a write or an exclusive lease is outstanding, references are left. -/
theorem locked_refs {s : Leasing.Sys} (h : s.Inv) (hlocked : s.Locked) : 0 < s.buf.ctl.refs := by
  have hge := h.refs_ge
  unfold Leasing.Sys.Locked Leasing.Sys.outstanding at hlocked
  by_cases hobjects : 0 < s.buf.objects .write + s.buf.objects .exclusive
  · omega
  -- the lease is in the hands of a thread that is about to release it
  have hreleasing : ∃ kind, Leasing.Phase.releasing kind ∈ s.threads := by
    by_contra hnone
    rw [not_exists] at hnone
    have hzero : ∀ kind, s.threads.countP (fun p => p = Leasing.Phase.releasing kind) = 0 := by
      intro kind
      refine List.countP_eq_zero.mpr fun q hq heq => hnone kind ?_
      rw [← of_decide_eq_true heq]
      exact hq
    have hw := hzero .write
    have hx := hzero .exclusive
    omega
  obtain ⟨kind, hmem⟩ := hreleasing
  have howes := h.owes_le hmem
  have hone : (1 : Int) ≤ (Leasing.Phase.releasing kind).owes := by cases kind <;> decide
  omega

theorem locked_alive {s : Leasing.Sys} (h : s.Inv) (hlocked : s.Locked) :
    s.buf.ctl.finalized = false ∧ .finalizing ∉ s.threads := by
  have hrefs := locked_refs h hlocked
  constructor
  · by_contra hfin
    have hzero := h.ended (Or.inl (Bool.not_eq_false _ ▸ hfin))
    omega
  · intro hmem
    have hzero := h.ended (Or.inr hmem)
    omega

theorem unlease_same (kind : LeaseKind) (ctl : Control) :
    ctl.record.Same (unlease kind ctl).record := by
  simp only [unlease]
  cases kind <;> simp only <;> split <;> split <;> rfl

theorem advance_same {b : Leasing.Shared} {p : Leasing.Phase} (a : Leasing.Act)
    (hp : p ≠ .finalizing) : b.ctl.record.Same (Leasing.advance b p a).2.ctl.record := by
  have hturn := Leasing.advance_turn b p a
  generalize Leasing.advance b p a = out at hturn ⊢
  cases hturn with
  | @grant _ kind => cases kind <;> rfl
  | unlease => exact unlease_same _ _
  | finalize => exact absurd rfl hp
  | still | validate | refuse | detach | letGo | last | drop => rfl

theorem step_same {b : Leasing.Shared} (a : Leasing.Act)
    (hmigrate : ∀ rt os env target, a = .migrate rt os env target →
      (rt.migrate os env b.ctl target).2.1 = b.ctl) :
    b.ctl.record.Same (b.step a).ctl.record := by
  cases a with
  | migrate rt os env target =>
      simp only [Leasing.Shared.step, hmigrate rt os env target rfl]
      split <;> rfl
  | unmap =>
      simp only [Leasing.Shared.step, unmapOnce]
      repeat' split
      all_goals rfl
  | share | map =>
      simp only [Leasing.Shared.step]
      split <;> rfl
  | move | assign =>
      simp only [Leasing.Shared.step]
      repeat' split
      all_goals rfl
  | _ => rfl

/-- Under a write or an exclusive lease, no step changes more of the record than its state and the
number of its maps. -/
theorem locked_same {s : Leasing.Sys} (h : s.Inv) (hlocked : s.Locked) (a : Leasing.Act) :
    s.buf.ctl.record.Same (s.next a).buf.ctl.record := by
  unfold Leasing.Sys.next
  split
  · split
    · rename_i i _ p hp
      refine advance_same a ?_
      rintro rfl
      exact (locked_alive h hlocked).2 (List.mem_of_getElem? hp)
    · rfl
  · split
    · rfl
    · -- a migration is refused
      refine step_same _ fun rt os env target _ => ?_
      rcases Leasing.migrate_block rt os env s.buf.ctl target with hsame | ⟨hnow, hnox, -⟩
      · exact hsame
      · have hw := h.count_eq .write
        have hx := h.count_eq .exclusive
        unfold Leasing.Sys.Locked at hlocked
        simp only [Leasing.count] at hw hx
        omega

theorem Roomy.same {r r' : Record} (h : Roomy r) (hsame : r.Same r') : Roomy r' := by
  rw [Roomy, hsame]
  exact h

theorem advance_roomy {b : Leasing.Shared} (p : Leasing.Phase) (a : Leasing.Act)
    (h : b.ctl.finalized = false → Roomy b.ctl.record)
    (halive : (Leasing.advance b p a).2.ctl.finalized = false) :
    Roomy (Leasing.advance b p a).2.ctl.record := by
  have hturn := Leasing.advance_turn b p a
  generalize Leasing.advance b p a = out at hturn halive ⊢
  cases hturn with
  | @grant _ kind => cases kind <;> exact h halive
  | unlease => exact (h ((unlease_refs _ _).2 ▸ halive)).same (unlease_same _ _)
  | @finalize _ rt os env =>
      have hrun := rt.finalize_run os env b.ctl true
      generalize rt.finalize os env b.ctl true = out at hrun halive ⊢
      cases hrun with
      | again => exact h halive
      | kept | pooled | evicted | freed => cases halive
  | still | validate | refuse | detach | letGo | last | drop => exact h halive

theorem step_roomy {b : Leasing.Shared} (a : Leasing.Act) (h : Roomy b.ctl.record) :
    Roomy (b.step a).ctl.record := by
  cases a with
  | migrate rt os env target =>
      simp only [Leasing.Shared.step]
      split
      · have hrun := rt.migrate_run os env b.ctl target
        generalize rt.migrate os env b.ctl target = out at hrun ⊢
        cases hrun with
        | refused | stays | backendFailed | copyFailed | commitFailed | verifyFailed => exact h
        | swapped => exact UInt64.le_refl _
      · exact h
  | _ => exact h.same (step_same _ fun _ _ _ _ he => by cases he)

/-- Only a finalization takes the backing away. A migration charges what the new backing has. -/
theorem next_roomy {s : Leasing.Sys} (a : Leasing.Act)
    (h : s.buf.ctl.finalized = false → Roomy s.buf.ctl.record) :
    (s.next a).buf.ctl.finalized = false → Roomy (s.next a).buf.ctl.record := by
  unfold Leasing.Sys.next
  split
  · split
    · exact advance_roomy _ a h
    · exact h
  · split
    · exact h
    · intro halive
      exact step_roomy _ (h ((Leasing.step_block s.buf _).2.1 ▸ halive))

theorem Phase.Sound.same {r r' : Record} {p : Phase} (h : p.Sound r) (hsame : r.Same r') :
    p.Sound r' := by
  have hfits : ∀ {t : Transfer}, BufferHandle.Fits r t.array t.offset t.len →
      BufferHandle.Fits r' t.array t.offset t.len := by
    intro t hr
    refine ⟨hr.array, ?_, ?_⟩ <;> rw [hsame]
    · exact hr.size
    · exact hr.committed
  cases p with
  | checked t => exact hfits h
  | aimed t q =>
      refine ⟨hfits h.1, ?_⟩
      rw [hsame]
      exact h.2
  | copying t q device =>
      refine ⟨hfits h.1, ?_⟩
      rw [hsame]
      exact h.2
  | idle | alive | permitted => trivial

/-- A thread finds out the truth. -/
theorem advance_sound {ctl : Control} {p : Phase} (h : p.Sound ctl.record) (a : Act) :
    (advance ctl p a).Sound ctl.record := by
  cases a with
  | lease | spawn => exact h
  | validate i t gen =>
      cases p with
      | idle =>
          simp only [advance]
          split <;> trivial
      | _ => exact h
  | permit i =>
      cases p with
      | alive t =>
          simp only [advance]
          split <;> trivial
      | _ => exact h
  | bounds i =>
      cases p with
      | permitted t =>
          simp only [advance]
          split
          · trivial
          rename_i harray
          split
          · trivial
          rename_i hinside
          split
          · trivial
          rename_i hroom
          exact ⟨harray, not_outside_iff.mp hinside,
            by simpa using rangeInBounds_le (not_not.mp hroom)⟩
      | _ => exact h
  | aim i =>
      cases p with
      | checked t => exact ⟨h, rfl⟩
      | _ => exact h
  | fetch i =>
      cases p with
      | aimed t q => exact ⟨h.1, h.2, rfl⟩
      | _ => exact h
  | finish i =>
      cases p with
      | copying => trivial
      | _ => exact h

/-- Only `validate` begins a copy. -/
theorem advance_idle {ctl : Control} {a : Act} (h : advance ctl .idle a ≠ .idle) :
    ∃ i t gen, a = .validate i t gen := by
  cases a with
  | validate i t gen => exact ⟨i, t, gen, rfl⟩
  | _ => exact absurd rfl h

structure Sys.Inv (kind : LeaseKind) (s : Sys) : Prop where
  leasing : s.leasing.Inv
  guarded : s.Busy → 0 < s.leasing.outstanding kind
  roomy : s.leasing.buf.ctl.finalized = false → Roomy s.leasing.buf.ctl.record
  sound : ∀ p ∈ s.copiers, p.Sound s.leasing.buf.ctl.record

theorem locked_of_outstanding {s : Leasing.Sys} {kind : LeaseKind} (hkind : kind ≠ .read)
    (h : 0 < s.outstanding kind) : s.Locked := by
  unfold Leasing.Sys.Locked
  cases kind with
  | read => exact absurd rfl hkind
  | write | exclusive => omega

theorem Sys.Inv.next {kind : LeaseKind} {s : Sys} {a : Act} (h : s.Inv kind) (hkind : kind ≠ .read)
    (ha : s.Guarded kind a) : (s.next a).Inv kind := by
  unfold Sys.next
  split
  · split
    · rename_i i _ p hp
      have hmem := List.mem_of_getElem? hp
      refine ⟨h.leasing, ?_, h.roomy, fun q hq => ?_⟩
      · rintro ⟨q, hq, hbusy⟩
        rcases List.mem_or_eq_of_mem_set hq with hold | rfl
        · exact h.guarded ⟨q, hold, hbusy⟩
        · by_cases hidle : p = .idle
          · subst hidle
            obtain ⟨i, t, gen, rfl⟩ := advance_idle hbusy
            exact ha
          · exact h.guarded ⟨p, hmem, hidle⟩
      · rcases List.mem_or_eq_of_mem_set hq with hold | rfl
        · exact h.sound q hold
        · exact advance_sound (h.sound p hmem) a
    · exact h
  · split
    · rename_i b _
      refine ⟨h.leasing.next ha.1, ha.2, next_roomy b h.roomy, fun p hp => ?_⟩
      by_cases hidle : p = .idle
      · subst hidle
        trivial
      · have hlocked := locked_of_outstanding hkind (h.guarded ⟨p, hp, hidle⟩)
        exact (h.sound p hp).same (locked_same h.leasing hlocked b)
    · refine ⟨h.leasing, ?_, h.roomy, fun p hp => ?_⟩
      · rintro ⟨p, hp, hbusy⟩
        rcases List.mem_append.mp hp with hold | hnew
        · exact h.guarded ⟨p, hold, hbusy⟩
        · exact absurd (List.mem_singleton.mp hnew) hbusy
      · rcases List.mem_append.mp hp with hold | hnew
        · exact h.sound p hold
        · rw [List.mem_singleton.mp hnew]
          trivial
    · exact h

theorem inv_init (kind : LeaseKind) {r : Record} (hroom : Roomy r) : (Sys.init r).Inv kind := by
  refine ⟨Leasing.inv_init r, ?_, fun _ => hroom, ?_⟩
  · rintro ⟨p, hp, -⟩
    cases hp
  · intro p hp
    cases hp

/-- Two threads: the first has a read lease and copies, the second migrates the buffer after the
first one has read the pointer. -/
def overtaken : List Act :=
  [.lease .spawn, .lease (.validate 0 .read 1), .lease (.grant 0), .spawn,
    .validate 0 ⟨.read, 64, 0, 100⟩ 1, .permit 0, .bounds 0, .aim 0,
    .lease (.migrate (.init {} {}) {} (.findsAt 8192) .sharedHost), .fetch 0]

/-- **Which leases protect copies.** If copies are made under leases of one kind, then in every
interleaving each copy that has begun is on a buffer that is alive, and what it moves lies in the
current backing (if that of the start is large enough for its record): exactly if the kind is `WRITE`
or `EXCLUSIVE`. -/
theorem copies_safe_iff (kind : LeaseKind) :
    (∀ (r : Record) (s : Sys), Roomy r → Reach Sys.next (Sys.Guarded kind) (Sys.init r) s →
      s.Safe) ↔ kind ≠ .read := by
  constructor
  · rintro hsafe rfl
    -- the copy runs on the backing that the migration has freed
    have hreach : Reach Sys.next (Sys.Guarded .read) (Sys.init Leasing.page)
        (runs Sys.next (Sys.init Leasing.page) overtaken) := by
      have hidle : ∀ s : Sys, s.copiers = [] → ¬ s.Busy := by
        rintro s hnone ⟨p, hp, -⟩
        rw [hnone] at hp
        cases hp
      exact reach_runs .start
        ⟨⟨trivial, fun hbusy => absurd hbusy (hidle _ rfl)⟩,
          ⟨trivial, fun hbusy => absurd hbusy (hidle _ rfl)⟩, ⟨trivial, fun _ => by decide⟩, trivial,
          show 0 < _ by decide, trivial, trivial, trivial, ⟨trivial, fun _ => by decide⟩, trivial,
          trivial⟩
    have hsound := hsafe Leasing.page _ (by decide) hreach (.copying ⟨.read, 64, 0, 100⟩ 4096 false)
      (List.mem_of_getElem? (i := 0) (by decide)) (by decide)
    exact absurd hsound.2.2.2.1 (by decide)
  · intro hkind r s hroom hreach p hp hbusy
    have hinv : s.Inv kind :=
      hreach.invariant (inv_init kind hroom) (fun _ _ h ha => h.next hkind ha)
    have hlocked := locked_of_outstanding hkind (hinv.guarded ⟨p, hp, hbusy⟩)
    have halive := (locked_alive hinv.leasing hlocked).1
    exact ⟨halive, hinv.roomy halive, hinv.sound p hp⟩

-- under a write lease the same migration is refused, and the copy runs where the buffer is
example : (runs Sys.next (Sys.init Leasing.page)
    [.lease .spawn, .lease (.validate 0 .write 1), .lease (.grant 0), .spawn,
      .validate 0 ⟨.read, 64, 0, 100⟩ 1, .permit 0, .bounds 0, .aim 0,
      .lease (.migrate (.init {} {}) {} (.findsAt 8192) .sharedHost), .fetch 0]).copiers
    = [.copying ⟨.read, 64, 0, 100⟩ 4096 false] := by decide

end Copying

end UnifiedBuffer
