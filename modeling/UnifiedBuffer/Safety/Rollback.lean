import UnifiedBuffer.Buffer.World

set_option autoImplicit false

/-! # Failed operations

What a failed allocation and a failed migration leave behind. Both reserve bytes first and give
the reservation back with `unreserve_amount` at every later failure. Two things can keep this
from restoring the accounting:

* the reservation wrapped around `2^64`, and the subtraction of `unreserve_amount` then stops at
  zero;
* the failure comes after `commit_amount` has used the reservation up. -/

namespace UnifiedBuffer

open Lib

/-! ## Undoing a reservation -/

/-- The two ledgers have the same committed, reserved and allocated bytes in every cell. -/
structure Ledger.SameCells (l l' : Ledger) : Prop where
  committed : ∀ ns d, l'.committed.get ns d = l.committed.get ns d
  reserved : ∀ ns d, l'.reserved.get ns d = l.reserved.get ns d
  allocated : ∀ ns d, l'.allocated.get ns d = l.allocated.get ns d

theorem Ledger.SameCells.refl (l : Ledger) : l.SameCells l :=
  ⟨fun _ _ => rfl, fun _ _ => rfl, fun _ _ => rfl⟩

/-- Being the same does not depend on which of two equal ledgers is looked at. -/
theorem Ledger.SameCells.iff_right {l l₁ l₂ : Ledger} (h : l₁.SameCells l₂) :
    l.SameCells l₁ ↔ l.SameCells l₂ where
  mp h₁ := ⟨fun n d => (h.committed n d).trans (h₁.committed n d),
    fun n d => (h.reserved n d).trans (h₁.reserved n d),
    fun n d => (h.allocated n d).trans (h₁.allocated n d)⟩
  mpr h₂ := ⟨fun n d => (h.committed n d).symm.trans (h₂.committed n d),
    fun n d => (h.reserved n d).symm.trans (h₂.reserved n d),
    fun n d => (h.allocated n d).symm.trans (h₂.allocated n d)⟩

theorem Ledger.SameCells.unreserveAmount {l₁ l₂ : Ledger} (h : l₁.SameCells l₂) (ns : NamespaceId)
    (d : MemoryDomain) (bytes : UInt64) :
    (l₁.unreserveAmount ns d bytes).SameCells (l₂.unreserveAmount ns d bytes) := by
  refine ⟨h.committed, fun ns' d' => ?_, h.allocated⟩
  unfold Ledger.unreserveAmount
  rw [Cells.get_set, Cells.get_set, h.reserved, h.reserved]

/-- The reservation does not wrap around. -/
def Ledger.ReserveFits (l : Ledger) (ns : NamespaceId) (d : MemoryDomain) (bytes : UInt64) : Prop :=
  (l.reserved.get ns d).toNat + bytes.toNat < 2 ^ 64

section Ledger

variable {l l₁ l₂ : Ledger} {cap quota bytes c : UInt64} {ns : NamespaceId} {d : MemoryDomain}

/-- Giving a reservation back restores the ledger exactly when it did not wrap. -/
theorem Ledger.reserve_unreserve_same_iff (h : l.reserveAmount cap quota ns d bytes = .ok l₁) :
    l.SameCells (l₁.unreserveAmount ns d bytes) ↔ l.ReserveFits ns d bytes := by
  obtain ⟨hcomm, halloc, -, -, hres⟩ := Ledger.reserveAmount_eq h
  have hcell : (l₁.unreserveAmount ns d bytes).reserved.get ns d
      = satSub (l.reserved.get ns d + bytes) bytes := by
    unfold Ledger.unreserveAmount
    rw [Cells.get_set_self, hres, if_pos ⟨rfl, rfl⟩]
  unfold Ledger.ReserveFits
  rw [← satSub_add_eq_iff]
  constructor
  · intro hsame
    rw [← hcell]
    exact hsame.reserved ns d
  · intro hback
    refine ⟨fun ns' d' => ?_, fun ns' d' => ?_, fun ns' d' => ?_⟩
    · exact congrArg (fun t : Cells => t.get ns' d') hcomm
    · by_cases hk : ns = ns' ∧ d = d'
      · obtain ⟨rfl, rfl⟩ := hk
        rw [hcell, hback]
      · unfold Ledger.unreserveAmount
        rw [Cells.get_set, if_neg hk, hres, if_neg hk]
    · exact congrArg (fun t : Cells => t.get ns' d') halloc

/-- After a commit, giving the whole reservation back restores the ledger only if the commit was
one of no bytes. -/
theorem Ledger.reserve_commit_unreserve_same_iff
    (h : l.reserveAmount cap quota ns d bytes = .ok l₁)
    (hc : l₁.commitAmount ns d c = .ok l₂) :
    l.SameCells (l₂.unreserveAmount ns d bytes) ↔ c = 0 ∧ l.ReserveFits ns d bytes := by
  obtain ⟨hcomm, halloc, -, -, hres⟩ := Ledger.reserveAmount_eq h
  obtain ⟨hle, hres₂, hcomm₂, halloc₂, -, -⟩ := Ledger.commitAmount_ok hc
  constructor
  · intro hsame
    have hzero : c = 0 := by
      have hcell : l₂.committed.get ns d = l.committed.get ns d := hsame.committed ns d
      rw [hcomm₂, Cells.get_set_self, hcomm] at hcell
      exact (add_eq_left_iff _ _).mp hcell
    refine ⟨hzero, ?_⟩
    have hcell : satSub (l₂.reserved.get ns d) bytes = l.reserved.get ns d := by
      have := hsame.reserved ns d
      unfold Ledger.unreserveAmount at this
      rwa [Cells.get_set_self] at this
    rw [hres₂, Cells.get_set_self, hres, if_pos ⟨rfl, rfl⟩, hzero, UInt64.sub_zero] at hcell
    exact (satSub_add_eq_iff _ _).mp hcell
  · rintro ⟨rfl, hfits⟩
    -- a commit of no bytes writes every cell back as it is
    have hsame : l₁.SameCells l₂ := by
      refine ⟨fun ns' d' => ?_, fun ns' d' => ?_, fun ns' d' => ?_⟩
      · rw [hcomm₂]
        exact Cells.get_set_same _ _ _ _ _ _ (UInt64.add_zero _)
      · rw [hres₂]
        exact Cells.get_set_same _ _ _ _ _ _ (UInt64.sub_zero _)
      · rw [halloc₂]
        exact Cells.get_set_same _ _ _ _ _ _ (UInt64.add_zero _)
    exact (hsame.unreserveAmount ns d bytes).iff_right.mp
      ((Ledger.reserve_unreserve_same_iff h).mpr hfits)

end Ledger

/-! ## A failed allocation -/

/-- Every native allocation that was obtained between the two logs has been freed again. -/
def GaveBack (env : Env) (calls calls' : List BackendCall) : Prop :=
  calls' = calls ∨
    ∃ d owner a, calls' = .freed d a :: .allocated d owner a :: calls ∧ env.free d a = .ok ()

theorem gaveBack_self (env : Env) (calls : List BackendCall) : GaveBack env calls calls :=
  Or.inl rfl

theorem gaveBack_pair_iff (env : Env) (d : MemoryDomain) (owner : Ownership) (a : NativeAllocation)
    (calls : List BackendCall) :
    GaveBack env calls (.freed d a :: .allocated d owner a :: calls) ↔ env.free d a = .ok () := by
  constructor
  · rintro (h | ⟨d', owner', a', h, hfree⟩)
    · exact absurd (congrArg List.length h) (by simp only [List.length_cons]; omega)
    · simp only [List.cons.injEq, BackendCall.freed.injEq, and_true] at h
      obtain ⟨⟨rfl, rfl⟩, -⟩ := h
      exact hfree
  · intro hfree
    exact Or.inr ⟨d, owner, a, rfl, hfree⟩

/-- Nothing but statistics, the decision log and the identity counter differs. -/
structure World.Unchanged (env : Env) (w w' : World) : Prop where
  cells : w.core.rt.ledger.SameCells w'.core.rt.ledger
  counts : ∀ ns, w'.core.rt.allocCount ns = w.core.rt.allocCount ns
  registry : w'.core.rt.registry = w.core.rt.registry
  slots : w'.core.rt.pool.all.Perm w.core.rt.pool.all
  controls : w'.core.ctls = w.core.ctls
  objects : w'.objs = w.objs
  native : GaveBack env w.core.os.calls w'.core.os.calls

/-- The failure of an allocation is one that its rollback undoes:

* no backing from the pool fails to be zeroed;
* a failure of the backend, of the commit or of the zeroing of a fresh backing follows a
  reservation that did not wrap;
* a fresh backing that has to be freed can be freed, and one that fails to be zeroed has no
  bytes. -/
def RuntimeImpl.RollbackExact (rt : RuntimeImpl) (os : Os) (env : Env) (req : AllocationRequest) :
    Prop :=
  match rt.admits req with
  | none => True
  | some (alignment, classSize, _) =>
      match rt.poolOffer req alignment classSize with
      | some (slot, _) => rt.zeroFails env req slot.backing (some slot.lastOwner) = false
      | none =>
          match env.allocate req.domain classSize alignment with
          | .error _ => rt.ledger.ReserveFits req.ns req.domain classSize
          | .ok a =>
              if rt.ledger.reserved.get req.ns req.domain + classSize < a.committed then
                rt.ledger.ReserveFits req.ns req.domain classSize ∧
                  env.free req.domain (os.stamp a) = .ok ()
              else
                rt.zeroFails env req (os.stamp a) none = true →
                  (a.committed = 0 ∧ rt.ledger.ReserveFits req.ns req.domain classSize) ∧
                    env.free req.domain (os.stamp a) = .ok ()

/-- A failed run of `allocate_record` changes nothing exactly when its failure is one that the
rollback undoes. -/
theorem RuntimeImpl.allocate_rollback_iff {rt rt' : RuntimeImpl} {os os' : Os} {env : Env}
    {req : AllocationRequest} {e : Error}
    (h : RuntimeImpl.AllocateRun rt os env req (.error e, rt', os')) :
    (rt.ledger.SameCells rt'.ledger ∧ (∀ ns, rt'.allocCount ns = rt.allocCount ns) ∧
        rt'.registry = rt.registry ∧ rt'.pool.all.Perm rt.pool.all ∧
        GaveBack env os.calls os'.calls) ↔
      rt.RollbackExact os env req := by
  unfold RuntimeImpl.RollbackExact
  have hcount : ∀ {allocs : AssocMap NamespaceId Nat}, rt.SameCounts allocs →
      rt'.allocs = allocs → ∀ ns, rt'.allocCount ns = rt.allocCount ns := by
    intro allocs hsame heq ns
    unfold RuntimeImpl.allocCount
    rw [heq]
    exact hsame ns
  cases h with
  | refused admission counts state =>
      rw [admission]
      refine iff_of_true ⟨?_, hcount counts state.allocs, state.registry, ?_, Or.inl rfl⟩ trivial
      · rw [state.ledger]
        exact Ledger.SameCells.refl _
      · rw [state.pool]
  | backendFailed admission offer backend counts state =>
      rw [admission]
      simp only [offer, backend]
      rw [← Ledger.reserve_unreserve_same_iff (RuntimeImpl.admits_reserve admission), state.ledger]
      refine ⟨fun hall => hall.1, fun hsame => ⟨hsame, hcount counts state.allocs, state.registry,
        ?_, Or.inl rfl⟩⟩
      rw [state.pool]
  | commitFailed admission offer backend commit counts state =>
      rw [admission]
      simp only [offer, backend, Os.free_calls, Os.log_calls]
      have hreserve := RuntimeImpl.admits_reserve admission
      rw [(Ledger.reserveAmount_eq hreserve).2.2.2.2, if_pos ⟨rfl, rfl⟩] at commit
      rw [if_pos commit, ← Ledger.reserve_unreserve_same_iff hreserve, gaveBack_pair_iff,
        state.ledger]
      refine ⟨fun hall => ⟨hall.1, hall.2.2.2.2⟩, fun hall => ⟨hall.1, hcount counts state.allocs,
        state.registry, ?_, hall.2⟩⟩
      rw [state.pool]
  | freshZeroFailed admission offer backend commit zero counts state =>
      rw [admission]
      simp only [offer, backend, zero, Os.free_calls, Os.log_calls, RuntimeImpl.zeroed_calls,
        forall_true_left]
      have hreserve := RuntimeImpl.admits_reserve admission
      have hcovers := (Ledger.commitAmount_ok commit).1
      rw [(Ledger.reserveAmount_eq hreserve).2.2.2.2, if_pos ⟨rfl, rfl⟩] at hcovers
      rw [if_neg (UInt64.not_lt.mpr hcovers),
        ← Ledger.reserve_commit_unreserve_same_iff hreserve commit, gaveBack_pair_iff,
        state.ledger]
      refine ⟨fun hall => ⟨hall.1, hall.2.2.2.2⟩, fun hall => ⟨hall.1, hcount counts state.allocs,
        state.registry, ?_, hall.2⟩⟩
      rw [state.pool]
  | pooledZeroFailed admission offer zero state =>
      rw [admission]
      simp only [offer, zero]
      refine iff_of_false ?_ (by simp)
      rintro ⟨-, -, -, hperm, -⟩
      -- the slot is gone
      obtain ⟨key, -, htaken, -⟩ := RuntimeImpl.poolOffer_perm offer
      have htaken := htaken.length_eq
      have hsame := hperm.length_eq
      simp only [state.pool, List.length_cons] at htaken hsame
      omega

/-- A failed `allocate` changes nothing but statistics and the identity counter exactly when its
failure is one that the rollback undoes. -/
theorem failed_allocate_unchanged_iff {w w' : World} {env : Env} {req : AllocationRequest}
    {e : Error} (h : w.step (.allocate env req) = (.error e, w')) :
    w.Unchanged env w' ↔ w.core.rt.RollbackExact w.core.os env req := by
  have hrun := RuntimeImpl.allocateRecord_run w.core.rt w.core.os env req
  change w.allocate env req = _ at h
  unfold World.allocate at h
  split at h
  · rename_i hclosed
    cases h
    have hadm : w.core.rt.admits req = none := if_pos hclosed
    refine iff_of_true ⟨Ledger.SameCells.refl _, fun _ => rfl, rfl, List.Perm.refl _, rfl, rfl,
      gaveBack_self env _⟩ ?_
    unfold RuntimeImpl.RollbackExact
    rw [hadm]
    trivial
  · unfold Core.allocate at h
    cases hr : w.core.rt.allocateRecord w.core.os env req with
    | mk res out =>
        obtain ⟨rt', os'⟩ := out
        rw [hr] at h hrun
        cases res with
        | ok r => cases h
        | error e' =>
            cases h
            rw [← RuntimeImpl.allocate_rollback_iff hrun]
            exact ⟨fun hu => ⟨hu.cells, hu.counts, hu.registry, hu.slots, hu.native⟩,
              fun ⟨hl, hc, hreg, hs, hn⟩ => ⟨hl, hc, hreg, hs, rfl, rfl, hn⟩⟩

/-- A request for one page of zeroed host memory that does not use the pool. -/
def zeroedPage : AllocationRequest :=
  { size := 4096, flags := { pooled := false }, zeroing := some .always }

/-- A backend whose memory cannot be zeroed. -/
def zeroFailure : Env :=
  { Env.findsAt 4096 with zero := fun _ _ _ => .error ⟨.backendFailure, "zero"⟩ }

/-- The failure of the zeroing step leaves the page committed. -/
theorem zero_failure_leaves_commit :
    ((World.init {} {}).step (.allocate zeroFailure zeroedPage)).1
        = .error ⟨.backendFailure, ""⟩ ∧
      ¬ (World.init {} {}).Unchanged zeroFailure
          ((World.init {} {}).step (.allocate zeroFailure zeroedPage)).2 := by
  refine ⟨rfl, fun h => ?_⟩
  exact absurd (h.cells.committed kDefaultNamespace .host) (by decide)

/-- A backend without memory. -/
def noMemory : Env := {}

/-- The theorem at work: a failure of the backend is undone. -/
theorem failed_allocate_unchanged_noMemory :
    (World.init {} {}).step (.allocate noMemory zeroedPage)
        = (.error ⟨.outOfCapacity, ""⟩, ((World.init {} {}).step (.allocate noMemory zeroedPage)).2) ∧
      (World.init {} {}).Unchanged noMemory
        ((World.init {} {}).step (.allocate noMemory zeroedPage)).2 := by
  have h : (World.init {} {}).step (.allocate noMemory zeroedPage) = (.error ⟨.outOfCapacity, ""⟩,
      ((World.init {} {}).step (.allocate noMemory zeroedPage)).2) := rfl
  refine ⟨h, (failed_allocate_unchanged_iff h).mpr ?_⟩
  show ((0 : UInt64).toNat + (4096 : UInt64).toNat < 2 ^ 64)
  decide

/-! ## A failed migration -/

/-- The memory of a record: its address space, first address and length. -/
def Record.holds (r : Record) (sp : Space) (addr : Nat) : Prop :=
  sp = r.domain.space ∧ r.backing.base ≤ addr ∧ addr < r.backing.base + r.committed.toNat

/-- A backend never hands out memory that the record still uses. -/
def Env.AllocatesApart (env : Env) (target : MemoryDomain) (r : Record) : Prop :=
  ∀ bytes alignment a, env.allocate target bytes alignment = .ok a → ∀ addr,
    a.base ≤ addr → addr < a.base + a.committed.toNat → ¬ r.holds target.space addr

/-- The buffer `k`, its bytes and the accounting are as they were, and a native allocation that
was obtained in between has been freed. -/
structure Core.MigrationUndone (env : Env) (k : CtlId) (c c' : Core) : Prop where
  controls : c'.ctls = c.ctls
  bytes : ∀ sp addr, (c.control k).record.holds sp addr → c'.os.bytes sp addr = c.os.bytes sp addr
  cells : c.rt.ledger.SameCells c'.rt.ledger
  native : GaveBack env c.os.calls c'.os.calls

/-- The failure of a migration is one that its rollback undoes: it follows a reservation that did
not wrap, a new backing can be freed, and it is not the verification of a new backing with bytes
that fails. -/
def RuntimeImpl.MigrateRollbackExact (rt : RuntimeImpl) (os : Os) (env : Env) (ctl : Control)
    (target : MemoryDomain) : Prop :=
  match rt.migrateAdmit ctl target with
  | none => True
  | some _ =>
      rt.ledger.ReserveFits ctl.record.ns target (migrateSize ctl.record) ∧
        match env.allocate target (migrateSize ctl.record) ctl.record.alignment with
        | .error _ => True
        | .ok a =>
            env.free target (os.stamp a) = .ok () ∧
              ((migrateCopy os env ctl target a).1 = .ok () →
                a.committed ≤ rt.ledger.reserved.get ctl.record.ns target
                  + migrateSize ctl.record →
                a.committed = 0)

namespace RuntimeImpl

/-- The copy only writes into the new backing. -/
theorem migrateCopy_bytes {os : Os} {env : Env} {ctl : Control} {target : MemoryDomain}
    {bytes alignment : UInt64} {a : NativeAllocation}
    (hapart : env.AllocatesApart target ctl.record)
    (hb : env.allocate target bytes alignment = .ok a) {sp : Space} {addr : Nat}
    (hold : ctl.record.holds sp addr) :
    (migrateCopy os env ctl target a).2.bytes sp addr = os.bytes sp addr := by
  refine Os.copyMemory_bytes_outside ?_
  rw [← MemoryDomain.space_eq]
  rintro ⟨rfl, hlo, hhi⟩
  have hlast : addr < a.base + (min ctl.record.committed a.committed).toNat := hhi
  rw [toNat_min] at hlast
  exact hapart bytes alignment a hb addr hlo (by omega) hold

/-- The bytes of `a` are gone once it has been freed, so the accounting of a failed verification
debits nothing. -/
theorem undoCommit_same {env : Env} {target : MemoryDomain} {a : NativeAllocation}
    (hfree : env.free target a = .ok ()) (ns : NamespaceId) (l : Ledger) :
    l.SameCells (undoCommit env target a ns l) := by
  have hzero : (env.afterFree target a).committed = 0 := by
    unfold Env.afterFree
    rw [hfree]
  unfold undoCommit Ledger.freeAccounting
  rw [hzero]
  split
  · refine ⟨fun ns' d' => ?_, fun _ _ => rfl, fun ns' d' => ?_⟩
    · exact Cells.get_set_same _ _ _ _ _ _ (satSub_zero _)
    · exact Cells.get_set_same _ _ _ _ _ _ (satSub_zero _)
  · exact Ledger.SameCells.refl l

/-- A failed run of `migrate` changes nothing exactly when its failure is one that the rollback
undoes. -/
theorem migrate_rollback_iff {rt rt' : RuntimeImpl} {os os' : Os} {env : Env}
    {ctl ctl' : Control} {target : MemoryDomain} {e : Error}
    (hapart : env.AllocatesApart target ctl.record)
    (h : MigrateRun rt os env ctl target (.error e, ctl', rt', os')) :
    ctl' = ctl ∧
      (∀ sp addr, ctl.record.holds sp addr → os'.bytes sp addr = os.bytes sp addr) ∧
      ((rt.ledger.SameCells rt'.ledger ∧ GaveBack env os.calls os'.calls) ↔
        rt.MigrateRollbackExact os env ctl target) := by
  unfold MigrateRollbackExact
  cases h with
  | refused admission state =>
      rw [admission, state.ledger]
      exact ⟨rfl, fun _ _ _ => rfl, iff_of_true ⟨Ledger.SameCells.refl _, gaveBack_self env _⟩
        trivial⟩
  | backendFailed admission backend state =>
      refine ⟨rfl, fun _ _ _ => rfl, ?_⟩
      rw [admission, state.ledger]
      simp only [backend, and_true]
      rw [Ledger.reserve_unreserve_same_iff (migrateAdmit_reserve admission)]
      exact ⟨fun hall => hall.1, fun hfits => ⟨hfits, gaveBack_self env _⟩⟩
  | copyFailed admission backend copy state =>
      refine ⟨rfl, fun _ _ hold => migrateCopy_bytes hapart backend hold, ?_⟩
      rw [admission, state.ledger]
      simp only [backend, copy, Os.free_calls, migrateCopy_calls, reduceCtorEq, false_implies,
        and_true]
      rw [Ledger.reserve_unreserve_same_iff (migrateAdmit_reserve admission), gaveBack_pair_iff]
  | commitFailed admission backend copy commit state =>
      refine ⟨rfl, fun _ _ hold => migrateCopy_bytes hapart backend hold, ?_⟩
      have hreserve := migrateAdmit_reserve admission
      rw [(Ledger.reserveAmount_eq hreserve).2.2.2.2, if_pos ⟨rfl, rfl⟩] at commit
      rw [admission, state.ledger]
      simp only [backend, Os.free_calls, migrateCopy_calls]
      rw [Ledger.reserve_unreserve_same_iff hreserve, gaveBack_pair_iff]
      refine ⟨fun hall => ⟨hall.1, hall.2, fun _ hle => ?_⟩, fun hall => ⟨hall.1, hall.2.1⟩⟩
      exact absurd commit (UInt64.not_lt.mpr hle)
  | @verifyFailed _ _ _ _ l l' a admission backend copy commit verify state =>
      refine ⟨rfl, fun _ _ hold => migrateCopy_bytes hapart backend hold, ?_⟩
      have hreserve := migrateAdmit_reserve admission
      have hcovers := (Ledger.commitAmount_ok commit).1
      rw [(Ledger.reserveAmount_eq hreserve).2.2.2.2, if_pos ⟨rfl, rfl⟩] at hcovers
      rw [admission, state.ledger]
      simp only [backend, copy, hcovers, Os.free_calls, migrateCopy_calls, forall_true_left]
      rw [gaveBack_pair_iff]
      -- with the backing freed, the rollback is `unreserve_amount` alone
      have hundo := Ledger.reserve_commit_unreserve_same_iff hreserve commit
      constructor
      · rintro ⟨hsame, hfree⟩
        have hrest := ((undoCommit_same hfree ctl.record.ns l').unreserveAmount ctl.record.ns target
          (migrateSize ctl.record)).iff_right.mpr hsame
        obtain ⟨hzero, hfits⟩ := hundo.mp hrest
        exact ⟨hfits, hfree, hzero⟩
      · rintro ⟨hfits, hfree, hzero⟩
        refine ⟨?_, hfree⟩
        exact ((undoCommit_same hfree ctl.record.ns l').unreserveAmount ctl.record.ns target
          (migrateSize ctl.record)).iff_right.mp (hundo.mpr ⟨hzero, hfits⟩)

end RuntimeImpl

/-- A failed `migrate` leaves the buffer, its bytes and the accounting as they were and frees what
it allocated, exactly when its failure is one that the rollback undoes. -/
theorem failed_migrate_undone_iff {c c' : Core} {env : Env} {k : CtlId} {target : MemoryDomain}
    {e : Error} (hapart : env.AllocatesApart target (c.control k).record)
    (h : c.migrate env k target = (.error e, c')) :
    c.MigrationUndone env k c' ↔ c.rt.MigrateRollbackExact c.os env (c.control k) target := by
  have hrun := RuntimeImpl.migrate_run c.rt c.os env (c.control k) target
  unfold Core.migrate at h
  cases hm : c.rt.migrate c.os env (c.control k) target with
  | mk res out =>
      obtain ⟨ctl', rt', os'⟩ := out
      rw [hm] at h hrun
      cases h
      obtain ⟨rfl, hbytes, hiff⟩ := RuntimeImpl.migrate_rollback_iff hapart hrun
      rw [← hiff]
      exact ⟨fun hu => ⟨hu.cells, hu.native⟩, fun hall => ⟨c.set_control k, hbytes, hall.1, hall.2⟩⟩

/-- A backend with memory at address `4096` for the host and at `65536` for shared segments. -/
def twoDomains : Env :=
  { allocate := fun d bytes alignment =>
      .ok (.found (if d = .host then 4096 else 65536) bytes alignment) }

/-- The same, with segments that cannot be verified. -/
def verifyFailure : Env :=
  { twoDomains with verify := fun _ _ _ => .error ⟨.backendFailure, "verify"⟩ }

/-- A request for one page of host memory that does not use the pool. -/
def plainPage : AllocationRequest := { size := 4096, flags := { pooled := false } }

/-- A program with one page of host memory. -/
def onePage : World := (World.init {} {}).next (.allocate twoDomains plainPage)

/-- A migration whose verification fails leaves the bytes of the target committed. -/
theorem verify_failure_leaves_commit :
    (onePage.core.migrate verifyFailure 0 .sharedHost).1 = .error ⟨.backendFailure, ""⟩ ∧
      ¬ onePage.core.MigrationUndone verifyFailure 0
          (onePage.core.migrate verifyFailure 0 .sharedHost).2 := by
  refine ⟨rfl, fun h => ?_⟩
  exact absurd (h.cells.committed kDefaultNamespace .sharedHost) (by decide)

/-- A backend without memory for shared segments. -/
def noSegments : Env := { allocate := fun _ _ _ => .error ⟨.outOfCapacity, "shared"⟩ }

/-- The theorem at work: a failure of the target backend is undone. -/
theorem failed_migrate_undone_noSegments :
    (onePage.core.migrate noSegments 0 .sharedHost)
        = (.error ⟨.outOfCapacity, ""⟩, (onePage.core.migrate noSegments 0 .sharedHost).2) ∧
      onePage.core.MigrationUndone noSegments 0
        (onePage.core.migrate noSegments 0 .sharedHost).2 := by
  have h : onePage.core.migrate noSegments 0 .sharedHost
      = (.error ⟨.outOfCapacity, ""⟩, (onePage.core.migrate noSegments 0 .sharedHost).2) := rfl
  refine ⟨h, (failed_migrate_undone_iff (fun _ _ _ hok => by cases hok) h).mpr ?_⟩
  show ((0 : UInt64).toNat + (4096 : UInt64).toNat < 2 ^ 64 ∧ True)
  decide

end UnifiedBuffer
