import UnifiedBuffer.Inventory.Custody
import UnifiedBuffer.Inventory.Operations

set_option autoImplicit false

/-! # Ownership of backings

No native allocation is held twice or freed twice, whatever the backends answer. Borrowed memory is
never freed as long as no migration replaces the backing of a borrowed buffer: `migrate` releases
the old backing without asking who owns it, and the new one is never freed. -/

namespace UnifiedBuffer

open Lib

/-! ## No double free, no aliasing -/

/-- The backings of the registered buffers and of the slots, with their domains. -/
def Core.backings (c : Core) : List Backing :=
  c.registered.map (fun r => (r.domain, r.backing)) ++
    c.rt.pool.all.map (fun e => (e.1.domain, e.2.backing))

theorem World.RefInv.backings_held {base : List BufferId} {w : World} (h : w.RefInv base) :
    (w.core.backings : Multiset Backing) = w.core.stock.held := by
  have hlive : (w.core.registered.map (fun r => (r.domain, r.backing)) : Multiset Backing)
      = w.core.stock.live.map Holding.filed := by
    rw [← h.registered_live, Multiset.map_coe, List.map_map]
    rfl
  have hidle : (w.core.rt.pool.all.map (fun e => (e.1.domain, e.2.backing)) : Multiset Backing)
      = w.core.stock.idle.map Deposit.filed := by
    show _ = Multiset.map Deposit.filed (w.core.rt.pool.all.map depositOf : Multiset Deposit)
    rw [Multiset.map_coe, List.map_map]
    rfl
  rw [Core.backings, ← Multiset.coe_add, hlive, hidle]
  rfl

theorem custody_init (cfg : RuntimeConfig) (plat : RuntimeImpl.Platform) :
    Custody (World.init cfg plat).core.stock.held (World.init cfg plat).core.stock.calls := by
  refine ⟨trivial, fun x hx => ?_, Multiset.nodup_zero⟩
  exact absurd hx (Multiset.notMem_zero x)

theorem World.custody_next {base : List BufferId} {w : World} (hinv : w.RefInv base)
    (h : Custody w.core.stock.held w.core.stock.calls) (op : Op) :
    Custody (w.next op).core.stock.held (w.next op).core.stock.calls := by
  obtain ⟨heq, hcan⟩ := World.next_stock hinv op
  rw [heq]
  exact hcan.invariant (I := fun s => Custody s.held s.calls)
    (Along.of_mem (fun _ _ _ => trivial) _ : Along _ (fun _ _ => True) _ _) h
    (fun _ _ hs hdeal _ => Stock.custody_apply hs hdeal)

/-- The runtime keeps custody of its backings in every run. -/
theorem custody_reach {ok : World → Op → Prop} {cfg : RuntimeConfig}
    {plat : RuntimeImpl.Platform} {w : World}
    (hreach : Reach World.next ok (World.init cfg plat) w) :
    Custody w.core.stock.held w.core.stock.calls :=
  hreach.invariant_of (I := fun w : World => Custody w.core.stock.held w.core.stock.calls)
    (K := fun w : World => w.RefInv []) (fun _ hw => World.refInv_reach hw) (custody_init cfg plat)
    (fun _ op hinv h _ => World.custody_next hinv h op)

/-- **No double free and no aliasing.** In every run, a native allocation (named by the call that
returned it) is held by at most one registered buffer or slot, under the domain that returned it
and not after it was freed; it is freed at most once, by the domain that returned it. -/
theorem backings_not_shared {cfg : RuntimeConfig} {plat : RuntimeImpl.Platform} {w : World}
    (hreach : Reach World.next (fun _ _ => True) (World.init cfg plat) w) :
    (w.core.backings.filterMap serialOf).Nodup ∧
    (∀ x ∈ w.core.backings, ∀ n, serialOf x = some n →
      (∃ call ∈ w.core.os.calls, call.gives = some x) ∧ n ∉ freedSerials w.core.os.calls) ∧
    (givenSerials w.core.os.calls).Nodup ∧ (freedSerials w.core.os.calls).Nodup ∧
    ∀ d a n, .freed d a ∈ w.core.os.calls → a.tag = .native n →
      ∃ call ∈ w.core.os.calls, call.gives = some (d, a) := by
  have hheld := (World.refInv_reach hreach).backings_held
  have h := custody_reach hreach
  rw [← hheld] at h
  have hnodup := h.nodup
  rw [Multiset.filterMap_coe, Multiset.coe_nodup] at hnodup
  refine ⟨hnodup, fun x hx n hn => ?_, h.orderly.given_nodup.1, h.orderly.freed_nodup,
    fun d a n hmem hn => h.orderly.freed_given hmem hn⟩
  have hout := h.inHand x hx (by rw [hn]; rfl)
  exact ⟨h.orderly.given hout, h.orderly.not_freed hout (serialOf_eq_some.mp hn)⟩

/-- A program that releases a pooled page and allocates it again. -/
def reusedPage : World :=
  runs World.next (World.init {} {})
    [.allocate (.findsAt 4096) { size := 4096 }, .release {} 0,
      .allocate (.findsAt 4096) { size := 4096 }]

/-- The theorem at work: one backing was returned and one is held. -/
theorem backings_not_shared_reusedPage :
    reusedPage.core.backings.length = 1 ∧ givenSerials reusedPage.core.os.calls = [0] ∧
      (reusedPage.core.backings.filterMap serialOf).Nodup :=
  ⟨by decide, by decide,
    (backings_not_shared (reach_runs .start (Along.of_mem (fun _ _ _ => trivial) _))).1⟩

/-! ## Borrowed memory -/

/-- Memory that the caller lent to the runtime. -/
def Lent (a : NativeAllocation) : Prop := a.tag = .external .borrow

/-- Lent memory is where it belongs, and what was allocated for a borrowed buffer is freed. -/
structure Stock.Borrows (s : Stock) : Prop where
  live : ∀ h ∈ s.live, Lent h.backing → h.ownership = .borrowed
  idle : ∀ p ∈ s.idle, ¬ Lent p.backing
  freed : ∀ d a, .freed d a ∈ s.calls → ¬ Lent a
  own : ∀ d a, .allocated d .borrowed a ∈ s.calls → .freed d a ∈ s.calls

/-- The deal does not replace the backing of a borrowed buffer. -/
def Deal.LeavesBorrowed : Deal → Prop
  | .book h => h.ownership ≠ .borrowed
  | .settle h => h.ownership ≠ .borrowed
  | _ => True

instance : (deal : Deal) → Decidable deal.LeavesBorrowed
  | .book .. => inferInstanceAs (Decidable (_ ≠ _))
  | .settle .. => inferInstanceAs (Decidable (_ ≠ _))
  | .reserve .. | .unreserve .. | .visit .. | .waste .. | .take .. | .lose .. | .shelve ..
  | .drop .. | .wrap .. | .receive .. | .stray .. | .trim .. | .close | .requota .. =>
      instDecidableTrue

namespace Stock

variable {s : Stock}

theorem not_lent_stamped {a : NativeAllocation} (h : s.Stamped a) : ¬ Lent a := by
  intro hlent
  rw [Lent, h] at hlent
  cases hlent

/-- A backing that is not lent may be freed. -/
theorem Borrows.freeIn (h : s.Borrows) (d : MemoryDomain) {a : NativeAllocation} (ha : ¬ Lent a) :
    (∀ d' a', .freed d' a' ∈ s.freeIn d a → ¬ Lent a') ∧
      ∀ d' a', .allocated d' .borrowed a' ∈ s.freeIn d a → .freed d' a' ∈ s.freeIn d a := by
  unfold Stock.freeIn
  split
  · refine ⟨fun d' a' hmem => ?_, fun d' a' hmem => ?_⟩
    · rcases List.mem_cons.mp hmem with heq | hmem
      · cases heq
        exact ha
      · exact h.freed d' a' hmem
    · rcases List.mem_cons.mp hmem with heq | hmem
      · cases heq
      · exact List.mem_cons_of_mem _ (h.own d' a' hmem)
  · exact ⟨h.freed, h.own⟩

/-- A backing that is allocated and freed at once. -/
theorem Borrows.visit (h : s.Borrows) {d : MemoryDomain} {owner : Ownership}
    {a : NativeAllocation} (ha : s.Stamped a) :
    (∀ d' a', .freed d' a' ∈ BackendCall.freed d a :: .allocated d owner a :: s.calls →
        ¬ Lent a') ∧
      ∀ d' a', .allocated d' .borrowed a' ∈ BackendCall.freed d a :: .allocated d owner a :: s.calls →
        .freed d' a' ∈ BackendCall.freed d a :: .allocated d owner a :: s.calls := by
  refine ⟨fun d' a' hmem => ?_, fun d' a' hmem => ?_⟩
  · rcases List.mem_cons.mp hmem with heq | hmem
    · cases heq
      exact not_lent_stamped ha
    · rcases List.mem_cons.mp hmem with heq | hmem
      · cases heq
      · exact h.freed d' a' hmem
  · rcases List.mem_cons.mp hmem with heq | hmem
    · cases heq
    · rcases List.mem_cons.mp hmem with heq | hmem
      · cases heq
        exact List.mem_cons_self
      · exact List.mem_cons_of_mem _ (List.mem_cons_of_mem _ (h.own d' a' hmem))

/-- A further call that frees nothing. -/
theorem Borrows.call (h : s.Borrows) (call : BackendCall)
    (hfree : ∀ d a, call ≠ .freed d a) (hown : ∀ d a, call ≠ .allocated d .borrowed a) :
    (∀ d a, .freed d a ∈ call :: s.calls → ¬ Lent a) ∧
      ∀ d a, .allocated d .borrowed a ∈ call :: s.calls → .freed d a ∈ call :: s.calls := by
  refine ⟨fun d a hmem => ?_, fun d a hmem => ?_⟩
  · rcases List.mem_cons.mp hmem with heq | hmem
    · exact absurd heq.symm (hfree d a)
    · exact h.freed d a hmem
  · rcases List.mem_cons.mp hmem with heq | hmem
    · exact absurd heq.symm (hown d a)
    · exact List.mem_cons_of_mem _ (h.own d a hmem)

/-- A further holding. -/
theorem Borrows.hold (h : s.Borrows) {b : Holding}
    (hb : Lent b.backing → b.ownership = .borrowed) :
    ∀ h ∈ b ::ₘ s.live, Lent h.backing → h.ownership = .borrowed := by
  intro h' hmem
  rcases Multiset.mem_cons.mp hmem with rfl | hmem
  · exact hb
  · exact h.live h' hmem

theorem borrows_apply {deal : Deal} (h : s.Borrows) (hcan : s.Can deal)
    (hgood : deal.LeavesBorrowed) : (s.apply deal).Borrows := by
  cases deal with
  | reserve ns d bytes => exact ⟨h.live, h.idle, h.freed, h.own⟩
  | unreserve ns d bytes => exact ⟨h.live, h.idle, h.freed, h.own⟩
  | visit d owner a =>
      obtain ⟨hfreed, hown⟩ := h.visit hcan.1
      exact ⟨h.live, h.idle, hfreed, hown⟩
  | waste ns d owner a undo =>
      obtain ⟨hfreed, hown⟩ := h.visit hcan.1
      exact ⟨h.live, h.idle, hfreed, hown⟩
  | book b =>
      obtain ⟨hfreed, hown⟩ := h.call (.allocated b.domain b.ownership b.backing)
        (fun _ _ heq => by cases heq) (fun _ _ heq => hgood (BackendCall.allocated.inj heq).2.1)
      exact ⟨h.hold (fun hlent => absurd hlent (not_lent_stamped hcan.1)), h.idle, hfreed, hown⟩
  | take p b =>
      obtain ⟨hmem, hback, -⟩ := hcan
      refine ⟨h.hold (fun hlent => ?_), fun q hq => h.idle q (Multiset.mem_of_mem_erase hq),
        h.freed, h.own⟩
      rw [hback] at hlent
      exact absurd hlent (h.idle p hmem)
  | lose ns p =>
      exact ⟨h.live, fun q hq => h.idle q (Multiset.mem_of_mem_erase hq), h.freed, h.own⟩
  | shelve b =>
      obtain ⟨hmem, -, -, howner⟩ := hcan
      refine ⟨fun h' hh' => h.live h' (Multiset.mem_of_mem_erase hh'), fun q hq => ?_, h.freed, h.own⟩
      rcases Multiset.mem_cons.mp hq with rfl | hq
      -- the holder of lent memory is `borrowed`, and such a buffer is not shelved
      · exact fun hlent => howner (h.live b hmem hlent)
      · exact h.idle q hq
  | settle b =>
      obtain ⟨hfreed, hown⟩ := h.freeIn b.domain (fun hlent => hgood (h.live b hcan.1 hlent))
      exact ⟨fun h' hh' => h.live h' (Multiset.mem_of_mem_erase hh'), h.idle, hfreed, hown⟩
  | drop b => exact ⟨fun h' hh' => h.live h' (Multiset.mem_of_mem_erase hh'), h.idle, h.freed, h.own⟩
  | wrap b =>
      obtain ⟨-, -, -, o, htag, hiff⟩ := hcan
      refine ⟨h.hold (fun hlent => hiff.mpr ?_), h.idle, h.freed, h.own⟩
      rw [Lent, htag] at hlent
      exact AllocTag.external.inj hlent
  | receive b =>
      obtain ⟨hfreed, hown⟩ := h.call (.imported b.domain b.backing)
        (fun _ _ heq => by cases heq) (fun _ _ heq => by cases heq)
      exact ⟨h.hold (fun hlent => absurd hlent (not_lent_stamped hcan.1)), h.idle, hfreed, hown⟩
  | stray d a =>
      obtain ⟨hfreed, hown⟩ := h.call (.imported d a) (fun _ _ heq => by cases heq)
        (fun _ _ heq => by cases heq)
      exact ⟨h.live, h.idle, hfreed, hown⟩
  | trim p =>
      obtain ⟨hfreed, hown⟩ := h.freeIn p.domain (h.idle p hcan)
      exact ⟨h.live, fun q hq => h.idle q (Multiset.mem_of_mem_erase hq), hfreed, hown⟩
  | close => exact ⟨h.live, h.idle, h.freed, h.own⟩
  | requota quota => exact ⟨h.live, h.idle, h.freed, h.own⟩

end Stock

/-- The operation does not replace the backing of a borrowed buffer. -/
def World.LeavesBorrowed (w : World) (op : Op) : Prop :=
  w.Keeps (fun _ deal => deal.LeavesBorrowed) op

instance (w : World) (op : Op) : Decidable (w.LeavesBorrowed op) :=
  inferInstanceAs (Decidable (w.Keeps _ op))

/-- In other words: only a migration that binds a borrowed buffer to a new backing is ruled out. -/
theorem World.leavesBorrowed_of {w : World} {op : Op}
    (h : ∀ k, w.Rebinds op k → (w.core.control k).record.ownership ≠ .borrowed) :
    w.LeavesBorrowed op := by
  refine World.keeps_of (fun _ _ _ _ => trivial) fun deal haccount s => ?_
  cases deal with
  | book b =>
      rcases haccount.2 with howner | ⟨k, hrebinds, howner⟩
      · show b.ownership ≠ .borrowed
        rw [howner]
        decide
      · exact howner.trans_ne (h k hrebinds)
  | settle b =>
      rcases haccount with howner | ⟨k, hrebinds, howner⟩
      · exact howner
      · exact howner.trans_ne (h k hrebinds)
  | reserve | unreserve | visit | waste | take | lose | shelve | drop | wrap | receive | stray | trim
  | close | requota => trivial

/-- **Borrowed memory is never freed**, in every run in which no migration replaces the backing of
a borrowed buffer: no lent pointer is passed to `IDomain::free` or enters the pool, and every
backing that was allocated for a borrowed buffer has been freed. -/
theorem borrowed_never_freed {cfg : RuntimeConfig} {plat : RuntimeImpl.Platform} {w : World}
    (hreach : Reach World.next World.LeavesBorrowed (World.init cfg plat) w) :
    (∀ d a, .freed d a ∈ w.core.os.calls → ¬ Lent a) ∧
    (∀ e ∈ w.core.rt.pool.all, ¬ Lent e.2.backing) ∧
    ∀ d a, .allocated d .borrowed a ∈ w.core.os.calls → .freed d a ∈ w.core.os.calls := by
  have h : w.core.stock.Borrows := by
    refine World.stock_invariant Stock.Borrows (fun _ deal => deal.LeavesBorrowed) hreach
      (fun _ _ _ _ hok => hok) ?_ (fun _ _ h hcan hgood => Stock.borrows_apply h hcan hgood)
    refine ⟨fun h hmem => ?_, fun p hmem => ?_, fun d a hmem => ?_, fun d a hmem => ?_⟩
    · exact absurd hmem (Multiset.notMem_zero h)
    · exact absurd hmem (Multiset.notMem_zero p)
    · cases hmem
    · cases hmem
  refine ⟨h.freed, fun e he => ?_, h.own⟩
  exact h.idle (depositOf e) (List.mem_map_of_mem he)

def lentPage : ExternalMemoryDesc := { pointer := 65536, size := 4096 }

def lentBacking : NativeAllocation :=
  { NativeAllocation.found 65536 4096 64 with tag := .external .borrow }

/-- A program that wraps the page, migrates the buffer and releases it. -/
def migratedLoan : World :=
  runs World.next (World.init {} {})
    [.wrapExternal lentPage, .migrate (.findsAt 4096) 0 .sharedHost, .release {} 0,
      .release {} 1]

/-- The backing that the migration replaces it by. -/
def loanReplacement : NativeAllocation :=
  { NativeAllocation.found 4096 4096 64 with tag := .native 0 }

/-- The migration frees the lent page, and its replacement is not freed when the buffer is gone. -/
theorem migration_frees_loan :
    (.freed .host lentBacking ∈ migratedLoan.core.os.calls ∧ Lent lentBacking) ∧
      .allocated .sharedHost .borrowed loanReplacement ∈ migratedLoan.core.os.calls ∧
      .freed .sharedHost loanReplacement ∉ migratedLoan.core.os.calls ∧
      migratedLoan.core.registered.length = 0 := by
  refine ⟨⟨by decide, rfl⟩, by decide, by decide, by decide⟩

def noCopy : Env := { Env.findsAt 4096 with copy := .error ⟨.backendFailure, "copy"⟩ }

/-- A program whose migration of a lent page fails. -/
def failedLoan : World :=
  runs World.next (World.init {} {})
    [.wrapExternal lentPage, .migrate noCopy 0 .sharedHost, .release noCopy 0]

/-- The theorem at work: only the target of the migration is freed. -/
theorem borrowed_never_freed_failedLoan :
    failedLoan.core.os.calls.length = 2 ∧
      ∀ d a, .freed d a ∈ failedLoan.core.os.calls → ¬ Lent a := by
  have hreach : Reach World.next World.LeavesBorrowed (World.init {} {}) failedLoan :=
    .next _ (.next _ (.next _ .start (by decide)) (by decide)) (by decide)
  exact ⟨by decide, (borrowed_never_freed hreach).1⟩

end UnifiedBuffer
