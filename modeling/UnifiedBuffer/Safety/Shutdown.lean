import UnifiedBuffer.Inventory.Balance
import UnifiedBuffer.Safety.Ownership

set_option autoImplicit false

/-! # Shutdown

Once the runtime is shut down and every reference is dropped, nothing of the runtime's own memory
is left over, provided that `shutdown` comes after the last release of a buffer that the runtime
owns. It destroys the backends; a buffer that is released later finds none to free its backing, and
may even go to the pool, which nobody trims any more.

Two further conditions concern the committed bytes: they stay behind when a slot of the pool changes
its namespace, and when a borrowed buffer is migrated. -/

namespace UnifiedBuffer

open Lib

/-! ## The invariant -/

/-- The bytes of the buffer are given back when it is finalized. -/
def Holding.settles (h : Holding) : Bool := h.backing.present && h.ownership != .borrowed

/-- Shutdown comes after the last buffer of the runtime's own memory, no slot changes its namespace,
and no borrowed buffer gets a new backing. -/
def Stock.ClosesLast (s : Stock) : Deal → Prop
  | .book h => h.ownership ≠ .borrowed
  | .take p h => p.owner = h.ns
  | .close => ∀ h ∈ s.live, h.ownership ≠ .runtime
  | _ => True

instance (s : Stock) : (deal : Deal) → Decidable (s.ClosesLast deal)
  | .book .. => inferInstanceAs (Decidable (_ ≠ _))
  | .take .. => inferInstanceAs (Decidable (_ = _))
  | .close => inferInstanceAs (Decidable (∀ h ∈ s.live, h.ownership ≠ .runtime))
  | .reserve .. | .unreserve .. | .visit .. | .waste .. | .lose .. | .shelve ..
  | .settle .. | .drop .. | .wrap .. | .receive .. | .stray .. | .trim .. | .requota .. =>
      instDecidableTrue

/-- The backing is freed, or a buffer or slot still has it. -/
def Stock.Accounted (s : Stock) (x : Backing) : Prop :=
  .freed x.1 x.2 ∈ s.calls ∨ (∃ h ∈ s.live, h.filed = x ∧ h.ownership = .runtime) ∨
    ∃ p ∈ s.idle, p.filed = x

/-- Nothing is lost, and what the runtime owns has a backend to go back to. -/
structure Stock.Leakless (s : Stock) : Prop where
  regular : s.Regular
  live : ∀ h ∈ s.live, h.ownership = .runtime →
    h.backing.present = true ∧ s.house.backends h.domain = true
  idle : ∀ p ∈ s.idle, p.backing.present = true ∧ s.house.backends p.domain = true
  closed : s.house.closed = true → ∀ d, s.house.backends d = false
  allocated : ∀ d a, .allocated d .runtime a ∈ s.calls → s.Accounted (d, a)
  cells : ∀ n d, s.ledger.comm n d ≤ s.charge Holding.settles n d

namespace Stock

variable {s s' : Stock} {deal : Deal} {x : Backing}

/-- Each place where a backing may be is looked at on its own. -/
theorem Accounted.imp (h : s.Accounted x) (hfreed : .freed x.1 x.2 ∈ s.calls → s'.Accounted x)
    (hlive : ∀ b ∈ s.live, b.filed = x → b.ownership = .runtime → s'.Accounted x)
    (hidle : ∀ p ∈ s.idle, p.filed = x → s'.Accounted x) : s'.Accounted x := by
  rcases h with h | ⟨b, hb, hx, howner⟩ | ⟨p, hp, hx⟩
  · exact hfreed h
  · exact hlive b hb hx howner
  · exact hidle p hp hx

/-- More calls, buffers and slots account for no less. -/
theorem Accounted.mono (h : s.Accounted x) (hcalls : ∀ call ∈ s.calls, call ∈ s'.calls)
    (hlive : ∀ b ∈ s.live, b ∈ s'.live) (hidle : ∀ p ∈ s.idle, p ∈ s'.idle) : s'.Accounted x :=
  h.imp (fun hf => Or.inl (hcalls _ hf))
    (fun b hb hx howner => Or.inr (Or.inl ⟨b, hlive b hb, hx, howner⟩))
    (fun p hp hx => Or.inr (Or.inr ⟨p, hidle p hp, hx⟩))

theorem mem_freeIn {d : MemoryDomain} (hback : s.house.backends d = true) (a : NativeAllocation) :
    .freed d a ∈ s.freeIn d a := by
  rw [freeIn, if_pos hback]
  exact List.mem_cons_self

theorem mem_freeIn_of_mem {call : BackendCall} (h : call ∈ s.calls) (d : MemoryDomain)
    (a : NativeAllocation) : call ∈ s.freeIn d a := by
  unfold freeIn
  split
  · exact List.mem_cons_of_mem _ h
  · exact h

theorem allocated_of_freeIn {d d' : MemoryDomain} {a a' : NativeAllocation} {owner : Ownership}
    (h : .allocated d owner a ∈ s.freeIn d' a') : .allocated d owner a ∈ s.calls := by
  unfold freeIn at h
  split at h
  · rcases List.mem_cons.mp h with heq | h
    · cases heq
    · exact h
  · exact h

theorem Leakless.accounted_apply (h : s.Leakless) (hcan : s.Can deal) (hfull : deal.Fulfilled)
    {d : MemoryDomain} {a : NativeAllocation}
    (hmem : .allocated d .runtime a ∈ (s.apply deal).calls) :
    (s.apply deal).Accounted (d, a) := by
  cases deal with
  | waste | lose => exact absurd hfull id
  | reserve | unreserve | close | requota => exact h.allocated d a hmem
  | wrap b =>
      exact (h.allocated d a hmem).mono (fun _ hc => hc) (fun _ hb => Multiset.mem_cons_of_mem hb)
        (fun _ hp => hp)
  | receive b =>
      rcases List.mem_cons.mp hmem with heq | hmem
      · cases heq
      · exact (h.allocated d a hmem).mono (fun _ hc => List.mem_cons_of_mem _ hc)
          (fun _ hb => Multiset.mem_cons_of_mem hb) (fun _ hp => hp)
  | stray d' a' =>
      rcases List.mem_cons.mp hmem with heq | hmem
      · cases heq
      · exact (h.allocated d a hmem).mono (fun _ hc => List.mem_cons_of_mem _ hc)
          (fun _ hb => hb) (fun _ hp => hp)
  | visit d' owner a' =>
      rcases List.mem_cons.mp hmem with heq | hmem
      · cases heq
      rcases List.mem_cons.mp hmem with heq | hmem
      · cases heq
        exact Or.inl List.mem_cons_self
      · exact (h.allocated d a hmem).mono
          (fun _ hc => List.mem_cons_of_mem _ (List.mem_cons_of_mem _ hc)) (fun _ hb => hb)
          (fun _ hp => hp)
  | book b =>
      rcases List.mem_cons.mp hmem with heq | hmem
      · obtain ⟨rfl, howner, rfl⟩ := BackendCall.allocated.inj heq
        exact Or.inr (Or.inl ⟨b, Multiset.mem_cons_self _ _, rfl, howner.symm⟩)
      · exact (h.allocated d a hmem).mono (fun _ hc => List.mem_cons_of_mem _ hc)
          (fun _ hb => Multiset.mem_cons_of_mem hb) (fun _ hp => hp)
  | take p b =>
      obtain ⟨-, hback, hdomain, -, howner, -⟩ := hcan
      have hfiled : b.filed = p.filed := Prod.ext hdomain hback
      refine (h.allocated d a hmem).imp Or.inl
        (fun b' hb' hx hrun => Or.inr (Or.inl ⟨b', Multiset.mem_cons_of_mem hb', hx, hrun⟩))
        (fun p' hp' hx => ?_)
      rcases eq_or_mem_erase (a := p) hp' with rfl | hp'
      · exact Or.inr (Or.inl ⟨b, Multiset.mem_cons_self _ _, hfiled.trans hx, howner⟩)
      · exact Or.inr (Or.inr ⟨p', hp', hx⟩)
  | shelve b =>
      refine (h.allocated d a hmem).imp Or.inl (fun b' hb' hx hrun => ?_)
        (fun p' hp' hx => Or.inr (Or.inr ⟨p', Multiset.mem_cons_of_mem hp', hx⟩))
      rcases eq_or_mem_erase (a := b) hb' with rfl | hb'
      · exact Or.inr (Or.inr ⟨b'.deposit, Multiset.mem_cons_self _ _, hx⟩)
      · exact Or.inr (Or.inl ⟨b', hb', hx, hrun⟩)
  | settle b =>
      refine (h.allocated d a (allocated_of_freeIn hmem)).imp
        (fun hf => Or.inl (mem_freeIn_of_mem hf _ _)) (fun b' hb' hx hrun => ?_)
        (fun p' hp' hx => Or.inr (Or.inr ⟨p', hp', hx⟩))
      rcases eq_or_mem_erase (a := b) hb' with rfl | hleft
      · cases hx
        exact Or.inl (mem_freeIn (h.live b' hb' hrun).2 _)
      · exact Or.inr (Or.inl ⟨b', hleft, hx, hrun⟩)
  | drop b =>
      refine (h.allocated d a hmem).imp Or.inl (fun b' hb' hx hrun => ?_)
        (fun p' hp' hx => Or.inr (Or.inr ⟨p', hp', hx⟩))
      rcases eq_or_mem_erase (a := b) hb' with rfl | hleft
      · -- a buffer of the runtime has a backing and is not borrowed
        rcases hcan.2 with habsent | hlent
        · exact absurd ((h.live b' hb' hrun).1.symm.trans habsent) (by simp)
        · cases hrun.symm.trans hlent
      · exact Or.inr (Or.inl ⟨b', hleft, hx, hrun⟩)
  | trim p =>
      refine (h.allocated d a (allocated_of_freeIn hmem)).imp
        (fun hf => Or.inl (mem_freeIn_of_mem hf _ _))
        (fun b' hb' hx hrun => Or.inr (Or.inl ⟨b', hb', hx, hrun⟩)) (fun p' hp' hx => ?_)
      rcases eq_or_mem_erase (a := p) hp' with rfl | hleft
      · cases hx
        exact Or.inl (mem_freeIn (h.idle p' hp').2 _)
      · exact Or.inr (Or.inr ⟨p', hleft, hx⟩)

/-- What the runtime owns has a backing, and a backend to go back to. -/
theorem Leakless.home_apply (h : s.Leakless) (hcan : s.Can deal) (hfull : deal.Fulfilled)
    (hlast : s.ClosesLast deal) :
    (∀ b ∈ (s.apply deal).live, b.ownership = .runtime →
      b.backing.present = true ∧ (s.apply deal).house.backends b.domain = true) ∧
    ∀ p ∈ (s.apply deal).idle,
      p.backing.present = true ∧ (s.apply deal).house.backends p.domain = true := by
  have herase := fun b b' (hb' : b' ∈ s.live.erase b) => h.live b' (Multiset.mem_of_mem_erase hb')
  have hleft := fun p p' (hp' : p' ∈ s.idle.erase p) => h.idle p' (Multiset.mem_of_mem_erase hp')
  cases deal with
  | waste | lose => exact absurd hfull id
  | reserve | unreserve | visit | stray | requota => exact ⟨h.live, h.idle⟩
  | book b =>
      exact ⟨Multiset.forall_mem_cons.mpr ⟨fun _ => ⟨hfull, hcan.2.1⟩, h.live⟩, h.idle⟩
  | take p b =>
      obtain ⟨hmem, hback, -, -, -, hbackend⟩ := hcan
      have hpresent := (h.idle p hmem).1
      rw [← hback] at hpresent
      exact ⟨Multiset.forall_mem_cons.mpr ⟨fun _ => ⟨hpresent, hbackend⟩, h.live⟩, hleft p⟩
  | shelve b =>
      obtain ⟨hmem, hpool, -⟩ := hcan
      have hhome := h.live b hmem (h.regular b hmem hpool).1
      exact ⟨herase b, Multiset.forall_mem_cons.mpr ⟨hhome, h.idle⟩⟩
  | settle b => exact ⟨herase b, h.idle⟩
  | drop b => exact ⟨herase b, h.idle⟩
  | trim p => exact ⟨h.live, hleft p⟩
  | wrap b =>
      exact ⟨Multiset.forall_mem_cons.mpr ⟨fun hrun => absurd hrun hcan.2.2.1, h.live⟩, h.idle⟩
  | receive b =>
      obtain ⟨-, -, -, howner, -⟩ := hcan
      refine ⟨Multiset.forall_mem_cons.mpr ⟨fun hrun => ?_, h.live⟩, h.idle⟩
      cases howner.symm.trans hrun
  | close =>
      -- the backends go last: the pool is empty, and what is left is not the runtime's
      refine ⟨fun b hb hrun => absurd hrun (hlast b hb), fun p hp => ?_⟩
      have hp : p ∈ s.idle := hp
      rw [show s.idle = 0 from hcan] at hp
      exact absurd hp (Multiset.notMem_zero p)

theorem Leakless.closed_apply (h : s.Leakless) (hclosed : (s.apply deal).house.closed = true)
    (d : MemoryDomain) : (s.apply deal).house.backends d = false := by
  cases deal with
  | close => rfl
  | reserve | unreserve | visit | waste | book | take | lose | shelve | settle | drop | wrap | receive
  | stray | trim | requota => exact h.closed hclosed d

theorem chargeAt_le (counts : Holding → Bool) (b : Holding) (n : NamespaceId) (d : MemoryDomain) :
    b.chargeAt counts n d ≤ b.bytesAt n d := by
  unfold Holding.chargeAt
  split
  · exact Nat.le_refl _
  · exact Nat.zero_le _

/-- Nothing is committed or taken off the charge without its counterpart. -/
theorem Leakless.balanced (h : s.Leakless) (hcan : s.Can deal) (hfull : deal.Fulfilled)
    (hlast : s.ClosesLast deal) (n : NamespaceId) (d : MemoryDomain) :
    deal.removes Holding.settles n d + deal.credits n d
      ≤ deal.adds Holding.settles n d + deal.debits n d := by
  cases deal with
  | waste | lose => exact absurd hfull id
  | reserve | unreserve | visit | wrap | receive | stray | close | requota => exact Nat.zero_le _
  | trim p => exact Nat.le_of_eq (Nat.add_comm _ 0)
  | settle b =>
      have hle := chargeAt_le Holding.settles b n d
      show b.chargeAt Holding.settles n d + 0 ≤ 0 + b.bytesAt n d
      omega
  | drop b =>
      -- what is dropped was never charged
      have hnone : b.settles = false := by
        unfold Holding.settles
        rcases hcan.2 with habsent | hlent
        · simp [habsent]
        · simp [hlent]
      show b.chargeAt Holding.settles n d + 0 ≤ 0
      rw [Holding.chargeAt, hnone, if_neg Bool.false_ne_true]
  | book b =>
      have hfull : b.backing.present = true := hfull
      have hlast : b.ownership ≠ .borrowed := hlast
      have hall : b.settles = true := by simp [Holding.settles, hfull, hlast]
      show 0 + b.bytesAt n d ≤ b.chargeAt Holding.settles n d
      rw [Holding.chargeAt, hall, if_pos rfl, Nat.zero_add]
  | take p b =>
      obtain ⟨hmem, hback, hdomain, hsize, howner, -⟩ := hcan
      -- the charge moves from the slot to the buffer, within one namespace
      have hns : p.owner = b.ns := hlast
      have hall : b.settles = true := by
        simp [Holding.settles, hback, (h.idle p hmem).1, howner]
      show p.bytesAt n d ≤ b.chargeAt Holding.settles n d
      rw [Holding.chargeAt, hall, if_pos rfl, Holding.bytesAt, Deposit.bytesAt, hsize, hback, hdomain,
        hns]
  | shelve b =>
      have hle := chargeAt_le Holding.settles b n d
      show b.chargeAt Holding.settles n d ≤ b.deposit.bytesAt n d
      unfold Holding.bytesAt at hle
      rw [(h.regular b hcan.1 hcan.2.1).2] at hle
      exact hle

theorem Leakless.apply (h : s.Leakless) (hcan : s.Can deal)
    (hgood : deal.Fulfilled ∧ s.ClosesLast deal) : (s.apply deal).Leakless := by
  obtain ⟨hlive, hidle⟩ := h.home_apply hcan hgood.1 hgood.2
  exact ⟨regular_apply h.regular hcan, hlive, hidle, h.closed_apply,
    fun _ _ hmem => h.accounted_apply hcan hgood.1 hmem,
    fun n d => upper_apply (h.cells n d) hcan (h.balanced hcan hgood.1 hgood.2 n d)⟩

end Stock

/-! ## Whole runs -/

theorem count_freed_le {d : MemoryDomain} {a : NativeAllocation} {n : Nat} (ha : a.tag = .native n)
    (calls : List BackendCall) : calls.count (.freed d a) ≤ (freedSerials calls).count n := by
  induction calls with
  | nil => exact Nat.le_refl _
  | cons call calls ih =>
      by_cases heq : call = .freed d a
      · subst heq
        have hserial : a.tag.serial.toList = [n] := by
          rw [ha]
          rfl
        rw [freedSerials_freed, hserial, List.count_cons_self, List.singleton_append,
          List.count_cons_self]
        omega
      · have hsub : (freedSerials calls).count n ≤ (freedSerials (call :: calls)).count n :=
          ((List.sublist_cons_self call calls).filterMap _).count_le n
        rw [List.count_cons_of_ne heq]
        omega

/-- A backing that was freed was freed once. -/
theorem Orderly.count_freed {calls : List BackendCall} (h : Orderly calls) {d : MemoryDomain}
    {a : NativeAllocation} {n : Nat} (ha : a.tag = .native n) (hmem : .freed d a ∈ calls) :
    calls.count (.freed d a) = 1 := by
  have hle := count_freed_le (d := d) ha calls
  have honce := List.nodup_iff_count_le_one.mp h.freed_nodup n
  have hpos := List.count_pos_iff.mpr hmem
  omega

/-- The operation shuts the runtime down only after the last buffer of its own memory, takes no slot
of another namespace, and replaces the backing of no borrowed buffer. -/
def World.ClosesLast (w : World) (op : Op) : Prop := w.Keeps Stock.ClosesLast op

instance (w : World) (op : Op) : Decidable (w.ClosesLast op) :=
  inferInstanceAs (Decidable (w.Keeps _ op))

theorem leakless_init (cfg : RuntimeConfig) (plat : RuntimeImpl.Platform) :
    (World.init cfg plat).core.stock.Leakless where
  regular := fun h hmem => absurd hmem (Multiset.notMem_zero h)
  live := fun h hmem => absurd hmem (Multiset.notMem_zero h)
  idle := fun p hmem => absurd hmem (Multiset.notMem_zero p)
  closed := fun hclosed => by cases hclosed
  allocated := fun _ _ hmem => by cases hmem
  cells := fun _ _ => Nat.le_refl _

/-- **Shutdown leaks nothing** in every run with reliable backends that shuts the runtime down after
the last buffer of its own memory, in which no slot changes its namespace and no borrowed buffer is
migrated: when the runtime is closed and every reference dropped, each native allocation for a
buffer of the runtime has been freed once, the pool is empty and no bytes are committed. -/
theorem shutdown_leaks_nothing {cfg : RuntimeConfig} {plat : RuntimeImpl.Platform} {w : World}
    (hreach : Reach World.next (fun w op => op.Reliable ∧ w.ClosesLast op) (World.init cfg plat) w)
    (hclosed : w.core.rt.closed = true) (hrel : w.Released) :
    (∀ d a, .allocated d .runtime a ∈ w.core.os.calls →
      w.core.os.calls.count (.freed d a) = 1) ∧
    w.core.rt.pool.all = [] ∧ ∀ n d, w.core.rt.ledger.committed.get n d = 0 := by
  have h : w.core.stock.Leakless :=
    World.stock_invariant Stock.Leakless (fun s deal => deal.Fulfilled ∧ s.ClosesLast deal) hreach
      (fun w _ _ _ hok => (w.keeps_fulfilled hok.1).and hok.2) (leakless_init cfg plat)
      (fun _ _ h hcan hgood => h.apply hcan hgood)
  have hinv := World.refInv_reach hreach
  have hlive : w.core.stock.live = 0 := by
    rw [← hinv.registered_live, hinv.registered_nil hrel]
    rfl
  -- a slot would have a backend
  have hidle : w.core.stock.idle = 0 := by
    refine Multiset.eq_zero_of_forall_notMem (fun p hp => ?_)
    have hback := (h.idle p hp).2
    rw [h.closed hclosed p.domain] at hback
    cases hback
  refine ⟨fun d a hmem => ?_, ?_, fun n d => ?_⟩
  · have horderly := (custody_reach hreach).orderly
    obtain ⟨n, hn⟩ := horderly.given_native hmem rfl
    refine horderly.count_freed hn ?_
    rcases h.allocated d a hmem with hfreed | ⟨b, hb, -⟩ | ⟨p, hp, -⟩
    · exact hfreed
    · rw [hlive] at hb
      exact absurd hb (Multiset.notMem_zero b)
    · rw [hidle] at hp
      exact absurd hp (Multiset.notMem_zero p)
  · have hslots : (w.core.rt.pool.all.map depositOf : Multiset Deposit) = 0 := hidle
    exact List.map_eq_nil_iff.mp (Multiset.coe_eq_zero _ |>.mp hslots)
  · have hcell := h.cells n d
    rw [Stock.charge, Stock.liveBytes, Stock.idleBytes, hlive, hidle] at hcell
    exact (toNat_eq_zero_iff _).mp (Nat.le_zero.mp hcell)

theorem findsAt_reliable {address : Nat} (h : address ≠ 0) : (Env.findsAt address).Reliable := by
  refine ⟨fun d bytes alignment a ha => ?_, fun _ _ _ _ => rfl, fun _ _ _ _ => rfl⟩
  cases ha
  simp [NativeAllocation.present, NativeAllocation.found, h]

/-- A page is allocated, the runtime is shut down, and the page is released. -/
def lateRelease : World :=
  runs World.next (World.init {} {})
    [.allocate (.findsAt 4096) { size := 4096 }, .shutdown {}, .release {} 0]

/-- The page is never freed: it stays in the pool of the closed runtime, and committed. -/
theorem late_release_leaks :
    lateRelease.core.rt.closed = true ∧ lateRelease.Released ∧
      lateRelease.core.os.calls
        = [.allocated .host .runtime { NativeAllocation.found 4096 4096 64 with tag := .native 0 }] ∧
      lateRelease.core.rt.pool.all.length = 1 ∧
      lateRelease.core.rt.ledger.committed.get 1 .host = 4096 :=
  ⟨by decide, by decide, by decide, by decide, by decide⟩

/-- The page is released before the runtime is shut down. -/
def timelyRelease : World :=
  runs World.next (World.init {} {})
    [.allocate (.findsAt 4096) { size := 4096 }, .release {} 0, .shutdown {}]

/-- The theorem at work: the page went to the pool and was freed with it. -/
theorem shutdown_leaks_nothing_timelyRelease :
    timelyRelease.core.os.calls.length = 2 ∧ timelyRelease.core.rt.pool.all = [] ∧
      ∀ d a, .allocated d .runtime a ∈ timelyRelease.core.os.calls →
        timelyRelease.core.os.calls.count (.freed d a) = 1 := by
  have hreach : Reach World.next (fun w op => op.Reliable ∧ w.ClosesLast op) (World.init {} {})
      timelyRelease :=
    .next _ (.next _ (.next _ .start ⟨findsAt_reliable (by decide), by decide⟩)
      ⟨trivial, by decide⟩) ⟨trivial, by decide⟩
  have h := shutdown_leaks_nothing hreach (by decide) (by decide)
  exact ⟨by decide, h.2.1, h.1⟩

end UnifiedBuffer
