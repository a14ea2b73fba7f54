import UnifiedBuffer.Inventory.Balance

set_option autoImplicit false

/-! # Quotas and capacity caps

`reserve_amount` checks a request against the counters of its own namespace. This bounds what a
namespace holds as long as no slot of the pool changes its namespace: the bytes of a slot stay
committed to the namespace that released it, so a buffer made from a slot of another namespace is
not counted against the quota of its own.

The capacity check reads the same counters, although the cap is one of the domain: it holds as long
as each reservation also fits next to what the other namespaces have. -/

namespace UnifiedBuffer

open Lib

/-! ## Quotas -/

/-- What is held in a cell with a quota is committed there, and committed and reserved bytes
together stay within the quota. -/
structure Stock.WithinQuota (s : Stock) : Prop where
  regular : s.Regular
  held : ∀ n d, s.house.quota n d ≠ 0 → s.charge (fun _ => true) n d ≤ s.ledger.comm n d
  bound : ∀ n d, s.house.quota n d ≠ 0 →
    s.ledger.comm n d + s.ledger.res n d ≤ (s.house.quota n d).toNat

/-- No slot changes its namespace, and the sum that is compared with a quota does not wrap. -/
def Stock.KeepsOwners (s : Stock) : Deal → Prop
  | .reserve ns d bytes =>
      s.house.quota ns d ≠ 0 → s.ledger.comm ns d + s.ledger.res ns d + bytes.toNat < 2 ^ 64
  | .take p h => p.owner = h.ns
  | .lose ns p => p.owner = ns
  | _ => True

instance (s : Stock) : (deal : Deal) → Decidable (s.KeepsOwners deal)
  | .reserve .. => inferInstanceAs (Decidable (_ → _))
  | .take .. => inferInstanceAs (Decidable (_ = _))
  | .lose .. => inferInstanceAs (Decidable (_ = _))
  | .unreserve .. | .visit .. | .waste .. | .book .. | .shelve .. | .settle .. | .drop ..
  | .wrap .. | .receive .. | .stray .. | .trim .. | .close | .requota .. => instDecidableTrue

namespace Stock

variable {s : Stock} {deal : Deal}

theorem quota_apply (hint : deal.Internal) : (s.apply deal).house.quota = s.house.quota := by
  cases deal with
  | requota quota => exact absurd hint id
  | reserve | unreserve | visit | waste | book | take | lose | shelve | settle | drop | wrap | receive
  | stray | trim | close => rfl

/-- Nothing is added to a cell without being committed there. -/
theorem adds_debits_le (h : s.Regular) (hcan : s.Can deal) (hint : deal.Internal)
    (hown : s.KeepsOwners deal) (n : NamespaceId) (d : MemoryDomain) :
    deal.adds (fun _ => true) n d + deal.debits n d
      ≤ deal.removes (fun _ => true) n d + deal.credits n d := by
  cases deal with
  | wrap | receive | stray | requota => exact absurd hint id
  | reserve | unreserve | visit | close => exact Nat.le_refl _
  | book b => exact Nat.le_of_eq (Nat.add_comm _ 0)
  | settle b => exact Nat.le_of_eq (Nat.add_comm 0 _)
  | trim p => exact Nat.le_of_eq (Nat.add_comm 0 _)
  | drop b => exact Nat.zero_le _
  | lose ns p =>
      have howner : p.owner = ns := hown
      subst howner
      exact Nat.le_of_eq (Nat.add_comm 0 _)
  | take p b =>
      obtain ⟨-, hback, hdomain, hcommitted, -⟩ := hcan
      have howner : p.owner = b.ns := hown
      -- a slot counts for its last owner, a buffer for its namespace: here they are the same
      show b.bytesAt n d ≤ p.bytesAt n d
      unfold Holding.bytesAt Deposit.bytesAt
      rw [howner, ← hdomain, ← hback, ← hcommitted]
  | shelve b =>
      show b.deposit.bytesAt n d ≤ b.bytesAt n d
      unfold Holding.bytesAt Deposit.bytesAt Holding.deposit
      rw [(h b hcan.1 hcan.2.1).2]
  | waste ns d' owner a undo =>
      cases undo with
      | none => exact Nat.zero_le _
      | some bytes =>
          have hle := UInt64.le_iff_toNat_le.mp (hcan.2.2.2 bytes rfl)
          show 0 + portion ns d' bytes n d ≤ 0 + portion ns d' a.committed n d
          unfold portion
          split <;> omega

theorem bound_apply (h : s.WithinQuota) (hcan : s.Can deal) (hown : s.KeepsOwners deal)
    {n : NamespaceId} {d : MemoryDomain} (hq : s.house.quota n d ≠ 0) :
    (s.apply deal).ledger.comm n d + (s.apply deal).ledger.res n d
      ≤ (s.house.quota n d).toNat := by
  have hbound := h.bound n d hq
  by_cases hdeal : ∃ ns d' bytes, deal = .reserve ns d' bytes
  · obtain ⟨ns, d', bytes, rfl⟩ := hdeal
    obtain ⟨l, hl⟩ := hcan
    show (s.reserved ns d' bytes).comm n d + (s.reserved ns d' bytes).res n d ≤ _
    rw [Stock.reserved_eq hl]
    rcases Ledger.reserveAmount_ok hl with ⟨-, rfl⟩ | ⟨-, -, hquota, rfl⟩
    · exact hbound
    have hres := (Cells.toNat_set_add ns n d' d bytes s.ledger.reserved).1
    unfold portion at hres
    split at hres
    · -- the cell of the reservation: the check of `reserve_amount` did not wrap
      rename_i hcell
      obtain ⟨rfl, rfl⟩ := hcell
      have hfit := hown hq
      have hsum := UInt64.le_iff_toNat_le.mp (hquota hq)
      unfold Ledger.comm Ledger.res at hfit
      rw [toNat_add_of_lt (by rw [toNat_add_of_lt (by omega)]; exact hfit),
        toNat_add_of_lt (by omega)] at hsum
      unfold Ledger.comm Ledger.res
      simp only
      omega
    · unfold Ledger.comm Ledger.res at hbound ⊢
      simp only
      omega
  · have hsink := (sinking_cells n d).apply hcan (fun ns d' bytes heq => hdeal ⟨ns, d', bytes, heq⟩)
    exact Nat.le_trans hsink hbound

theorem withinQuota_apply (h : s.WithinQuota) (hcan : s.Can deal)
    (hgood : deal.Internal ∧ s.KeepsOwners deal) : (s.apply deal).WithinQuota := by
  obtain ⟨hint, hown⟩ := hgood
  refine ⟨regular_apply h.regular hcan, fun n d hq => ?_, fun n d hq => ?_⟩
  · rw [quota_apply hint] at hq
    have hbound := h.bound n d hq
    have hcredit := Deal.credits_le n d hcan
    have hquota := (s.house.quota n d).toNat_lt
    exact lower_apply (h.held n d hq) hcan (by omega) (adds_debits_le h.regular hcan hint hown n d)
  · rw [quota_apply hint] at hq ⊢
    exact bound_apply h hcan hown hq

end Stock

/-- The operation takes no slot for another namespace than the one that released it, and makes no
reservation whose sum wraps. -/
def World.KeepsOwners (w : World) (op : Op) : Prop := w.Keeps Stock.KeepsOwners op

instance (w : World) (op : Op) : Decidable (w.KeepsOwners op) :=
  inferInstanceAs (Decidable (w.Keeps _ op))

/-- In other words: a slot that is taken out of the pool was released by the namespace that takes
it, and no reservation under a quota wraps. -/
theorem World.keepsOwners_of {w : World} {op : Op}
    (hslot : ∀ ns slot, w.TakesSlot op ns slot → slot.lastOwner = ns)
    (hfits : ∀ ns d bytes, w.Reserves op ns d bytes → w.core.rt.domainQuota ns d ≠ 0 →
      w.core.rt.ledger.comm ns d + w.core.rt.ledger.res ns d + bytes.toNat < 2 ^ 64) :
    w.KeepsOwners op := by
  refine World.keeps_of hfits fun deal haccount s => ?_
  cases deal with
  | reserve => exact absurd haccount id
  | take p h =>
      obtain ⟨slot, htakes, howner⟩ := haccount
      exact howner.trans (hslot _ slot htakes)
  | lose ns p =>
      obtain ⟨slot, htakes, howner⟩ := haccount
      exact howner.trans (hslot ns slot htakes)
  | unreserve | visit | waste | book | shelve | settle | drop | wrap | receive | stray | trim | close
  | requota => trivial

/-- **Quotas are sound** in every run without wrapped or imported memory in which no slot of the
pool changes its namespace: what the registered buffers of a namespace with a quota have committed
in a domain is within the quota. -/
theorem quotas_sound {cfg : RuntimeConfig} {plat : RuntimeImpl.Platform} {w : World}
    (hreach : Reach World.next (fun w op => op.Internal ∧ w.KeepsOwners op) (World.init cfg plat) w)
    (n : NamespaceId) (d : MemoryDomain) (hq : w.core.rt.domainQuota n d ≠ 0) :
    w.core.registeredBytes n d ≤ (w.core.rt.domainQuota n d).toNat := by
  have h : w.core.stock.WithinQuota := by
    refine World.stock_invariant Stock.WithinQuota
      (fun s deal => deal.Internal ∧ s.KeepsOwners deal) hreach
      (fun w op _ _ hok => (w.keeps_internal hok.1).and hok.2) ?_
      (fun _ _ h hcan hgood => Stock.withinQuota_apply h hcan hgood)
    exact ⟨fun h hmem => absurd hmem (Multiset.notMem_zero h), fun _ _ _ => Nat.le_refl _,
      fun _ _ _ => Nat.zero_le _⟩
  have hheld := h.held n d hq
  have hbound := h.bound n d hq
  have hlive := (World.refInv_reach hreach).liveBytes_eq n d
  show _ ≤ (w.core.stock.house.quota n d).toNat
  unfold Stock.charge at hheld
  omega

/-- A runtime with a second namespace that may hold 5000 bytes of host memory. -/
def smallQuota : RuntimeConfig := { namespaces := [{ hostQuota := 5000 }] }

/-- The first namespace leaves a slot of 8192 bytes, and the second one asks for 4100. -/
def borrowedSlot : World :=
  runs World.next (World.init smallQuota {})
    [.allocate (.findsAt 4096) { size := 8192 }, .release {} 0,
      .allocate (.findsAt 4096) { ns := 2, size := 4100 }]

/-- The second namespace gets the slot, which is larger than its quota. -/
theorem slot_of_other_namespace_exceeds_quota :
    borrowedSlot.core.rt.domainQuota 2 .host = 5000 ∧
      borrowedSlot.core.registeredBytes 2 .host = 8192 :=
  ⟨by decide, by decide⟩

/-- A runtime with a second namespace that may hold two pages of host memory. -/
def roomyQuota : RuntimeConfig := { namespaces := [{ hostQuota := 8192 }] }

/-- Each namespace has a page; the second one releases its page to the pool and takes it again. -/
def ownSlot : World :=
  runs World.next (World.init roomyQuota {})
    [.allocate (.findsAt 4096) { size := 4096 }, .allocate (.findsAt 8192) { ns := 2, size := 4096 },
      .release {} 1, .allocate {} { ns := 2, size := 4096 }]

/-- The theorem at work: the page of the second namespace comes from the pool and is within its
quota, next to the page of the first namespace. -/
theorem quotas_sound_ownSlot :
    ownSlot.core.rt.telem.poolHits = 1 ∧ (ownSlot.core.control 2).record.backing.base = 8192 ∧
      ownSlot.core.registeredBytes 1 .host = 4096 ∧ ownSlot.core.registeredBytes 2 .host = 4096 ∧
      ownSlot.core.registeredBytes 2 .host ≤ (ownSlot.core.rt.domainQuota 2 .host).toNat := by
  have hreach : Reach World.next (fun w op => op.Internal ∧ w.KeepsOwners op)
      (World.init roomyQuota {}) ownSlot :=
    .next _ (.next _ (.next _ (.next _ .start (by decide)) (by decide)) (by decide)) (by decide)
  exact ⟨by decide, by decide, by decide, by decide, quotas_sound hreach 2 .host (by decide)⟩

/-! ## Capacity caps -/

/-- The committed and reserved bytes of all namespaces in a domain. -/
def Ledger.inUse (l : Ledger) (d : MemoryDomain) : Nat := l.committed.total d + l.reserved.total d

/-- All namespaces together stay within the caps. -/
def Stock.WithinCaps (s : Stock) : Prop :=
  ∀ d, s.house.cap d ≠ 0 → s.ledger.inUse d ≤ (s.house.cap d).toNat

/-- A reservation would also pass the capacity check with the counters of all namespaces. -/
def Stock.LeavesRoom (s : Stock) : Deal → Prop
  | .reserve _ d bytes =>
      s.house.cap d ≠ 0 → s.ledger.inUse d + bytes.toNat ≤ (s.house.cap d).toNat
  | _ => True

instance (s : Stock) : (deal : Deal) → Decidable (s.LeavesRoom deal)
  | .reserve .. => inferInstanceAs (Decidable (_ → _))
  | .unreserve .. | .visit .. | .waste .. | .book .. | .take .. | .lose .. | .shelve ..
  | .settle .. | .drop .. | .wrap .. | .receive .. | .stray .. | .trim .. | .close
  | .requota .. => instDecidableTrue

namespace Stock

variable {s : Stock} {deal : Deal}

/-- The caps do not change, but they are gone with the backends. -/
theorem cap_apply (d : MemoryDomain) :
    (s.apply deal).house.cap d = s.house.cap d ∨ (s.apply deal).house.cap d = 0 := by
  cases deal with
  | close => exact Or.inr rfl
  | reserve | unreserve | visit | waste | book | take | lose | shelve | settle | drop | wrap | receive
  | stray | trim | requota => exact Or.inl rfl

theorem inUse_apply (hcan : s.Can deal) (hroom : s.LeavesRoom deal) {d : MemoryDomain}
    (hcap : s.house.cap d ≠ 0) (h : s.ledger.inUse d ≤ (s.house.cap d).toNat) :
    (s.apply deal).ledger.inUse d ≤ (s.house.cap d).toNat := by
  by_cases hdeal : ∃ ns d' bytes, deal = .reserve ns d' bytes
  · obtain ⟨ns, d', bytes, rfl⟩ := hdeal
    obtain ⟨l, hl⟩ := hcan
    show (s.reserved ns d' bytes).inUse d ≤ _
    rw [Stock.reserved_eq hl]
    rcases Ledger.reserveAmount_ok hl with ⟨-, rfl⟩ | ⟨-, -, -, rfl⟩
    · exact h
    have hadd := s.ledger.reserved.total_set_add ns d' d bytes
    unfold Ledger.inUse at h ⊢
    by_cases hd : d' = d
    · subst hd
      -- only the domain of the reservation grows, and there the deal leaves room
      have hfit := hroom hcap
      unfold Ledger.inUse at hfit
      rw [if_pos rfl] at hadd
      simp only
      omega
    · rw [if_neg hd] at hadd
      simp only
      omega
  · have hsink := (sinking_totals d).apply hcan (fun ns d' bytes heq => hdeal ⟨ns, d', bytes, heq⟩)
    exact Nat.le_trans hsink h

theorem withinCaps_apply (h : s.WithinCaps) (hcan : s.Can deal) (hroom : s.LeavesRoom deal) :
    (s.apply deal).WithinCaps := by
  intro d hcap
  have hkeep : (s.apply deal).house.cap d = s.house.cap d ∨ _ := s.cap_apply d
  rcases hkeep with heq | hnone
  · rw [heq] at hcap ⊢
    exact inUse_apply hcan hroom hcap (h d hcap)
  · exact absurd hnone hcap

end Stock

/-- Each reservation of the operation fits into what all namespaces leave of the cap. -/
def World.LeavesRoom (w : World) (op : Op) : Prop := w.Keeps Stock.LeavesRoom op

instance (w : World) (op : Op) : Decidable (w.LeavesRoom op) :=
  inferInstanceAs (Decidable (w.Keeps _ op))

/-- In other words: the bytes that an operation reserves fit into what all namespaces together leave
of the cap. -/
theorem World.leavesRoom_of {w : World} {op : Op}
    (hroom : ∀ ns d bytes, w.Reserves op ns d bytes → w.core.rt.capFor d ≠ 0 →
      w.core.rt.ledger.inUse d + bytes.toNat ≤ (w.core.rt.capFor d).toNat) : w.LeavesRoom op := by
  refine World.keeps_of hroom fun deal haccount s => ?_
  cases deal with
  | reserve => exact absurd haccount id
  | unreserve | visit | waste | book | take | lose | shelve | settle | drop | wrap | receive | stray
  | trim | close | requota => trivial

/-- **Caps hold across namespaces** in every run in which each reservation fits into what all
namespaces leave of the cap. -/
theorem caps_hold {cfg : RuntimeConfig} {plat : RuntimeImpl.Platform} {w : World}
    (hreach : Reach World.next World.LeavesRoom (World.init cfg plat) w) (d : MemoryDomain)
    (hcap : w.core.rt.capFor d ≠ 0) : w.core.rt.ledger.inUse d ≤ (w.core.rt.capFor d).toNat := by
  have h : w.core.stock.WithinCaps :=
    World.stock_invariant Stock.WithinCaps Stock.LeavesRoom hreach (fun _ _ _ _ hok => hok)
      (fun _ _ => Nat.zero_le _) (fun _ _ h hcan hroom => Stock.withinCaps_apply h hcan hroom)
  exact h d hcap

/-- A runtime with two namespaces and a cap of one page of host memory. -/
def onePageCap : RuntimeConfig := { hostCap := 4096, namespaces := [{}] }

def twoPages : World :=
  runs World.next (World.init onePageCap {})
    [.allocate (.findsAt 4096) { size := 4096 },
      .allocate (.findsAt 8192) { ns := 2, size := 4096 }]

/-- Two pages are committed under a cap of one. -/
theorem second_namespace_exceeds_cap :
    twoPages.core.rt.capFor .host = 4096 ∧ twoPages.core.rt.ledger.inUse .host = 8192 :=
  ⟨by decide, by decide⟩

/-- The second namespace allocates its page after the first one has freed its own. -/
def pageAfterPage : World :=
  runs World.next (World.init onePageCap {})
    [.allocate (.findsAt 4096) { size := 4096 }, .release {} 0, .poolTrim,
      .allocate (.findsAt 4096) { ns := 2, size := 4096 }]

/-- The theorem at work: the one page is the cap. -/
theorem caps_hold_pageAfterPage :
    pageAfterPage.core.rt.ledger.inUse .host = 4096 ∧
      pageAfterPage.core.rt.ledger.inUse .host ≤ (pageAfterPage.core.rt.capFor .host).toNat := by
  have hreach : Reach World.next World.LeavesRoom (World.init onePageCap {}) pageAfterPage :=
    .next _ (.next _ (.next _ (.next _ .start (by decide)) (by decide)) (by decide)) (by decide)
  exact ⟨by decide, caps_hold hreach .host (by decide)⟩

/-! ## The arithmetic of one reservation -/

namespace RuntimeImpl

variable (rt : RuntimeImpl) (n : NamespaceId) (d : MemoryDomain) (bytes : UInt64)

/-- What is committed, reserved and asked for, as a number. -/
def demand : Nat := rt.ledger.comm n d + rt.ledger.res n d + bytes.toNat

/-- If the call of `reserve_amount` succeeds, the demand is within the limits and the reserved cell
grows by the bytes. -/
def ReservesExactly : Prop :=
  ∀ rt', rt.reserveAmount n d bytes = (.ok (), rt') →
    (rt.capFor d ≠ 0 → rt.demand n d bytes ≤ (rt.capFor d).toNat) ∧
      (rt.domainQuota n d ≠ 0 → rt.demand n d bytes ≤ (rt.domainQuota n d).toNat) ∧
      rt'.ledger.res n d = rt.ledger.res n d + bytes.toNat

/-- No sum that the call compares or stores wraps, and a call for no bytes, which is not checked at
all, finds the limits kept. -/
structure FitsWord : Prop where
  stored : rt.ledger.res n d + bytes.toNat < 2 ^ 64
  compared : rt.capFor d ≠ 0 ∨ rt.domainQuota n d ≠ 0 → rt.demand n d bytes < 2 ^ 64
  nothing : bytes = 0 → (rt.capFor d ≠ 0 → rt.demand n d bytes ≤ (rt.capFor d).toNat) ∧
    (rt.domainQuota n d ≠ 0 → rt.demand n d bytes ≤ (rt.domainQuota n d).toNat)

/-- The sum that is compared is the demand unless it wraps. -/
theorem toNat_demand (h : rt.demand n d bytes < 2 ^ 64) :
    (rt.ledger.committed.get n d + rt.ledger.reserved.get n d + bytes).toNat
      = rt.demand n d bytes := by
  unfold demand Ledger.comm Ledger.res at *
  rw [UInt64.toNat_add, UInt64.toNat_add]
  omega

end RuntimeImpl

/-- **When the admission arithmetic is exact.** A call of `reserve_amount` that succeeds keeps to
the limits and grows the reserved cell by its bytes exactly if its sums do not wrap and, when it is
for no bytes, the limits were kept before. -/
theorem reserve_exact_iff (rt : RuntimeImpl) (n : NamespaceId) (d : MemoryDomain) (bytes : UInt64) :
    rt.ReservesExactly n d bytes ↔
      ((rt.reserveAmount n d bytes).1 = .ok () → rt.FitsWord n d bytes) := by
  constructor
  · intro hexact hok
    obtain ⟨hcap, hquota, hcell⟩ := hexact _ (Prod.ext hok rfl)
    refine ⟨?_, fun hlimit => ?_, fun _ => ⟨hcap, hquota⟩⟩
    · rw [← hcell]
      exact (UInt64.toNat_lt _)
    · rcases hlimit with hne | hne
      · exact Nat.lt_of_le_of_lt (hcap hne) (UInt64.toNat_lt _)
      · exact Nat.lt_of_le_of_lt (hquota hne) (UInt64.toNat_lt _)
  · intro hfits rt' hr
    have h := hfits (congrArg Prod.fst hr)
    rcases RuntimeImpl.reserveAmount_cases hr with ⟨e, he, -⟩ | ⟨l, -, rfl, hl⟩
    · cases he
    have hcell : l.res n d = rt.ledger.res n d + bytes.toNat := by
      have hgrows := (Ledger.res_reserveAmount n d hl).2
      rw [portion_self] at hgrows
      exact hgrows h.stored
    rcases Ledger.reserveAmount_ok hl with ⟨hzero, -⟩ | ⟨-, hcap, hquota, -⟩
    -- a call for no bytes checks nothing
    · exact ⟨(h.nothing hzero).1, (h.nothing hzero).2, hcell⟩
    · refine ⟨fun hne => ?_, fun hne => ?_, hcell⟩
      · rw [← rt.toNat_demand n d bytes (h.compared (Or.inl hne))]
        exact UInt64.le_iff_toNat_le.mp (hcap hne)
      · rw [← rt.toNat_demand n d bytes (h.compared (Or.inr hne))]
        exact UInt64.le_iff_toNat_le.mp (hquota hne)

/-- A page of shared memory under a cap of two pages, and external memory that is said to be a page
shorter than the address space. -/
def hugeWrap : World :=
  runs World.next (World.init { sharedCap := 8192 } {})
    [.allocate (.findsAt 4096) { size := 4096, domain := .sharedHost },
      .wrapExternal { pointer := 65536, size := 0xFFFFFFFFFFFFF000 }]

/-- The theorem at work: a second page is reserved exactly, the external memory is not. -/
theorem reserve_exact_iff_hugeWrap :
    hugeWrap.core.rt.ReservesExactly 1 .sharedHost 4096 ∧
      ¬ hugeWrap.core.rt.ReservesExactly 1 .sharedHost 0xFFFFFFFFFFFFF000 := by
  constructor
  · exact (reserve_exact_iff _ _ _ _).mpr fun _ =>
      ⟨by decide, fun _ => by decide, fun h => absurd h (by decide)⟩
  · intro hexact
    have hfits := (reserve_exact_iff _ _ _ _).mp hexact (by decide)
    exact absurd (hfits.compared (Or.inl (by decide))) (by decide)

/-- The migration of the external memory asks for so many bytes that the sum wraps to zero: they are
admitted under the cap. -/
theorem huge_reservation_admitted :
    Reach World.next (fun _ _ => True) (World.init { sharedCap := 8192 } {}) hugeWrap ∧
      RuntimeImpl.migrateSize (hugeWrap.core.control 1).record = 0xFFFFFFFFFFFFF000 ∧
      (hugeWrap.core.rt.reserveAmount 1 .sharedHost 0xFFFFFFFFFFFFF000).1 = .ok () ∧
      hugeWrap.core.rt.capFor .sharedHost = 8192 ∧
      hugeWrap.core.rt.demand 1 .sharedHost 0xFFFFFFFFFFFFF000 = 2 ^ 64 ∧
      (hugeWrap.step (.migrate (.findsAt 131072) 1 .sharedHost)).1 = .ok (.object 2) := by
  refine ⟨reach_runs .start ⟨trivial, trivial, trivial⟩, ?_, ?_, ?_, ?_, ?_⟩ <;> decide

end UnifiedBuffer
