import UnifiedBuffer.Inventory.Placement

set_option autoImplicit false

/-! # Exact accounting of committed bytes

In a program that uses one namespace and neither wraps nor imports memory, the committed cell of a
domain is the sum of what the registered buffers and the slots of the domain have committed. The
backends may fail to allocate and to copy, but the memory they return is really there: it does not
overlap what is outstanding, and it can be zeroed and verified.

The subtractions of the committed table are never clamped. Those of the allocated table are, since
`pool_trim` subtracts the bytes of a slot that `release_amount` has subtracted already; as long as
nothing is trimmed, none is. -/

namespace UnifiedBuffer

open Lib

/-! ## Honest backends -/

/-- The memory that the backends return is there, and can be zeroed and verified. -/
structure Env.Honest (env : Env) (calls : List BackendCall) : Prop where
  memory : ∀ d bytes alignment a, env.allocate d bytes alignment = .ok a →
    Backing.Fits (d, a) calls
  zero : ∀ d a len, len ≤ a.committed → (env.zero d a len).isOk = true
  verify : ∀ d a len, len ≤ a.committed → (env.verify d a len).isOk = true

/-- The requests of the operation use namespace `n`, and its backends are honest. -/
def World.OneNamespace (n : NamespaceId) (w : World) : Op → Prop
  | .allocate env req => req.ns = n ∧ env.Honest w.core.os.calls
  | .migrate env _ _ => env.Honest w.core.os.calls
  | op => op.Internal

/-- New buffers belong to `n`, and their memory is there. -/
def Stock.Confined (n : NamespaceId) (s : Stock) : Deal → Prop
  | .book h => h.ns = n ∧ h.ownership = .runtime ∧ h.filed.Fits s.calls
  | .take _ h => h.ns = n
  | _ => True

/-- What the deals of such an operation satisfy. -/
structure Stock.Careful (n : NamespaceId) (s : Stock) (deal : Deal) : Prop where
  internal : deal.Internal
  fulfilled : deal.Fulfilled
  confined : s.Confined n deal

theorem Deal.Closing.confined {deal : Deal} (h : deal.Closing) (n : NamespaceId) (s : Stock) :
    s.Confined n deal := by
  cases deal <;> trivial

theorem Backing.Inside.present {x : Backing} (h : x.Inside) : x.2.present = true := by
  have hbase : 1 ≤ x.2.base := h.1
  unfold NativeAllocation.base at hbase
  unfold NativeAllocation.present
  split at hbase
  · rename_i hmap
    simp [hmap]
  · have hpointer : x.2.pointer ≠ 0 := by omega
    simp [hpointer]

theorem Env.Honest.reliable {env : Env} {calls : List BackendCall} (h : env.Honest calls) :
    env.Reliable :=
  ⟨fun d bytes alignment a ha => (h.memory d bytes alignment a ha).inside.present, h.zero, h.verify⟩

section Confined

variable {n : NamespaceId} {rt : RuntimeImpl} {os : Os} {env : Env} {s : Stock}

theorem allocateDeals_confined {req : AllocationRequest} (hns : req.ns = n)
    (h : env.Honest os.calls) (hs : s.calls = os.calls) :
    Along Stock.apply (Stock.Confined n) s (rt.allocateDeals os env req) := by
  unfold RuntimeImpl.allocateDeals
  split
  · trivial
  simp only
  refine ⟨trivial, ?_⟩
  split
  · split
    · exact ⟨trivial, trivial⟩
    · exact ⟨hns, trivial⟩
  split
  · exact ⟨trivial, trivial⟩
  rename_i a ha
  split
  · exact ⟨trivial, trivial, trivial⟩
  split
  · exact ⟨trivial, trivial, trivial⟩
  · refine ⟨⟨hns, rfl, ?_⟩, trivial⟩
    show Backing.Fits (_, os.stamp a) s.calls
    rw [hs]
    exact ⟨(h.memory _ _ _ a ha).inside, (h.memory _ _ _ a ha).apart⟩

theorem migrateDeals_confined {ctl : Control} {target : MemoryDomain} (hns : ctl.record.ns = n)
    (howner : ctl.record.ownership = .runtime) (h : env.Honest os.calls)
    (hs : s.calls = os.calls) :
    Along Stock.apply (Stock.Confined n) s (rt.migrateDeals os env ctl target) := by
  unfold RuntimeImpl.migrateDeals
  split
  · trivial
  simp only
  refine ⟨trivial, ?_⟩
  split
  · exact ⟨trivial, trivial⟩
  rename_i a ha
  split
  · exact ⟨trivial, trivial, trivial⟩
  split
  · exact ⟨trivial, trivial, trivial⟩
  · refine ⟨⟨hns, howner, ?_⟩, ?_, trivial⟩
    · show Backing.Fits (_, os.stamp a) s.calls
      rw [hs]
      exact ⟨(h.memory _ _ _ a ha).inside, (h.memory _ _ _ a ha).apart⟩
    · split <;> trivial

end Confined

/-! ## The balance -/

/-- A buffer of the runtime's own memory in namespace `n`. -/
def Holding.Own (n : NamespaceId) (h : Holding) : Prop :=
  h.ns = n ∧ h.ownership = .runtime ∧ h.backing.present = true

/-- A slot that namespace `n` released. -/
def Deposit.Own (n : NamespaceId) (p : Deposit) : Prop := p.owner = n ∧ p.backing.present = true

/-- The committed cells are what is held, and no subtraction from them was clamped. -/
structure Stock.Exact (n : NamespaceId) (s : Stock) : Prop where
  custody : Custody s.held s.calls
  placed : Placed s.calls
  native : s.Native
  live : ∀ h ∈ s.live, h.Own n
  idle : ∀ p ∈ s.idle, p.Own n
  cells : ∀ m d, s.ledger.comm m d = s.charge (fun _ => true) m d
  clamps : ∀ c ∈ s.ledger.clamps, c.table = .allocated

namespace Stock

variable {n : NamespaceId} {s : Stock} {deal : Deal}

theorem Exact.not_drop (h : s.Exact n) {b : Holding} : ¬ s.Can (.drop b) := by
  rintro ⟨hmem, habsent | hlent⟩
  · exact Bool.false_ne_true (habsent.symm.trans (h.live b hmem).2.2)
  · cases (h.live b hmem).2.1.symm.trans hlent

/-- The owners of buffers and slots. -/
theorem Exact.own_apply (h : s.Exact n) (hcan : s.Can deal)
    (hgood : s.Careful n deal) :
    (∀ b ∈ (s.apply deal).live, b.Own n) ∧ ∀ p ∈ (s.apply deal).idle, p.Own n := by
  have herase : ∀ b b', b' ∈ s.live.erase b → b'.Own n := fun b b' hb' =>
    h.live b' (Multiset.mem_of_mem_erase hb')
  have hleft : ∀ p q, q ∈ s.idle.erase p → q.Own n := fun p q hq =>
    h.idle q (Multiset.mem_of_mem_erase hq)
  obtain ⟨hint, hfull, hcare⟩ := hgood
  cases deal with
  | wrap | receive | stray | requota => exact absurd hint id
  | waste | lose => exact absurd hfull id
  | reserve | unreserve | visit | close => exact ⟨h.live, h.idle⟩
  | book b =>
      obtain ⟨hns, howner, hfits⟩ := hcare
      exact ⟨Multiset.forall_mem_cons.mpr ⟨⟨hns, howner, hfits.inside.present⟩, h.live⟩, h.idle⟩
  | take p b =>
      obtain ⟨hmem, hback, -, -, howner, -⟩ := hcan
      have hpresent := (h.idle p hmem).2
      rw [← hback] at hpresent
      exact ⟨Multiset.forall_mem_cons.mpr ⟨⟨hcare, howner, hpresent⟩, h.live⟩, hleft p⟩
  | shelve b =>
      obtain ⟨hns, -, hpresent⟩ := h.live b hcan.1
      exact ⟨herase b, Multiset.forall_mem_cons.mpr ⟨⟨hns, hpresent⟩, h.idle⟩⟩
  | settle b => exact ⟨herase b, h.idle⟩
  | drop b => exact ⟨herase b, h.idle⟩
  | trim p => exact ⟨h.live, hleft p⟩

/-- What a deal does to the charge it does to the committed cell. -/
theorem Exact.balanced (h : s.Exact n) (hcan : s.Can deal)
    (hgood : s.Careful n deal) (m : NamespaceId) (d : MemoryDomain) :
    deal.adds (fun _ => true) m d + deal.debits m d
      = deal.removes (fun _ => true) m d + deal.credits m d := by
  obtain ⟨hint, hfull, hcare⟩ := hgood
  cases deal with
  | wrap | receive | stray | requota => exact absurd hint id
  | waste | lose => exact absurd hfull id
  | drop b => exact absurd hcan h.not_drop
  | reserve | unreserve | visit | close => rfl
  | book b => exact Nat.add_comm _ 0
  | settle b => exact Nat.add_comm 0 _
  | trim p => exact Nat.add_comm 0 _
  | take p b =>
      obtain ⟨hmem, hback, hdomain, hsize, -⟩ := hcan
      have hns : b.ns = p.owner := Eq.trans hcare (h.idle p hmem).1.symm
      show b.bytesAt m d = p.bytesAt m d
      unfold Holding.bytesAt Deposit.bytesAt
      rw [hsize, hback, hdomain, hns]
  | shelve b =>
      show b.deposit.bytesAt m d = b.bytesAt m d
      unfold Holding.bytesAt Deposit.bytesAt Holding.deposit
      rw [(h.native.live b hcan.1).2]

/-- Committing a new backing does not wrap. -/
theorem Exact.credits_fit (h : s.Exact n) (hcan : s.Can deal) (hfull : deal.Fulfilled)
    (hlt : ∀ m d, (s.apply deal).charge (fun _ => true) m d < 2 ^ 64) (m : NamespaceId)
    (d : MemoryDomain) : s.ledger.comm m d + deal.credits m d < 2 ^ 64 := by
  have hcells := h.cells m d
  cases deal with
  | waste => exact absurd hfull id
  | book b =>
      have hcharge := s.charge_apply (fun _ => true) m d hcan
      have hafter := hlt m d
      have hcredit : (Deal.book b).credits m d = (Deal.book b).adds (fun _ => true) m d := rfl
      have hremove : (Deal.book b).removes (fun _ => true) m d = 0 := rfl
      omega
  | reserve | unreserve | visit | take | lose | shelve | settle | drop | wrap | receive | stray | trim
  | close | requota => exact (s.ledger.committed.get m d).toNat_lt

/-- A buffer or slot is covered by its committed cell. -/
theorem Exact.live_le (h : s.Exact n) {b : Holding} (hmem : b ∈ s.live) :
    b.committed.toNat ≤ s.ledger.comm b.ns b.domain := by
  have hcells := h.cells b.ns b.domain
  have hsum := s.liveBytes_erase (fun _ => true) b.ns b.domain hmem
  have hself : b.chargeAt (fun _ => true) b.ns b.domain = b.committed.toNat := portion_self _ _ _
  unfold Stock.charge Stock.liveBytes at hcells
  omega

theorem Exact.idle_le (h : s.Exact n) {p : Deposit} (hmem : p ∈ s.idle) :
    p.backing.committed.toNat ≤ s.ledger.comm p.owner p.domain := by
  have hcells := h.cells p.owner p.domain
  have hsum := s.idleBytes_erase p.owner p.domain hmem
  have hself : p.bytesAt p.owner p.domain = p.backing.committed.toNat := portion_self _ _ _
  unfold Stock.charge Stock.idleBytes at hcells
  omega

/-- A deal adds no clamp but those of the allocated table. -/
theorem Exact.clamps_apply (h : s.Exact n) (hcan : s.Can deal)
    (hgood : s.Careful n deal) :
    ∀ c ∈ (s.apply deal).ledger.clamps, c.table = .allocated := by
  have happend : ∀ ns d counter bytes, ∀ c ∈ clampOf .allocated ns d counter bytes ++ s.ledger.clamps,
      c.table = .allocated := by
    intro ns d counter bytes c hc
    rcases List.mem_append.mp hc with hc | hc
    · exact mem_clampOf hc
    · exact h.clamps c hc
  obtain ⟨hint, hfull, hcare⟩ := hgood
  cases deal with
  | wrap | receive | stray | requota => exact absurd hint id
  | waste | lose => exact absurd hfull id
  | unreserve | visit | take | drop | close => exact h.clamps
  | reserve ns d bytes =>
      obtain ⟨l, hl⟩ := hcan
      -- a reservation goes to the reserved table, which `clamps` says nothing about
      show ∀ c ∈ (s.reserved ns d bytes).clamps, _
      rw [Stock.reserved_eq hl, (Ledger.reserveAmount_eq hl).2.2.2.1]
      exact h.clamps
  | book b =>
      show ∀ c ∈ (s.committed b.ns b.domain b.committed).clamps, _
      rw [(Ledger.commitAmount_ok (Stock.committed_eq hcan.2.2.2.1)).2.2.2.2.2]
      exact h.clamps
  | shelve b => exact happend _ _ _ _
  | settle b =>
      -- the committed cell covers what is held, so only the other subtraction may clamp
      show ∀ c ∈ (s.ledger.freeAccounting b.ns b.domain b.committed).clamps, _
      rw [s.ledger.clamps_freeAccounting _ _ _ (h.live_le hcan.1)]
      exact happend _ _ _ _
  | trim p =>
      show ∀ c ∈ (s.ledger.freeAccounting p.owner p.domain p.backing.committed).clamps, _
      rw [s.ledger.clamps_freeAccounting _ _ _ (h.idle_le hcan)]
      exact happend _ _ _ _

theorem Exact.apply (h : s.Exact n) (hcan : s.Can deal)
    (hgood : s.Careful n deal) : (s.apply deal).Exact n := by
  have hcustody := custody_apply h.custody hcan
  have hnative := native_apply h.native hcan hgood.internal
  have hplaced : Placed (s.apply deal).calls := by
    refine placed_apply h.placed hgood.internal (fun b hb => ?_)
    subst hb
    exact hgood.confined.2.2
  obtain ⟨hlive, hidle⟩ := h.own_apply hcan hgood
  have hfit := h.credits_fit hcan hgood.fulfilled (charge_lt hcustody hplaced hnative)
  exact ⟨hcustody, hplaced, hnative, hlive, hidle,
    fun m d => exact_apply (h.cells m d) hcan (hfit m d) (h.balanced hcan hgood m d),
    h.clamps_apply hcan hgood⟩

end Stock

/-! ## The allocated cells -/

/-- The deal frees no slot of the pool. -/
def Deal.KeepsSlots : Deal → Prop
  | .trim _ => False
  | _ => True

instance (deal : Deal) : Decidable deal.KeepsSlots := by
  cases deal <;> unfold Deal.KeepsSlots <;> infer_instance

/-- The allocated cells are what the buffers hold, and no subtraction was clamped. -/
structure Stock.Tallied (n : NamespaceId) (s : Stock) : Prop where
  balance : s.Exact n
  cells : ∀ m d, s.ledger.alloc m d = s.liveBytes (fun _ => true) m d
  clamps : s.ledger.clamps = []

namespace Stock

variable {n : NamespaceId} {s : Stock} {deal : Deal}

theorem Exact.live_lt (h : s.Exact n) (m : NamespaceId) (d : MemoryDomain) :
    s.liveBytes (fun _ => true) m d < 2 ^ 64 :=
  Nat.lt_of_le_of_lt (Nat.le_add_right _ _) (charge_lt h.custody h.placed h.native m d)

theorem Tallied.cells_apply (h : s.Tallied n) (hcan : s.Can deal)
    (hgood : s.Careful n deal) (hkeep : deal.KeepsSlots) (m : NamespaceId)
    (d : MemoryDomain) :
    (s.apply deal).ledger.alloc m d = (s.apply deal).liveBytes (fun _ => true) m d := by
  have hcells := h.cells m d
  have hlt := (h.balance.apply hcan hgood).live_lt m d
  obtain ⟨hint, hfull, hcare⟩ := hgood
  cases deal with
  | wrap | receive | stray | requota => exact absurd hint id
  | waste | lose => exact absurd hfull id
  | trim => exact absurd hkeep id
  | drop b => exact absurd hcan h.balance.not_drop
  | unreserve | visit | close => exact hcells
  | reserve ns d' bytes =>
      obtain ⟨l, hl⟩ := hcan
      refine Eq.trans ?_ hcells
      show (s.reserved ns d' bytes).alloc m d = _
      rw [Stock.reserved_eq hl]
      unfold Ledger.alloc
      rw [(Ledger.reserveAmount_eq hl).2.1]
  | book b =>
      have hlive : (s.apply (.book b)).liveBytes (fun _ => true) m d = _ :=
        liveBytes_hold _ m d (s := s) rfl
      rw [hlive] at hlt ⊢
      -- the sum fits in a word, so the addition of the code is exact
      have hadd := Ledger.alloc_commitAmount m d (Stock.committed_eq hcan.2.2.2.1)
        (by rw [hcells, Nat.add_comm]; exact hlt)
      rw [hcells, Nat.add_comm] at hadd
      exact hadd
  | take p b =>
      have hlive : (s.apply (.take p b)).liveBytes (fun _ => true) m d = _ :=
        liveBytes_hold _ m d (s := s) rfl
      rw [hlive] at hlt ⊢
      have hadd := s.ledger.alloc_checkoutAmount b.ns m b.domain d b.committed
        (by rw [hcells, Nat.add_comm]; exact hlt)
      rw [hcells, Nat.add_comm] at hadd
      exact hadd
  | shelve b =>
      have hlive := liveBytes_release (fun _ => true) m d hcan.1
        (show (s.apply (.shelve b)).live = s.live.erase b from rfl)
      have hsub := s.ledger.alloc_releaseAmount b.ns m b.domain d b.committed
      rw [hcells, ← hlive, Nat.add_comm] at hsub
      exact hsub.trans (Nat.add_sub_cancel _ _)
  | settle b =>
      have hlive := liveBytes_release (fun _ => true) m d hcan.1
        (show (s.apply (.settle b)).live = s.live.erase b from rfl)
      have hsub := s.ledger.alloc_freeAccounting b.ns m b.domain d b.committed
      rw [hcells, ← hlive, Nat.add_comm] at hsub
      exact hsub.trans (Nat.add_sub_cancel _ _)

/-- A buffer is covered by its allocated cell. -/
theorem Tallied.live_le (h : s.Tallied n) {b : Holding} (hmem : b ∈ s.live) :
    b.committed ≤ s.ledger.allocated.get b.ns b.domain := by
  have hcells := h.cells b.ns b.domain
  have hsum := s.liveBytes_erase (fun _ => true) b.ns b.domain hmem
  have hself : b.chargeAt (fun _ => true) b.ns b.domain = b.committed.toNat := portion_self _ _ _
  unfold Ledger.alloc Stock.liveBytes at hcells
  rw [UInt64.le_iff_toNat_le]
  omega

theorem Tallied.clamps_apply (h : s.Tallied n) (hcan : s.Can deal)
    (hgood : s.Careful n deal) (hkeep : deal.KeepsSlots) :
    (s.apply deal).ledger.clamps = [] := by
  obtain ⟨hint, hfull, hcare⟩ := hgood
  cases deal with
  | wrap | receive | stray | requota => exact absurd hint id
  | waste | lose => exact absurd hfull id
  | trim => exact absurd hkeep id
  | unreserve | visit | take | drop | close => exact h.clamps
  | reserve ns d bytes =>
      obtain ⟨l, hl⟩ := hcan
      show (s.reserved ns d bytes).clamps = []
      rw [Stock.reserved_eq hl, (Ledger.reserveAmount_eq hl).2.2.2.1]
      exact h.clamps
  | book b =>
      show (s.committed b.ns b.domain b.committed).clamps = []
      rw [(Ledger.commitAmount_ok (Stock.committed_eq hcan.2.2.2.1)).2.2.2.2.2]
      exact h.clamps
  | shelve b =>
      show clampOf .allocated b.ns b.domain _ b.committed ++ s.ledger.clamps = []
      rw [clampOf_eq_nil (h.live_le hcan.1), h.clamps]
      rfl
  | settle b =>
      show (s.ledger.freeAccounting b.ns b.domain b.committed).clamps = []
      rw [s.ledger.clamps_freeAccounting _ _ _ (h.balance.live_le hcan.1),
        clampOf_eq_nil (h.live_le hcan.1), h.clamps]
      rfl

theorem Tallied.apply (h : s.Tallied n) (hcan : s.Can deal)
    (hgood : s.Careful n deal ∧ deal.KeepsSlots) : (s.apply deal).Tallied n :=
  ⟨h.balance.apply hcan hgood.1, h.cells_apply hcan hgood.1 hgood.2,
    h.clamps_apply hcan hgood.1 hgood.2⟩

end Stock

/-! ## Whole runs -/

/-- The operation trims no slot: `pool_trim` and `shutdown` find an empty pool. -/
def World.KeepsSlots (w : World) (op : Op) : Prop := w.Keeps (fun _ deal => deal.KeepsSlots) op

instance (w : World) (op : Op) : Decidable (w.KeepsSlots op) :=
  inferInstanceAs (Decidable (w.Keeps _ op))

/-- Operations in one namespace are confined to it. -/
theorem World.deals_confined {n : NamespaceId} {w : World} (hinv : w.RefInv [])
    (hlive : ∀ h ∈ w.core.stock.live, h.Own n) {op : Op} (hok : w.OneNamespace n op) :
    w.Keeps (Stock.Confined n) op := by
  have hfrugal : op.Frugal → w.Keeps (Stock.Confined n) op := fun hf =>
    Along.of_mem (fun deal hmem s => (w.deals_closing hf deal hmem).confined n s) _
  cases op with
  | allocate env req => exact allocateDeals_confined hok.1 hok.2 rfl
  | migrate env i target =>
      show Along _ _ _ (w.migrateDeals env i target)
      unfold World.migrateDeals
      cases hk : (w.handle i).validateAlive w.core with
      | error e => trivial
      | ok k =>
          obtain ⟨hlt, hfirst⟩ := hinv.alive (World.handle_alive hinv hk).1
          obtain ⟨hns, howner, -⟩ := hlive _ (w.core.holding_mem hlt hfirst)
          exact migrateDeals_confined hns howner hok rfl
  | _ => exact hfrugal hok

theorem World.OneNamespace.internal {n : NamespaceId} {w : World} {op : Op}
    (h : w.OneNamespace n op) : op.Internal := by
  cases op with
  | allocate | migrate => trivial
  | _ => exact h

theorem World.OneNamespace.reliable {n : NamespaceId} {w : World} {op : Op}
    (h : w.OneNamespace n op) : op.Reliable := by
  cases op with
  | allocate env req => exact h.2.reliable
  | migrate env i target => exact Env.Honest.reliable h
  | _ => trivial

theorem exact_init (n : NamespaceId) (cfg : RuntimeConfig) (plat : RuntimeImpl.Platform) :
    (World.init cfg plat).core.stock.Exact n where
  custody := ⟨trivial, fun x hx => absurd hx (Multiset.notMem_zero x), Multiset.nodup_zero⟩
  placed := ⟨fun _ hx => (by cases hx), fun _ => List.Pairwise.nil⟩
  native := ⟨fun h hx => absurd hx (Multiset.notMem_zero h),
    fun p hx => absurd hx (Multiset.notMem_zero p)⟩
  live := fun h hx => absurd hx (Multiset.notMem_zero h)
  idle := fun p hx => absurd hx (Multiset.notMem_zero p)
  cells := fun _ _ => rfl
  clamps := fun _ hx => (by cases hx)

theorem World.OneNamespace.keeps {n : NamespaceId} {w : World} (hinv : w.RefInv [])
    (h : w.core.stock.Exact n) {op : Op} (hok : w.OneNamespace n op) :
    w.Keeps (Stock.Careful n) op :=
  (((w.keeps_internal hok.internal).and (w.keeps_fulfilled hok.reliable)).and
    (World.deals_confined hinv h.live hok)).mono (fun _ _ h => ⟨h.1.1, h.1.2, h.2⟩)

theorem exact_reach {n : NamespaceId} {cfg : RuntimeConfig} {plat : RuntimeImpl.Platform}
    {w : World} (hreach : Reach World.next (World.OneNamespace n) (World.init cfg plat) w) :
    w.core.stock.Exact n :=
  World.stock_invariant (Stock.Exact n) (Stock.Careful n) hreach
    (fun _ _ hinv h hok => hok.keeps hinv h) (exact_init n cfg plat)
    (fun _ _ h hcan hgood => h.apply hcan hgood)

theorem tallied_reach {n : NamespaceId} {cfg : RuntimeConfig} {plat : RuntimeImpl.Platform}
    {w : World} (hreach : Reach World.next (fun w op => w.OneNamespace n op ∧ w.KeepsSlots op)
      (World.init cfg plat) w) : w.core.stock.Tallied n :=
  World.stock_invariant (Stock.Tallied n)
    (fun s deal => s.Careful n deal ∧ deal.KeepsSlots) hreach
    (fun _ _ hinv h hok => (hok.1.keeps hinv h.balance).and hok.2)
    ⟨exact_init n cfg plat, fun _ _ => rfl, rfl⟩
    (fun _ _ h hcan hgood => h.apply hcan hgood)

/-- **Committed bytes are accounted exactly** in every run that uses one namespace and honest
backends, and once every reference is released and the pool is trimmed all byte counters are zero.
No subtraction of the committed table is clamped, and none at all in a run that trims no slot. -/
theorem accounting_exact (n : NamespaceId) (cfg : RuntimeConfig) (plat : RuntimeImpl.Platform) :
    (∀ w, Reach World.next (World.OneNamespace n) (World.init cfg plat) w →
      (∀ d, w.core.rt.ledger.comm n d = w.core.committedIn d + w.core.idleIn d) ∧
      (∀ c ∈ w.core.rt.ledger.clamps, c.table = .allocated) ∧
      (w.Released → w.core.rt.pool.all = [] →
        w.core.rt.telemetry.hostBytes = 0 ∧ w.core.rt.telemetry.pinnedHostBytes = 0 ∧
        w.core.rt.telemetry.deviceBytes = 0 ∧ w.core.rt.telemetry.sharedHostBytes = 0 ∧
        w.core.rt.telemetry.fileBackedBytes = 0)) ∧
    ∀ w, Reach World.next (fun w op => w.OneNamespace n op ∧ w.KeepsSlots op)
      (World.init cfg plat) w → w.core.rt.ledger.clamps = [] := by
  refine ⟨fun w hreach => ?_, fun w hreach => (tallied_reach hreach).clamps⟩
  have h := exact_reach hreach
  have hinv := World.refInv_reach hreach
  refine ⟨fun d => ?_, h.clamps, fun hrel hpool => ?_⟩
  · rw [← hinv.committedIn_eq (fun b hb => (h.live b hb).1),
      ← w.core.idleIn_eq (fun p hp => (h.idle p hp).1)]
    exact h.cells n d
  · -- with no buffer and no slot left every cell is an empty sum
    have hlive : w.core.stock.live = 0 := by
      rw [← hinv.registered_live, hinv.registered_nil hrel]
      rfl
    have hidle : w.core.stock.idle = 0 := by
      show (w.core.rt.pool.all.map depositOf : Multiset Deposit) = 0
      rw [hpool]
      rfl
    have hzero : ∀ d, w.core.rt.domainBytes d = 0 := by
      refine fun d => RuntimeImpl.domainBytes_eq_zero (fun m => ?_)
      have hcell := h.cells m d
      rw [Stock.charge, Stock.liveBytes, Stock.idleBytes, hlive, hidle] at hcell
      exact (toNat_eq_zero_iff _).mp hcell
    exact ⟨hzero _, hzero _, hzero _, hzero _, hzero _⟩

/-- Backends with memory for one request, up to a limit. -/
def Env.roomAt (address : Nat) (limit : UInt64) : Env where
  allocate := fun _ bytes alignment =>
    if bytes ≤ limit then .ok (.found address bytes alignment) else .error ⟨.outOfCapacity, ""⟩

/-- They are honest as long as the room is free. -/
theorem roomAt_honest {address : Nat} {limit : UInt64} {calls : List BackendCall}
    (hpos : 1 ≤ address) (hend : address + limit.toNat ≤ 2 ^ 64) (hfree : ∀ x ∈ outstanding calls,
      x.start + x.length ≤ address ∨ address + limit.toNat ≤ x.start) :
    (Env.roomAt address limit).Honest calls := by
  refine ⟨fun d bytes alignment a ha => ?_, fun _ _ _ _ => rfl, fun _ _ _ _ => rfl⟩
  unfold Env.roomAt at ha
  simp only at ha
  split at ha
  · rename_i hle
    cases ha
    have hbytes : bytes.toNat ≤ limit.toNat := UInt64.le_iff_toNat_le.mp hle
    have hstart : Backing.start (d, .found address bytes alignment) = address := by
      show (if address ≠ 0 then address else address) = address
      exact ite_self _
    have hlength : Backing.length (d, .found address bytes alignment) = bytes.toNat := rfl
    refine ⟨⟨by omega, by omega⟩, fun y hy _ => ?_⟩
    unfold Apart
    rcases hfree y hy with h | h
    · exact Or.inr (by omega)
    · exact Or.inl (by omega)
  · cases ha

def Env.pageAt (address : Nat) : Env where
  allocate := fun _ bytes alignment =>
    if bytes ≤ 4096 then .ok (.found address bytes alignment) else .error ⟨.outOfCapacity, ""⟩

theorem pageAt_honest {address : Nat} {calls : List BackendCall} (hpos : 1 ≤ address)
    (hend : address + 4096 ≤ 2 ^ 64) (hfree : ∀ x ∈ outstanding calls,
      x.start + x.length ≤ address ∨ address + 4096 ≤ x.start) :
    (Env.pageAt address).Honest calls := by
  have hroom : Env.pageAt address = Env.roomAt address 4096 := rfl
  rw [hroom]
  exact roomAt_honest hpos hend hfree

theorem firstPage_honest : (Env.pageAt 4096).Honest [] :=
  pageAt_honest (by decide) (by decide) (fun x hx => by cases hx)

theorem secondPage_honest : (Env.pageAt 8192).Honest
    [.allocated .host .runtime { NativeAllocation.found 4096 4096 64 with tag := .native 0 }] := by
  refine pageAt_honest (by decide) (by decide) (fun x hx => Or.inl ?_)
  obtain rfl := List.mem_singleton.mp hx
  decide

/-- A page is released to the pool, and the pool is trimmed. -/
def trimmedPage : World :=
  runs World.next (World.init {} {})
    [.allocate (.pageAt 4096) { size := 4096 }, .release {} 0, .poolTrim]

/-- The bytes of the page are subtracted twice from the allocated cell, the second time from
zero. -/
theorem trim_subtracts_twice :
    Reach World.next (World.OneNamespace 1) (World.init {} {}) trimmedPage ∧
      trimmedPage.core.rt.ledger.clamps = [⟨.allocated, 1, .host⟩] := by
  exact ⟨.next _ (.next _ (.next _ .start ⟨rfl, firstPage_honest⟩) trivial) trivial, by decide⟩

def movedPage : World :=
  runs World.next (World.init {} {})
    [.allocate (.pageAt 4096) { size := 4096 }, .migrate (.pageAt 8192) 0 .sharedHost]

/-- The theorem at work: the page is accounted where it is now. -/
theorem accounting_exact_movedPage :
    movedPage.core.rt.ledger.comm 1 .sharedHost = 4096 ∧
      (∀ d, movedPage.core.rt.ledger.comm 1 d
        = movedPage.core.committedIn d + movedPage.core.idleIn d) ∧
      movedPage.core.rt.ledger.clamps = [] := by
  have hreach : Reach World.next (fun w op => w.OneNamespace 1 op ∧ w.KeepsSlots op)
      (World.init {} {}) movedPage :=
    .next _ (.next _ .start ⟨⟨rfl, firstPage_honest⟩, by decide⟩) ⟨secondPage_honest, by decide⟩
  have hexact := accounting_exact 1 {} {}
  exact ⟨by decide, (hexact.1 movedPage (hreach.mono (fun _ _ h => h.1))).1,
    hexact.2 movedPage hreach⟩

/-! ## The idle counters -/

/-- Besides, the idle counter of a domain is what its slots hold. -/
structure Stock.Split (n : NamespaceId) (s : Stock) : Prop where
  tallied : s.Tallied n
  idle : ∀ d, (s.ledger.poolIdleByDomain d).toNat = s.idleBytes n d

namespace Stock

variable {n : NamespaceId} {s : Stock} {deal : Deal}

theorem Split.idle_apply (h : s.Split n) (hcan : s.Can deal) (hgood : s.Careful n deal)
    (hkeep : deal.KeepsSlots) (d : MemoryDomain) :
    ((s.apply deal).ledger.poolIdleByDomain d).toNat = (s.apply deal).idleBytes n d := by
  have hidle := h.idle d
  have hafter := h.tallied.balance.apply hcan hgood
  have hlt : (s.apply deal).idleBytes n d < 2 ^ 64 :=
    Nat.lt_of_le_of_lt (Nat.le_add_left _ _)
      (charge_lt hafter.custody hafter.placed hafter.native n d)
  obtain ⟨hint, hfull, hcare⟩ := hgood
  cases deal with
  | wrap | receive | stray | requota => exact absurd hint id
  | waste | lose => exact absurd hfull id
  | trim => exact absurd hkeep id
  | unreserve | visit | close | drop | settle => exact hidle
  | reserve ns d' bytes =>
      obtain ⟨l, hl⟩ := hcan
      show ((s.reserved ns d' bytes).poolIdleByDomain d).toNat = _
      rw [reserved_eq hl, (Ledger.reserveAmount_eq hl).2.2.1]
      exact hidle
  | book b =>
      show ((s.committed b.ns b.domain b.committed).poolIdleByDomain d).toNat = _
      rw [(Ledger.commitAmount_ok (committed_eq hcan.2.2.2.1)).2.2.2.2.1]
      exact hidle
  | take p b =>
      obtain ⟨hmem, hback, hdomain, hsize, -⟩ := hcan
      -- the slot is charged to `n`, the only namespace of the run
      have howner : p.owner = n := (h.tallied.balance.idle p hmem).1
      have herase := s.idleBytes_erase n d hmem
      show (if d = b.domain then satSub (s.ledger.poolIdleByDomain b.domain) b.committed
        else s.ledger.poolIdleByDomain d).toNat = ((s.idle.erase p).map fun q => q.bytesAt n d).sum
      unfold idleBytes at hidle
      by_cases hd : d = b.domain
      · subst hd
        have hself : p.bytesAt n b.domain = b.committed.toNat := by
          rw [Deposit.bytesAt, howner, ← hdomain, ← hback, ← hsize]
          exact portion_self _ _ _
        rw [if_pos rfl, toNat_satSub]
        omega
      · have hother : p.bytesAt n d = 0 := by
          rw [Deposit.bytesAt, ← hdomain]
          exact if_neg fun he => hd he.2.symm
        rw [if_neg hd]
        omega
  | shelve b =>
      have hns : b.ns = n := (h.tallied.balance.live b hcan.1).1
      have hsize : b.committed = b.backing.committed := (h.tallied.balance.native.live b hcan.1).2
      have hcons : (s.apply (.shelve b)).idleBytes n d = b.deposit.bytesAt n d + s.idleBytes n d :=
        (congrArg Multiset.sum (Multiset.map_cons _ _ _)).trans (Multiset.sum_cons _ _)
      show (if d = b.domain then s.ledger.poolIdleByDomain b.domain + b.committed
        else s.ledger.poolIdleByDomain d).toNat = _
      rw [hcons] at hlt ⊢
      -- the counter grows by what the new slot adds to the sum, which fits in a word
      by_cases hd : d = b.domain
      · subst hd
        have hself : b.deposit.bytesAt n b.domain = b.committed.toNat := by
          rw [Deposit.bytesAt, Holding.deposit, hns, hsize]
          exact portion_self _ _ _
        rw [if_pos rfl, UInt64.toNat_add, Nat.mod_eq_of_lt (by omega)]
        omega
      · have hother : b.deposit.bytesAt n d = 0 := if_neg fun he => hd he.2.symm
        rw [if_neg hd]
        omega

end Stock

theorem split_reach {n : NamespaceId} {cfg : RuntimeConfig} {plat : RuntimeImpl.Platform}
    {w : World} (hreach : Reach World.next (fun w op => w.OneNamespace n op ∧ w.KeepsSlots op)
      (World.init cfg plat) w) : w.core.stock.Split n :=
  World.stock_invariant (Stock.Split n)
    (fun s deal => s.Careful n deal ∧ deal.KeepsSlots) hreach
    (fun _ _ hinv h hok => (hok.1.keeps hinv h.tallied.balance).and hok.2)
    ⟨⟨exact_init n cfg plat, fun _ _ => rfl, rfl⟩, fun _ => rfl⟩
    (fun _ _ h hcan hgood => ⟨h.tallied.apply hcan hgood, h.idle_apply hcan hgood.1 hgood.2⟩)

/-- **Committed bytes are the allocated and the idle ones.** In every run that uses one namespace
and honest backends and trims no slot, the allocated cell of a domain is what its buffers have
committed, the idle counter is what its slots have, and the committed cell is the sum of both. -/
theorem committed_splits (n : NamespaceId) (cfg : RuntimeConfig) (plat : RuntimeImpl.Platform)
    {w : World} (hreach : Reach World.next (fun w op => w.OneNamespace n op ∧ w.KeepsSlots op)
      (World.init cfg plat) w) (d : MemoryDomain) :
    w.core.rt.ledger.alloc n d = w.core.committedIn d ∧
      (w.core.rt.ledger.poolIdleByDomain d).toNat = w.core.idleIn d ∧
      w.core.rt.ledger.comm n d
        = w.core.rt.ledger.alloc n d + (w.core.rt.ledger.poolIdleByDomain d).toNat := by
  have h := split_reach hreach
  have hinv := World.refInv_reach hreach
  have hexact := h.tallied.balance
  have hlive := hinv.committedIn_eq (fun b hb => (hexact.live b hb).1) d
  have hidle := w.core.idleIn_eq (fun p hp => (hexact.idle p hp).1) d
  refine ⟨(h.tallied.cells n d).trans hlive, (h.idle d).trans hidle, ?_⟩
  have hcells : w.core.rt.ledger.comm n d = _ := hexact.cells n d
  rw [hcells, Stock.charge, ← h.idle d, ← h.tallied.cells n d]
  rfl

/-- Two pages, the first of which is back in the pool. -/
def halfIdle : World :=
  runs World.next (World.init {} {})
    [.allocate (.pageAt 4096) { size := 4096 }, .allocate (.pageAt 8192) { size := 4096 },
      .release {} 0]

theorem halfIdle_reach : Reach World.next (fun w op => w.OneNamespace 1 op ∧ w.KeepsSlots op)
    (World.init {} {}) halfIdle :=
  .next _ (.next _ (.next _ .start ⟨⟨rfl, firstPage_honest⟩, by decide⟩)
    ⟨⟨rfl, secondPage_honest⟩, by decide⟩) ⟨trivial, by decide⟩

/-- The theorem at work: one page is allocated, one idle, both are committed. -/
theorem committed_splits_halfIdle :
    halfIdle.core.rt.ledger.alloc 1 .host = 4096 ∧ halfIdle.core.idleIn .host = 4096 ∧
      halfIdle.core.rt.ledger.comm 1 .host = halfIdle.core.rt.ledger.alloc 1 .host
        + (halfIdle.core.rt.ledger.poolIdleByDomain .host).toNat :=
  ⟨by decide, by decide, (committed_splits 1 {} {} halfIdle_reach .host).2.2⟩

/-- Trimming the idle page takes its bytes from the allocated cell, where they are those of the
other page, and leaves them in the idle counter. -/
theorem trim_unbalances :
    Reach World.next (World.OneNamespace 1) (World.init {} {}) (halfIdle.next .poolTrim) ∧
      (halfIdle.next .poolTrim).core.committedIn .host = 4096 ∧
      (halfIdle.next .poolTrim).core.rt.ledger.alloc 1 .host = 0 ∧
      (halfIdle.next .poolTrim).core.idleIn .host = 0 ∧
      (halfIdle.next .poolTrim).core.rt.ledger.poolIdleByDomain .host = 4096 := by
  refine ⟨.next _ (halfIdle_reach.mono fun _ _ h => h.1) trivial, ?_, ?_, ?_, ?_⟩ <;> decide

end UnifiedBuffer
