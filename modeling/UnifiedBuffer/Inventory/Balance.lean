import UnifiedBuffer.Inventory.Operations

set_option autoImplicit false

/-! # The balance of a cell

`s.charge counts n d` are the bytes that the stock holds at `(n, d)`: the committed bytes of the
registered buffers in `counts` and those of the slots. Each deal changes the charge and the
committed cell by amounts that can be read off the deal, `adds` and `removes` for the charge and
`credits` and `debits` for the cell. Whether the cell stays equal to the charge, above it or below
it is then a comparison of these four numbers. -/

namespace UnifiedBuffer

open Lib

/-! ## The charge -/

def Holding.bytesAt (h : Holding) (n : NamespaceId) (d : MemoryDomain) : Nat :=
  portion h.ns h.domain h.committed n d

def Deposit.bytesAt (p : Deposit) (n : NamespaceId) (d : MemoryDomain) : Nat :=
  portion p.owner p.domain p.backing.committed n d

section Balance

variable (counts : Holding → Bool) (n : NamespaceId) (d : MemoryDomain)

/-- The bytes of a holding, if it counts. -/
def Holding.chargeAt (h : Holding) : Nat := if counts h then h.bytesAt n d else 0

def Stock.liveBytes (s : Stock) : Nat := (s.live.map (fun h => h.chargeAt counts n d)).sum

def Stock.idleBytes (s : Stock) : Nat := (s.idle.map (fun p => p.bytesAt n d)).sum

def Stock.charge (s : Stock) : Nat := s.liveBytes counts n d + s.idleBytes n d

/-- What a deal adds to the charge. -/
def Deal.adds : Deal → Nat
  | .book h => h.chargeAt counts n d
  | .take _ h => h.chargeAt counts n d
  | .wrap h => h.chargeAt counts n d
  | .receive h => h.chargeAt counts n d
  | .shelve h => h.deposit.bytesAt n d
  | _ => 0

/-- What a deal takes away from the charge. -/
def Deal.removes : Deal → Nat
  | .take p _ => p.bytesAt n d
  | .lose _ p => p.bytesAt n d
  | .shelve h => h.chargeAt counts n d
  | .settle h => h.chargeAt counts n d
  | .drop h => h.chargeAt counts n d
  | .trim p => p.bytesAt n d
  | _ => 0

/-- What a deal adds to the committed cell. -/
def Deal.credits : Deal → Nat
  | .book h => h.bytesAt n d
  | .waste ns d' _ a _ => portion ns d' a.committed n d
  | _ => 0

/-- What a deal takes away from the committed cell. -/
def Deal.debits : Deal → Nat
  | .waste ns d' _ _ (some undo) => portion ns d' undo n d
  | .lose ns p => portion ns p.domain p.backing.committed n d
  | .settle h => h.bytesAt n d
  | .trim p => p.bytesAt n d
  | _ => 0

theorem Stock.liveBytes_erase {s : Stock} {h : Holding} (hmem : h ∈ s.live) :
    h.chargeAt counts n d + ((s.live.erase h).map (fun h => h.chargeAt counts n d)).sum
      = (s.live.map (fun h => h.chargeAt counts n d)).sum :=
  Multiset.sum_map_erase (f := fun h : Holding => h.chargeAt counts n d) hmem

theorem Stock.idleBytes_erase {s : Stock} {p : Deposit} (hmem : p ∈ s.idle) :
    p.bytesAt n d + ((s.idle.erase p).map (fun p => p.bytesAt n d)).sum
      = (s.idle.map (fun p => p.bytesAt n d)).sum :=
  Multiset.sum_map_erase (f := fun p : Deposit => p.bytesAt n d) hmem

theorem Stock.liveBytes_hold {s s' : Stock} {h : Holding} (hlive : s'.live = h ::ₘ s.live) :
    s'.liveBytes counts n d = h.chargeAt counts n d + s.liveBytes counts n d := by
  rw [Stock.liveBytes, hlive, Multiset.map_cons, Multiset.sum_cons]
  rfl

theorem Stock.liveBytes_release {s s' : Stock} {h : Holding} (hmem : h ∈ s.live)
    (hlive : s'.live = s.live.erase h) :
    h.chargeAt counts n d + s'.liveBytes counts n d = s.liveBytes counts n d := by
  rw [Stock.liveBytes, hlive]
  exact s.liveBytes_erase counts n d hmem

/-- How a deal changes the charge. -/
theorem Stock.charge_apply {s : Stock} {deal : Deal} (hcan : s.Can deal) :
    (s.apply deal).charge counts n d + deal.removes counts n d
      = s.charge counts n d + deal.adds counts n d := by
  unfold Stock.charge Stock.liveBytes Stock.idleBytes
  cases deal with
  | reserve | unreserve | visit | waste | stray | close | requota => rfl
  | book | wrap | receive =>
      simp only [Stock.apply, Deal.adds, Deal.removes, Multiset.map_cons, Multiset.sum_cons]
      omega
  | take p h =>
      have hp := s.idleBytes_erase n d hcan.1
      simp only [Stock.apply, Deal.adds, Deal.removes, Multiset.map_cons, Multiset.sum_cons]
      omega
  | lose ns p | trim p =>
      have hp := s.idleBytes_erase n d hcan
      simp only [Stock.apply, Deal.adds, Deal.removes]
      omega
  | shelve h =>
      have hh := s.liveBytes_erase counts n d hcan.1
      simp only [Stock.apply, Deal.adds, Deal.removes, Multiset.map_cons, Multiset.sum_cons]
      omega
  | settle h | drop h =>
      have hh := s.liveBytes_erase counts n d hcan.1
      simp only [Stock.apply, Deal.adds, Deal.removes]
      omega

/-- How a deal changes the committed cell: exactly as it says, unless the addition wraps. -/
theorem Stock.comm_apply {s : Stock} {deal : Deal} (hcan : s.Can deal) :
    (s.apply deal).ledger.comm n d ≤ s.ledger.comm n d + deal.credits n d - deal.debits n d ∧
      (s.ledger.comm n d + deal.credits n d < 2 ^ 64 → (s.apply deal).ledger.comm n d
        = s.ledger.comm n d + deal.credits n d - deal.debits n d) := by
  -- a subtraction is exact
  have hsub : ∀ {x y : Nat}, x = y → x ≤ y ∧ (s.ledger.comm n d + 0 < 2 ^ 64 → x = y) :=
    fun h => ⟨Nat.le_of_eq h, fun _ => h⟩
  cases deal with
  | unreserve | visit | take | shelve | drop | wrap | receive | stray | close | requota =>
      exact hsub rfl
  | reserve ns d' bytes =>
      obtain ⟨l, hl⟩ := hcan
      refine hsub ?_
      show (s.reserved ns d' bytes).comm n d = _
      rw [Stock.reserved_eq hl]
      unfold Ledger.comm
      rw [(Ledger.reserveAmount_eq hl).1]
      rfl
  | waste ns d' owner a undo =>
      have hcommit := Ledger.comm_commitAmount n d (Stock.committed_eq hcan.2.2.1)
      cases undo with
      | none => exact hcommit
      | some bytes =>
          have hfree := Ledger.comm_freeAccounting (s.committed ns d' a.committed) ns n d' d bytes
          show (Ledger.freeAccounting _ _ _ _).comm n d ≤ _ - portion ns d' bytes n d ∧
            (_ → (Ledger.freeAccounting _ _ _ _).comm n d = _ - portion ns d' bytes n d)
          rw [hfree]
          exact ⟨Nat.sub_le_sub_right hcommit.1 _, fun hfit => by rw [hcommit.2 hfit]; rfl⟩
  | book h => exact Ledger.comm_commitAmount n d (Stock.committed_eq hcan.2.2.2.1)
  | lose ns p =>
      exact hsub
        (Ledger.comm_freeAccounting (s.ledger.checkoutAmount ns p.domain _) ns n p.domain d _)
  | settle h => exact hsub (Ledger.comm_freeAccounting s.ledger h.ns n h.domain d h.committed)
  | trim p => exact hsub (Ledger.comm_freeAccounting s.ledger p.owner n p.domain d _)

/-- A credit is covered by the reservation. -/
theorem Deal.credits_le {s : Stock} {deal : Deal} (hcan : s.Can deal) :
    deal.credits n d ≤ s.ledger.res n d := by
  cases deal with
  | waste ns d' owner a undo =>
      exact (Ledger.res_commitAmount n d (Stock.committed_eq hcan.2.2.1)).1
  | book h => exact (Ledger.res_commitAmount n d (Stock.committed_eq hcan.2.2.2.1)).1
  | reserve | unreserve | visit | take | lose | shelve | settle | drop | wrap | receive | stray | trim
  | close | requota => exact Nat.zero_le _

/-! ## Comparisons -/

section Compare

variable {counts n d} {s : Stock} {deal : Deal}

theorem Stock.exact_apply (h : s.ledger.comm n d = s.charge counts n d) (hcan : s.Can deal)
    (hfit : s.ledger.comm n d + deal.credits n d < 2 ^ 64)
    (hbal : deal.adds counts n d + deal.debits n d = deal.removes counts n d + deal.credits n d) :
    (s.apply deal).ledger.comm n d = (s.apply deal).charge counts n d := by
  have hcharge := s.charge_apply counts n d hcan
  have hcomm := (s.comm_apply n d hcan).2 hfit
  omega

theorem Stock.lower_apply (h : s.charge counts n d ≤ s.ledger.comm n d) (hcan : s.Can deal)
    (hfit : s.ledger.comm n d + deal.credits n d < 2 ^ 64)
    (hbal : deal.adds counts n d + deal.debits n d ≤ deal.removes counts n d + deal.credits n d) :
    (s.apply deal).charge counts n d ≤ (s.apply deal).ledger.comm n d := by
  have hcharge := s.charge_apply counts n d hcan
  have hcomm := (s.comm_apply n d hcan).2 hfit
  omega

theorem Stock.upper_apply (h : s.ledger.comm n d ≤ s.charge counts n d) (hcan : s.Can deal)
    (hbal : deal.removes counts n d + deal.credits n d ≤ deal.adds counts n d + deal.debits n d) :
    (s.apply deal).ledger.comm n d ≤ (s.apply deal).charge counts n d := by
  have hcharge := s.charge_apply counts n d hcan
  have hcomm := (s.comm_apply n d hcan).1
  omega

end Compare

end Balance

/-! ## Holdings that may return to the pool -/

/-- A buffer that may return to the pool belongs to the runtime, and its committed bytes are those
of its backing. -/
def Stock.Regular (s : Stock) : Prop :=
  ∀ h ∈ s.live, h.poolable = true → h.ownership = .runtime ∧ h.committed = h.backing.committed

theorem Stock.regular_cons {s : Stock} {b : Holding} (h : s.Regular)
    (hb : b.poolable = true → b.ownership = .runtime ∧ b.committed = b.backing.committed) :
    ∀ h ∈ b ::ₘ s.live, h.poolable = true →
      h.ownership = .runtime ∧ h.committed = h.backing.committed := by
  intro h' hmem
  rcases Multiset.mem_cons.mp hmem with rfl | hmem
  · exact hb
  · exact h h' hmem

theorem Stock.regular_apply {s : Stock} {deal : Deal} (h : s.Regular) (hcan : s.Can deal) :
    (s.apply deal).Regular := by
  cases deal with
  | reserve | unreserve | visit | waste | lose | stray | trim | close | requota => exact h
  | book b => exact Stock.regular_cons h (fun hp => ⟨hcan.2.2.2.2 hp, hcan.2.2.1⟩)
  | take p b => exact Stock.regular_cons h (fun _ => ⟨hcan.2.2.2.2.1, hcan.2.2.2.1⟩)
  | wrap b =>
      exact Stock.regular_cons h (fun hp => absurd hp (by rw [hcan.1]; exact Bool.false_ne_true))
  | receive b =>
      exact Stock.regular_cons h
        (fun hp => absurd hp (by rw [hcan.2.2.1]; exact Bool.false_ne_true))
  | shelve b | settle b | drop b => exact fun h' hmem => h h' (Multiset.mem_of_mem_erase hmem)

/-! ## Committed and reserved bytes together -/

/-- A measure of the committed and the reserved table that only a reservation raises. -/
structure Sinking (m : Cells → Cells → Nat) : Prop where
  commit : ∀ {l l' : Ledger} {ns d bytes}, l.commitAmount ns d bytes = .ok l' →
    m l'.committed l'.reserved ≤ m l.committed l.reserved
  free : ∀ (l : Ledger) ns d bytes,
    m (l.freeAccounting ns d bytes).committed l.reserved ≤ m l.committed l.reserved
  unreserve : ∀ (l : Ledger) ns d bytes,
    m l.committed (l.unreserveAmount ns d bytes).reserved ≤ m l.committed l.reserved

theorem Sinking.apply {m : Cells → Cells → Nat} (h : Sinking m) {s : Stock} {deal : Deal}
    (hcan : s.Can deal) (hdeal : ∀ ns d bytes, deal ≠ .reserve ns d bytes) :
    m (s.apply deal).ledger.committed (s.apply deal).ledger.reserved
      ≤ m s.ledger.committed s.ledger.reserved := by
  cases deal with
  | reserve ns d bytes => exact absurd rfl (hdeal ns d bytes)
  | visit | take | shelve | drop | wrap | receive | stray | close | requota => exact Nat.le_refl _
  | unreserve ns d bytes => exact h.unreserve s.ledger ns d bytes
  | waste ns d owner a undo =>
      have hcommit := h.commit (Stock.committed_eq hcan.2.2.1)
      cases undo with
      | none => exact hcommit
      | some bytes => exact (h.free _ ns d bytes).trans hcommit
  | book b => exact h.commit (Stock.committed_eq hcan.2.2.2.1)
  | lose ns p => exact h.free (s.ledger.checkoutAmount ns p.domain _) ns p.domain _
  | settle b => exact h.free s.ledger b.ns b.domain b.committed
  | trim p => exact h.free s.ledger p.owner p.domain p.backing.committed

/-- The two cells of a namespace and domain: a commit moves bytes from one to the other. -/
theorem sinking_cells (n : NamespaceId) (d : MemoryDomain) :
    Sinking (fun comm res => (comm.get n d).toNat + (res.get n d).toNat) where
  commit {l l' ns d' bytes} h := by
    have hcomm := (Ledger.comm_commitAmount n d h).1
    have hres := Ledger.res_commitAmount n d h
    unfold Ledger.comm Ledger.res at *
    omega
  free l ns d' bytes := by
    have hfree := Ledger.comm_freeAccounting l ns n d' d bytes
    unfold Ledger.comm at hfree
    omega
  unreserve l ns d' bytes := by
    have hfree := Ledger.res_unreserveAmount l ns n d' d bytes
    unfold Ledger.res at hfree
    omega

/-- The two sums of a domain over all namespaces. -/
theorem sinking_totals (d : MemoryDomain) :
    Sinking (fun comm res => comm.total d + res.total d) where
  commit {l l' ns d' bytes} h := by
    obtain ⟨hle, hres, hcomm, -⟩ := Ledger.commitAmount_ok h
    have hadd := l.committed.total_set_add ns d' d bytes
    have hsub := l.reserved.total_set_sub ns d' d hle
    rw [hres, hcomm]
    omega
  free l ns d' bytes := Nat.add_le_add_right (l.committed.total_set_satSub ns d' d bytes) _
  unreserve l ns d' bytes := Nat.add_le_add_left (l.reserved.total_set_satSub ns d' d bytes) _

/-! ## The charge of a program -/

/-- The committed bytes of the registered buffers of a namespace in a domain. -/
def Core.registeredBytes (c : Core) (n : NamespaceId) (d : MemoryDomain) : Nat :=
  ((c.registered.filter (fun r => r.ns = n ∧ r.domain = d)).map (fun r => r.committed.toNat)).sum

theorem World.RefInv.liveBytes_eq {base : List BufferId} {w : World} (h : w.RefInv base)
    (n : NamespaceId) (d : MemoryDomain) :
    w.core.stock.liveBytes (fun _ => true) n d = w.core.registeredBytes n d := by
  unfold Stock.liveBytes Core.registeredBytes
  rw [← h.registered_live, Multiset.map_coe, List.map_map, Multiset.sum_coe, sum_map_filter]
  simp only [decide_eq_true_eq]
  rfl

/-- The committed bytes of the registered buffers in a domain. -/
def Core.committedIn (c : Core) (d : MemoryDomain) : Nat :=
  ((c.registered.filter (fun r => r.domain = d)).map (fun r => r.committed.toNat)).sum

/-- The committed bytes of the slots of a domain. -/
def Core.idleIn (c : Core) (d : MemoryDomain) : Nat :=
  ((c.rt.pool.all.filter (fun e => e.1.domain = d)).map
    (fun e => e.2.backing.committed.toNat)).sum

/-- If there is one namespace, it has all buffers. -/
theorem World.RefInv.committedIn_eq {base : List BufferId} {w : World} (h : w.RefInv base)
    {n : NamespaceId} (hns : ∀ b ∈ w.core.stock.live, b.ns = n) (d : MemoryDomain) :
    w.core.stock.liveBytes (fun _ => true) n d = w.core.committedIn d := by
  rw [h.liveBytes_eq, Core.registeredBytes, Core.committedIn]
  refine congrArg (fun l => (List.map (fun r : Record => r.committed.toNat) l).sum) ?_
  refine List.filter_congr (fun r hr => ?_)
  have hmem : r.holding ∈ w.core.stock.live := by
    rw [← h.registered_live]
    exact Multiset.mem_coe.mpr (List.mem_map_of_mem hr)
  have hown : r.ns = n := hns r.holding hmem
  simp [hown]

theorem Core.idleIn_eq (c : Core) {n : NamespaceId} (hns : ∀ p ∈ c.stock.idle, p.owner = n)
    (d : MemoryDomain) : c.stock.idleBytes n d = c.idleIn d := by
  rw [Core.idleIn, sum_map_filter]
  show (Multiset.map _ (c.rt.pool.all.map depositOf : Multiset Deposit)).sum = _
  rw [Multiset.map_coe, List.map_map, Multiset.sum_coe]
  refine congrArg List.sum (List.map_congr_left (fun e he => ?_))
  have hown : (depositOf e).owner = n := hns (depositOf e) (List.mem_map_of_mem he)
  show portion (depositOf e).owner e.1.domain e.2.backing.committed n d = _
  unfold portion
  simp [hown]

end UnifiedBuffer
