import UnifiedBuffer.Lib.AssocMap
import UnifiedBuffer.Lib.Word
import UnifiedBuffer.Core.Types

set_option autoImplicit false

/-! # Byte accounting

The tables `ns_committed_`, `ns_reserved_`, `ns_allocated_` and `pool_idle_by_domain_`, which
`ns_mtx_` protects, and the helpers that change them: `reserve_amount`, `commit_amount`,
`unreserve_amount`, `checkout_amount`, `release_amount` and `free_accounting`. Each helper runs
with the mutex held, so each is one atomic step.

A table has a cell per namespace and domain; a cell that was never written is zero. After every
helper stands what it does to each table, cell by cell.
-/

namespace UnifiedBuffer

open Lib

/-! ## Tables -/

/-- A table of byte counts, one per namespace and domain. -/
structure Cells where
  table : AssocMap NamespaceId (MemoryDomain → UInt64) := .empty

def Cells.get (c : Cells) (ns : NamespaceId) (d : MemoryDomain) : UInt64 :=
  match c.table.find? ns with
  | none => 0
  | some row => row d

def Cells.set (c : Cells) (ns : NamespaceId) (d : MemoryDomain) (v : UInt64) : Cells :=
  ⟨c.table.insert ns (fun d' => if d' = d then v else c.get ns d')⟩

/-- The sum of the cells of a domain over all namespaces, as a number. -/
def Cells.total (c : Cells) (d : MemoryDomain) : Nat :=
  c.table.total (fun _ row => (row d).toNat)

theorem Cells.get_set (c : Cells) (ns ns' : NamespaceId) (d d' : MemoryDomain) (v : UInt64) :
    (c.set ns d v).get ns' d' = if ns = ns' ∧ d = d' then v else c.get ns' d' := by
  unfold Cells.set Cells.get
  simp only [AssocMap.find?_insert]
  by_cases hn : ns = ns'
  · subst hn
    by_cases hd : d = d'
    · simp [hd]
    · simp only [if_true, true_and, if_neg hd, if_neg (Ne.symm hd)]
  · rw [if_neg hn, if_neg (fun h => hn h.1)]

@[simp] theorem Cells.get_set_self (c : Cells) (ns : NamespaceId) (d : MemoryDomain)
    (v : UInt64) : (c.set ns d v).get ns d = v := by
  rw [Cells.get_set, if_pos ⟨rfl, rfl⟩]

/-- Writing a cell back as it is changes nothing. -/
theorem Cells.get_set_same (c : Cells) (ns ns' : NamespaceId) (d d' : MemoryDomain) (v : UInt64)
    (h : v = c.get ns d) : (c.set ns d v).get ns' d' = c.get ns' d' := by
  rw [Cells.get_set]
  split
  · rename_i hk
    rw [h, hk.1, hk.2]
  · rfl

/-- Writing a cell changes the sum of its domain by the difference. -/
theorem Cells.total_set (c : Cells) (ns : NamespaceId) (d d' : MemoryDomain) (v : UInt64) :
    (c.set ns d v).total d' + (if d = d' then (c.get ns d).toNat else 0)
      = c.total d' + (if d = d' then v.toNat else 0) := by
  have h := c.table.total_insert (fun _ row => (row d').toNat) ns
    (fun d'' => if d'' = d then v else c.get ns d'')
  have hold : ((c.table.find? ns).map (fun row => (row d').toNat)).getD 0
      = (c.get ns d').toNat := by
    unfold Cells.get
    cases c.table.find? ns <;> rfl
  unfold Cells.total Cells.set
  simp only at h ⊢
  rw [hold] at h
  by_cases hd : d = d'
  · subst hd
    simp only [if_true] at h ⊢
    omega
  · simp only [if_neg hd, if_neg (Ne.symm hd)] at h ⊢
    omega

theorem Cells.total_set_add (c : Cells) (ns : NamespaceId) (d d' : MemoryDomain)
    (bytes : UInt64) : (c.set ns d (c.get ns d + bytes)).total d'
      ≤ c.total d' + (if d = d' then bytes.toNat else 0) := by
  have h := c.total_set ns d d' (c.get ns d + bytes)
  have hadd := toNat_add_le (c.get ns d) bytes
  by_cases hd : d = d'
  · simp only [if_pos hd] at h ⊢
    omega
  · simp only [if_neg hd] at h ⊢
    omega

theorem Cells.total_set_sub (c : Cells) (ns : NamespaceId) (d d' : MemoryDomain) {bytes : UInt64}
    (hle : bytes ≤ c.get ns d) : (c.set ns d (c.get ns d - bytes)).total d'
      + (if d = d' then bytes.toNat else 0) = c.total d' := by
  have h := c.total_set ns d d' (c.get ns d - bytes)
  have hsub := UInt64.toNat_sub_of_le _ _ hle
  have hnat := UInt64.le_iff_toNat_le.mp hle
  by_cases hd : d = d'
  · simp only [if_pos hd] at h ⊢
    omega
  · simp only [if_neg hd] at h ⊢
    omega

theorem Cells.total_set_satSub (c : Cells) (ns : NamespaceId) (d d' : MemoryDomain)
    (bytes : UInt64) : (c.set ns d (satSub (c.get ns d) bytes)).total d' ≤ c.total d' := by
  have h := c.total_set ns d d' (satSub (c.get ns d) bytes)
  have hsub := toNat_satSub (c.get ns d) bytes
  split at h <;> omega

/-! ## The ledger -/

/-- The two tables whose subtractions stop at zero in `release_amount` and
`free_accounting`. -/
inductive ClampedTable where
  | allocated
  | committed
  deriving DecidableEq, Repr

/-- A subtraction of `release_amount` or `free_accounting` that would have gone below zero. -/
structure Clamp where
  table : ClampedTable
  ns : NamespaceId
  domain : MemoryDomain
  deriving DecidableEq, Repr

/-- The state protected by `ns_mtx_`. The list `clamps` is bookkeeping of the model: the
subtractions of `release_amount` and `free_accounting` that were clamped. -/
structure Ledger where
  committed : Cells := {}
  reserved : Cells := {}
  allocated : Cells := {}
  poolIdleByDomain : MemoryDomain → UInt64 := fun _ => 0
  peakCommitted : UInt64 := 0
  clamps : List Clamp := []

/-- The clamp of a subtraction `have - bytes`, if it is one. -/
def clampOf (table : ClampedTable) (ns : NamespaceId) (d : MemoryDomain)
    (counter bytes : UInt64) : List Clamp :=
  if bytes ≤ counter then [] else [⟨table, ns, d⟩]

theorem clampOf_eq_nil {table : ClampedTable} {ns : NamespaceId} {d : MemoryDomain}
    {counter bytes : UInt64} (h : bytes ≤ counter) : clampOf table ns d counter bytes = [] :=
  if_pos h

theorem mem_clampOf {table : ClampedTable} {ns : NamespaceId} {d : MemoryDomain}
    {counter bytes : UInt64} {c : Clamp} (h : c ∈ clampOf table ns d counter bytes) :
    c.table = table := by
  unfold clampOf at h
  split at h
  · cases h
  · obtain rfl := List.mem_singleton.mp h
    rfl

/-- `reserve_amount`, with `cap_for(d)` and the quota of the namespace as arguments. -/
def Ledger.reserveAmount (l : Ledger) (cap quota : UInt64) (ns : NamespaceId) (d : MemoryDomain)
    (bytes : UInt64) : Except Error Ledger :=
  if bytes = 0 then .ok l
  else
    let comm := l.committed.get ns d
    let res := l.reserved.get ns d
    -- the sum wraps, and the cap of the domain is compared with the bytes of one namespace
    if cap ≠ 0 ∧ comm + res + bytes > cap then
      .error ⟨.outOfCapacity, "reserve: domain capacity exceeded"⟩
    else if quota ≠ 0 ∧ comm + res + bytes > quota then
      .error ⟨.quotaExceeded, "reserve: quota exceeded"⟩
    else .ok { l with reserved := l.reserved.set ns d (res + bytes) }

def Ledger.updatePeak (l : Ledger) (committed : UInt64) : Ledger :=
  if committed > l.peakCommitted then { l with peakCommitted := committed } else l

def Ledger.commitAmount (l : Ledger) (ns : NamespaceId) (d : MemoryDomain) (bytes : UInt64) :
    Except Error Ledger :=
  let res := l.reserved.get ns d
  let comm := l.committed.get ns d
  let alloc := l.allocated.get ns d
  if res < bytes then .error ⟨.stateInvalid, "commit: reservation mismatch"⟩
  else
    .ok (Ledger.updatePeak
      { l with
        reserved := l.reserved.set ns d (res - bytes)
        committed := l.committed.set ns d (comm + bytes)
        allocated := l.allocated.set ns d (alloc + bytes) }
      -- `update_peak(comm + alloc)`, of the cells as they are now
      (comm + bytes + (alloc + bytes)))

def Ledger.unreserveAmount (l : Ledger) (ns : NamespaceId) (d : MemoryDomain) (bytes : UInt64) :
    Ledger :=
  { l with reserved := l.reserved.set ns d (satSub (l.reserved.get ns d) bytes) }

def Ledger.checkoutAmount (l : Ledger) (ns : NamespaceId) (d : MemoryDomain) (bytes : UInt64) :
    Ledger :=
  -- the backing is committed already; a reservation that was made for it is not consumed
  { l with
    allocated := l.allocated.set ns d (l.allocated.get ns d + bytes)
    poolIdleByDomain := fun d' =>
      if d' = d then satSub (l.poolIdleByDomain d) bytes else l.poolIdleByDomain d' }

def Ledger.releaseAmount (l : Ledger) (ns : NamespaceId) (d : MemoryDomain) (bytes : UInt64)
    (pooled : Bool) : Ledger :=
  let alloc := l.allocated.get ns d
  let comm := l.committed.get ns d
  let l' := { l with
    allocated := l.allocated.set ns d (satSub alloc bytes)
    clamps := clampOf .allocated ns d alloc bytes ++ l.clamps }
  -- an idle backing stays committed to the namespace that last used it
  if pooled then
    { l' with
      poolIdleByDomain := fun d' =>
        if d' = d then l.poolIdleByDomain d + bytes else l.poolIdleByDomain d' }
  else
    { l' with
      committed := l.committed.set ns d (satSub comm bytes)
      clamps := clampOf .committed ns d comm bytes ++ l'.clamps }

def Ledger.freeAccounting (l : Ledger) (ns : NamespaceId) (d : MemoryDomain) (bytes : UInt64) :
    Ledger :=
  let alloc := l.allocated.get ns d
  let comm := l.committed.get ns d
  { l with
    allocated := l.allocated.set ns d (satSub alloc bytes)
    committed := l.committed.set ns d (satSub comm bytes)
    clamps := clampOf .committed ns d comm bytes ++ (clampOf .allocated ns d alloc bytes ++ l.clamps) }

/-! ## What each helper does to the tables -/

section Effects

variable {l l' : Ledger} {cap quota : UInt64} {ns : NamespaceId} {d : MemoryDomain}
  {bytes : UInt64}

/-- An admitted reservation passed both checks and only grew the reserved cell. -/
theorem Ledger.reserveAmount_ok (h : l.reserveAmount cap quota ns d bytes = .ok l') :
    (bytes = 0 ∧ l' = l) ∨
    (bytes ≠ 0 ∧
      (cap ≠ 0 → l.committed.get ns d + l.reserved.get ns d + bytes ≤ cap) ∧
      (quota ≠ 0 → l.committed.get ns d + l.reserved.get ns d + bytes ≤ quota) ∧
      l' = { l with reserved := l.reserved.set ns d (l.reserved.get ns d + bytes) }) := by
  unfold Ledger.reserveAmount at h
  by_cases hb : bytes = 0
  · rw [if_pos hb] at h
    exact Or.inl ⟨hb, by cases h; rfl⟩
  · rw [if_neg hb] at h
    simp only at h
    split at h
    · cases h
    · rename_i hcap
      split at h
      · cases h
      · rename_i hquota
        refine Or.inr ⟨hb, fun hc => ?_, fun hq => ?_, by cases h; rfl⟩
        · exact UInt64.not_lt.mp (fun hlt => hcap ⟨hc, hlt⟩)
        · exact UInt64.not_lt.mp (fun hlt => hquota ⟨hq, hlt⟩)

/-- In both cases the reserved cell is the old one plus the bytes (modulo `2^64`). -/
theorem Ledger.reserveAmount_eq (h : l.reserveAmount cap quota ns d bytes = .ok l') :
    l'.committed = l.committed ∧ l'.allocated = l.allocated ∧
      l'.poolIdleByDomain = l.poolIdleByDomain ∧ l'.clamps = l.clamps ∧
      ∀ ns' d', l'.reserved.get ns' d'
        = if ns = ns' ∧ d = d' then l.reserved.get ns d + bytes else l.reserved.get ns' d' := by
  rcases Ledger.reserveAmount_ok h with ⟨hb, rfl⟩ | ⟨-, -, -, rfl⟩
  · refine ⟨rfl, rfl, rfl, rfl, fun ns' d' => ?_⟩
    split
    · rename_i he
      rw [he.1, he.2, hb, UInt64.add_zero]
    · rfl
  · exact ⟨rfl, rfl, rfl, rfl, fun ns' d' => Cells.get_set _ _ _ _ _ _⟩

@[simp] theorem Ledger.updatePeak_committed (c : UInt64) :
    (l.updatePeak c).committed = l.committed := by
  unfold Ledger.updatePeak; split <;> rfl

@[simp] theorem Ledger.updatePeak_reserved (c : UInt64) :
    (l.updatePeak c).reserved = l.reserved := by
  unfold Ledger.updatePeak; split <;> rfl

@[simp] theorem Ledger.updatePeak_allocated (c : UInt64) :
    (l.updatePeak c).allocated = l.allocated := by
  unfold Ledger.updatePeak; split <;> rfl

@[simp] theorem Ledger.updatePeak_poolIdleByDomain (c : UInt64) :
    (l.updatePeak c).poolIdleByDomain = l.poolIdleByDomain := by
  unfold Ledger.updatePeak; split <;> rfl

@[simp] theorem Ledger.updatePeak_clamps (c : UInt64) :
    (l.updatePeak c).clamps = l.clamps := by
  unfold Ledger.updatePeak; split <;> rfl

/-- `commit_amount` succeeds exactly when the reserved cell covers the bytes. -/
theorem Ledger.commitAmount_isOk_iff :
    (∃ l', l.commitAmount ns d bytes = .ok l') ↔ bytes ≤ l.reserved.get ns d := by
  unfold Ledger.commitAmount
  simp only
  by_cases h : l.reserved.get ns d < bytes
  · simp only [if_pos h]
    constructor
    · rintro ⟨l', hl⟩
      cases hl
    · intro hle
      exact absurd h (UInt64.not_lt.mpr hle)
  · simp only [if_neg h]
    exact ⟨fun _ => UInt64.not_lt.mp h, fun _ => ⟨_, rfl⟩⟩

/-- A commit moves the bytes from the reserved to the committed and the allocated cell. -/
theorem Ledger.commitAmount_ok (h : l.commitAmount ns d bytes = .ok l') :
    bytes ≤ l.reserved.get ns d ∧
      l'.reserved = l.reserved.set ns d (l.reserved.get ns d - bytes) ∧
      l'.committed = l.committed.set ns d (l.committed.get ns d + bytes) ∧
      l'.allocated = l.allocated.set ns d (l.allocated.get ns d + bytes) ∧
      l'.poolIdleByDomain = l.poolIdleByDomain ∧ l'.clamps = l.clamps := by
  have hle := Ledger.commitAmount_isOk_iff.mp ⟨l', h⟩
  unfold Ledger.commitAmount at h
  simp only [if_neg (UInt64.not_lt.mpr hle)] at h
  cases h
  simp [hle]

theorem Ledger.commitAmount_of_lt (h : l.reserved.get ns d < bytes) :
    l.commitAmount ns d bytes = .error ⟨.stateInvalid, "commit: reservation mismatch"⟩ :=
  if_pos h

theorem Ledger.commitAmount_error {e : Error} (h : l.commitAmount ns d bytes = .error e) :
    l.reserved.get ns d < bytes ∧ e = ⟨.stateInvalid, "commit: reservation mismatch"⟩ := by
  unfold Ledger.commitAmount at h
  simp only at h
  split at h
  · rename_i hlt
    cases h
    exact ⟨hlt, rfl⟩
  · cases h

end Effects

/-! ## The cells as numbers

`l.comm ns d`, `l.res ns d` and `l.alloc ns d` are the cells of `(ns, d)` read as numbers, and
`portion ns d bytes n d'` is what a change of `(ns, d)` by `bytes` means for the cell of `(n, d')`.
Subtractions are exact in this reading (they stop at zero on both sides); additions are exact if
they do not wrap. -/

def Ledger.comm (l : Ledger) (ns : NamespaceId) (d : MemoryDomain) : Nat :=
  (l.committed.get ns d).toNat

def Ledger.res (l : Ledger) (ns : NamespaceId) (d : MemoryDomain) : Nat :=
  (l.reserved.get ns d).toNat

def Ledger.alloc (l : Ledger) (ns : NamespaceId) (d : MemoryDomain) : Nat :=
  (l.allocated.get ns d).toNat

/-- The part of `bytes` at `(ns, d)` that falls on the cell `(n, d')`. -/
def portion (ns : NamespaceId) (d : MemoryDomain) (bytes : UInt64) (n : NamespaceId)
    (d' : MemoryDomain) : Nat :=
  if ns = n ∧ d = d' then bytes.toNat else 0

@[simp] theorem portion_self (ns : NamespaceId) (d : MemoryDomain) (bytes : UInt64) :
    portion ns d bytes ns d = bytes.toNat := if_pos ⟨rfl, rfl⟩

section Numbers

variable (l : Ledger) (ns n : NamespaceId) (d d' : MemoryDomain) (bytes : UInt64)

theorem Cells.toNat_set_satSub (c : Cells) :
    ((c.set ns d (satSub (c.get ns d) bytes)).get n d').toNat
      = (c.get n d').toNat - portion ns d bytes n d' := by
  rw [Cells.get_set, portion]
  split
  · rename_i hk
    rw [toNat_satSub, hk.1, hk.2]
  · rfl

/-- An addition, exact unless it wraps. -/
theorem Cells.toNat_set_add (c : Cells) :
    ((c.set ns d (c.get ns d + bytes)).get n d').toNat
        ≤ (c.get n d').toNat + portion ns d bytes n d' ∧
      ((c.get n d').toNat + portion ns d bytes n d' < 2 ^ 64 →
        ((c.set ns d (c.get ns d + bytes)).get n d').toNat
          = (c.get n d').toNat + portion ns d bytes n d') := by
  rw [Cells.get_set, portion]
  split
  · rename_i hk
    rw [← hk.1, ← hk.2]
    exact ⟨toNat_add_le _ _, toNat_add_of_lt⟩
  · exact ⟨Nat.le_refl _, fun _ => rfl⟩

theorem Ledger.comm_freeAccounting :
    (l.freeAccounting ns d bytes).comm n d' = l.comm n d' - portion ns d bytes n d' :=
  Cells.toNat_set_satSub ns n d d' bytes l.committed

theorem Ledger.alloc_freeAccounting :
    (l.freeAccounting ns d bytes).alloc n d' = l.alloc n d' - portion ns d bytes n d' :=
  Cells.toNat_set_satSub ns n d d' bytes l.allocated

theorem Ledger.clamps_freeAccounting (h : bytes.toNat ≤ l.comm ns d) :
    (l.freeAccounting ns d bytes).clamps
      = clampOf .allocated ns d (l.allocated.get ns d) bytes ++ l.clamps := by
  show clampOf .committed ns d _ bytes ++ _ = _
  rw [clampOf_eq_nil (UInt64.le_iff_toNat_le.mpr h), List.nil_append]

theorem Ledger.alloc_releaseAmount :
    (l.releaseAmount ns d bytes true).alloc n d' = l.alloc n d' - portion ns d bytes n d' :=
  Cells.toNat_set_satSub ns n d d' bytes l.allocated

theorem Ledger.res_unreserveAmount :
    (l.unreserveAmount ns d bytes).res n d' = l.res n d' - portion ns d bytes n d' :=
  Cells.toNat_set_satSub ns n d d' bytes l.reserved

theorem Ledger.alloc_checkoutAmount
    (h : l.alloc n d' + portion ns d bytes n d' < 2 ^ 64) :
    (l.checkoutAmount ns d bytes).alloc n d' = l.alloc n d' + portion ns d bytes n d' :=
  (Cells.toNat_set_add ns n d d' bytes l.allocated).2 h

variable {l ns d bytes} {l' : Ledger}

theorem Ledger.comm_commitAmount (h : l.commitAmount ns d bytes = .ok l') :
    l'.comm n d' ≤ l.comm n d' + portion ns d bytes n d' ∧
      (l.comm n d' + portion ns d bytes n d' < 2 ^ 64 →
        l'.comm n d' = l.comm n d' + portion ns d bytes n d') := by
  unfold Ledger.comm
  rw [(Ledger.commitAmount_ok h).2.2.1]
  exact Cells.toNat_set_add ns n d d' bytes l.committed

theorem Ledger.alloc_commitAmount (h : l.commitAmount ns d bytes = .ok l')
    (hfit : l.alloc n d' + portion ns d bytes n d' < 2 ^ 64) :
    l'.alloc n d' = l.alloc n d' + portion ns d bytes n d' := by
  unfold Ledger.alloc
  rw [(Ledger.commitAmount_ok h).2.2.2.1]
  exact (Cells.toNat_set_add ns n d d' bytes l.allocated).2 hfit

theorem Ledger.res_commitAmount (h : l.commitAmount ns d bytes = .ok l') :
    portion ns d bytes n d' ≤ l.res n d' ∧
      l'.res n d' = l.res n d' - portion ns d bytes n d' := by
  obtain ⟨hle, hres, -⟩ := Ledger.commitAmount_ok h
  unfold Ledger.res portion
  rw [hres, Cells.get_set]
  split
  · rename_i hk
    rw [← hk.1, ← hk.2]
    exact ⟨UInt64.le_iff_toNat_le.mp hle, UInt64.toNat_sub_of_le _ _ hle⟩
  · exact ⟨Nat.zero_le _, rfl⟩

theorem Ledger.res_reserveAmount {cap quota : UInt64}
    (h : l.reserveAmount cap quota ns d bytes = .ok l') :
    l'.res n d' ≤ l.res n d' + portion ns d bytes n d' ∧
      (l.res n d' + portion ns d bytes n d' < 2 ^ 64 →
        l'.res n d' = l.res n d' + portion ns d bytes n d') := by
  have hcell := (Ledger.reserveAmount_eq h).2.2.2.2 n d'
  unfold Ledger.res portion
  rw [hcell]
  split
  · rename_i hk
    rw [← hk.1, ← hk.2]
    exact ⟨toNat_add_le _ _, toNat_add_of_lt⟩
  · exact ⟨Nat.le_refl _, fun _ => rfl⟩

end Numbers

end UnifiedBuffer
