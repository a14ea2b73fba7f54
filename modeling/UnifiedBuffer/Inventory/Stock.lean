import Mathlib.Data.Multiset.AddSub
import Mathlib.Algebra.BigOperators.Group.Multiset.Basic
import UnifiedBuffer.Lib.Run
import UnifiedBuffer.Backends.Domain
import UnifiedBuffer.Runtime.Ledger

set_option autoImplicit false

/-! # The stock of backings

An abstract account of what the runtime holds: the backings of registered buffers, the backings
that lie idle in the pool, the byte accounting, and the calls of the backends so far. Identities,
keys, generations, states, leases and statistics are left out, and the order of buffers and slots
does not matter.

A `Deal` is an indivisible exchange: the bytes of a buffer are booked together with the backing
they stand for. Every operation of the runtime is a list of deals (`Inventory/Deals.lean`), and
all properties of the accounting and of the ownership of backings are proved deal by deal.
-/

namespace UnifiedBuffer

open Lib

/-! ## The state -/

/-- What a registered buffer holds. -/
structure Holding where
  ns : NamespaceId
  domain : MemoryDomain
  committed : UInt64
  backing : NativeAllocation
  ownership : Ownership
  /-- the record allows the backing to return to the pool -/
  poolable : Bool
  deriving DecidableEq, Repr

/-- What a slot of the pool holds, and the namespace it was released by. -/
structure Deposit where
  owner : NamespaceId
  domain : MemoryDomain
  backing : NativeAllocation
  deriving DecidableEq, Repr

/-- The limits of the accounting and the backends at work. -/
structure House where
  closed : Bool
  backends : MemoryDomain → Bool
  cap : MemoryDomain → UInt64
  quota : NamespaceId → MemoryDomain → UInt64

@[ext] structure Stock where
  live : Multiset Holding
  idle : Multiset Deposit
  ledger : Ledger
  calls : List BackendCall
  house : House

/-- The limits after the backends are gone. -/
def House.shut (h : House) : House :=
  { h with closed := true, backends := fun _ => false, cap := fun _ => 0 }

/-- The slot that a buffer leaves in the pool. -/
def Holding.deposit (h : Holding) : Deposit := ⟨h.ns, h.domain, h.backing⟩

/-! ## Deals -/

inductive Deal where
  | reserve (ns : NamespaceId) (d : MemoryDomain) (bytes : UInt64)
  | unreserve (ns : NamespaceId) (d : MemoryDomain) (bytes : UInt64)
  /-- a new backing is freed before it is committed -/
  | visit (d : MemoryDomain) (owner : Ownership) (a : NativeAllocation)
  /-- a new backing is committed and freed; of its bytes, `undo` are given back -/
  | waste (ns : NamespaceId) (d : MemoryDomain) (owner : Ownership) (a : NativeAllocation)
      (undo : Option UInt64)
  /-- a new backing is committed and held -/
  | book (h : Holding)
  /-- a slot of the pool becomes a buffer -/
  | take (p : Deposit) (h : Holding)
  /-- a slot is taken for `ns` and dropped without being freed -/
  | lose (ns : NamespaceId) (p : Deposit)
  /-- a released backing goes to the pool -/
  | shelve (h : Holding)
  /-- a released backing goes back to its backend -/
  | settle (h : Holding)
  /-- a buffer goes and its backing is left alone -/
  | drop (h : Holding)
  /-- memory of the caller is wrapped -/
  | wrap (h : Holding)
  /-- a segment of another process is held -/
  | receive (h : Holding)
  /-- a segment of another process is opened and forgotten -/
  | stray (d : MemoryDomain) (a : NativeAllocation)
  /-- a slot of the pool is freed -/
  | trim (p : Deposit)
  /-- the backends are destroyed -/
  | close
  | requota (quota : NamespaceId → MemoryDomain → UInt64)

namespace Stock

/-- The calls after a backing was passed to `IDomain::free`, if the domain has a backend. -/
def freeIn (s : Stock) (d : MemoryDomain) (a : NativeAllocation) : List BackendCall :=
  if s.house.backends d then .freed d a :: s.calls else s.calls

def reserved (s : Stock) (ns : NamespaceId) (d : MemoryDomain) (bytes : UInt64) : Ledger :=
  (s.ledger.reserveAmount (s.house.cap d) (s.house.quota ns d) ns d bytes).toOption.getD s.ledger

def committed (s : Stock) (ns : NamespaceId) (d : MemoryDomain) (bytes : UInt64) : Ledger :=
  (s.ledger.commitAmount ns d bytes).toOption.getD s.ledger

/-- The ledger after a failed verification gave `undo` bytes back. -/
def giveBack (ns : NamespaceId) (d : MemoryDomain) (undo : Option UInt64) (l : Ledger) : Ledger :=
  match undo with
  | none => l
  | some bytes => l.freeAccounting ns d bytes

def apply (s : Stock) : Deal → Stock
  | .reserve ns d bytes => { s with ledger := s.reserved ns d bytes }
  | .unreserve ns d bytes => { s with ledger := s.ledger.unreserveAmount ns d bytes }
  | .visit d owner a => { s with calls := .freed d a :: .allocated d owner a :: s.calls }
  | .waste ns d owner a undo =>
      { s with
        ledger := giveBack ns d undo (s.committed ns d a.committed)
        calls := .freed d a :: .allocated d owner a :: s.calls }
  | .book h =>
      { s with
        live := h ::ₘ s.live
        ledger := s.committed h.ns h.domain h.committed
        calls := .allocated h.domain h.ownership h.backing :: s.calls }
  | .take p h =>
      { s with
        live := h ::ₘ s.live
        idle := s.idle.erase p
        ledger := s.ledger.checkoutAmount h.ns h.domain h.committed }
  | .lose ns p =>
      { s with
        idle := s.idle.erase p
        ledger := (s.ledger.checkoutAmount ns p.domain p.backing.committed).freeAccounting ns
          p.domain p.backing.committed }
  | .shelve h =>
      { s with
        live := s.live.erase h
        idle := h.deposit ::ₘ s.idle
        ledger := s.ledger.releaseAmount h.ns h.domain h.committed true }
  | .settle h =>
      { s with
        live := s.live.erase h
        ledger := s.ledger.freeAccounting h.ns h.domain h.committed
        calls := s.freeIn h.domain h.backing }
  | .drop h => { s with live := s.live.erase h }
  | .wrap h => { s with live := h ::ₘ s.live }
  | .receive h => { s with live := h ::ₘ s.live, calls := .imported h.domain h.backing :: s.calls }
  | .stray d a => { s with calls := .imported d a :: s.calls }
  | .trim p =>
      { s with
        idle := s.idle.erase p
        ledger := s.ledger.freeAccounting p.owner p.domain p.backing.committed
        calls := s.freeIn p.domain p.backing }
  | .close => { s with house := s.house.shut }
  | .requota quota => { s with house := { s.house with quota := quota } }

/-- The allocation is what the next call of a backend returns. -/
def Stamped (s : Stock) (a : NativeAllocation) : Prop := a.tag = .native s.calls.length

/-- What is known of a deal when the runtime makes it. -/
def Can (s : Stock) : Deal → Prop
  | .reserve ns d bytes =>
      ∃ l, s.ledger.reserveAmount (s.house.cap d) (s.house.quota ns d) ns d bytes = .ok l
  | .unreserve _ _ _ => True
  | .visit d _ a => s.Stamped a ∧ s.house.backends d
  | .waste ns d _ a undo =>
      s.Stamped a ∧ s.house.backends d ∧ a.committed ≤ s.ledger.reserved.get ns d ∧
        ∀ bytes ∈ undo, bytes ≤ a.committed
  | .book h =>
      s.Stamped h.backing ∧ s.house.backends h.domain ∧ h.committed = h.backing.committed ∧
        h.committed ≤ s.ledger.reserved.get h.ns h.domain ∧
        (h.poolable → h.ownership = .runtime)
  | .take p h =>
      p ∈ s.idle ∧ h.backing = p.backing ∧ h.domain = p.domain ∧
        h.committed = h.backing.committed ∧ h.ownership = .runtime ∧ s.house.backends h.domain
  | .lose _ p => p ∈ s.idle
  | .shelve h => h ∈ s.live ∧ h.poolable ∧ h.backing.present ∧ h.ownership ≠ .borrowed
  | .settle h => h ∈ s.live ∧ h.backing.present
  | .drop h => h ∈ s.live ∧ (h.backing.present = false ∨ h.ownership = .borrowed)
  | .wrap h =>
      h.poolable = false ∧ h.committed = h.backing.committed ∧ h.ownership ≠ .runtime ∧
        ∃ o, h.backing.tag = .external o ∧ (h.ownership = .borrowed ↔ o = .borrow)
  | .receive h =>
      s.Stamped h.backing ∧ s.house.backends h.domain ∧ h.poolable = false ∧
        h.ownership = .imported ∧ h.committed ≤ h.backing.committed
  | .stray d a => s.Stamped a ∧ s.house.backends d
  | .trim p => p ∈ s.idle
  | .close => s.idle = 0
  | .requota _ => True

theorem reserved_eq {s : Stock} {ns : NamespaceId} {d : MemoryDomain} {bytes : UInt64} {l : Ledger}
    (h : s.ledger.reserveAmount (s.house.cap d) (s.house.quota ns d) ns d bytes = .ok l) :
    s.reserved ns d bytes = l := by
  rw [reserved, h]
  rfl

theorem committed_of_ok {s : Stock} {ns : NamespaceId} {d : MemoryDomain} {bytes : UInt64}
    {l : Ledger} (h : s.ledger.commitAmount ns d bytes = .ok l) : s.committed ns d bytes = l := by
  rw [committed, h]
  rfl

theorem committed_eq {s : Stock} {ns : NamespaceId} {d : MemoryDomain} {bytes : UInt64}
    (h : bytes ≤ s.ledger.reserved.get ns d) :
    s.ledger.commitAmount ns d bytes = .ok (s.committed ns d bytes) := by
  obtain ⟨l, hl⟩ := Ledger.commitAmount_isOk_iff.mpr h
  rw [committed, hl]
  rfl

end Stock

end UnifiedBuffer
