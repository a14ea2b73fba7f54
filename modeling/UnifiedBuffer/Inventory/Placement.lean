import UnifiedBuffer.Lib.ListAt
import UnifiedBuffer.Lib.Ranges
import UnifiedBuffer.Inventory.Balance
import UnifiedBuffer.Inventory.Custody

set_option autoImplicit false

/-! # Where outstanding allocations lie

A backend hands out memory that does not overlap what is still outstanding. The backings that the
runtime holds are then disjoint ranges of one address space, and no sum of their sizes reaches
`2^64` (`Stock.charge_lt`). -/

namespace UnifiedBuffer

open Lib

def Backing.start (x : Backing) : Nat := x.2.base

def Backing.length (x : Backing) : Nat := x.2.committed.toNat

/-- A range of addresses other than `0`. -/
def Backing.Inside (x : Backing) : Prop := 1 ≤ x.start ∧ x.start + x.length ≤ 2 ^ 64

/-- Memory that a backend may hand out: it does not overlap an outstanding allocation of the same
address space. -/
structure Backing.Fits (x : Backing) (calls : List BackendCall) : Prop where
  inside : x.Inside
  apart : ∀ y ∈ outstanding calls, x.1.space = y.1.space → Apart Backing.start Backing.length x y

/-- The outstanding allocations of an address space. -/
def outstandingIn (space : Space) (calls : List BackendCall) : List Backing :=
  (outstanding calls).filter (fun x => x.1.space = space)

/-- Outstanding allocations do not overlap. -/
structure Placed (calls : List BackendCall) : Prop where
  inside : ∀ x ∈ outstanding calls, x.Inside
  apart : ∀ space, (outstandingIn space calls).Pairwise (Apart Backing.start Backing.length)

namespace Placed

variable {calls calls' : List BackendCall}

theorem sublist (h : Placed calls) (hsub : (outstanding calls').Sublist (outstanding calls)) :
    Placed calls' :=
  ⟨fun x hx => h.inside x (hsub.subset hx), fun space => (h.apart space).sublist (hsub.filter _)⟩

theorem freed (h : Placed calls) (d : MemoryDomain) (a : NativeAllocation) :
    Placed (.freed d a :: calls) :=
  h.sublist List.filter_sublist

theorem allocated (h : Placed calls) {d : MemoryDomain} {owner : Ownership} {a : NativeAllocation}
    (hfits : Backing.Fits (d, a) calls) : Placed (.allocated d owner a :: calls) := by
  refine ⟨fun x hx => ?_, fun space => ?_⟩
  · rcases List.mem_cons.mp hx with rfl | hx
    · exact hfits.inside
    · exact h.inside x hx
  · unfold outstandingIn outstanding
    rw [List.filter_cons]
    split
    · rename_i hspace
      refine List.pairwise_cons.mpr ⟨fun y hy => ?_, h.apart space⟩
      obtain ⟨hy, hy'⟩ := List.mem_filter.mp hy
      exact hfits.apart y hy ((of_decide_eq_true hspace).trans (of_decide_eq_true hy').symm)
    · exact h.apart space

/-- An allocation that is freed at once leaves the outstanding ones as they were. -/
theorem visited (h : Placed calls) (d : MemoryDomain) (owner : Ownership) (a : NativeAllocation) :
    Placed (.freed d a :: .allocated d owner a :: calls) := by
  refine h.sublist ?_
  rw [outstanding, outstanding, List.filter_cons, if_neg (by simp)]
  exact List.filter_sublist

end Placed

/-! ## The bytes in hand -/

theorem Custody.held_nodup {held : Multiset Backing} {calls : List BackendCall}
    (h : Custody held calls) (hnative : ∀ x ∈ held, (serialOf x).isSome) : held.Nodup := by
  rw [Multiset.nodup_iff_ne_cons_cons]
  intro x t heq
  subst heq
  obtain ⟨n, hn⟩ := Option.isSome_iff_exists.mp (hnative x (Multiset.mem_cons_self _ _))
  have hnodup := h.nodup
  rw [Multiset.filterMap_cons_some _ _ _ hn, Multiset.filterMap_cons_some _ _ _ hn,
    Multiset.nodup_cons] at hnodup
  exact hnodup.1 (Multiset.mem_cons_self _ _)

/-- Disjoint backings of one address space have less than `2^64` bytes. -/
theorem Custody.sum_lt {held : Multiset Backing} {calls : List BackendCall}
    (h : Custody held calls) (hplaced : Placed calls)
    (hnative : ∀ x ∈ held, (serialOf x).isSome) (space : Space) :
    (held.map (fun x => if x.1.space = space then x.length else 0)).sum < 2 ^ 64 := by
  have hle : held ≤ (outstanding calls : Multiset Backing) :=
    (Multiset.le_iff_subset (h.held_nodup hnative)).mpr (fun x hx => h.inHand x hx (hnative x hx))
  obtain ⟨t, ht⟩ := Multiset.le_iff_exists_add.mp hle
  have hlt := sum_length_lt Backing.start Backing.length (by decide) (hplaced.apart space)
    (fun x hx => hplaced.inside x (List.mem_filter.mp hx).1)
  rw [outstandingIn, sum_map_filter] at hlt
  simp only [decide_eq_true_eq] at hlt
  rw [← Multiset.sum_coe, ← Multiset.map_coe, ht, Multiset.map_add, Multiset.sum_add] at hlt
  exact Nat.lt_of_le_of_lt (Nat.le_add_right _ _) hlt

/-- All that is held was returned by a backend, and committed at its size. -/
structure Stock.Native (s : Stock) : Prop where
  live : ∀ h ∈ s.live, (serialOf h.filed).isSome ∧ h.committed = h.backing.committed
  idle : ∀ p ∈ s.idle, (serialOf p.filed).isSome

namespace Stock

variable {s : Stock} {deal : Deal}

theorem Native.held (h : s.Native) : ∀ x ∈ s.held, (serialOf x).isSome := by
  intro x hx
  rcases Multiset.mem_add.mp hx with hx | hx
  · obtain ⟨b, hb, rfl⟩ := Multiset.mem_map.mp hx
    exact (h.live b hb).1
  · obtain ⟨p, hp, rfl⟩ := Multiset.mem_map.mp hx
    exact h.idle p hp

theorem stamped_native {x : Backing} (h : s.Stamped x.2) : (serialOf x).isSome := by
  rw [serialOf_eq_some.mpr h]
  rfl

theorem native_apply (h : s.Native) (hcan : s.Can deal) (hint : deal.Internal) :
    (s.apply deal).Native := by
  cases deal with
  | wrap | receive | stray | requota => exact absurd hint id
  | reserve | unreserve | visit | waste | close => exact ⟨h.live, h.idle⟩
  | book b =>
      refine ⟨Multiset.forall_mem_cons.mpr ⟨⟨?_, hcan.2.2.1⟩, h.live⟩, h.idle⟩
      exact stamped_native (x := b.filed) hcan.1
  | take p b =>
      obtain ⟨hmem, hback, hdomain, hsize, -⟩ := hcan
      have hfiled : b.filed = p.filed := Prod.ext hdomain hback
      refine ⟨Multiset.forall_mem_cons.mpr ⟨⟨?_, hsize⟩, h.live⟩,
        fun q hq => h.idle q (Multiset.mem_of_mem_erase hq)⟩
      rw [hfiled]
      exact h.idle p hmem
  | lose ns p => exact ⟨h.live, fun q hq => h.idle q (Multiset.mem_of_mem_erase hq)⟩
  | trim p => exact ⟨h.live, fun q hq => h.idle q (Multiset.mem_of_mem_erase hq)⟩
  | shelve b =>
      exact ⟨fun b' hb' => h.live b' (Multiset.mem_of_mem_erase hb'),
        Multiset.forall_mem_cons.mpr ⟨(h.live b hcan.1).1, h.idle⟩⟩
  | settle b => exact ⟨fun b' hb' => h.live b' (Multiset.mem_of_mem_erase hb'), h.idle⟩
  | drop b => exact ⟨fun b' hb' => h.live b' (Multiset.mem_of_mem_erase hb'), h.idle⟩

theorem freeIn_placed (h : Placed s.calls) (d : MemoryDomain) (a : NativeAllocation) :
    Placed (s.freeIn d a) := by
  unfold freeIn
  split
  · exact h.freed d a
  · exact h

theorem placed_apply (h : Placed s.calls) (hint : deal.Internal)
    (hbook : ∀ b, deal = .book b → b.filed.Fits s.calls) : Placed (s.apply deal).calls := by
  cases deal with
  | wrap | receive | stray | requota => exact absurd hint id
  | reserve | unreserve | take | lose | shelve | drop | close => exact h
  | visit d owner a => exact h.visited d owner a
  | waste ns d owner a undo => exact h.visited d owner a
  | book b => exact h.allocated (hbook b rfl)
  | settle b => exact freeIn_placed h _ _
  | trim p => exact freeIn_placed h _ _

/-- What is held at a cell is less than `2^64` bytes. -/
theorem charge_lt (hcustody : Custody s.held s.calls) (hplaced : Placed s.calls)
    (hnative : s.Native) (n : NamespaceId) (d : MemoryDomain) :
    s.charge (fun _ => true) n d < 2 ^ 64 := by
  have hlt := hcustody.sum_lt hplaced hnative.held d.space
  refine Nat.lt_of_le_of_lt ?_ hlt
  have hportion : ∀ (ns : NamespaceId) (d' : MemoryDomain) (bytes : UInt64),
      portion ns d' bytes n d ≤ if d'.space = d.space then bytes.toNat else 0 := by
    intro ns d' bytes
    unfold portion
    split
    · rename_i hk
      rw [hk.2, if_pos rfl]
    · exact Nat.zero_le _
  unfold Stock.held Stock.charge Stock.liveBytes Stock.idleBytes
  rw [Multiset.map_add, Multiset.sum_add, Multiset.map_map, Multiset.map_map]
  refine Nat.add_le_add (Multiset.sum_map_le_sum_map _ _ (fun h hmem => ?_))
    (Multiset.sum_map_le_sum_map _ _ (fun p _ => hportion _ _ _))
  show h.bytesAt n d ≤ _
  unfold Holding.bytesAt
  rw [(hnative.live h hmem).2]
  exact hportion _ _ _

end Stock

end UnifiedBuffer
