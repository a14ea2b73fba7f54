import Mathlib.Data.Multiset.Filter
import UnifiedBuffer.Inventory.Stock

set_option autoImplicit false

/-! # Custody of native allocations

The log of backend calls tells which native allocations are outstanding: returned by a backend and
not yet passed to `IDomain::free`. `Custody held calls` says that the backings in `held` are
outstanding ones, no two of them the same, and that every free in the log was one of an outstanding
allocation, in the domain that returned it. The rules at the end say how custody is gained, given
up and lost. -/

namespace UnifiedBuffer

open Lib

/-! ## The log -/

/-- The number of the call that returned a native allocation. -/
def AllocTag.serial : AllocTag → Option Nat
  | .native n => some n
  | _ => Option.none

/-- A backing and the domain it is filed under. -/
abbrev Backing := MemoryDomain × NativeAllocation

def serialOf (x : Backing) : Option Nat := x.2.tag.serial

theorem serial_eq_some {t : AllocTag} {n : Nat} : t.serial = some n ↔ t = .native n := by
  cases t <;> simp [AllocTag.serial]

theorem serialOf_eq_some {x : Backing} {n : Nat} : serialOf x = some n ↔ x.2.tag = .native n :=
  serial_eq_some

namespace BackendCall

/-- The native allocation that a call returned. -/
def gives : BackendCall → Option Backing
  | .allocated d _ a => some (d, a)
  | .imported d a => some (d, a)
  | .freed _ _ => none

def frees : BackendCall → Option Backing
  | .freed d a => some (d, a)
  | _ => none

end BackendCall

/-- The native allocations that have been passed to `IDomain::free`. -/
def freedSerials (calls : List BackendCall) : List Nat :=
  calls.filterMap (fun call => call.frees.bind serialOf)

/-- The native allocations that the backends returned. -/
def givenSerials (calls : List BackendCall) : List Nat :=
  calls.filterMap (fun call => call.gives.bind serialOf)

/-- The native allocations that were returned and not freed. -/
def outstanding : List BackendCall → List Backing
  | [] => []
  | .allocated d _ a :: calls => (d, a) :: outstanding calls
  | .imported d a :: calls => (d, a) :: outstanding calls
  | .freed _ a :: calls => (outstanding calls).filter (fun x => x.2.tag ≠ a.tag)

/-- Returned allocations carry the number of the call, and only outstanding ones are freed, in the
domain that returned them. -/
def Orderly : List BackendCall → Prop
  | [] => True
  | .allocated _ _ a :: calls => a.tag = .native calls.length ∧ Orderly calls
  | .imported _ a :: calls => a.tag = .native calls.length ∧ Orderly calls
  | .freed d a :: calls => (∀ n, a.tag = .native n → (d, a) ∈ outstanding calls) ∧ Orderly calls

/-- Induction on a log: a call returned an allocation or freed one. -/
theorem calls_induction {motive : List BackendCall → Prop} (nil : motive [])
    (give : ∀ call x calls, call.gives = some x → motive calls → motive (call :: calls))
    (free : ∀ d a calls, motive calls → motive (.freed d a :: calls)) :
    ∀ calls, motive calls
  | [] => nil
  | .allocated d _ a :: calls => give _ (d, a) calls rfl (calls_induction nil give free calls)
  | .imported d a :: calls => give _ (d, a) calls rfl (calls_induction nil give free calls)
  | .freed d a :: calls => free d a calls (calls_induction nil give free calls)

section Give

variable {call : BackendCall} {x : Backing} (h : call.gives = some x) (calls : List BackendCall)

include h

theorem orderly_give :
    Orderly (call :: calls) ↔ x.2.tag = .native calls.length ∧ Orderly calls := by
  cases call <;> cases h <;> rfl

theorem outstanding_give : outstanding (call :: calls) = x :: outstanding calls := by
  cases call <;> cases h <;> rfl

theorem freedSerials_give : freedSerials (call :: calls) = freedSerials calls := by
  cases call <;> cases h <;> rfl

end Give

theorem mem_outstanding_freed {x : Backing} {d : MemoryDomain} {a : NativeAllocation}
    {calls : List BackendCall} :
    x ∈ outstanding (.freed d a :: calls) ↔ x ∈ outstanding calls ∧ x.2.tag ≠ a.tag := by
  rw [outstanding, List.mem_filter]
  simp

theorem freedSerials_freed (d : MemoryDomain) (a : NativeAllocation) (calls : List BackendCall) :
    freedSerials (.freed d a :: calls) = a.tag.serial.toList ++ freedSerials calls := by
  unfold freedSerials
  rw [List.filterMap_cons, BackendCall.frees, Option.bind_some, serialOf]
  cases a.tag.serial <;> rfl

namespace Orderly

variable {calls : List BackendCall}

/-- An outstanding allocation was returned by one of the calls. -/
theorem serial_lt (h : Orderly calls) {x : Backing} (hx : x ∈ outstanding calls) :
    ∃ n < calls.length, x.2.tag = .native n := by
  induction calls using calls_induction with
  | nil => cases hx
  | give call y calls hy ih =>
      obtain ⟨htag, ho⟩ := (orderly_give hy calls).mp h
      rw [outstanding_give hy] at hx
      rcases List.mem_cons.mp hx with rfl | hx
      · exact ⟨calls.length, Nat.lt_succ_self _, htag⟩
      · obtain ⟨n, hn, htag⟩ := ih ho hx
        exact ⟨n, Nat.lt_succ_of_lt hn, htag⟩
  | free d a calls ih =>
      obtain ⟨n, hn, htag⟩ := ih h.2 (mem_outstanding_freed.mp hx).1
      exact ⟨n, Nat.lt_succ_of_lt hn, htag⟩

theorem given (h : Orderly calls) {x : Backing} (hx : x ∈ outstanding calls) :
    ∃ call ∈ calls, call.gives = some x := by
  induction calls using calls_induction with
  | nil => cases hx
  | give call y calls hy ih =>
      rw [outstanding_give hy] at hx
      rcases List.mem_cons.mp hx with rfl | hx
      · exact ⟨call, List.mem_cons_self, hy⟩
      · obtain ⟨call', hmem, hgives⟩ := ih ((orderly_give hy calls).mp h).2 hx
        exact ⟨call', List.mem_cons_of_mem _ hmem, hgives⟩
  | free d a calls ih =>
      obtain ⟨call', hmem, hgives⟩ := ih h.2 (mem_outstanding_freed.mp hx).1
      exact ⟨call', List.mem_cons_of_mem _ hmem, hgives⟩

/-- Returned allocations are numbered. -/
theorem given_native (h : Orderly calls) {call : BackendCall} {x : Backing} (hmem : call ∈ calls)
    (hx : call.gives = some x) : ∃ n, x.2.tag = .native n := by
  induction calls using calls_induction with
  | nil => cases hmem
  | give call' y calls hy ih =>
      obtain ⟨htag, ho⟩ := (orderly_give hy calls).mp h
      rcases List.mem_cons.mp hmem with rfl | hmem
      · rw [hy] at hx
        cases hx
        exact ⟨_, htag⟩
      · exact ih ho hmem
  | free d a calls ih =>
      rcases List.mem_cons.mp hmem with rfl | hmem
      · cases hx
      · exact ih h.2 hmem

theorem freed_lt (h : Orderly calls) {n : Nat} (hn : n ∈ freedSerials calls) :
    n < calls.length := by
  induction calls using calls_induction with
  | nil => cases hn
  | give call y calls hy ih =>
      rw [freedSerials_give hy] at hn
      exact Nat.lt_succ_of_lt (ih ((orderly_give hy calls).mp h).2 hn)
  | free d a calls ih =>
      obtain ⟨hout, ho⟩ := h
      rw [freedSerials_freed] at hn
      rcases List.mem_append.mp hn with hn | hn
      · have htag := serial_eq_some.mp (Option.mem_toList.mp hn)
        obtain ⟨m, hm, htag'⟩ := serial_lt ho (hout n htag)
        obtain rfl : n = m := AllocTag.native.inj (htag.symm.trans htag')
        exact Nat.lt_succ_of_lt hm
      · exact Nat.lt_succ_of_lt (ih ho hn)

/-- An outstanding allocation has not been freed. -/
theorem not_freed (h : Orderly calls) {x : Backing} (hx : x ∈ outstanding calls) {n : Nat}
    (hn : x.2.tag = .native n) : n ∉ freedSerials calls := by
  induction calls using calls_induction with
  | nil => cases hx
  | give call y calls hy ih =>
      obtain ⟨htag, ho⟩ := (orderly_give hy calls).mp h
      rw [freedSerials_give hy]
      rw [outstanding_give hy] at hx
      rcases List.mem_cons.mp hx with rfl | hx
      · intro hfreed
        obtain rfl : n = calls.length := AllocTag.native.inj (hn.symm.trans htag)
        exact Nat.lt_irrefl _ (ho.freed_lt hfreed)
      · exact ih ho hx
  | free d a calls ih =>
      obtain ⟨hx, hne⟩ := mem_outstanding_freed.mp hx
      rw [freedSerials_freed]
      intro hfreed
      rcases List.mem_append.mp hfreed with hfreed | hfreed
      · exact hne (hn.trans (serial_eq_some.mp (Option.mem_toList.mp hfreed)).symm)
      · exact ih h.2 hx hfreed

theorem freed_nodup (h : Orderly calls) : (freedSerials calls).Nodup := by
  induction calls using calls_induction with
  | nil => exact List.nodup_nil
  | give call y calls hy ih =>
      rw [freedSerials_give hy]
      exact ih ((orderly_give hy calls).mp h).2
  | free d a calls ih =>
      obtain ⟨hout, ho⟩ := h
      rw [freedSerials_freed]
      cases hs : a.tag.serial with
      | none => exact ih ho
      | some n =>
          have htag := serial_eq_some.mp hs
          exact List.nodup_cons.mpr ⟨ho.not_freed (hout n htag) htag, ih ho⟩

/-- No two calls returned the same allocation. -/
theorem given_nodup (h : Orderly calls) :
    (givenSerials calls).Nodup ∧ ∀ n ∈ givenSerials calls, n < calls.length := by
  induction calls using calls_induction with
  | nil => exact ⟨List.nodup_nil, fun n hn => by cases hn⟩
  | give call y calls hy ih =>
      obtain ⟨htag, ho⟩ := (orderly_give hy calls).mp h
      obtain ⟨hnodup, hlt⟩ := ih ho
      have heq : givenSerials (call :: calls) = calls.length :: givenSerials calls := by
        refine List.filterMap_cons_some ?_
        rw [hy]
        exact serialOf_eq_some.mpr htag
      rw [heq]
      refine ⟨List.nodup_cons.mpr ⟨fun hmem => Nat.lt_irrefl _ (hlt _ hmem), hnodup⟩, ?_⟩
      intro n hn
      rcases List.mem_cons.mp hn with rfl | hn
      · exact Nat.lt_succ_self _
      · exact Nat.lt_succ_of_lt (hlt n hn)
  | free d a calls ih =>
      obtain ⟨hnodup, hlt⟩ := ih h.2
      exact ⟨hnodup, fun n hn => Nat.lt_succ_of_lt (hlt n hn)⟩

/-- Whatever was freed had been returned, by the same domain. -/
theorem freed_given (h : Orderly calls) {d : MemoryDomain} {a : NativeAllocation}
    (hmem : BackendCall.freed d a ∈ calls) {n : Nat} (hn : a.tag = .native n) :
    ∃ call ∈ calls, call.gives = some (d, a) := by
  induction calls using calls_induction with
  | nil => cases hmem
  | give call y calls hy ih =>
      rcases List.mem_cons.mp hmem with rfl | hmem
      · cases hy
      · obtain ⟨call', hmem', hgives⟩ := ih ((orderly_give hy calls).mp h).2 hmem
        exact ⟨call', List.mem_cons_of_mem _ hmem', hgives⟩
  | free d' a' calls ih =>
      rcases List.mem_cons.mp hmem with heq | hmem
      · cases heq
        obtain ⟨call', hmem', hgives⟩ := h.2.given (h.1 n hn)
        exact ⟨call', List.mem_cons_of_mem _ hmem', hgives⟩
      · obtain ⟨call', hmem', hgives⟩ := ih h.2 hmem
        exact ⟨call', List.mem_cons_of_mem _ hmem', hgives⟩

end Orderly

/-! ## Custody -/

/-- The backings in `held` are outstanding, and no two of them are the same allocation. Memory that
no backend returned does not matter. -/
structure Custody (held : Multiset Backing) (calls : List BackendCall) : Prop where
  orderly : Orderly calls
  inHand : ∀ x ∈ held, (serialOf x).isSome → x ∈ outstanding calls
  nodup : (held.filterMap serialOf).Nodup

namespace Custody

variable {held : Multiset Backing} {calls : List BackendCall} {x : Backing}

theorem lose (h : Custody (x ::ₘ held) calls) : Custody held calls := by
  refine ⟨h.orderly, fun y hy => h.inHand y (Multiset.mem_cons_of_mem hy), ?_⟩
  exact Multiset.nodup_of_le (Multiset.filterMap_le_filterMap _ (Multiset.le_cons_self _ _)) h.nodup

/-- Memory of the caller. -/
theorem wrap (h : Custody held calls) (hx : serialOf x = none) : Custody (x ::ₘ held) calls := by
  refine ⟨h.orderly, fun y hy hs => ?_, ?_⟩
  · rcases Multiset.mem_cons.mp hy with rfl | hy
    · rw [hx] at hs
      cases hs
    · exact h.inHand y hy hs
  · rw [Multiset.filterMap_cons_none _ _ hx]
    exact h.nodup

/-- A backend returns an allocation that is not kept. -/
theorem stray (h : Custody held calls) (call : BackendCall) (hgives : call.gives = some x)
    (htag : x.2.tag = .native calls.length) : Custody held (call :: calls) := by
  refine ⟨(orderly_give hgives calls).mpr ⟨htag, h.orderly⟩, fun y hy hs => ?_, h.nodup⟩
  rw [outstanding_give hgives]
  exact List.mem_cons_of_mem _ (h.inHand y hy hs)

/-- A backend returns an allocation. -/
theorem gain (h : Custody held calls) (call : BackendCall) (hgives : call.gives = some x)
    (htag : x.2.tag = .native calls.length) : Custody (x ::ₘ held) (call :: calls) := by
  have hstray := h.stray call hgives htag
  refine ⟨hstray.orderly, fun y hy hs => ?_, ?_⟩
  · rcases Multiset.mem_cons.mp hy with rfl | hy
    · rw [outstanding_give hgives]
      exact List.mem_cons_self
    · exact hstray.inHand y hy hs
  · rw [Multiset.filterMap_cons_some _ _ _ (serialOf_eq_some.mpr htag), Multiset.nodup_cons]
    refine ⟨fun hmem => ?_, h.nodup⟩
    -- a number in hand belongs to an earlier call
    obtain ⟨y, hy, hs⟩ := (Multiset.mem_filterMap _ _).mp hmem
    obtain ⟨n, hn, htag'⟩ := h.orderly.serial_lt (h.inHand y hy (by rw [hs]; rfl))
    rw [serialOf_eq_some, htag', AllocTag.native.injEq] at hs
    omega

/-- A backing in hand is given back to the domain it is filed under. -/
theorem free (h : Custody (x ::ₘ held) calls) : Custody held (.freed x.1 x.2 :: calls) := by
  refine ⟨⟨fun n hn => ?_, h.orderly⟩, fun y hy hs => ?_, h.lose.nodup⟩
  · exact h.inHand x (Multiset.mem_cons_self _ _) (by rw [serialOf_eq_some.mpr hn]; rfl)
  · refine mem_outstanding_freed.mpr ⟨h.inHand y (Multiset.mem_cons_of_mem hy) hs, fun heq => ?_⟩
    -- two backings in hand would be the same allocation
    obtain ⟨n, hn⟩ := Option.isSome_iff_exists.mp hs
    have hx : serialOf x = some n := by
      rw [serialOf_eq_some, ← heq]
      exact serialOf_eq_some.mp hn
    have hnodup := h.nodup
    rw [Multiset.filterMap_cons_some _ _ _ hx, Multiset.nodup_cons] at hnodup
    exact hnodup.1 ((Multiset.mem_filterMap _ _).mpr ⟨y, hy, hn⟩)

end Custody

/-! ## Custody of the stock -/

def Holding.filed (h : Holding) : Backing := (h.domain, h.backing)

def Deposit.filed (p : Deposit) : Backing := (p.domain, p.backing)

namespace Stock

/-- The backings of registered buffers and of slots. -/
def held (s : Stock) : Multiset Backing := s.live.map Holding.filed + s.idle.map Deposit.filed

theorem held_live {s : Stock} {h : Holding} (hmem : h ∈ s.live) :
    s.held = h.filed ::ₘ ((s.live.erase h).map Holding.filed + s.idle.map Deposit.filed) := by
  obtain ⟨t, ht⟩ := Multiset.exists_cons_of_mem hmem
  rw [held, ht, Multiset.erase_cons_head, Multiset.map_cons, Multiset.cons_add]

theorem held_idle {s : Stock} {p : Deposit} (hmem : p ∈ s.idle) :
    s.held = p.filed ::ₘ (s.live.map Holding.filed + (s.idle.erase p).map Deposit.filed) := by
  obtain ⟨t, ht⟩ := Multiset.exists_cons_of_mem hmem
  rw [held, ht, Multiset.erase_cons_head, Multiset.map_cons, Multiset.add_cons]

theorem freeIn_custody {s : Stock} {held : Multiset Backing} {x : Backing}
    (h : Custody (x ::ₘ held) s.calls) : Custody held (s.freeIn x.1 x.2) := by
  unfold freeIn
  split
  · exact h.free
  · exact h.lose

/-- Every deal keeps custody. -/
theorem custody_apply {s : Stock} {deal : Deal} (h : Custody s.held s.calls)
    (hcan : s.Can deal) : Custody (s.apply deal).held (s.apply deal).calls := by
  cases deal with
  | reserve ns d bytes => exact h
  | unreserve ns d bytes => exact h
  | visit d owner a => exact (h.gain (.allocated d owner a) rfl hcan.1).free
  | waste ns d owner a undo => exact (h.gain (.allocated d owner a) rfl hcan.1).free
  | book b =>
      have hgain := h.gain (.allocated b.domain b.ownership b.backing) rfl hcan.1
      show Custody ((b ::ₘ s.live).map Holding.filed + s.idle.map Deposit.filed) _
      rw [Multiset.map_cons, Multiset.cons_add]
      exact hgain
  | take p b =>
      obtain ⟨hmem, hback, hdom, -⟩ := hcan
      -- the buffer holds the backing that the slot held
      have hfiled : b.filed = p.filed := Prod.ext hdom hback
      rw [held_idle hmem, ← hfiled] at h
      show Custody ((b ::ₘ s.live).map Holding.filed + (s.idle.erase p).map Deposit.filed) _
      rw [Multiset.map_cons, Multiset.cons_add]
      exact h
  | lose ns p =>
      rw [held_idle hcan] at h
      exact h.lose
  | shelve b =>
      rw [held_live hcan.1] at h
      show Custody ((s.live.erase b).map Holding.filed
        + (b.deposit ::ₘ s.idle).map Deposit.filed) _
      rw [Multiset.map_cons, Multiset.add_cons]
      exact h
  | settle b =>
      rw [held_live hcan.1] at h
      exact freeIn_custody h
  | drop b =>
      rw [held_live hcan.1] at h
      exact h.lose
  | wrap b =>
      obtain ⟨-, -, -, o, htag, -⟩ := hcan
      -- no backend has allocated wrapped memory
      have hnone : serialOf b.filed = none := by
        show b.backing.tag.serial = none
        rw [htag]
        rfl
      show Custody ((b ::ₘ s.live).map Holding.filed + s.idle.map Deposit.filed) _
      rw [Multiset.map_cons, Multiset.cons_add]
      exact h.wrap hnone
  | receive b =>
      have hgain := h.gain (.imported b.domain b.backing) rfl hcan.1
      show Custody ((b ::ₘ s.live).map Holding.filed + s.idle.map Deposit.filed) _
      rw [Multiset.map_cons, Multiset.cons_add]
      exact hgain
  | stray d a => exact h.stray (.imported d a) rfl hcan.1
  | trim p =>
      rw [held_idle hcan] at h
      exact freeIn_custody h
  | close => exact h
  | requota quota => exact h

end Stock

end UnifiedBuffer
