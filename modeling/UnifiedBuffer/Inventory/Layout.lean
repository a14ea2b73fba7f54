import UnifiedBuffer.Inventory.Placement

set_option autoImplicit false

/-! # Disjoint backings

If memory that is handed to the runtime (by a backend, by another process or by the caller who wraps
it) shares no byte with the memory that the runtime holds at that time, then the backings of
registered buffers and of slots stay pairwise disjoint (`World.disjoint_next`), so an operation on
one of them leaves the contents of the others alone. A segment that the runtime holds and imports
again is the exception (`World.OpensOthers`). -/

namespace UnifiedBuffer

open Lib

/-- The byte at this address belongs to the backing. -/
def Backing.Has (x : Backing) (s : Space) (a : Nat) : Prop :=
  s = x.1.space ∧ x.start ≤ a ∧ a < x.start + x.length

/-- The two backings share no byte. -/
def Backing.Clear (x y : Backing) : Prop :=
  x.1.space = y.1.space → Apart Backing.start Backing.length x y

namespace Backing

instance : Std.Symm Backing.Clear := ⟨fun _ _ h hspace => (h hspace.symm).symm⟩

theorem Clear.symm {x y : Backing} (h : x.Clear y) : y.Clear x := Std.Symm.symm _ _ h

theorem Clear.not_has {x y : Backing} (h : x.Clear y) {s : Space} {a : Nat} (hx : x.Has s a) :
    ¬ y.Has s a := by
  rintro ⟨hspace, hle, hlt⟩
  obtain ⟨hspace', hle', hlt'⟩ := hx
  rcases h (hspace'.symm.trans hspace) with hapart | hapart <;> omega

end Backing

/-! ## Deals -/

/-- The backing that a deal adds to what is held. -/
def Deal.gains : Deal → Option Backing
  | .book h => some h.filed
  | .wrap h => some h.filed
  | .receive h => some h.filed
  | _ => none

namespace Stock

variable {s : Stock} {deal : Deal}

/-- The backings in hand share no byte. -/
def Disjoint (s : Stock) : Prop := s.held.Pairwise Backing.Clear

/-- What the deal adds shares no byte with what is held. -/
def Roomy (s : Stock) (deal : Deal) : Prop := ∀ x, deal.gains = some x → ∀ y ∈ s.held, x.Clear y

/-- A deal adds one backing or none. -/
theorem held_apply (hcan : s.Can deal) : (s.apply deal).held ≤ s.held ∨
    ∃ x, deal.gains = some x ∧ (s.apply deal).held = x ::ₘ s.held := by
  have hgain : ∀ h : Holding, (h ::ₘ s.live).map Holding.filed + s.idle.map Deposit.filed
      = h.filed ::ₘ s.held := fun h => by rw [Multiset.map_cons, Multiset.cons_add, held]
  cases deal with
  | reserve | unreserve | visit | waste | stray | close | requota => exact Or.inl le_rfl
  | book h => exact Or.inr ⟨h.filed, rfl, hgain h⟩
  | wrap h => exact Or.inr ⟨h.filed, rfl, hgain h⟩
  | receive h => exact Or.inr ⟨h.filed, rfl, hgain h⟩
  | take p h =>
      obtain ⟨hmem, hback, hdom, -⟩ := hcan
      have hfiled : h.filed = p.filed := Prod.ext hdom hback
      -- the backing leaves the pool as it enters the buffer
      refine Or.inl (le_of_eq ?_)
      show (h ::ₘ s.live).map Holding.filed + (s.idle.erase p).map Deposit.filed = s.held
      rw [held_idle hmem, Multiset.map_cons, Multiset.cons_add, hfiled]
  | shelve h =>
      refine Or.inl (le_of_eq ?_)
      show (s.live.erase h).map Holding.filed + (h.deposit ::ₘ s.idle).map Deposit.filed = s.held
      rw [held_live hcan.1, Multiset.map_cons, Multiset.add_cons]
      rfl
  | lose ns p =>
      rw [held_idle hcan]
      exact Or.inl (Multiset.le_cons_self _ _)
  | trim p =>
      rw [held_idle hcan]
      exact Or.inl (Multiset.le_cons_self _ _)
  | settle h =>
      rw [held_live hcan.1]
      exact Or.inl (Multiset.le_cons_self _ _)
  | drop h =>
      rw [held_live hcan.1]
      exact Or.inl (Multiset.le_cons_self _ _)

theorem disjoint_apply (h : s.Disjoint) (hcan : s.Can deal) (hroom : s.Roomy deal) :
    (s.apply deal).Disjoint := by
  unfold Disjoint
  rcases held_apply hcan with hle | ⟨x, hgains, hheld⟩
  · exact pairwise_of_le h hle
  · rw [hheld, pairwise_cons]
    exact ⟨hroom x hgains, h⟩

end Stock

theorem Deal.Closing.roomy {deal : Deal} (h : deal.Closing) (s : Stock) : s.Roomy deal := by
  intro x hx
  cases deal with
  | shelve | settle | drop | trim | close => cases hx
  | _ => exact absurd h id

/-! ## Runs -/

/-- The memory that `allocate` returns shares no byte with what is held. -/
structure Env.Separate (env : Env) (held : Multiset Backing) : Prop where
  allocate : ∀ d bytes alignment a, env.allocate d bytes alignment = .ok a →
    ∀ y ∈ held, Backing.Clear (d, a) y

namespace World

/-- The memory that comes in with the operation shares no byte with what is held. -/
def Separate (w : World) : Op → Prop
  | .allocate env _ => env.Separate w.core.stock.held
  | .migrate env _ _ => env.Separate w.core.stock.held
  | .importBuffer env desc _ _ => ∀ a, env.opened desc = .ok a →
      ∀ y ∈ w.core.stock.held, Backing.Clear (desc.domain, a) y
  | .wrapExternal desc => ∀ y ∈ w.core.stock.held,
      Backing.Clear (desc.domain, .found desc.pointer desc.size desc.alignment) y
  | _ => True

variable {w : World} {op : Op} {base : List BufferId}

theorem allocateDeals_roomy {rt : RuntimeImpl} {os : Os} {env : Env} {s : Stock}
    {req : AllocationRequest} (h : env.Separate s.held) :
    Along Stock.apply Stock.Roomy s (rt.allocateDeals os env req) := by
  have hnone : ∀ {s : Stock} {deal : Deal}, deal.gains = none → s.Roomy deal :=
    fun hg x hx => by rw [hg] at hx; cases hx
  unfold RuntimeImpl.allocateDeals
  split
  · trivial
  simp only
  refine ⟨hnone rfl, ?_⟩
  split
  · split <;> exact ⟨hnone rfl, trivial⟩
  split
  · exact ⟨hnone rfl, trivial⟩
  rename_i a ha
  split
  · exact ⟨hnone rfl, hnone rfl, trivial⟩
  split
  · exact ⟨hnone rfl, hnone rfl, trivial⟩
  · refine ⟨fun x hx => ?_, trivial⟩
    cases hx
    exact h.allocate _ _ _ a ha

theorem migrateDeals_roomy {rt : RuntimeImpl} {os : Os} {env : Env} {s : Stock} {ctl : Control}
    {target : MemoryDomain} (h : env.Separate s.held) :
    Along Stock.apply Stock.Roomy s (rt.migrateDeals os env ctl target) := by
  have hnone : ∀ {s : Stock} {deal : Deal}, deal.gains = none → s.Roomy deal :=
    fun hg x hx => by rw [hg] at hx; cases hx
  unfold RuntimeImpl.migrateDeals
  split
  · trivial
  simp only
  refine ⟨hnone rfl, ?_⟩
  split
  · exact ⟨hnone rfl, trivial⟩
  rename_i a ha
  split
  · exact ⟨hnone rfl, hnone rfl, trivial⟩
  split
  · exact ⟨hnone rfl, hnone rfl, trivial⟩
  · refine ⟨fun x hx => ?_, ?_, trivial⟩
    · cases hx
      exact h.allocate _ _ _ a ha
    · split <;> exact hnone rfl

theorem importDeals_roomy {env : Env} {desc : ExportDescriptor} {ns : NamespaceId}
    {label : String} (h : w.Separate (.importBuffer env desc ns label)) :
    Along Stock.apply Stock.Roomy w.core.stock (w.core.importDeals env desc ns label) := by
  unfold Core.importDeals Core.segmentDeals
  split
  · split
    · rename_i a _ ha
      split
      · exact ⟨fun x hx => (by cases hx), trivial⟩
      · refine ⟨fun x hx => ?_, trivial⟩
        cases hx
        exact h a ha
    · trivial
  · trivial

/-- The deals of an operation whose memory is separate. -/
theorem keeps_roomy (w : World) (hop : w.Separate op) : w.Keeps Stock.Roomy op := by
  have hclosing : op.Frugal → w.Keeps Stock.Roomy op := fun hfrugal =>
    Along.of_mem (fun deal hmem s => (w.deals_closing hfrugal deal hmem).roomy s) _
  cases op with
  | allocate env req => exact allocateDeals_roomy hop
  | migrate env i target =>
      show Along _ _ _ (w.migrateDeals env i target)
      unfold migrateDeals
      split
      · trivial
      · exact migrateDeals_roomy hop
  | importBuffer env desc ns label => exact importDeals_roomy hop
  | wrapExternal desc =>
      show Along _ _ _ (w.core.wrapDeals desc)
      unfold Core.wrapDeals
      split
      · refine ⟨fun x hx => ?_, trivial⟩
        cases hx
        exact hop
      · trivial
  | createNamespace nsc => exact ⟨fun x hx => (by cases hx), trivial⟩
  | _ => exact hclosing trivial

/-- The backings in hand still share no byte after an operation with separate memory. -/
theorem disjoint_next (hinv : w.RefInv base) (h : w.core.stock.Disjoint) (hop : w.Separate op) :
    (w.next op).core.stock.Disjoint := by
  obtain ⟨heq, hcan⟩ := next_stock hinv op
  rw [heq]
  exact hcan.invariant (w.keeps_roomy hop) h
    (fun _ _ hs hdeal hroom => Stock.disjoint_apply hs hdeal hroom)

end World

/-! ## Segments that are held

The address of a byte stands for the cell of memory behind it. A segment or a file that the runtime
holds can be opened once more by its name, and the import then returns the cells that are held. It
is the one way in which memory that comes in is not new. -/

/-- The backing is the segment or the file with this name. -/
def Env.Names (env : Env) (d : MemoryDomain) (handle : String) (x : Backing) : Prop :=
  x.1 = d ∧ env.exportHandle d x.2 = .ok handle

namespace World

variable {w : World} {op : Op}

/-- What comes in with the operation shares no byte with what is held, unless it is a segment that
is held. -/
def Fresh (w : World) : Op → Prop
  | .importBuffer env desc _ _ => ∀ a, env.opened desc = .ok a → ∀ y ∈ w.core.stock.held,
      ¬ env.Names desc.domain desc.handle y → Backing.Clear (desc.domain, a) y
  | op => w.Separate op

/-- The operation imports no segment and no file that the runtime holds, in a buffer or in the
pool. -/
def OpensOthers (w : World) : Op → Prop
  | .importBuffer env desc _ _ =>
      ∀ y ∈ w.core.stock.held, ¬ env.Names desc.domain desc.handle y
  | _ => True

theorem Fresh.separate (h : w.Fresh op) (hothers : w.OpensOthers op) : w.Separate op := by
  cases op with
  | importBuffer env desc ns label => exact fun a ha y hy => h a ha y hy (hothers y hy)
  | _ => exact h

end World

/-! ## The blocks and slots of a runtime -/

/-- Where the memory of a buffer is. -/
def Record.filed (r : Record) : Backing := (r.domain, r.backing)

/-- Where the memory of a slot is. -/
def filedSlot (e : PoolKey × PoolSlot) : Backing := (e.1.domain, e.2.backing)

namespace Core

variable {c : Core} {j k : CtlId}

theorem held_of_alive (hk : c.Alive k) :
    (c.control k).record.filed ∈ c.stock.held :=
  Multiset.mem_add.mpr (Or.inl (Multiset.mem_map.mpr ⟨_, c.holding_mem hk.1 hk.2, rfl⟩))

theorem held_of_slot {e : PoolKey × PoolSlot} (he : e ∈ c.rt.pool.all) :
    filedSlot e ∈ c.stock.held :=
  Multiset.mem_add.mpr (Or.inr (Multiset.mem_map.mpr ⟨depositOf e,
    Multiset.mem_coe.mpr (List.mem_map.mpr ⟨e, he, rfl⟩), rfl⟩))

theorem mem_held {x : Backing} (hx : x ∈ c.stock.held) :
    (∃ k, c.Alive k ∧ x = (c.control k).record.filed) ∨ ∃ e ∈ c.rt.pool.all, x = filedSlot e := by
  rcases Multiset.mem_add.mp hx with hlive | hidle
  · obtain ⟨held, hheld, rfl⟩ := Multiset.mem_map.mp hlive
    obtain ⟨ctl, hctl, hsome⟩ := List.mem_filterMap.mp (Multiset.mem_coe.mp hheld)
    obtain ⟨k, hk⟩ := List.mem_iff_getElem?.mp hctl
    have hlt : k < c.ctls.length := (List.getElem?_eq_some_iff.mp hk).1
    obtain rfl : c.control k = ctl := Option.some.inj ((c.control_get hlt).symm.trans hk)
    unfold Control.held at hsome
    split at hsome
    · cases hsome
    · rename_i hfin
      cases hsome
      exact Or.inl ⟨k, ⟨hlt, Bool.eq_false_of_not_eq_true hfin⟩, rfl⟩
  · obtain ⟨deposit, hdeposit, rfl⟩ := Multiset.mem_map.mp hidle
    obtain ⟨e, he, rfl⟩ := List.mem_map.mp (Multiset.mem_coe.mp hdeposit)
    exact Or.inr ⟨e, he, rfl⟩

/-- What is held besides a buffer. -/
theorem held_rest (hk : c.Alive k) :
    ∃ t, c.stock.held = (c.control k).record.filed ::ₘ t ∧
      (∀ j, c.Alive j → j ≠ k → (c.control j).record.filed ∈ t) ∧
      ∀ e ∈ c.rt.pool.all, filedSlot e ∈ t := by
  obtain ⟨live, hlive, hset⟩ := c.live_set hk.1
  rw [Control.held_first hk.2] at hlive
  refine ⟨live.map Holding.filed + c.idle.map Deposit.filed, ?_, fun j hj hne => ?_,
    fun e he => ?_⟩
  · show c.live.map _ + _ = _
    rw [hlive, consOption, Multiset.map_cons, Multiset.cons_add]
    rfl
  · -- the blocks without `k` still have `j`
    let c' : Core := ⟨c.rt, c.os, c.ctls.set k { c.control k with finalized := true }⟩
    have hctl : c'.control j = c.control j := by
      rw [control_of_set (c := c) rfl hk.1 j, if_neg hne]
    have hmem : (c'.control j).record.holding ∈ c'.live :=
      c'.holding_mem (by rw [List.length_set]; exact hj.1) (by rw [hctl]; exact hj.2)
    rw [hctl, hset] at hmem
    exact Multiset.mem_add.mpr (Or.inl (Multiset.mem_map.mpr ⟨_, hmem, rfl⟩))
  · exact Multiset.mem_add.mpr (Or.inr (Multiset.mem_map.mpr ⟨depositOf e,
      Multiset.mem_coe.mpr (List.mem_map.mpr ⟨e, he, rfl⟩), rfl⟩))

/-- Two buffers share no byte. -/
theorem clear_blocks (hdisj : c.stock.Disjoint) (hk : c.Alive k) (hj : c.Alive j) (hne : j ≠ k) :
    Backing.Clear (c.control k).record.filed (c.control j).record.filed := by
  obtain ⟨t, hheld, hblocks, -⟩ := held_rest hk
  rw [Stock.Disjoint, hheld, pairwise_cons] at hdisj
  exact hdisj.1 _ (hblocks j hj hne)

/-- A buffer and a slot share no byte. -/
theorem clear_slot (hdisj : c.stock.Disjoint) (hk : c.Alive k)
    {e : PoolKey × PoolSlot} (he : e ∈ c.rt.pool.all) :
    Backing.Clear (c.control k).record.filed (filedSlot e) := by
  obtain ⟨t, hheld, -, hslots⟩ := held_rest hk
  rw [Stock.Disjoint, hheld, pairwise_cons] at hdisj
  exact hdisj.1 _ (hslots e he)

/-- A slot that is taken shares no byte with the ones that stay. -/
theorem clear_taken (hdisj : c.stock.Disjoint) {req : AllocationRequest}
    {alignment classSize : UInt64} {slot : PoolSlot} {pool : Pool}
    (offer : c.rt.poolOffer req alignment classSize = some (slot, pool))
    {e : PoolKey × PoolSlot} (he : e ∈ pool.all) :
    Backing.Clear (req.domain, slot.backing) (filedSlot e) := by
  have hheld : c.stock.held = (req.domain, slot.backing) ::ₘ
      (c.live.map Holding.filed
        + (pool.all.map depositOf : Multiset Deposit).map Deposit.filed) := by
    show c.live.map _ + c.idle.map _ = _
    rw [idle_take offer, Multiset.map_cons, Multiset.add_cons]
    rfl
  rw [Stock.Disjoint, hheld, pairwise_cons] at hdisj
  refine hdisj.1 _ (Multiset.mem_add.mpr (Or.inr (Multiset.mem_map.mpr ⟨depositOf e,
    Multiset.mem_coe.mpr (List.mem_map.mpr ⟨e, he, rfl⟩), rfl⟩)))

end Core

end UnifiedBuffer
