import UnifiedBuffer.Cli.Session

set_option autoImplicit false

/-! # The end of the program

At the end of `main` the table is destroyed before the runtime, so `shutdown` finds no buffer. All
requests of the shell use one namespace, and a slot of the pool therefore goes back to the namespace
that it was charged to. Under these two conditions nothing is lost (`Stock.Leakless`). -/

namespace UnifiedBuffer

open Lib

/-! ## One namespace -/

/-- Every backing belongs to namespace `n`, and was allocated for the runtime itself. -/
structure Stock.Homely (n : NamespaceId) (s : Stock) : Prop where
  live : ∀ b ∈ s.live, b.ns = n ∧ b.ownership = .runtime
  idle : ∀ p ∈ s.idle, p.owner = n
  calls : ∀ d owner a, .allocated d owner a ∈ s.calls → owner = .runtime

/-- The deal does not go beyond namespace `n`, and leaves the runtime open. -/
def Deal.Homely (n : NamespaceId) : Deal → Prop
  | .visit _ owner _ => owner = .runtime
  | .waste _ _ owner _ _ => owner = .runtime
  | .book h => h.ns = n ∧ h.ownership = .runtime
  | .take _ h => h.ns = n
  | .wrap _ => False
  | .receive _ => False
  | .stray _ _ => False
  | .close => False
  | .requota _ => False
  | _ => True

namespace Stock

variable {n : NamespaceId} {s : Stock} {deal : Deal}

theorem Homely.closesLast (h : s.Homely n) (hcan : s.Can deal) (hdeal : deal.Homely n) :
    s.ClosesLast deal := by
  cases deal with
  | book b =>
      show b.ownership ≠ .borrowed
      rw [hdeal.2]
      decide
  | take p b => exact (h.idle p hcan.1).trans (Eq.symm hdeal)
  | close => exact absurd hdeal id
  | _ => trivial

theorem Homely.apply (h : s.Homely n) (hcan : s.Can deal) (hdeal : deal.Homely n) :
    (s.apply deal).Homely n := by
  have herase : ∀ b b', b' ∈ s.live.erase b → b'.ns = n ∧ b'.ownership = .runtime :=
    fun b b' hb' => h.live b' (Multiset.mem_of_mem_erase hb')
  have hleft : ∀ p q, q ∈ s.idle.erase p → q.owner = n := fun p q hq =>
    h.idle q (Multiset.mem_of_mem_erase hq)
  have hfreed : ∀ d' a' d owner a, .allocated d owner a ∈ s.freeIn d' a' → owner = .runtime :=
    fun _ _ d owner a hmem => h.calls d owner a (allocated_of_freeIn hmem)
  have hvisited : ∀ {d' : MemoryDomain} {owner' : Ownership} {a' : NativeAllocation},
      owner' = .runtime → ∀ d owner a, .allocated d owner a ∈
        .freed d' a' :: .allocated d' owner' a' :: s.calls → owner = .runtime := by
    intro d' owner' a' howner d owner a hmem
    simp only [List.mem_cons, reduceCtorEq, BackendCall.allocated.injEq, false_or] at hmem
    rcases hmem with ⟨-, rfl, -⟩ | hmem
    · exact howner
    · exact h.calls d owner a hmem
  cases deal with
  | wrap | receive | stray | close | requota => exact absurd hdeal id
  | reserve | unreserve => exact ⟨h.live, h.idle, h.calls⟩
  | visit => exact ⟨h.live, h.idle, hvisited hdeal⟩
  | waste => exact ⟨h.live, h.idle, hvisited hdeal⟩
  | book b =>
      refine ⟨Multiset.forall_mem_cons.mpr ⟨hdeal, h.live⟩, h.idle, fun d owner a hmem => ?_⟩
      rcases List.mem_cons.mp hmem with heq | hmem
      · cases heq
        exact hdeal.2
      · exact h.calls d owner a hmem
  | take p b =>
      exact ⟨Multiset.forall_mem_cons.mpr ⟨⟨hdeal, hcan.2.2.2.2.1⟩, h.live⟩, hleft p, h.calls⟩
  | lose ns p => exact ⟨h.live, hleft p, h.calls⟩
  | shelve b =>
      exact ⟨herase b, Multiset.forall_mem_cons.mpr ⟨(h.live b hcan.1).1, h.idle⟩, h.calls⟩
  | settle b => exact ⟨herase b, h.idle, hfreed _ _⟩
  | drop b => exact ⟨herase b, h.idle, h.calls⟩
  | trim p => exact ⟨h.live, hleft p, hfreed _ _⟩

end Stock

/-- What is given up by a session is given up for the pool or the backend. -/
theorem RuntimeImpl.finalizeDeals_homely (rt : RuntimeImpl) (ctl : Control) (n : NamespaceId) :
    ∀ deal ∈ rt.finalizeDeals ctl, deal.Homely n := by
  unfold finalizeDeals
  split
  · simp
  split
  · split <;> simp [Deal.Homely]
  · simp [Deal.Homely]

theorem RuntimeImpl.allocateDeals_homely (rt : RuntimeImpl) (os : Os) (env : Env)
    (req : AllocationRequest) : ∀ deal ∈ rt.allocateDeals os env req, deal.Homely req.ns := by
  have hbacked : ∀ alignment a pooled,
      (rt.backedRecord env req alignment a pooled).holding.ns = req.ns ∧
        (rt.backedRecord env req alignment a pooled).holding.ownership = .runtime :=
    fun _ _ _ => ⟨rfl, rfl⟩
  unfold allocateDeals
  split
  · simp
  simp only
  split
  · split <;> simp [Deal.Homely, hbacked]
  split
  · simp [Deal.Homely]
  split
  · simp [Deal.Homely]
  split <;> simp [Deal.Homely, hbacked]

theorem RuntimeImpl.migrateDeals_homely (rt : RuntimeImpl) (os : Os) (env : Env) {ctl : Control}
    (howner : ctl.record.ownership = .runtime) (target : MemoryDomain) :
    ∀ deal ∈ rt.migrateDeals os env ctl target, deal.Homely ctl.record.ns := by
  have hrebound : ∀ tdom a, (rt.rebind tdom target ctl.record a).holding.ns = ctl.record.ns ∧
      (rt.rebind tdom target ctl.record a).holding.ownership = .runtime :=
    fun _ _ => ⟨rfl, howner⟩
  unfold migrateDeals
  split
  · simp
  simp only
  split
  · simp [Deal.Homely]
  split
  · simp [Deal.Homely, howner]
  split
  · simp [Deal.Homely, howner]
  · split <;> simp [Deal.Homely, hrebound]

namespace World

variable {w : World} {op : Op} {good : Env → Prop}

theorem releaseDeals_homely (w : World) (i : Nat) (n : NamespaceId) :
    ∀ deal ∈ w.releaseDeals i, deal.Homely n := by
  unfold releaseDeals Core.dropDeals
  split
  · simp
  split
  · exact w.core.rt.finalizeDeals_homely _ n
  · simp

/-- What the shell does concerns the default namespace. -/
theorem deals_homely (hinv : w.RefInv []) (h : w.core.stock.Homely kDefaultNamespace)
    (hop : (Action.call op).Ordinary good) : ∀ deal ∈ w.deals op, deal.Homely kDefaultNamespace := by
  cases op with
  | allocate env req =>
      rw [← show req.ns = kDefaultNamespace from hop.2]
      exact w.core.rt.allocateDeals_homely w.core.os env req
  | migrate env i target =>
      show ∀ deal ∈ w.migrateDeals env i target, _
      unfold World.migrateDeals
      cases hk : (w.handle i).validateAlive w.core with
      | error e => simp
      | ok k =>
          obtain ⟨hlt, hfirst⟩ := hinv.alive (handle_alive hinv hk).1
          obtain ⟨hns, howner⟩ := h.live _ (w.core.holding_mem hlt hfirst)
          rw [← hns]
          exact w.core.rt.migrateDeals_homely w.core.os env howner target
  | release env i => exact w.releaseDeals_homely i _
  | destroy env i => exact w.releaseDeals_homely i _
  | moveAssign env dst src =>
      show ∀ deal ∈ w.moveAssignDeals dst src, _
      unfold World.moveAssignDeals
      split
      · split
        · simp
        · exact w.releaseDeals_homely dst _
      · simp
  | map | verify | checksum | construct | move => simp [deals]
  | wrapExternal | importBuffer | exportBuffer | share | view | acquire | copyTo | copyFrom
  | invalidate | poolTrim | shutdown | createNamespace => exact absurd hop id

/-- What holds of the stock in a session with reliable backends. -/
structure Sound (w : World) : Prop where
  refs : w.RefInv []
  custody : Custody w.core.stock.held w.core.stock.calls
  leakless : w.core.stock.Leakless
  homely : w.core.stock.Homely kDefaultNamespace

theorem Sound.next (h : w.Sound) (hop : (Action.call op).Ordinary Env.Reliable) :
    (w.next op).Sound := by
  obtain ⟨heq, hcan⟩ := next_stock h.refs op
  have hhomely : w.Keeps (fun _ deal => deal.Homely kDefaultNamespace) op :=
    Along.of_mem (fun deal hmem _ => deals_homely h.refs h.homely hop deal hmem) _
  have hreliable : op.Reliable := by
    cases op with
    | allocate env req => exact hop.1
    | migrate env i target => exact hop
    | _ => trivial
  -- the three parts depend on each other, deal by deal
  have hall := hcan.invariant (I := fun s : Stock => (Custody s.held s.calls ∧ s.Leakless) ∧
      s.Homely kDefaultNamespace) (hhomely.and (w.keeps_fulfilled hreliable))
    ⟨⟨h.custody, h.leakless⟩, h.homely⟩ (fun s deal hs hcan hgood =>
      ⟨⟨Stock.custody_apply hs.1.1 hcan,
        hs.1.2.apply hcan ⟨hgood.2, hs.2.closesLast hcan hgood.1⟩⟩, hs.2.apply hcan hgood.1⟩)
  rw [← heq] at hall
  exact ⟨h.refs.next op, hall.1.1, hall.1.2, hall.2⟩

theorem Sound.perform (h : w.Sound) {act : Action} (hact : act.Ordinary Env.Reliable) :
    (w.perform act).Sound := by
  cases act with
  | call op => exact h.next hact
  | load a n => exact h
  | store a data =>
      exact ⟨h.refs.same ⟨rfl, rfl, rfl, rfl, le_rfl, rfl, rfl⟩, h.custody, h.leakless, h.homely⟩

theorem sound_init (plat : RuntimeImpl.Platform) : (World.init {} plat).Sound where
  refs := refInv_init {} plat
  custody := custody_init {} plat
  leakless := leakless_init {} plat
  homely :=
    { live := fun b hb => absurd hb (Multiset.notMem_zero b)
      idle := fun p hp => absurd hp (Multiset.notMem_zero p)
      calls := fun _ _ _ hmem => by cases hmem }

/-! ## The runtime is destroyed last -/

/-- The whole table is taken down. -/
theorem Tended.takeDown {table : Nat → Option Nat} (h : w.Tended table []) {ps : List Nat}
    (hps : ∀ p, p ∈ ps ↔ ∃ lo, table lo = some p) : w.Tended (fun _ => none) ps where
  refs := h.refs
  order := h.order
  entries _ _ hlo := by cases hlo
  owners p o k ho hpin :=
    Or.inl ((hps p).mpr ((h.owners p o k ho hpin).resolve_left List.not_mem_nil))
  apart _ _ _ hlo := by cases hlo
  bound p hp := by
    obtain ⟨lo, hlo⟩ := (hps p).mp hp
    obtain ⟨x, k, hx, -⟩ := h.entries lo p hlo
    exact (List.getElem?_eq_some_iff.mp hx).1

theorem Tended.released (h : w.Tended (fun _ => none) []) : w.Released := by
  intro o ho
  obtain ⟨p, hp⟩ := List.mem_iff_getElem?.mp ho
  refine Option.eq_none_iff_forall_ne_some.mpr fun k hpin => ?_
  rcases h.owners p o k hp hpin with hmem | ⟨lo, hlo⟩
  · cases hmem
  · cases hlo

/-- `shutdown` closes the runtime. -/
theorem shutdownDeals_close (c : Core) :
    (runs Stock.apply c.stock c.shutdownDeals).house.closed = true := by
  unfold Core.shutdownDeals
  cases hclosed : c.rt.closed with
  | true => exact hclosed
  | false =>
      rw [if_neg Bool.false_ne_true, runs, List.foldl_append]
      rfl

/-- A `shutdown` without buffers leaves nothing behind. -/
theorem Sound.shutdown (h : w.Sound) (hrel : w.Released) (env : Env) :
    Custody (w.next (.shutdown env)).core.stock.held (w.next (.shutdown env)).core.stock.calls ∧
      (w.next (.shutdown env)).core.stock.Leakless ∧
      (w.next (.shutdown env)).core.stock.live = 0 ∧ (w.next (.shutdown env)).core.stock.idle = 0 ∧
      ∀ d owner a, .allocated d owner a ∈ (w.next (.shutdown env)).core.stock.calls →
        owner = .runtime := by
  obtain ⟨heq, hcan⟩ := next_stock h.refs (.shutdown env)
  have hlive : w.core.stock.live = 0 := by
    rw [← h.refs.registered_live, h.refs.registered_nil hrel]
    rfl
  have hfrugal : (Op.shutdown env).Frugal := trivial
  have hclosing : w.Keeps (fun _ deal => deal.Closing) (.shutdown env) :=
    Along.of_mem (fun deal hmem _ => w.deals_closing hfrugal deal hmem) _
  have hall := hcan.invariant (I := fun s : Stock => (Custody s.held s.calls ∧ s.Leakless) ∧
      s.live = 0 ∧ ∀ d owner a, .allocated d owner a ∈ s.calls → owner = .runtime) hclosing
    ⟨⟨h.custody, h.leakless⟩, hlive, h.homely.calls⟩ (fun s deal hs hcan hdeal => by
      obtain ⟨⟨hcustody, hleakless⟩, hlive, hcalls⟩ := hs
      have hnone : ∀ b, b ∉ s.live := by
        rw [hlive]
        exact Multiset.notMem_zero
      have hlast : s.ClosesLast deal := by
        cases deal with
        | close => exact fun b hb => absurd hb (hnone b)
        | book | take => exact absurd hdeal id
        | _ => trivial
      refine ⟨⟨Stock.custody_apply hcustody hcan, hleakless.apply hcan ⟨hdeal.fulfilled, hlast⟩⟩,
        ?_⟩
      cases deal with
      | shelve b | settle b | drop b => exact absurd hcan.1 (hnone b)
      | trim p =>
          exact ⟨hlive, fun d owner a hmem => hcalls d owner a (Stock.allocated_of_freeIn hmem)⟩
      | close => exact ⟨hlive, hcalls⟩
      | _ => exact absurd hdeal id)
  have hclosed := shutdownDeals_close w.core
  have hdeals : w.deals (.shutdown env) = w.core.shutdownDeals := rfl
  rw [← hdeals, ← heq] at hclosed
  rw [← heq] at hall
  obtain ⟨⟨hcustody, hleakless⟩, hlive, hcalls⟩ := hall
  refine ⟨hcustody, hleakless, hlive, ?_, hcalls⟩
  -- a slot would have a backend
  refine Multiset.eq_zero_of_forall_notMem fun p hp => ?_
  have hback := (hleakless.idle p hp).2
  rw [hleakless.closed hclosed p.domain] at hback
  cases hback

end World

namespace Cli

variable {plat : RuntimeImpl.Platform} {s : Shell}

theorem Shell.Ran.sound (h : s.Ran Env.Reliable plat) : s.world.Sound := by
  have hacts : Along World.perform (fun _ act => act.Ordinary Env.Reliable)
      (World.init {} plat) s.trace := Along.of_mem (fun act hact _ => h.acts act hact) _
  rw [h.world]
  exact hacts.invariant hacts (World.sound_init plat) fun w act hw hact _ => hw.perform hact

/-- **The program gives everything back.** However a session went, once `main` is left each
allocation of a backend has been freed, exactly once, the pool is empty, no buffer is registered
and no byte is committed. The handles may be destroyed in any order. -/
theorem program_frees_everything (plat : RuntimeImpl.Platform) (args : List String) {ans : Answers}
    {lines : List (String × Answers)} (hans : ans.All Env.Reliable)
    (hlines : ∀ e ∈ lines, e.2.All Env.Reliable) {env : Env} (henv : env.Reliable)
    {order : List Nat}
    (horder : order.Perm ((Shell.main plat args ans lines).handles.entries.map Prod.snd)) :
    (∀ d owner a, .allocated d owner a ∈
        ((Shell.main plat args ans lines).exit env order).world.core.os.calls →
      ((Shell.main plat args ans lines).exit env order).world.core.os.calls.count (.freed d a) = 1) ∧
    ((Shell.main plat args ans lines).exit env order).world.core.rt.pool.all = [] ∧
    ((Shell.main plat args ans lines).exit env order).world.core.rt.registry.size = 0 ∧
    ∀ n d, ((Shell.main plat args ans lines).exit env order).world.core.rt.ledger.committed.get n d
      = 0 := by
  have h := Shell.kept_main plat args hans hlines
  generalize Shell.main plat args ans lines = s at h horder ⊢
  have hmem : ∀ p, p ∈ order ↔ ∃ lo, s.handles.find? lo = some p := by
    intro p
    rw [horder.mem_iff, List.mem_map]
    constructor
    · rintro ⟨⟨lo, p'⟩, he, rfl⟩
      exact ⟨lo, (s.handles.mem_entries_iff lo p').mp he⟩
    · rintro ⟨lo, hlo⟩
      exact ⟨(lo, p), (s.handles.mem_entries_iff lo p).mpr hlo, rfl⟩
  have hdown : s.Session Env.Reliable plat (fun _ => none) (order ++ []) := by
    rw [List.append_nil]
    exact ⟨h.tended.takeDown hmem, h.ran⟩
  have hleft := hdown.leave henv order
  obtain ⟨hcustody, hleakless, hlive, hidle, hcalls⟩ :=
    hleft.ran.sound.shutdown hleft.tended.released env
  refine ⟨fun d owner a hgiven => ?_, ?_, ?_, fun n d => ?_⟩
  · obtain rfl := hcalls d owner a hgiven
    obtain ⟨n, hn⟩ := hcustody.orderly.given_native hgiven rfl
    refine hcustody.orderly.count_freed hn ?_
    rcases hleakless.allocated d a hgiven with hfreed | ⟨b, hb, -⟩ | ⟨p, hp, -⟩
    · exact hfreed
    · rw [hlive] at hb
      exact absurd hb (Multiset.notMem_zero b)
    · rw [hidle] at hp
      exact absurd hp (Multiset.notMem_zero p)
  · exact List.map_eq_nil_iff.mp (Multiset.coe_eq_zero _ |>.mp hidle)
  · have hnone := (hleft.ran.sound.refs.next (.shutdown env)).registered_nil
      (hleft.tended.released : (World.next _ (.shutdown env)).Released)
    exact List.length_eq_zero_iff.mpr (List.map_eq_nil_iff.mp hnone)
  · have hcell := hleakless.cells n d
    rw [Stock.charge, Stock.liveBytes, Stock.idleBytes, hlive, hidle] at hcell
    exact (toNat_eq_zero_iff _).mp (Nat.le_zero.mp hcell)

/-- Two allocations, of which one is freed by hand and stays in the pool. -/
def pagesTyped : List (String × Answers) :=
  [("alloc 4096", { envs := fun _ => .findsAt 4096 }),
    ("alloc 4096 host --nopool", { envs := fun _ => .findsAt 8192 }), ("free 1", {}), ("quit", {})]

/-- The theorem at work: both pages have come from the backend and have gone back to it. -/
theorem program_frees_everything_pagesTyped :
    ((Shell.main {} [] {} pagesTyped).exit {} [5]).world.core.os.calls.length = 4 ∧
      ((Shell.main {} [] {} pagesTyped).exit {} [5]).world.core.rt.pool.all = [] := by
  have hdefault : Env.Reliable {} :=
    ⟨fun _ _ _ _ h => (by cases h), fun _ _ _ _ => rfl, fun _ _ _ _ => rfl⟩
  refine ⟨by decide +kernel, (program_frees_everything {} [] (fun _ => hdefault) ?_ hdefault ?_).2.1⟩
  · intro e he
    simp only [pagesTyped, List.mem_cons, List.not_mem_nil, or_false] at he
    rcases he with rfl | rfl | rfl | rfl
    · exact fun _ => findsAt_reliable (by decide)
    · exact fun _ => findsAt_reliable (by decide)
    · exact fun _ => hdefault
    · exact fun _ => hdefault
  · exact List.Perm.of_eq (by decide +kernel)

end Cli

end UnifiedBuffer
