import UnifiedBuffer.Safety.Generations

set_option autoImplicit false

/-! # What an operation does to buffers and slots

`World.fates` says where every buffer and every slot of the pool comes from after a public
operation: a buffer was kept as it is, bound to a new backing, created with a fresh backing or with
one from the pool, wrapped or opened; a slot was in the pool before, or it is the backing of the
buffer whose last reference the operation released. -/

namespace UnifiedBuffer

open Lib

/-- The records differ at most in the state and the number of maps. -/
def Record.Same (r r' : Record) : Prop :=
  r' = { r with state := r'.state, mapCount := r'.mapCount }

theorem Record.Same.refl (r : Record) : r.Same r := rfl

theorem Record.Same.trans {r r' r'' : Record} (h : r.Same r') (h' : r'.Same r'') : r.Same r'' :=
  Eq.trans h' (congrArg
    (fun x : Record => { x with state := r''.state, mapCount := r''.mapCount }) h)

namespace RuntimeImpl

variable {rt rt' : RuntimeImpl} {r r' : Record}

theorem makePoolKey_congr (hcfg : rt'.cfg = rt.cfg) (hsame : r.Same r') :
    rt'.makePoolKey r' = rt.makePoolKey r := by
  unfold makePoolKey sizeClassFor
  rw [hcfg, hsame]

theorem returnsToPool_congr (hcfg : rt'.cfg = rt.cfg) (hsame : r.Same r') (b : Bool) :
    rt'.returnsToPool r' b = rt.returnsToPool r b := by
  unfold returnsToPool
  rw [hcfg, hsame]

theorem zeroOnRelease_congr {os os' : Os} (env : Env) (hnss : rt'.nss = rt.nss)
    (hdomains : rt'.domains = rt.domains) (hsame : r.Same r') (hbytes : os'.bytes = os.bytes) :
    (rt'.zeroOnRelease os' env r').2.bytes = (rt.zeroOnRelease os env r).2.bytes := by
  unfold zeroOnRelease namespaceInfo domain
  rw [hnss, hdomains, hsame]
  simp only
  split
  · exact hbytes
  · split
    · unfold Os.zero Os.fill
      split <;> simp only [hbytes]
    · exact hbytes

end RuntimeImpl

namespace World

/-! ## Fates -/

/-- How block `k` came to the record `r` that it has after the operation. -/
inductive Fate (w : World) (op : Op) (k : CtlId) (r : Record) : Prop
  | kept (alive : w.core.Alive k) (same : (w.core.control k).record.Same r)
  | moved {env : Env} {i : Nat} {target : MemoryDomain} {tdom : IDomain} {l : Ledger}
      {a : NativeAllocation} (hop : op = .migrate env i target)
      (valid : (w.handle i).validateAlive w.core = .ok k)
      (admission : w.core.rt.migrateAdmit (w.core.control k) target = some (tdom, l))
      (backend : env.allocate target (RuntimeImpl.migrateSize (w.core.control k).record)
        (w.core.control k).record.alignment = .ok a)
      (copy : (RuntimeImpl.migrateCopy w.core.os env (w.core.control k) target a).1 = .ok ())
      (same : (w.core.rt.rebind tdom target (w.core.control k).record (w.core.os.stamp a)).Same r)
  | fresh {env : Env} {req : AllocationRequest} {alignment classSize : UInt64} {l : Ledger}
      {a : NativeAllocation} (hop : op = .allocate env req) (new : k = w.core.ctls.length)
      (admission : w.core.rt.admits req = some (alignment, classSize, l))
      (backend : env.allocate req.domain classSize alignment = .ok a)
      (offer : w.core.rt.poolOffer req alignment classSize = none)
      (zero : w.core.rt.zeroFails env req (w.core.os.stamp a) none = false)
      (same : (w.core.rt.backedRecord env req alignment (w.core.os.stamp a) false).Same r)
  | reused {env : Env} {req : AllocationRequest} {alignment classSize : UInt64} {l : Ledger}
      {slot : PoolSlot} {pool : Pool} (hop : op = .allocate env req)
      (new : k = w.core.ctls.length)
      (admission : w.core.rt.admits req = some (alignment, classSize, l))
      (offer : w.core.rt.poolOffer req alignment classSize = some (slot, pool))
      (zero : w.core.rt.zeroFails env req slot.backing (some slot.lastOwner) = false)
      (same : (w.core.rt.backedRecord env req alignment slot.backing true).Same r)
  | wrapped {desc : ExternalMemoryDesc} {r₀ : Record} (hop : op = .wrapExternal desc)
      (new : k = w.core.ctls.length) (made : Core.Wraps desc r₀) (same : r₀.Same r)
  | opened {env : Env} {desc : ExportDescriptor} {ns : NamespaceId} {label : String}
      {r₀ : Record} (hop : op = .importBuffer env desc ns label) (new : k = w.core.ctls.length)
      (made : Core.Opens env desc ns label w.core.os r₀) (same : r₀.Same r)

/-- How the slot `e` came to be in the pool of `c`, a state during or after the operation. -/
inductive SlotFate (w : World) (op : Op) (c : Core) (e : PoolKey × PoolSlot) : Prop
  | stayed (mem : e ∈ w.core.rt.pool.all)
  | entered {env : Env} {k : CtlId} (henv : op.releases = some env)
      (hrel : w.released op = some k) (last : (w.core.control k).refs = 1)
      (alive : w.core.Alive k)
      (eligible : w.core.rt.returnsToPool (w.core.control k).record true = true)
      (present : (w.core.control k).record.backing.present = true)
      (slot : e = (w.core.rt.makePoolKey (w.core.control k).record,
        ⟨(w.core.control k).record.backing, (w.core.control k).record.id,
          (w.core.control k).record.ns⟩))
      (done : (c.control k).finalized = true)
      (bytes : c.os.bytes
        = (w.core.rt.zeroOnRelease w.core.os env (w.core.control k).record).2.bytes)

/-- The fates of all buffers and slots of `c`. Until its last reference is dropped, nothing happens
around the buffer that is released. -/
structure Fated (w : World) (op : Op) (c : Core) : Prop where
  blocks : ∀ k, c.Alive k → w.Fate op k (c.control k).record
  slots : ∀ e ∈ c.rt.pool.all, w.SlotFate op c e
  still : ∀ k, w.released op = some k → c.Alive k → c.rt.cfg = w.core.rt.cfg ∧
    c.rt.nss = w.core.rt.nss ∧ c.rt.domains = w.core.rt.domains ∧ c.os.bytes = w.core.os.bytes

variable {w : World} {op : Op} {c c' : Core} {base : List BufferId}

theorem Fate.same {k : CtlId} {r r' : Record} (h : w.Fate op k r) (hs : r.Same r') :
    w.Fate op k r' := by
  cases h with
  | kept alive same => exact .kept alive (same.trans hs)
  | moved hop valid admission backend copy same =>
      exact .moved hop valid admission backend copy (same.trans hs)
  | fresh hop new admission backend offer zero same =>
      exact .fresh hop new admission backend offer zero (same.trans hs)
  | reused hop new admission offer zero same =>
      exact .reused hop new admission offer zero (same.trans hs)
  | wrapped hop new made same => exact .wrapped hop new made (same.trans hs)
  | opened hop new made same => exact .opened hop new made (same.trans hs)

theorem SlotFate.congr {e : PoolKey × PoolSlot} (h : w.SlotFate op c e)
    (hfin : ∀ k, (c.control k).finalized = true → (c'.control k).finalized = true)
    (hbytes : c'.os.bytes = c.os.bytes) : w.SlotFate op c' e := by
  cases h with
  | stayed mem => exact .stayed mem
  | entered henv hrel last alive eligible present slot done bytes =>
      exact .entered henv hrel last alive eligible present slot (hfin _ done)
        (hbytes.trans bytes)

/-! ## One step at a time -/

namespace Fated

theorem start (w : World) (op : Op) : w.Fated op w.core :=
  ⟨fun _ hk => .kept hk (.refl _), fun _ he => .stayed he, fun _ _ _ => ⟨rfl, rfl, rfl, rfl⟩⟩

/-- The blocks and slots are as before the operation, which releases no reference. -/
theorem same (hrel : w.released op = none) (hctls : c.ctls = w.core.ctls)
    (hpool : ∀ e ∈ c.rt.pool.all, e ∈ w.core.rt.pool.all) : w.Fated op c := by
  refine ⟨fun k hk => ?_, fun e he => .stayed (hpool e he), fun k hk => ?_⟩
  · rw [Core.control_congr hctls]
    exact .kept ((Core.alive_congr hctls k).mp hk) (.refl _)
  · rw [hrel] at hk
    cases hk

/-- A new buffer, besides the ones that were there. -/
theorem register {c₁ : Core} {r : Record} (hrel : w.released op = none)
    (hctls : c₁.ctls = w.core.ctls) (hpool : ∀ e ∈ c₁.rt.pool.all, e ∈ w.core.rt.pool.all)
    (hfate : w.Fate op w.core.ctls.length r) : w.Fated op (c₁.register r).2 := by
  refine ⟨fun k hk => ?_, fun e he => .stayed (hpool e he), fun k hk => ?_⟩
  · rw [Core.control_register]
    rcases Core.alive_register hk with rfl | hold
    · rw [if_pos rfl, hctls]
      exact hfate
    · rw [if_neg (Nat.ne_of_lt hold.1), Core.control_congr hctls]
      exact .kept ((Core.alive_congr hctls k).mp hold) (.refl _)
  · rw [hrel] at hk
    cases hk

theorem brings {P : Record → Prop} {p : Except Error CtlId × Core} (hrel : w.released op = none)
    (h : w.core.Brings P p) (hP : ∀ r, P r → w.Fate op w.core.ctls.length r) :
    w.Fated op p.2 := by
  cases h with
  | failed booked | known booked =>
      exact same hrel booked.ctls (fun e he => by rw [booked.pool] at he; exact he)
  | fresh booked made =>
      exact register hrel booked.ctls (fun e he => by rw [booked.pool] at he; exact he)
        (hP _ made)

theorem allocate (w : World) (env : Env) (req : AllocationRequest) :
    w.Fated (.allocate env req) (w.core.allocate env req).2 := by
  have hrun := w.core.rt.allocateRecord_run w.core.os env req
  unfold Core.allocate
  generalize w.core.rt.allocateRecord w.core.os env req = out at hrun ⊢
  -- the pool of a request that takes no slot
  have hkept : ∀ {p : Pool}, p = w.core.rt.pool → ∀ e ∈ p.all, e ∈ w.core.rt.pool.all :=
    fun hp e he => by rw [hp] at he; exact he
  cases hrun with
  | refused _ _ state => exact same rfl rfl (hkept state.pool)
  | backendFailed _ _ _ _ state => exact same rfl rfl (hkept state.pool)
  | commitFailed _ _ _ _ _ state => exact same rfl rfl (hkept state.pool)
  | freshZeroFailed _ _ _ _ _ _ state => exact same rfl rfl (hkept state.pool)
  | fresh admission offer backend _ zero state =>
      exact register rfl rfl (hkept state.pool)
        (.fresh rfl rfl admission backend offer zero (.refl _))
  | pooledZeroFailed _ offer _ state =>
      obtain ⟨key, -, hperm, -⟩ := RuntimeImpl.poolOffer_perm offer
      refine same rfl rfl (fun e he => hperm.mem_iff.mpr (List.mem_cons_of_mem _ ?_))
      rw [state.pool] at he
      exact he
  | pooled admission offer zero state =>
      obtain ⟨key, -, hperm, -⟩ := RuntimeImpl.poolOffer_perm offer
      refine register rfl rfl (fun e he => hperm.mem_iff.mpr (List.mem_cons_of_mem _ ?_))
        (.reused rfl rfl admission offer zero (.refl _))
      rw [state.pool] at he
      exact he

theorem migrate (w : World) (env : Env) {i : Nat} (target : MemoryDomain) {k : CtlId}
    (hk : (w.handle i).validateAlive w.core = .ok k) (halive : w.core.Alive k) :
    w.Fated (.migrate env i target) (w.core.migrate env k target).2 := by
  have hrun := w.core.rt.migrate_run w.core.os env (w.core.control k) target
  unfold Core.migrate
  generalize w.core.rt.migrate w.core.os env (w.core.control k) target = out at hrun ⊢
  -- a migration that does not go through writes the block back as it was
  have hback : ∀ {rt : RuntimeImpl} {os : Os}, rt.pool = w.core.rt.pool →
      w.Fated (.migrate env i target) ⟨rt, os, w.core.ctls.set k (w.core.control k)⟩ :=
    fun hpool => same rfl (w.core.set_control k) (fun e he => by rw [hpool] at he; exact he)
  cases hrun with
  | refused _ state => exact hback state.pool
  | stays => exact hback rfl
  | backendFailed _ _ state => exact hback state.pool
  | copyFailed _ _ _ state => exact hback state.pool
  | commitFailed _ _ _ _ state => exact hback state.pool
  | verifyFailed _ _ _ _ _ state => exact hback state.pool
  | swapped admission backend copy _ _ state =>
      refine ⟨fun j ⟨hj, hfin⟩ => ?_, fun e he => .stayed ?_, fun j hj => (by cases hj)⟩
      · rw [List.length_set] at hj
        rw [Core.control_of_set (c := w.core) rfl halive.1] at hfin ⊢
        by_cases hjk : j = k
        · subst hjk
          rw [if_pos rfl]
          exact .moved rfl hk admission backend copy (.refl _)
        · rw [if_neg hjk] at hfin ⊢
          exact .kept ⟨hj, hfin⟩ (.refl _)
      · rw [state.pool] at he
        exact he

theorem booked (h : w.Fated op c) (hb : c.Booked c') : w.Fated op c' := by
  refine ⟨fun k hk => ?_, fun e he => ?_, fun k hrel hk => ?_⟩
  · rw [Core.control_congr hb.ctls]
    exact h.blocks k ((Core.alive_congr hb.ctls k).mp hk)
  · rw [hb.pool] at he
    refine (h.slots e he).congr (fun k hfin => ?_) hb.bytes
    rw [Core.control_congr hb.ctls]
    exact hfin
  · rw [hb.cfg, hb.nss, hb.domains, hb.bytes]
    exact h.still k hrel ((Core.alive_congr hb.ctls k).mp hk)

theorem modify (h : w.Fated op c) (k : CtlId) {f : Control → Control}
    (hf : ∀ ctl : Control, ctl.SameBuffer (f ctl)) : w.Fated op (c.modify k f) := by
  have halive : ∀ j, (c.modify k f).Alive j → c.Alive j := by
    rintro j ⟨hj, hfin⟩
    rw [Core.modify, List.length_modify] at hj
    rw [(c.sameBuffer_modify k hf j).finalized] at hfin
    exact ⟨hj, hfin⟩
  refine ⟨fun j hj => ?_, fun e he => ?_, fun j hrel hj => h.still j hrel (halive j hj)⟩
  · exact (h.blocks j (halive j hj)).same (c.sameBuffer_modify k hf j).record
  · refine (h.slots e he).congr (fun j hfin => ?_) rfl
    rw [(c.sameBuffer_modify k hf j).finalized]
    exact hfin

/-- The last reference of a buffer is dropped. -/
theorem finalize (h : w.Fated op c) {env : Env} {k : CtlId} (henv : op.releases = some env)
    (hrel : w.released op = some k) (hrefs : (w.core.control k).refs = 1) (hk : c.Alive k) :
    w.Fated op (c.finalize env k true) := by
  -- the buffer is still what it was
  obtain ⟨hcfg, hnss, hdomains, hbytes⟩ := h.still k hrel hk
  obtain ⟨halive, hsame⟩ : w.core.Alive k ∧ (w.core.control k).record.Same (c.control k).record := by
    cases h.blocks k hk with
    | kept alive same => exact ⟨alive, same⟩
    | moved hop | fresh hop | reused hop | wrapped hop | opened hop =>
        rw [hop] at henv
        cases henv
  have hset : (c.finalize env k true).ctls
      = c.ctls.set k (c.rt.finalize c.os env (c.control k) true).1 := rfl
  have hcontrol := Core.control_of_set hset hk.1
  have hfinal := Core.finalize_finalized env hk.1 hk.2
  refine ⟨fun j ⟨hj, hfin⟩ => ?_, ?_, fun j hj hjk => ?_⟩
  · rw [hset, List.length_set] at hj
    by_cases hjk : j = k
    · rw [hjk, hfinal] at hfin
      cases hfin
    · rw [hcontrol, if_neg hjk] at hfin ⊢
      exact h.blocks j ⟨hj, hfin⟩
  · -- a slot of the pool before, unless it is the one that enters now
    have hold : ∀ e ∈ c.rt.pool.all, w.SlotFate op (c.finalize env k true) e := by
      intro e he
      cases h.slots e he with
      | stayed mem => exact .stayed mem
      | entered _ hrel' _ _ _ _ _ done =>
          rw [hrel] at hrel'
          cases hrel'
          rw [hk.2] at done
          cases done
    have hrun := c.rt.finalize_run c.os env (c.control k) true
    have hdone := hfinal
    unfold Core.finalize at hold hdone ⊢
    generalize c.rt.finalize c.os env (c.control k) true = out at hrun hold hdone ⊢
    cases hrun with
    | again => exact hold
    | kept _ _ state =>
        intro e he
        rw [state.pool] at he
        exact hold e he
    | evicted _ _ _ _ _ state =>
        intro e he
        rw [state.pool] at he
        exact hold e he
    | freed _ _ _ _ state =>
        intro e he
        rw [state.pool] at he
        exact hold e he
    | pooled _ present _ eligible _ state =>
        intro e he
        rw [state.pool] at he
        rcases List.mem_cons.mp ((Pool.push_perm _ _ _).mem_iff.mp he) with hnew | hmem
        · have hback : (c.control k).record.backing = (w.core.control k).record.backing := by
            rw [hsame]
          rw [hback] at present
          rw [RuntimeImpl.returnsToPool_congr hcfg hsame] at eligible
          refine .entered henv hrel hrefs halive eligible present ?_ hdone
            (RuntimeImpl.zeroOnRelease_congr env hnss hdomains hsame hbytes)
          rw [hnew, RuntimeImpl.makePoolKey_congr hcfg hsame, hsame]
        · exact hold e hmem
  · rw [hrel] at hj
    cases hj
    rw [hjk.2] at hfinal
    cases hfinal

end Fated

/-- The operation as a whole. -/
theorem fated_effects (hinv : w.RefInv base) (op : Op) : w.Effects op (w.Fated op) where
  noted hb h := h.booked hb.toBooked
  adjusted k f hf h := h.modify k hf
  allocate env req hop := by
    subst hop
    exact .allocate w env req
  wrapExternal desc hop := by
    subst hop
    exact .brings rfl (w.core.wrapExternal_brings desc) (fun r hr => .wrapped rfl rfl hr (.refl _))
  importBuffer env desc ns label hop := by
    subst hop
    exact .brings rfl (w.core.importDescriptor_brings env desc ns label)
      (fun r hr => .opened rfl rfl hr (.refl _))
  migrate env i target k hop hk := by
    subst hop
    exact .migrate w env target hk (hinv.alive (handle_alive hinv hk).1)
  copyTo env i dst dstOffset len hop := by
    subst hop
    have hidle := copyTo_idle (w.handle i) w.core env dst dstOffset len
    exact .same rfl hidle.ctls (fun e he => by rw [hidle.quiet.pool] at he; exact he)
  copyFrom env i src srcOffset len hop := by
    subst hop
    have hidle := copyFrom_idle (w.handle i) w.core env src srcOffset len
    exact .same rfl hidle.ctls (fun e he => by rw [hidle.quiet.pool] at he; exact he)
  finalize env k henv hrel hrefs hk halive h := h.finalize henv hrel hrefs ⟨hk, halive⟩
  poolTrim hop := by
    subst hop
    exact .same rfl rfl (fun e he => by rw [Core.poolTrim_all] at he; cases he)
  shutdown env hop _ := by
    subst hop
    refine .same rfl rfl (fun e he => ?_)
    have hnone := Core.poolTrim_all { w.core with rt := { w.core.rt with closed := true } }
    rw [show (Core.closeDown _).rt.pool.all = _ from hnone] at he
    cases he
  createNamespace nsc hop := by
    subst hop
    exact .same rfl rfl (fun e he => he)

/-- **The fates of buffers and slots.** -/
theorem fates (hinv : w.RefInv base) (op : Op) : w.Fated op (w.next op).core :=
  (fated_effects hinv op).next hinv (.start w op)

/-! ## The end of a buffer -/

theorem alive_of_grown {k : CtlId} (h : c.Grown c') (hk : c.Alive k) : c'.Alive k := by
  obtain ⟨l, happend, -⟩ := h
  refine ⟨?_, ?_⟩
  · rw [happend, List.length_append]
    exact Nat.lt_of_lt_of_le hk.1 (Nat.le_add_right _ _)
  · rw [Core.control_of_append happend hk.1]
    exact hk.2

theorem alive_migrate {k : CtlId} (hk : c.Alive k) (env : Env) (j : CtlId)
    (target : MemoryDomain) : (c.migrate env j target).2.Alive k := by
  have hfin : (c.rt.migrate c.os env (c.control j) target).2.1.finalized
      = (c.control j).finalized := by
    have hrun := c.rt.migrate_run c.os env (c.control j) target
    generalize c.rt.migrate c.os env (c.control j) target = out at hrun ⊢
    cases hrun <;> rfl
  have hset : (c.migrate env j target).2.ctls
      = c.ctls.set j (c.rt.migrate c.os env (c.control j) target).2.1 := rfl
  refine ⟨by rw [hset, List.length_set]; exact hk.1, ?_⟩
  by_cases hjk : k = j
  · subst hjk
    rw [Core.control_of_set hset hk.1, if_pos rfl, hfin]
    exact hk.2
  · unfold Core.control
    rw [hset, List.getD_eq_getElem?_getD, List.getElem?_set_ne (Ne.symm hjk),
      ← List.getD_eq_getElem?_getD]
    exact hk.2

/-- Only the release of its last reference ends a buffer. -/
theorem alive_next (hinv : w.RefInv base) {k : CtlId} (hk : w.core.Alive k)
    (hlast : w.released op = some k → (w.core.control k).refs ≠ 1) :
    (w.next op).core.Alive k := by
  have hsame : ∀ {c c' : Core}, c'.ctls = c.ctls → c.Alive k → c'.Alive k :=
    fun h hc => (Core.alive_congr h k).mpr hc
  have heffects : w.Effects op (fun c => c.Alive k) :=
    { noted := fun hb hc => hsame hb.ctls hc
      adjusted := by
        intro c j f hf hc
        refine ⟨?_, ?_⟩
        · rw [Core.modify, List.length_modify]
          exact hc.1
        · rw [(c.sameBuffer_modify j hf k).finalized]
          exact hc.2
      allocate := fun env req _ => alive_of_grown (w.core.allocate_grown env req) hk
      wrapExternal := fun desc _ => alive_of_grown (w.core.wrapExternal_grown desc) hk
      importBuffer := fun env desc ns label _ =>
        alive_of_grown (w.core.importDescriptor_grown env desc ns label) hk
      migrate := fun env _ target j _ _ => alive_migrate hk env j target
      copyTo := fun env i dst dstOffset len _ =>
        hsame (copyTo_idle (w.handle i) w.core env dst dstOffset len).ctls hk
      copyFrom := fun env i src srcOffset len _ =>
        hsame (copyFrom_idle (w.handle i) w.core env src srcOffset len).ctls hk
      finalize := by
        intro c env j _ hrel hrefs hj _ hc
        -- another block is finalized, for `k` keeps a reference
        have hne : k ≠ j := fun heq => hlast (heq ▸ hrel) (heq ▸ hrefs)
        have hset : (c.finalize env j true).ctls
            = c.ctls.set j (c.rt.finalize c.os env (c.control j) true).1 := rfl
        refine ⟨by rw [hset, List.length_set]; exact hc.1, ?_⟩
        rw [Core.control_of_set hset hj, if_neg hne]
        exact hc.2
      poolTrim := fun _ => hk
      shutdown := fun _ _ _ => hk
      createNamespace := fun _ _ => hk }
  exact heffects.next hinv hk

/-! ## The slot of an allocation -/

/-- The slot that an allocation takes is not in the pool any more. -/
theorem allocate_untaken {env : Env} {req : AllocationRequest} {alignment classSize : UInt64}
    {l : Ledger} {slot : PoolSlot} {pool : Pool}
    (admission : w.core.rt.admits req = some (alignment, classSize, l))
    (offer : w.core.rt.poolOffer req alignment classSize = some (slot, pool)) :
    (w.next (.allocate env req)).core.rt.pool = pool := by
  have hopen : ¬ w.core.rt.closed = true := by
    intro hclosed
    rw [RuntimeImpl.admits, if_pos hclosed] at admission
    cases admission
  have hpool : (w.core.allocate env req).2.rt.pool = pool := by
    have hrun := w.core.rt.allocateRecord_run w.core.os env req
    unfold Core.allocate
    generalize w.core.rt.allocateRecord w.core.os env req = out at hrun ⊢
    -- with a slot on offer no exit of a fresh backing is taken
    cases hrun with
    | refused admission' =>
        rw [admission] at admission'
        cases admission'
    | backendFailed admission' offer' | commitFailed admission' offer'
    | freshZeroFailed admission' offer' | fresh admission' offer' =>
        rw [admission] at admission'
        cases admission'
        rw [offer] at offer'
        cases offer'
    | pooledZeroFailed admission' offer' _ state =>
        rw [admission] at admission'
        cases admission'
        rw [offer] at offer'
        cases offer'
        exact state.pool
    | pooled admission' offer' _ state =>
        rw [admission] at admission'
        cases admission'
        rw [offer] at offer'
        cases offer'
        exact state.pool
  show (w.allocate env req).2.core.rt.pool = pool
  unfold World.allocate World.giveHandle
  rw [if_neg hopen]
  generalize w.core.allocate env req = out at hpool ⊢
  obtain ⟨res, c⟩ := out
  cases res <;> exact hpool

end World

end UnifiedBuffer
