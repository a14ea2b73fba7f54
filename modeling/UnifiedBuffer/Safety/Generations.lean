import UnifiedBuffer.Safety.Effects

set_option autoImplicit false

/-! # Generations and stale handles

The identity of a buffer never changes, and its generation counts its migrations. A handle of an
older generation, or on a finalized buffer, is refused by every operation, now and for the rest of
the run, and the refused operation changes nothing. -/

namespace UnifiedBuffer

open Lib

/-! ## New blocks -/

namespace Core

/-- Blocks were created, all of generation `1`; the others are what they were. -/
def Grown (c c' : Core) : Prop :=
  ∃ l, c'.ctls = c.ctls ++ l ∧ ∀ ctl ∈ l, ctl.record.generation = 1

theorem Grown.of_eq {c c' : Core} (h : c'.ctls = c.ctls) : c.Grown c' :=
  ⟨[], by rw [h, List.append_nil], fun _ hmem => by cases hmem⟩

theorem grown_register {c c₁ : Core} {r : Record} (h : c₁.ctls = c.ctls)
    (hgen : r.generation = 1) : c.Grown (c₁.register r).2 := by
  refine ⟨[_], congrArg (· ++ _) h, fun ctl hmem => ?_⟩
  rw [List.mem_singleton.mp hmem]
  exact hgen

theorem allocate_grown (c : Core) (env : Env) (req : AllocationRequest) :
    c.Grown (c.allocate env req).2 := by
  have hrun := c.rt.allocateRecord_run c.os env req
  unfold Core.allocate
  generalize c.rt.allocateRecord c.os env req = out at hrun ⊢
  cases hrun with
  | refused | backendFailed | commitFailed | freshZeroFailed | pooledZeroFailed =>
      exact .of_eq rfl
  | fresh | pooled => exact grown_register rfl rfl

theorem Brings.grown {c : Core} {P : Record → Prop} {p : Except Error CtlId × Core}
    (h : c.Brings P p) (hP : ∀ r, P r → r.generation = 1) : c.Grown p.2 := by
  cases h with
  | failed booked => exact .of_eq booked.ctls
  | known booked => exact .of_eq booked.ctls
  | fresh booked made => exact grown_register booked.ctls (hP _ made)

theorem wrapExternal_grown (c : Core) (desc : ExternalMemoryDesc) :
    c.Grown (c.wrapExternal desc).2 := by
  refine (c.wrapExternal_brings desc).grown (fun r hr => ?_)
  obtain ⟨-, -, dom, id, rfl⟩ := hr
  rfl

theorem importDescriptor_grown (c : Core) (env : Env) (desc : ExportDescriptor)
    (ns : NamespaceId) (label : String) : c.Grown (c.importDescriptor env desc ns label).2 := by
  refine (c.importDescriptor_brings env desc ns label).grown (fun r hr => ?_)
  obtain ⟨-, id, a, -, -, rfl⟩ := hr
  rfl

end Core

/-! ## One operation -/

/-- Block `k` is the same buffer in both states, and has not come back to life. -/
structure SameIdentity (c c' : Core) (k : CtlId) : Prop where
  id : (c'.control k).record.id = (c.control k).record.id
  finalized : (c.control k).finalized = true → (c'.control k).finalized = true

/-- All blocks of `c` are in `c'`, with the same identities and generations, and the new ones have
generation `1`. -/
structure Frozen (c c' : Core) : Prop where
  length : c.ctls.length ≤ c'.ctls.length
  same : ∀ k < c.ctls.length, SameIdentity c c' k
  generation : ∀ k < c.ctls.length,
    (c'.control k).record.generation = (c.control k).record.generation
  new : ∀ k < c'.ctls.length, c.ctls.length ≤ k → (c'.control k).record.generation = 1

namespace Frozen

variable {c c' c'' : Core}

theorem refl (c : Core) : Frozen c c :=
  ⟨Nat.le_refl _, fun _ _ => ⟨rfl, id⟩, fun _ _ => rfl, fun k hk hge => by omega⟩

/-- The two states have the same blocks, up to what is not at stake here. -/
theorem of_blocks (h : Frozen c c') (hlen : c''.ctls.length = c'.ctls.length)
    (hid : ∀ k, (c''.control k).record.id = (c'.control k).record.id)
    (hgen : ∀ k, (c''.control k).record.generation = (c'.control k).record.generation)
    (hfin : ∀ k, (c'.control k).finalized = true → (c''.control k).finalized = true) :
    Frozen c c'' := by
  refine ⟨by rw [hlen]; exact h.length, fun k hk => ?_, fun k hk => ?_, fun k hk hge => ?_⟩
  · exact ⟨(hid k).trans (h.same k hk).id, fun hf => hfin k ((h.same k hk).finalized hf)⟩
  · exact (hgen k).trans (h.generation k hk)
  · rw [hlen] at hk
    exact (hgen k).trans (h.new k hk hge)

theorem of_ctls (h : Frozen c c') (hctls : c''.ctls = c'.ctls) : Frozen c c'' := by
  have hcontrol : ∀ k, c''.control k = c'.control k := fun k => by
    unfold Core.control
    rw [hctls]
  exact h.of_blocks (congrArg List.length hctls) (fun k => by rw [hcontrol])
    (fun k => by rw [hcontrol]) (fun k hf => by rw [hcontrol]; exact hf)

theorem grown (h : c.Grown c') : Frozen c c' := by
  obtain ⟨l, hl, hnew⟩ := h
  have hsame : ∀ k < c.ctls.length, c'.control k = c.control k := fun k hk =>
    Core.control_of_append hl hk
  refine ⟨by rw [hl, List.length_append]; omega, fun k hk => ?_, fun k hk => ?_, fun k hk hge => ?_⟩
  · exact ⟨by rw [hsame k hk], fun hf => by rw [hsame k hk]; exact hf⟩
  · rw [hsame k hk]
  · refine hnew _ ?_
    unfold Core.control
    rw [hl] at hk ⊢
    rw [List.getD_eq_getElem?_getD, List.getElem?_append_right hge]
    rw [List.length_append] at hk
    have hlt : k - c.ctls.length < l.length := by omega
    rw [List.getElem?_eq_getElem hlt]
    exact List.getElem_mem hlt

theorem modify (h : Frozen c c') (k : CtlId) {f : Control → Control}
    (hf : ∀ ctl : Control, ctl.SameBuffer (f ctl)) : Frozen c (c'.modify k f) := by
  have hsame := c'.sameBuffer_modify k hf
  refine h.of_blocks (List.length_modify _ _ _) (fun j => ?_) (fun j => ?_) (fun j hj => ?_)
  · rw [(hsame j).record]
  · rw [(hsame j).record]
  · rw [(hsame j).finalized]
    exact hj

theorem finalize (h : Frozen c c') (env : Env) {k : CtlId} (hk : k < c'.ctls.length)
    (halive : (c'.control k).finalized = false) : Frozen c (c'.finalize env k true) := by
  obtain ⟨backing, ownership, l, pool, hctl, -⟩ :=
    c'.rt.finalize_first c'.os env true halive
  have hset : (c'.finalize env k true).ctls
      = c'.ctls.set k (RuntimeImpl.finalControl (c'.control k) backing ownership) := by
    rw [← hctl]
    rfl
  have hcontrol := Core.control_of_set hset hk
  refine h.of_blocks (by rw [hset, List.length_set]) (fun j => ?_) (fun j => ?_) (fun j hj => ?_)
  all_goals
    rw [hcontrol j]
    split
    · rename_i hjk
      subst hjk
      rfl
    · first | rfl | exact hj

end Frozen

namespace World

variable {w : World} {base : List BufferId}

/-- An operation other than a migration changes no identity and no generation. -/
theorem frozen_effects {op : Op} (hop : ∀ env i target, op ≠ .migrate env i target) :
    w.Effects op (Frozen w.core) where
  noted hb h := h.of_ctls hb.ctls
  adjusted k _ hf h := h.modify k hf
  allocate env req _ := .grown (w.core.allocate_grown env req)
  wrapExternal desc _ := .grown (w.core.wrapExternal_grown desc)
  importBuffer env desc ns label _ := .grown (w.core.importDescriptor_grown env desc ns label)
  migrate env i target _ h _ := absurd h (hop env i target)
  copyTo env _ dst dstOffset len _ :=
    (Frozen.refl _).of_ctls (copyTo_idle _ _ env dst dstOffset len).ctls
  copyFrom env _ src srcOffset len _ :=
    (Frozen.refl _).of_ctls (copyFrom_idle _ _ env src srcOffset len).ctls
  finalize env _ _ _ _ hk halive h := h.finalize env hk halive
  poolTrim _ := (Frozen.refl _).of_ctls rfl
  shutdown _ _ _ := (Frozen.refl _).of_ctls rfl
  createNamespace _ _ := (Frozen.refl _).of_ctls rfl

/-- The operation migrates block `k` to another domain, and succeeds. -/
def moves (w : World) (op : Op) (k : CtlId) : Bool :=
  match op with
  | .migrate env i target =>
      match (w.handle i).validateAlive w.core with
      | .ok j =>
          decide (j = k ∧ (w.core.control k).record.domain ≠ target) &&
            (w.step (.migrate env i target)).1.isOk
      | .error _ => false
  | _ => false

/-- How often a run migrates block `k`. -/
def moveCount (w : World) : List Op → CtlId → Nat
  | [], _ => 0
  | op :: ops, k => (if w.moves op k then 1 else 0) + (w.next op).moveCount ops k

end World

/-- What a migration does to the blocks: nothing but one generation more for the block that got a
new backing. -/
theorem Core.migrate_blocks (c : Core) (env : Env) {k : CtlId} (hk : k < c.ctls.length)
    (target : MemoryDomain) :
    (c.migrate env k target).2.ctls.length = c.ctls.length ∧
    ∀ j, SameIdentity c (c.migrate env k target).2 j ∧
      ((c.migrate env k target).2.control j).record.generation
        = (c.control j).record.generation
          + if j = k ∧ (c.control k).record.domain ≠ target ∧
              (c.migrate env k target).1.isOk = true then 1 else 0 := by
  have hrun := c.rt.migrate_run c.os env (c.control k) target
  unfold Core.migrate
  generalize c.rt.migrate c.os env (c.control k) target = out at hrun ⊢
  obtain ⟨res, ctl, rt, os⟩ := out
  refine ⟨List.length_set, fun j => ?_⟩
  have hcontrol : Core.control { rt := rt, os := os, ctls := c.ctls.set k ctl } j
      = if j = k then ctl else c.control j := Core.control_of_set rfl hk j
  -- a block that is written back as it was
  have hkept : ctl = c.control k → ((c.control k).record.domain = target ∨ res.isOk = false) →
      SameIdentity c { rt := rt, os := os, ctls := c.ctls.set k ctl } j ∧
      (Core.control { rt := rt, os := os, ctls := c.ctls.set k ctl } j).record.generation
        = (c.control j).record.generation
          + if j = k ∧ (c.control k).record.domain ≠ target ∧ res.isOk = true then 1 else 0 := by
    rintro rfl hno
    have hsame : Core.control { rt := rt, os := os, ctls := c.ctls.set k (c.control k) } j
        = c.control j := by
      rw [hcontrol]
      split
      · rename_i hjk
        rw [hjk]
      · rfl
    have hstill : ¬ (j = k ∧ (c.control k).record.domain ≠ target ∧ res.isOk = true) := by
      rintro ⟨-, hne, hok⟩
      rcases hno with hno | hno
      · exact hne hno
      · rw [hno] at hok
        cases hok
    refine ⟨⟨by rw [hsame], fun hf => by rw [hsame]; exact hf⟩, ?_⟩
    rw [hsame, if_neg hstill, Nat.add_zero]
  cases hrun with
  | refused | backendFailed | copyFailed | commitFailed | verifyFailed =>
      exact hkept rfl (Or.inr rfl)
  | stays _ same => exact hkept rfl (Or.inl same)
  | swapped admission =>
      have hne : (c.control k).record.domain ≠ target := RuntimeImpl.migrateAdmit_ne admission
      by_cases hjk : j = k
      · subst hjk
        simp only [if_true] at hcontrol
        refine ⟨⟨by rw [hcontrol]; rfl, fun hf => by rw [hcontrol]; exact hf⟩, ?_⟩
        rw [hcontrol, if_pos ⟨rfl, hne, rfl⟩]
        rfl
      · rw [if_neg hjk] at hcontrol
        refine ⟨⟨by rw [hcontrol], fun hf => by rw [hcontrol]; exact hf⟩, ?_⟩
        rw [hcontrol, if_neg (fun h => hjk h.1)]
        rfl

namespace World

variable {w : World} {base : List BufferId}

/-- What one operation does to a block, and to the generations of new blocks. -/
structure Ages (w : World) (op : Op) : Prop where
  length : w.core.ctls.length ≤ (w.next op).core.ctls.length
  same : ∀ k < w.core.ctls.length, SameIdentity w.core (w.next op).core k
  generation : ∀ k < w.core.ctls.length, ((w.next op).core.control k).record.generation
    = (w.core.control k).record.generation + if w.moves op k then 1 else 0
  new : ∀ k < (w.next op).core.ctls.length, w.core.ctls.length ≤ k →
    ((w.next op).core.control k).record.generation = 1

theorem ages_of_frozen {op : Op} (h : Frozen w.core (w.next op).core)
    (hstill : ∀ k, w.moves op k = false) : w.Ages op := by
  refine ⟨h.length, h.same, fun k hk => ?_, h.new⟩
  rw [h.generation k hk, hstill k]
  rfl

/-- The result of a migration is that of the control block. -/
theorem migrate_isOk (w : World) {env : Env} {i : Nat} {target : MemoryDomain} {k : CtlId}
    (hk : (w.handle i).validateAlive w.core = .ok k) :
    (w.step (.migrate env i target)).1.isOk = (w.core.migrate env k target).1.isOk := by
  show (w.migrate env i target).1.isOk = _
  unfold World.migrate
  rw [hk]
  simp only
  generalize w.core.migrate env k target = out
  obtain ⟨res, c⟩ := out
  cases res <;> rfl

theorem migrate_ages (h : w.RefInv base) (env : Env) (i : Nat) (target : MemoryDomain) :
    w.Ages (.migrate env i target) := by
  cases hk : (w.handle i).validateAlive w.core with
  | error e =>
      have hsame : w.next (.migrate env i target) = w := by
        show (w.migrate env i target).2 = w
        unfold World.migrate
        rw [hk]
      refine ages_of_frozen ?_ (fun k => ?_)
      · rw [hsame]
        exact .refl _
      · unfold moves
        simp only [hk]
  | ok k =>
      obtain ⟨hlt, -⟩ := h.alive (handle_alive h hk).1
      obtain ⟨hlen, hblocks⟩ := w.core.migrate_blocks env hlt target
      have hmoves : ∀ j, w.moves (.migrate env i target) j = true ↔
          j = k ∧ (w.core.control k).record.domain ≠ target ∧
            (w.core.migrate env k target).1.isOk = true := by
        intro j
        unfold moves
        simp only [hk, w.migrate_isOk hk, Bool.and_eq_true, decide_eq_true_eq]
        constructor
        · rintro ⟨⟨rfl, hne⟩, hok⟩
          exact ⟨rfl, hne, hok⟩
        · rintro ⟨rfl, hne, hok⟩
          exact ⟨⟨rfl, hne⟩, hok⟩
      -- a reference more is not at stake
      have hafter : Frozen (w.core.migrate env k target).2 (w.next (.migrate env i target)).core := by
        show Frozen _ (w.migrate env i target).2.core
        unfold World.migrate
        rw [hk]
        simp only
        generalize w.core.migrate env k target = out
        obtain ⟨res, c⟩ := out
        cases res with
        | error e => exact .refl _
        | ok u => exact (Frozen.refl c).modify k (fun _ => ⟨rfl, rfl⟩)
      refine ⟨hlen ▸ hafter.length, fun j hj => ?_, fun j hj => ?_, fun j hj hge => ?_⟩
      · have hsame := hafter.same j (hlen.symm ▸ hj)
        exact ⟨hsame.id.trans (hblocks j).1.id,
          fun hf => hsame.finalized ((hblocks j).1.finalized hf)⟩
      · rw [hafter.generation j (hlen.symm ▸ hj), (hblocks j).2]
        simp only [hmoves j]
      · exact hafter.new j hj (hlen.symm ▸ hge)

theorem RefInv.ages (h : w.RefInv base) (op : Op) : w.Ages op := by
  by_cases hop : ∃ env i target, op = .migrate env i target
  · obtain ⟨env, i, target, rfl⟩ := hop
    exact migrate_ages h env i target
  · have hne : ∀ env i target, op ≠ .migrate env i target := fun env i target heq =>
      hop ⟨env, i, target, heq⟩
    refine ages_of_frozen ((frozen_effects hne).next h (.refl _)) (fun k => ?_)
    cases op with
    | migrate env i target => exact absurd rfl (hne env i target)
    | _ => rfl

/-! ## Runs -/

theorem RefInv.runs (h : w.RefInv base) (ops : List Op) :
    (Lib.runs World.next w ops).RefInv base := by
  induction ops generalizing w with
  | nil => exact h
  | cons op ops ih => exact ih (h.next op)

/-- Along a run a block keeps its identity, its generation counts its migrations, and it does not
come back to life. -/
theorem RefInv.ages_runs (h : w.RefInv base) (ops : List Op) {k : CtlId}
    (hk : k < w.core.ctls.length) :
    k < (Lib.runs World.next w ops).core.ctls.length ∧
    SameIdentity w.core (Lib.runs World.next w ops).core k ∧
    ((Lib.runs World.next w ops).core.control k).record.generation
      = (w.core.control k).record.generation + w.moveCount ops k := by
  induction ops generalizing w with
  | nil => exact ⟨hk, ⟨rfl, id⟩, rfl⟩
  | cons op ops ih =>
      have hop := h.ages op
      obtain ⟨hlt, hsame, hgen⟩ := ih (h.next op) (Nat.lt_of_lt_of_le hk hop.length)
      have hfirst := hop.same k hk
      refine ⟨hlt, ⟨hsame.id.trans hfirst.id, fun hf => hsame.finalized (hfirst.finalized hf)⟩, ?_⟩
      show ((Lib.runs World.next (w.next op) ops).core.control k).record.generation = _
      rw [hgen, hop.generation k hk, moveCount, Nat.add_assoc]

end World

/-! ## Stale handles -/

/-- The two errors for a handle that is out of date. -/
def Error.Stale (e : Error) : Prop := e.code = .staleGeneration ∨ e.code = .staleHandle

/-- The call is refused as stale, and nothing has changed. -/
def Core.Refuses {α : Type} (c : Core) (p : Except Error α × Core) : Prop :=
  ∃ e : Error, e.Stale ∧ p = (.error e, c)

/-- Every operation on the handle is refused as stale and changes nothing. -/
structure BufferHandle.Dead (h : BufferHandle) (w : World) : Prop where
  view : ∀ offset len access, w.core.Refuses (h.view w.core offset len access)
  map : ∀ env access, w.core.Refuses (h.map w.core env access)
  acquireRead : w.core.Refuses (h.acquireRead w.core)
  acquireWrite : w.core.Refuses (h.acquireWrite w.core)
  acquireExclusive : w.core.Refuses (h.acquireExclusive w.core)
  verify : ∀ env, w.core.Refuses (h.verify w.core env)
  checksum : w.core.Refuses (h.checksum w.core)
  copyTo : ∀ env dst dstOffset len, w.core.Refuses (h.copyTo w.core env dst dstOffset len)
  copyFrom : ∀ env src srcOffset len, w.core.Refuses (h.copyFrom w.core env src srcOffset len)
  devicePointer : ∃ e : Error, e.Stale ∧ h.devicePointer w.core = .error e
  share : w.core.Refuses (h.share w.core)
  migrate : ∀ i, w.handle i = h → ∀ env target,
    ∃ e : Error, e.Stale ∧ w.step (.migrate env i target) = (.error e, w)
  exportBuffer : ∀ i, w.handle i = h → ∀ env,
    ∃ e : Error, e.Stale ∧ w.step (.exportBuffer env i) = (.error e, w)

/-- The generation of the handle is older than that of its buffer, or the buffer is gone. -/
def BufferHandle.OutOfDate (h : BufferHandle) (c : Core) : Prop :=
  ∃ k, h.ctl = some k ∧ k < c.ctls.length ∧
    (h.gen < (c.control k).record.generation ∨ (c.control k).finalized = true)

theorem validateAlive_outOfDate {h : BufferHandle} {c : Core} (hout : h.OutOfDate c) :
    ∃ e : Error, e.Stale ∧ h.validateAlive c = .error e := by
  obtain ⟨k, hctl, -, hold⟩ := hout
  unfold BufferHandle.validateAlive
  rw [hctl]
  cases h.valid with
  | false => exact ⟨_, Or.inr rfl, rfl⟩
  | true =>
      simp only
      by_cases hfin : (c.control k).finalized = true
      · rw [if_pos hfin]
        exact ⟨_, Or.inr rfl, rfl⟩
      · have hgen : h.gen ≠ (c.control k).record.generation := by
          rcases hold with hlt | hf
          · exact Nat.ne_of_lt hlt
          · exact absurd hf hfin
        rw [if_neg hfin, if_pos hgen]
        exact ⟨_, Or.inl rfl, rfl⟩

/-- Everything starts with `validate_alive`. -/
theorem dead_of_error {h : BufferHandle} {w : World} {e : Error} (he : e.Stale)
    (hv : h.validateAlive w.core = .error e) : h.Dead w := by
  have hpass : e.passOn.Stale := he
  have hensure : ∀ want, h.ensureValid w.core want = .error e := by
    intro want
    unfold BufferHandle.ensureValid
    rw [hv]
  constructor
  case view => exact fun _ _ access => ⟨_, hpass, by unfold BufferHandle.view; rw [hensure access]⟩
  case map => exact fun _ access => ⟨_, hpass, by unfold BufferHandle.map; rw [hensure access]⟩
  case acquireRead =>
      exact ⟨_, hpass, by unfold BufferHandle.acquireRead BufferHandle.acquire; rw [hv]⟩
  case acquireWrite =>
      exact ⟨_, hpass, by unfold BufferHandle.acquireWrite BufferHandle.acquire; rw [hv]⟩
  case acquireExclusive =>
      exact ⟨_, hpass, by unfold BufferHandle.acquireExclusive BufferHandle.acquire; rw [hv]⟩
  case verify => exact fun _ => ⟨_, hpass, by unfold BufferHandle.verify; rw [hv]⟩
  case checksum => exact ⟨_, hpass, by unfold BufferHandle.checksum; rw [hv]⟩
  case copyTo =>
      exact fun _ _ _ _ => ⟨_, hpass, by unfold BufferHandle.copyTo; rw [hensure .read]⟩
  case copyFrom =>
      exact fun _ _ _ _ => ⟨_, hpass, by unfold BufferHandle.copyFrom; rw [hensure .write]⟩
  case devicePointer => exact ⟨_, hpass, by unfold BufferHandle.devicePointer; rw [hv]⟩
  case share => exact ⟨_, hpass, by unfold BufferHandle.share; rw [hv]⟩
  case migrate =>
      rintro i rfl env target
      refine ⟨e.passOn, hpass, ?_⟩
      show w.migrate env i target = _
      unfold World.migrate
      rw [hv]
  case exportBuffer =>
      rintro i rfl env
      refine ⟨e.passOn, hpass, ?_⟩
      show w.exportBuffer env i = _
      unfold World.exportBuffer
      rw [hv]

/-- A handle that is out of date stays so. -/
theorem World.RefInv.outOfDate_runs {w : World} {base : List BufferId} (hinv : w.RefInv base)
    {h : BufferHandle} (hout : h.OutOfDate w.core) (ops : List Op) :
    h.OutOfDate (Lib.runs World.next w ops).core := by
  obtain ⟨k, hctl, hk, hold⟩ := hout
  obtain ⟨hlt, hsame, hgen⟩ := hinv.ages_runs ops hk
  refine ⟨k, hctl, hlt, ?_⟩
  rcases hold with hlt' | hf
  · left
    rw [hgen]
    exact Nat.lt_of_lt_of_le hlt' (Nat.le_add_right _ _)
  · exact Or.inr (hsame.finalized hf)

/-! ## Main result -/

/-- **Generations are monotone and stale handles stay dead.** From every reachable state, along
every further run: a buffer keeps its identity, its generation starts at `1` and is the number of
its successful migrations to another domain; a handle of an older generation or on a finalized
buffer is refused by every operation, in this state and in all later ones. -/
theorem stale_handles_stay_dead {cfg : RuntimeConfig} {plat : RuntimeImpl.Platform} {w : World}
    (hreach : Reach World.next (fun _ _ => True) (World.init cfg plat) w) :
    (∀ ops, ∀ k < w.core.ctls.length,
      ((runs World.next w ops).core.control k).record.id = (w.core.control k).record.id ∧
      ((runs World.next w ops).core.control k).record.generation
        = (w.core.control k).record.generation + w.moveCount ops k) ∧
    (∀ op, ∀ k < (w.next op).core.ctls.length, w.core.ctls.length ≤ k →
      ((w.next op).core.control k).record.generation = 1) ∧
    ∀ h : BufferHandle, h.OutOfDate w.core → ∀ ops, h.Dead (runs World.next w ops) := by
  have hinv := World.refInv_reach hreach
  refine ⟨fun ops k hk => ?_, fun op => (hinv.ages op).new, fun h hout ops => ?_⟩
  · obtain ⟨-, hsame, hgen⟩ := hinv.ages_runs ops hk
    exact ⟨hsame.id, hgen⟩
  · obtain ⟨e, he, hv⟩ := validateAlive_outOfDate (hinv.outOfDate_runs hout ops)
    exact dead_of_error he hv

/-- A page moves to shared memory and back; the program keeps its three handles. -/
def roundTrip : World :=
  runs World.next (World.init {} {})
    [.allocate (.findsAt 4096) { size := 4096 }, .migrate (.findsAt 8192) 0 .sharedHost,
      .migrate (.findsAt 16384) 1 .host]

/-- The theorem at work: the first handle is two generations behind and is refused for good. -/
theorem stale_handles_stay_dead_roundTrip :
    (roundTrip.core.control 0).record.generation = 3 ∧ (roundTrip.handle 0).gen = 1 ∧
      ∀ ops, (roundTrip.handle 0).Dead (runs World.next roundTrip ops) := by
  have hreach : Reach World.next (fun _ _ => True) (World.init {} {}) roundTrip :=
    reach_runs .start (Along.of_mem (fun _ _ _ => trivial) _)
  have hout : (roundTrip.handle 0).OutOfDate roundTrip.core :=
    ⟨0, by decide, by decide, Or.inl (by decide)⟩
  exact ⟨by decide, by decide, (stale_handles_stay_dead hreach).2.2 _ hout⟩

end UnifiedBuffer
