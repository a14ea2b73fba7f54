import UnifiedBuffer.Safety.Accounting
import UnifiedBuffer.Safety.Counting
import UnifiedBuffer.Safety.RoundTrip

set_option autoImplicit false

/-! # Two runtimes in one process

A handle keeps a pointer to the runtime that gave it out, and `drop_ref` goes through this pointer.
`Runtime::migrate` and `Runtime::export_buffer` do not look at it: they work on the buffer of any
handle with their own accounting and backends, and the handle that `migrate` returns points to
them. `Process` is the state of a program with two runtimes, in which the runtime that an object
points to and the runtime that has registered its buffer need not be the same. -/

namespace UnifiedBuffer

open Lib

/-! ## Processes -/

inductive Side where
  | left
  | right
  deriving DecidableEq, Repr

def Side.other : Side → Side
  | .left => .right
  | .right => .left

theorem Side.eq_or_other (s t : Side) : t = s ∨ t = s.other := by
  cases s <;> cases t <;> simp [Side.other]

theorem Side.other_ne (s : Side) : s.other ≠ s := by
  cases s <;> decide

/-- Two runtimes. `ctls s` are the buffers that runtime `s` has registered, `calls s` the calls of
its backends, and `objs r s` the objects that point to runtime `r` and to buffers of runtime `s`.
Memory is shared. -/
structure Process where
  rt : Side → RuntimeImpl
  ctls : Side → List Control := fun _ => []
  calls : Side → List BackendCall := fun _ => []
  bytes : Space → Nat → UInt8 := fun _ _ => 0
  objs : Side → Side → List Obj := fun _ _ => []

/-- An operation with objects that point to runtime `via` and to buffers of runtime `home`, carried
out by runtime `exec`. -/
structure Call where
  via : Side
  exec : Side
  home : Side
  op : Op

/-- The objects that the operation is called on or with. -/
def Op.subjects : Op → List Nat
  | .exportBuffer _ i => [i]
  | .migrate _ i _ => [i]
  | .share i => [i]
  | .view i _ _ _ => [i]
  | .map _ i _ => [i]
  | .acquire _ i => [i]
  | .verify _ i => [i]
  | .checksum i => [i]
  | .copyTo _ i _ _ _ => [i]
  | .copyFrom _ i _ _ _ => [i]
  | .move src => [src]
  | .moveAssign _ dst src => [dst, src]
  | .release _ i => [i]
  | .destroy _ i => [i]
  | _ => []

/-- The operations of a runtime that take a handle. -/
def Op.takesHandle : Op → Bool
  | .exportBuffer _ _ => true
  | .migrate _ _ _ => true
  | _ => false

namespace Process

/-- The program before its first operation. -/
def init (cfg : Side → RuntimeConfig) (plat : Side → RuntimeImpl.Platform) : Process where
  rt := fun s => RuntimeImpl.init (cfg s) (plat s)

/-- Can the call be made? A runtime alone does everything. An operation with objects of both
runtimes needs these objects, and it is either one of their methods, which the runtime they point to
carries out, or an operation of another runtime that takes a handle. -/
def Can (p : Process) (c : Call) : Prop :=
  (c.via = c.exec ∧ c.exec = c.home) ∨
    (c.op.subjects ≠ [] ∧ (∀ i ∈ c.op.subjects, i < (p.objs c.via c.home).length) ∧
      (c.via = c.exec ∨ c.op.takesHandle = true))

instance (p : Process) (c : Call) : Decidable (p.Can c) :=
  inferInstanceAs (Decidable (_ ∨ _))

/-- What the operation of a call sees. -/
def world (p : Process) (c : Call) : World where
  core := ⟨p.rt c.exec, ⟨p.bytes, p.calls c.exec⟩, p.ctls c.home⟩
  objs := p.objs c.via c.home

/-- The objects after the call: a new one points to the runtime that has carried it out. -/
def objsAfter (p : Process) (c : Call) (objs : List Obj) : List Obj :=
  if c.via = c.exec then objs
  else p.objs c.exec c.home ++ objs.drop (p.objs c.via c.home).length

/-- The process after the call, with `w` as what the operation has left. -/
def put (p : Process) (c : Call) (w : World) : Process where
  rt := Function.update p.rt c.exec w.core.rt
  ctls := Function.update p.ctls c.home w.core.ctls
  calls := Function.update p.calls c.exec w.core.os.calls
  bytes := w.core.os.bytes
  objs := Function.update p.objs c.exec
    (Function.update (p.objs c.exec) c.home (p.objsAfter c w.objs))

/-- A call: what it returns and the state after it. A call that cannot be made does nothing. -/
def step (p : Process) (c : Call) : Except Error Reply × Process :=
  if p.Can c then
    let (res, w) := (p.world c).step c.op
    (res, p.put c w)
  else (.ok .done, p)

def next (p : Process) (c : Call) : Process := (p.step c).2

/-- Runtime `s` with its own buffers and objects. -/
def own (p : Process) (s : Side) : World where
  core := ⟨p.rt s, ⟨p.bytes, p.calls s⟩, p.ctls s⟩
  objs := p.objs s s

end Process

/-! ## What a call can do -/

/-- A migration that fails writes the block back as it was. -/
theorem World.migrate_failed {w : World} {env : Env} {i : Nat} {target : MemoryDomain}
    (h : ∀ k, (w.handle i).validateAlive w.core = .ok k →
      ∃ e, (w.core.rt.migrate w.core.os env (w.core.control k) target).1 = .error e) :
    w.next (.migrate env i target) = w ∨ ∃ k e' ctl' rt' os',
      RuntimeImpl.MigrateRun w.core.rt w.core.os env (w.core.control k) target
          (.error e', ctl', rt', os') ∧
        w.next (.migrate env i target) = ⟨⟨rt', os', w.core.ctls⟩, w.objs⟩ := by
  have hnext : w.next (.migrate env i target) = (w.migrate env i target).2 := rfl
  rw [hnext]
  unfold World.migrate
  cases hk : (w.handle i).validateAlive w.core with
  | error e' => exact Or.inl rfl
  | ok k =>
      obtain ⟨e', hfails⟩ := h k hk
      have hrun := RuntimeImpl.migrate_run w.core.rt w.core.os env (w.core.control k) target
      simp only [Core.migrate]
      cases hm : w.core.rt.migrate w.core.os env (w.core.control k) target with
      | mk res out =>
          obtain ⟨ctl', rt', os'⟩ := out
          rw [hm] at hfails hrun
          obtain rfl : res = .error e' := hfails
          obtain rfl : ctl' = w.core.control k := by cases hrun <;> rfl
          refine Or.inr ⟨k, e', _, rt', os', hrun, ?_⟩
          simp only [w.core.set_control k]

/-- Of the runtime, a failed migration changes the byte accounting at most. -/
theorem RuntimeImpl.MigrateRun.failed_quiet {rt rt' : RuntimeImpl} {os os' : Os} {env : Env}
    {ctl ctl' : Control} {target : MemoryDomain} {e : Error}
    (h : MigrateRun rt os env ctl target (.error e, ctl', rt', os')) :
    ∃ l : Ledger, Quiet { rt with ledger := l } rt' := by
  cases h with
  | refused _ state | backendFailed _ _ state | copyFailed _ _ _ state | commitFailed _ _ _ _ state
  | verifyFailed _ _ _ _ _ state => exact ⟨_, state⟩

/-- A failed migration books no buffer. -/
theorem RuntimeImpl.MigrateRun.failed_confined {rt rt' : RuntimeImpl} {os os' : Os} {env : Env}
    {ctl ctl' : Control} {target : MemoryDomain} {e : Error}
    (h : MigrateRun rt os env ctl target (.error e, ctl', rt', os')) (n : NamespaceId) (s : Stock) :
    Along Stock.apply (Stock.Confined n) s (rt.migrateDeals os env ctl target) := by
  unfold migrateDeals
  cases h with
  | refused admission _ =>
      rw [admission]
      trivial
  | backendFailed admission backend _ =>
      simp only [admission, backend]
      exact ⟨trivial, trivial, trivial⟩
  | copyFailed admission backend copy _ =>
      simp only [admission, backend, copy, Except.isOk, Except.toBool, true_or, if_true]
      exact ⟨trivial, trivial, trivial, trivial⟩
  | commitFailed admission backend _ commit _ =>
      simp only [admission, backend, commit, or_true, if_true]
      exact ⟨trivial, trivial, trivial, trivial⟩
  | verifyFailed admission backend copy commit verify _ =>
      have hle := (Ledger.commitAmount_ok commit).1
      simp only [admission, backend, copy, UInt64.not_lt.mpr hle, verify, Except.isOk,
        Except.toBool, Bool.true_eq_false, or_false, if_false]
      exact ⟨trivial, trivial, trivial, trivial⟩

/-- An export changes statistics and the decision log only. -/
theorem World.exportBuffer_idle (w : World) (env : Env) (i : Nat) :
    w.core.Idle (w.next (.exportBuffer env i)).core ∧
      (w.next (.exportBuffer env i)).objs = w.objs := by
  have hnext : w.next (.exportBuffer env i) = (w.exportBuffer env i).2 := rfl
  rw [hnext]
  unfold World.exportBuffer
  cases (w.handle i).validateAlive w.core with
  | error e => exact ⟨.refl _, rfl⟩
  | ok k => exact ⟨exportDescriptor_idle w.core env k, rfl⟩

namespace Process

variable {p : Process} {c : Call}

/-- No object points to one runtime and to a buffer of the other. -/
def NoStrays (p : Process) : Prop := ∀ s : Side, p.objs s s.other = []

/-- No runtime migrates a buffer with a handle of the other one: if it is given such a handle and
the handle is good, then the runtime is closed or the target is another domain, and the checks or
the reservation refuse the migration or the backend does not serve it. -/
def MigratesOwn (p : Process) (c : Call) : Prop :=
  c.via ≠ c.exec → ∀ env i target, c.op = .migrate env i target →
    ∀ k, ((p.world c).handle i).validateAlive (p.world c).core = .ok k →
      ((p.rt c.exec).closed = true ∨ ((p.world c).core.control k).record.domain ≠ target) ∧
      ∀ tdom l a, ¬ (p.rt c.exec).Rebinds ⟨p.bytes, p.calls c.exec⟩ env
        ((p.world c).core.control k) target tdom l a

/-- What a call leaves of runtime `s`, its buffers and its objects. -/
inductive Outcome (p : Process) (c : Call) (s : Side) : World → Prop
  /-- it was an operation of the runtime on its own buffers -/
  | acted (hvia : c.via = s) (hexec : c.exec = s) (hhome : c.home = s) :
      Outcome p c s ((p.own s).next c.op)
  /-- nothing but statistics, the decision log and memory has changed -/
  | noted {rt' : RuntimeImpl} {os' : Os} (quiet : RuntimeImpl.Quiet (p.rt s) rt')
      (calls : os'.calls = p.calls s) : Outcome p c s ⟨⟨rt', os', p.ctls s⟩, p.objs s s⟩
  /-- a migration of a buffer of the other runtime has failed -/
  | failed {env : Env} {i : Nat} {target : MemoryDomain} {ctl ctl' : Control} {e : Error}
      {rt' : RuntimeImpl} {os' : Os} (hexec : c.exec = s) (hvia : c.via ≠ s)
      (hop : c.op = .migrate env i target)
      (run : RuntimeImpl.MigrateRun (p.rt s) ⟨p.bytes, p.calls s⟩ env ctl target
        (.error e, ctl', rt', os')) :
      Outcome p c s ⟨⟨rt', os', p.ctls s⟩, p.objs s s⟩

/-- A call that can be made while there are no strays: the runtime works on its own buffers, or it
has been given a handle of the other runtime to one of the other runtime's buffers. -/
theorem NoStrays.cases (h : p.NoStrays) (hcan : p.Can c) :
    (c.via = c.exec ∧ c.home = c.exec) ∨
      (c.via = c.exec.other ∧ c.home = c.exec.other ∧ c.op.takesHandle = true) := by
  rcases hcan with ⟨hvia, hhome⟩ | ⟨hsome, hthere, hkind⟩
  · exact Or.inl ⟨hvia, hhome.symm⟩
  · have hhome : c.home = c.via := by
      rcases c.via.eq_or_other c.home with heq | heq
      · exact heq
      · obtain ⟨i, hi⟩ := List.exists_mem_of_ne_nil _ hsome
        have hlt := hthere i hi
        rw [heq, h c.via] at hlt
        exact absurd hlt (Nat.not_lt_zero i)
    rcases c.exec.eq_or_other c.via with heq | heq
    · exact Or.inl ⟨heq, hhome.trans heq⟩
    · refine Or.inr ⟨heq, hhome.trans heq, hkind.resolve_left fun hsame => ?_⟩
      exact c.exec.other_ne (heq.symm.trans hsame)

/-- What a runtime does with a handle of the other one: it leaves the blocks and objects alone. -/
theorem foreign_step (hvia : c.via ≠ c.exec) (hkind : c.op.takesHandle = true)
    (hok : p.MigratesOwn c) :
    ((p.world c).next c.op).core.ctls = p.ctls c.home ∧
      ((p.world c).next c.op).objs = p.objs c.via c.home ∧
      ((RuntimeImpl.Quiet (p.rt c.exec) ((p.world c).next c.op).core.rt ∧
          ((p.world c).next c.op).core.os.calls = p.calls c.exec) ∨
        ∃ env i target ctl e ctl', c.op = .migrate env i target ∧
          RuntimeImpl.MigrateRun (p.rt c.exec) ⟨p.bytes, p.calls c.exec⟩ env ctl target
            (.error e, ctl', ((p.world c).next c.op).core.rt,
              ((p.world c).next c.op).core.os)) := by
  cases hop : c.op with
  | exportBuffer env i =>
      obtain ⟨hidle, hobjs⟩ := (p.world c).exportBuffer_idle env i
      exact ⟨hidle.ctls, hobjs, Or.inl ⟨hidle.quiet, hidle.calls⟩⟩
  | migrate env i target =>
      -- the condition leaves only migrations that fail
      have hfails : ∀ k, ((p.world c).handle i).validateAlive (p.world c).core = .ok k →
          ∃ e, ((p.world c).core.rt.migrate (p.world c).core.os env ((p.world c).core.control k)
            target).1 = .error e := by
        intro k hk
        obtain ⟨hmoves, hserved⟩ := hok hvia env i target hop k hk
        exact RuntimeImpl.migrate_fails hmoves hserved
      rcases World.migrate_failed hfails with hsame | ⟨k, e', ctl', rt', os', hrun, hnext⟩
      · rw [hsame]
        exact ⟨rfl, rfl, Or.inl ⟨.refl _, rfl⟩⟩
      · rw [hnext]
        exact ⟨rfl, rfl, Or.inr ⟨env, i, target, _, e', ctl', rfl, hrun⟩⟩
  | _ =>
      rw [hop] at hkind
      cases hkind

theorem next_of_can (hcan : p.Can c) : p.next c = p.put c ((p.world c).next c.op) := by
  rw [next, step, if_pos hcan]
  rfl

theorem next_of_not_can (hcan : ¬ p.Can c) : p.next c = p := by
  rw [next, step, if_neg hcan]

/-- There are still no strays. -/
theorem NoStrays.next (h : p.NoStrays) (hok : p.MigratesOwn c) : (p.next c).NoStrays := by
  intro s
  by_cases hcan : p.Can c
  · rw [next_of_can hcan]
    show Function.update p.objs c.exec (Function.update (p.objs c.exec) c.home _) s s.other = []
    by_cases hs : s = c.exec
    · subst hs
      rw [Function.update_self]
      rcases h.cases hcan with ⟨-, hhome⟩ | ⟨hvia, hhome, hkind⟩
      · rw [hhome, Function.update_of_ne c.exec.other_ne]
        exact h c.exec
      · -- nothing is appended to the objects of the other runtime
        have hne : c.via ≠ c.exec := fun heq => c.exec.other_ne (hvia.symm.trans heq)
        obtain ⟨-, hobjs, -⟩ := foreign_step hne hkind hok
        rw [hhome, Function.update_self, objsAfter, if_neg hne, hobjs, List.drop_length,
          List.append_nil, hhome]
        exact h c.exec
    · rw [Function.update_of_ne hs]
      exact h s
  · rw [next_of_not_can hcan]
    exact h s

/-- What a call leaves of the two runtimes. -/
theorem NoStrays.outcome (h : p.NoStrays) (hok : p.MigratesOwn c) (s : Side) :
    p.Outcome c s ((p.next c).own s) := by
  by_cases hcan : p.Can c
  · rw [next_of_can hcan]
    -- the call is made through the runtime's own handle, or through one of the other
    rcases h.cases hcan with ⟨hvia, hhome⟩ | ⟨hvia, hhome, hkind⟩
    · rcases c.exec.eq_or_other s with rfl | rfl
      · have hworld : p.world c = p.own c.exec := by
          unfold world own
          rw [hvia, hhome]
        have hown : (p.put c ((p.world c).next c.op)).own c.exec = (p.own c.exec).next c.op := by
          rw [hworld]
          simp [own, put, objsAfter, hvia, hhome]
        rw [hown]
        exact .acted hvia rfl hhome
      · have hown : (p.put c ((p.world c).next c.op)).own c.exec.other
            = ⟨⟨p.rt c.exec.other, ⟨((p.world c).next c.op).core.os.bytes, p.calls c.exec.other⟩,
                p.ctls c.exec.other⟩, p.objs c.exec.other c.exec.other⟩ := by
          simp [own, put, hhome, c.exec.other_ne]
        rw [hown]
        exact .noted (.refl _) rfl
    · have hne : c.via ≠ c.exec := fun heq => c.exec.other_ne (hvia.symm.trans heq)
      obtain ⟨hctls, -, hrest⟩ := foreign_step hne hkind hok
      rcases c.exec.eq_or_other s with rfl | rfl
      · have hown : (p.put c ((p.world c).next c.op)).own c.exec
            = ⟨⟨((p.world c).next c.op).core.rt, ((p.world c).next c.op).core.os, p.ctls c.exec⟩,
                p.objs c.exec c.exec⟩ := by
          simp [own, put, hhome, c.exec.other_ne.symm]
        rw [hown]
        rcases hrest with ⟨hquiet, hcalls⟩ | ⟨env, i, target, ctl, e, ctl', hop, hrun⟩
        · exact .noted hquiet hcalls
        · exact .failed rfl hne hop hrun
      · have hown : (p.put c ((p.world c).next c.op)).own c.exec.other
            = ⟨⟨p.rt c.exec.other, ⟨((p.world c).next c.op).core.os.bytes, p.calls c.exec.other⟩,
                p.ctls c.exec.other⟩, p.objs c.exec.other c.exec.other⟩ := by
          rw [hhome] at hctls
          simp [own, put, hhome, c.exec.other_ne, hctls]
        rw [hown]
        exact .noted (.refl _) rfl
  · rw [next_of_not_can hcan]
    exact .noted (.refl _) rfl

/-! ## Invariants -/

/-- The invariant of each runtime, with its own buffers and objects. -/
structure Sound (p : Process) : Prop where
  noStrays : p.NoStrays
  refs : ∀ s, (p.own s).RefInv []

theorem Sound.next (h : p.Sound) (hok : p.MigratesOwn c) : (p.next c).Sound := by
  refine ⟨h.noStrays.next hok, fun s => ?_⟩
  have hout := h.noStrays.outcome hok s
  generalize (p.next c).own s = w at hout ⊢
  cases hout with
  | acted => exact (h.refs s).next c.op
  | noted quiet _ =>
      exact ⟨(h.refs s).core.same (Core.sameRefs_of_quiet quiet rfl), (h.refs s).objs⟩
  | failed _ _ _ run =>
      obtain ⟨l, hquiet⟩ := run.failed_quiet
      refine ⟨(h.refs s).core.same ?_, (h.refs s).objs⟩
      have hledger : (p.own s).core.SameRefs
          ⟨{ p.rt s with ledger := l }, ⟨p.bytes, p.calls s⟩, p.ctls s⟩ :=
        ⟨rfl, rfl, rfl, rfl, Nat.le_refl _, rfl, rfl⟩
      exact hledger.trans (Core.sameRefs_of_quiet hquiet rfl)

theorem sound_init (cfg : Side → RuntimeConfig) (plat : Side → RuntimeImpl.Platform) :
    (init cfg plat).Sound :=
  ⟨fun _ => rfl, fun s => World.refInv_init (cfg s) (plat s)⟩

/-- The operation counts the buffers it creates, if it is one of a runtime on its own buffers. -/
def CountsAll (p : Process) (c : Call) : Prop := c.via = c.exec → (p.own c.exec).CountsAll c.op

theorem counted_next (h : p.Sound) (hcounted : ∀ s, (p.own s).core.Counted)
    (hok : p.MigratesOwn c) (hcounts : p.CountsAll c) (s : Side) :
    ((p.next c).own s).core.Counted := by
  have hout := h.noStrays.outcome hok s
  generalize (p.next c).own s = w at hout ⊢
  cases hout with
  | acted hvia hexec _ =>
      have hop : (p.own s).CountsAll c.op := hexec ▸ hcounts (hvia.trans hexec.symm)
      exact (World.counted_effects (h.refs s) (hcounted s) hop).next (h.refs s) (hcounted s)
  | noted quiet _ => exact (hcounted s).same (Core.sameCensus_of_quiet quiet rfl)
  | failed _ _ _ run =>
      obtain ⟨l, hquiet⟩ := run.failed_quiet
      refine (hcounted s).same ⟨fun n => ?_, hquiet.nss, rfl⟩
      rw [hquiet.allocs]
      rfl

/-- The runtimes use one namespace each, and honest backends. -/
def OneNamespace (n : Side → NamespaceId) (p : Process) (c : Call) : Prop :=
  if c.via = c.exec then (p.own c.exec).OneNamespace (n c.exec) c.op
  else ∀ env i target, c.op = .migrate env i target → env.Honest (p.calls c.exec)

theorem exact_next {n : Side → NamespaceId} (h : p.Sound)
    (hexact : ∀ s, (p.own s).core.stock.Exact (n s)) (hok : p.MigratesOwn c)
    (hone : p.OneNamespace n c) (s : Side) : ((p.next c).own s).core.stock.Exact (n s) := by
  have hout := h.noStrays.outcome hok s
  generalize (p.next c).own s = w at hout ⊢
  cases hout with
  | acted hvia hexec _ =>
      have hop : (p.own s).OneNamespace (n s) c.op := by
        rw [OneNamespace, if_pos (hvia.trans hexec.symm), hexec] at hone
        exact hone
      obtain ⟨hstock, hcan⟩ := World.next_stock (h.refs s) c.op
      rw [hstock]
      exact hcan.invariant (hop.keeps (h.refs s) (hexact s)) (hexact s)
        (fun _ _ h hcan hgood => h.apply hcan hgood)
  | @noted rt' os' quiet calls =>
      have hstock : (⟨rt', os', p.ctls s⟩ : Core).stock = (p.own s).core.stock :=
        (Core.stock_quiet quiet os' _).trans (Stock.ext rfl rfl rfl calls rfl)
      rw [hstock]
      exact hexact s
  | @failed env i target ctl ctl' e rt' os' hexec hvia hop run =>
      have henv : env.Honest (p.calls s) := by
        rw [OneNamespace, if_neg (hexec ▸ hvia), hexec] at hone
        exact hone env i target hop
      -- the deals of a failed migration are as careful as those of any other operation
      obtain ⟨hstock, hcan⟩ := Core.migrateFailed_stock run (p.ctls s)
      rw [hstock]
      have hcareful : Along Stock.apply (Stock.Careful (n s)) (p.own s).core.stock
          ((p.rt s).migrateDeals ⟨p.bytes, p.calls s⟩ env ctl target) := by
        have hinternal := (p.rt s).migrateDeals_internal ⟨p.bytes, p.calls s⟩ env ctl target
        have hfulfilled := RuntimeImpl.migrateDeals_fulfilled henv.reliable (p.rt s)
          ⟨p.bytes, p.calls s⟩ ctl target
        have hboth : ∀ deal ∈ (p.rt s).migrateDeals ⟨p.bytes, p.calls s⟩ env ctl target,
            ∀ _ : Stock, deal.Internal ∧ deal.Fulfilled :=
          fun deal hmem _ => ⟨hinternal deal hmem, hfulfilled deal hmem⟩
        exact ((Along.of_mem hboth _).and (run.failed_confined (n s) _)).mono
          (fun _ _ h => ⟨h.1.1, h.1.2, h.2⟩)
      exact hcan.invariant hcareful (hexact s) (fun _ _ h hcan hgood => h.apply hcan hgood)

theorem sound_reach {cfg : Side → RuntimeConfig} {plat : Side → RuntimeImpl.Platform}
    {ok : Process → Call → Prop} (hok : ∀ p c, ok p c → p.MigratesOwn c)
    (hreach : Reach Process.next ok (init cfg plat) p) : p.Sound :=
  hreach.invariant (sound_init cfg plat) (fun p c h hc => h.next (hok p c hc))

theorem counted_reach {cfg : Side → RuntimeConfig} {plat : Side → RuntimeImpl.Platform}
    (hreach : Reach Process.next (fun p c => p.MigratesOwn c ∧ p.CountsAll c) (init cfg plat) p)
    (s : Side) : (p.own s).core.Counted := by
  refine hreach.invariant_of (I := fun p => ∀ s, (p.own s).core.Counted) (K := Sound)
    (fun _ hp => sound_reach (fun _ _ h => h.1) hp)
    (fun _ => ⟨fun _ => rfl, fun _ _ _ _ => Nat.zero_le _⟩) ?_ s
  intro p c hp h hok
  exact counted_next hp h hok.1 hok.2

theorem exact_reach {cfg : Side → RuntimeConfig} {plat : Side → RuntimeImpl.Platform}
    {n : Side → NamespaceId}
    (hreach : Reach Process.next (fun p c => p.MigratesOwn c ∧ p.OneNamespace n c) (init cfg plat) p)
    (s : Side) : (p.own s).core.stock.Exact (n s) := by
  refine hreach.invariant_of (I := fun p => ∀ s, (p.own s).core.stock.Exact (n s)) (K := Sound)
    (fun _ hp => sound_reach (fun _ _ h => h.1) hp)
    (fun s => exact_init (n s) (cfg s) (plat s)) ?_ s
  intro p c hp h hok
  exact exact_next hp h hok.1 hok.2

/-! ## Consistent runtimes -/

/-- The registry of a runtime contains exactly its buffers that are not finalized. -/
def RegistryExact (w : World) : Prop :=
  ∀ id k, w.core.rt.registry.find? id = some k ↔
    w.core.Alive k ∧ (w.core.control k).record.id = id

theorem registryExact_of_refInv {w : World} {base : List BufferId} (hinv : w.RefInv base) :
    RegistryExact w := by
  refine fun id k => ⟨fun hfind => hinv.registered_block hfind, ?_⟩
  rintro ⟨halive, rfl⟩
  exact hinv.find_of_alive halive

end Process

/-- **Handles of one runtime do not harm another** as long as no runtime migrates a buffer of the
other one: the registries are exact in every state, the allocation counts are if the operations of
each runtime on its own buffers count them, and the committed bytes are if each runtime uses one
namespace and honest backends. -/
theorem runtimes_stay_apart (cfg : Side → RuntimeConfig) (plat : Side → RuntimeImpl.Platform) :
    (∀ p, Reach Process.next Process.MigratesOwn (Process.init cfg plat) p →
      ∀ s, Process.RegistryExact (p.own s)) ∧
    (∀ p, Reach Process.next (fun p c => p.MigratesOwn c ∧ p.CountsAll c)
        (Process.init cfg plat) p →
      ∀ s n, (p.own s).core.rt.allocCount n = (p.own s).registered fun r => r.ns = n) ∧
    ∀ n p, Reach Process.next (fun p c => p.MigratesOwn c ∧ p.OneNamespace n c)
        (Process.init cfg plat) p →
      ∀ s d, (p.own s).core.rt.ledger.comm (n s) d
        = (p.own s).core.committedIn d + (p.own s).core.idleIn d := by
  refine ⟨fun p hreach s => ?_, fun p hreach s n => ?_, fun n p hreach s d => ?_⟩
  · exact Process.registryExact_of_refInv ((Process.sound_reach (fun _ _ h => h) hreach).refs s)
  · have hsound := Process.sound_reach (fun _ _ h => h.1) hreach
    rw [(Process.counted_reach hreach s).exact, (hsound.refs s).census_eq]
  · have hsound := Process.sound_reach (fun _ _ h => h.1) hreach
    have hexact := Process.exact_reach hreach s
    rw [← (hsound.refs s).committedIn_eq (fun b hb => (hexact.live b hb).1),
      ← (p.own s).core.idleIn_eq (fun b hb => (hexact.idle b hb).1)]
    exact hexact.cells (n s) d

/-- Two runtimes with default configurations. -/
def twoDefaults : Process := Process.init (fun _ => {}) (fun _ => {})

/-- The left runtime allocates a page. -/
def leftPage : Call :=
  ⟨.left, .left, .left, .allocate (.pageAt 4096) { size := 4096, flags := { exportable := true } }⟩

/-- The right runtime is asked to migrate the page, and to export it. -/
def askRight (env : Env) : List Call :=
  [⟨.left, .right, .left, .migrate env 0 .sharedHost⟩, ⟨.left, .right, .left, .exportBuffer {} 0⟩]

/-- The right runtime finds no memory for the page. -/
def refusedPage : Process := runs Process.next twoDefaults (leftPage :: askRight {})

/-- The theorem at work: both runtimes are as consistent as before. -/
theorem runtimes_stay_apart_refusedPage :
    ((twoDefaults.next leftPage).step ⟨.left, .right, .left, .migrate {} 0 .sharedHost⟩).1
        = .error ⟨.outOfCapacity, ""⟩ ∧
    ∀ s, Process.RegistryExact (refusedPage.own s) ∧
      (refusedPage.own s).core.rt.allocCount 1
        = (refusedPage.own s).registered (fun r => r.ns = 1) ∧
      (refusedPage.own s).core.rt.ledger.comm 1 .host
        = (refusedPage.own s).core.committedIn .host + (refusedPage.own s).core.idleIn .host := by
  have hapart : Along Process.next Process.MigratesOwn twoDefaults (leftPage :: askRight {}) := by
    refine ⟨fun hne => absurd rfl hne, fun _ env i target hop k hk => ?_, fun _ _ _ _ hop => ?_,
      trivial⟩
    · -- the page is in host memory, and the backends of the right runtime have none
      cases hop
      obtain rfl : 0 = k := Except.ok.inj hk
      exact ⟨Or.inr (by decide), fun _ _ _ hserved => nomatch hserved.backend⟩
    · cases hop
  have hcounts : Along Process.next Process.CountsAll twoDefaults (leftPage :: askRight {}) := by
    refine ⟨fun _ => ?_, fun hsame => ?_, fun hsame => ?_, trivial⟩
    · intro _ _ _ _ _ _ hoffer
      cases hoffer
    · cases hsame
    · cases hsame
  have hone : Along Process.next (Process.OneNamespace (fun _ => 1)) twoDefaults
      (leftPage :: askRight {}) := by
    refine ⟨⟨rfl, pageAt_honest (by decide) (by decide) (fun x hx => by cases hx)⟩, ?_, ?_, trivial⟩
    · intro env i target hop
      cases hop
      exact ⟨fun _ _ _ _ ha => (by cases ha), fun _ _ _ _ => rfl, fun _ _ _ _ => rfl⟩
    · intro env i target hop
      cases hop
  obtain ⟨hregistry, hallocs, hcommitted⟩ := runtimes_stay_apart (fun _ => {}) (fun _ => {})
  refine ⟨rfl, fun s => ⟨?_, ?_, ?_⟩⟩
  · exact hregistry _ (reach_runs .start hapart) s
  · exact hallocs _ (reach_runs .start (hapart.and hcounts)) s 1
  · exact hcommitted (fun _ => 1) _ (reach_runs .start (hapart.and hone)) s .host

/-- The page after the right runtime has migrated it. -/
def takenPage : Process := runs Process.next twoDefaults (leftPage :: askRight (.pageAt 8192))

/-- The left runtime's handle to the page is released, and then the one that the right runtime has
given out. -/
def bothReleased : List Call :=
  [⟨.left, .left, .left, .release {} 0⟩, ⟨.right, .right, .left, .release {} 0⟩]

def lostPage : Process := runs Process.next takenPage bothReleased

/-- The same after a migration to the domain that the page is in, which moves nothing. -/
def passedPage : Process :=
  runs Process.next twoDefaults
    (leftPage :: ⟨.left, .right, .left, .migrate {} 0 .host⟩ :: bothReleased)

/-- The left runtime has a finalized page in its registry. -/
theorem not_registryExact_of_found {w : World}
    (hfound : w.core.rt.registry.find? (w.core.control 0).record.id = some 0)
    (hdone : (w.core.control 0).finalized = true) : ¬ Process.RegistryExact w := by
  intro h
  have halive := ((h _ 0).mp hfound).1.2
  rw [hdone] at halive
  cases halive

/-- The right runtime has charged itself for a page that it has not registered, and the left one
still charges for the host memory that the page has left. Once all handles are released, the left
runtime keeps the finalized page in its registry, even if the page was never moved. -/
theorem foreign_migrate_corrupts :
    ((takenPage.own .right).core.rt.registry.entries = [] ∧
      (takenPage.own .right).core.rt.ledger.comm 1 .sharedHost = 4096) ∧
    ((takenPage.own .left).core.committedIn .host = 0 ∧
      (takenPage.own .left).core.idleIn .host = 0 ∧
      (takenPage.own .left).core.rt.ledger.comm 1 .host = 4096) ∧
    ¬ Process.RegistryExact (lostPage.own .left) ∧ ¬ Process.RegistryExact (passedPage.own .left) := by
  refine ⟨⟨by decide, by decide⟩, ⟨by decide, by decide, by decide⟩, ?_, ?_⟩
  · exact not_registryExact_of_found (by decide) (by decide)
  · exact not_registryExact_of_found (by decide) (by decide)

end UnifiedBuffer
