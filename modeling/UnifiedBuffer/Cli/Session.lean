import UnifiedBuffer.Cli.Shell
import UnifiedBuffer.Safety.Accounting
import UnifiedBuffer.Safety.Exports
import UnifiedBuffer.Safety.Integrity
import UnifiedBuffer.Safety.Lifecycle
import UnifiedBuffer.Safety.Objects
import UnifiedBuffer.Safety.Shutdown

set_option autoImplicit false

/-! # Sessions of the shell

The shell has one handle for each buffer, and keeps it in its table: every other object is a
temporary of the command that runs. `World.Tended` says so between any two operations, for the
temporaries `temps`, and each operation of a command is one lemma about it. -/

namespace UnifiedBuffer

open Lib

namespace World

variable {w : World} {op : Op} {table : Nat → Option Nat} {temps : List Nat} {x : BufferHandle}
  {k : CtlId} {p lo : Nat}

/-! ## Handles that are up to date -/

/-- The handle refers to the block, and has the identity and the generation of its buffer. -/
structure Current (w : World) (x : BufferHandle) (k : CtlId) : Prop where
  rt : x.rt = true
  valid : x.valid = true
  ctl : x.ctl = some k
  bound : k < w.core.ctls.length
  id : x.id = (w.core.control k).record.id
  gen : x.gen = (w.core.control k).record.generation

theorem Current.pin (h : w.Current x k) : (Obj.handle x).pin = some k := by
  show (if x.valid then x.ctl else none) = some k
  rw [h.valid, h.ctl]
  rfl

theorem Current.next (h : w.Current x k) (hinv : w.RefInv []) (hstill : w.moves op k = false) :
    (w.next op).Current x k := by
  have hages := hinv.ages op
  have hgen := hages.generation k h.bound
  rw [hstill] at hgen
  exact ⟨h.rt, h.valid, h.ctl, h.bound.trans_le hages.length,
    h.id.trans (hages.same k h.bound).id.symm, h.gen.trans hgen.symm⟩

theorem handle_eq (hp : w.objs[p]? = some (.handle x)) : w.handle p = x := by
  unfold handle
  rw [hp]

/-- The low word tells the buffers of a runtime apart. -/
theorem RefInv.lo_inj (hinv : w.RefInv []) {j : CtlId} (hj : j < w.core.ctls.length)
    (hk : k < w.core.ctls.length)
    (h : (w.core.control j).record.id.lo = (w.core.control k).record.id.lo) : j = k := by
  have hhigh : ∀ i < w.core.ctls.length,
      (w.core.control i).record.id.hi = w.core.rt.idHigh :=
    fun i hi => (hinv.core.ids i _ (views_get w.core hi)).1
  have hext : ∀ a b : BufferId, a.hi = b.hi → a.lo = b.lo → a = b := by
    rintro ⟨hi, lo⟩ ⟨hi', lo'⟩ rfl rfl
    rfl
  exact hinv.ids_inj hj hk (hext _ _ ((hhigh j hj).trans (hhigh k hk).symm) h)

theorem moves_ok {env : Env} {i : Nat} {target : MemoryDomain}
    (h : w.moves (.migrate env i target) k = true) :
    (w.handle i).validateAlive w.core = .ok k ∧
      (w.step (.migrate env i target)).1.isOk = true := by
  simp only [moves] at h
  split at h
  · rename_i j hj
    obtain ⟨hboth, hok⟩ := Bool.and_eq_true_iff.mp h
    rw [hj, (of_decide_eq_true hboth).1]
    exact ⟨rfl, hok⟩
  · cases h

/-! ## The table and the temporaries -/

/-- Every entry of the table is a handle that is up to date, under the low word of its identity.
An object that holds a reference is in the table, or is a temporary. -/
structure Tended (w : World) (table : Nat → Option Nat) (temps : List Nat) : Prop where
  refs : w.RefInv []
  order : w.InOrder
  entries : ∀ lo p, table lo = some p →
    ∃ x k, w.objs[p]? = some (.handle x) ∧ w.Current x k ∧ x.id.lo = lo
  owners : ∀ p o k, w.objs[p]? = some o → o.pin = some k → p ∈ temps ∨ ∃ lo, table lo = some p
  apart : ∀ p ∈ temps, ∀ lo, table lo ≠ some p
  bound : ∀ p ∈ temps, p < w.objs.length

/-- The operation does not move a buffer that has an entry in the table. -/
def Stays (w : World) (table : Nat → Option Nat) (op : Op) : Prop :=
  ∀ lo p x k, table lo = some p → w.objs[p]? = some (.handle x) → w.Current x k → x.id.lo = lo →
    w.moves op k = false

/-- Only a migration moves a buffer. -/
theorem stays (w : World) (table : Nat → Option Nat) {op : Op}
    (hop : ∀ env i target, op ≠ .migrate env i target) : w.Stays table op := by
  intro lo p x k _ _ _ _
  cases op with
  | migrate env i target => exact absurd rfl (hop env i target)
  | _ => rfl

/-- An operation that changes objects among the temporaries only, and makes new ones. -/
theorem Tended.call (h : w.Tended table temps) {temps' : List Nat} (hstays : w.Stays table op)
    (hold : ∀ p, p ∉ temps' → (w.next op).objs[p]? = w.objs[p]?) (hsub : ∀ p ∈ temps, p ∈ temps')
    (hnew : ∀ p ∈ temps', p ∈ temps ∨ p = w.objs.length)
    (hbound : ∀ p ∈ temps', p < (w.next op).objs.length) : (w.next op).Tended table temps' := by
  have hapart : ∀ p ∈ temps', ∀ lo, table lo ≠ some p := by
    intro p hp lo hlo
    rcases hnew p hp with htemp | rfl
    · exact h.apart p htemp lo hlo
    · obtain ⟨x, k, hx, -⟩ := h.entries lo _ hlo
      rw [List.getElem?_eq_none le_rfl] at hx
      cases hx
  refine ⟨h.refs.next op, (h.order.step h.refs op).2.2.1, ?_, ?_, hapart, hbound⟩
  · intro lo p hlo
    obtain ⟨x, k, hx, hcurrent, hid⟩ := h.entries lo p hlo
    refine ⟨x, k, ?_, hcurrent.next h.refs (hstays lo p x k hlo hx hcurrent hid), hid⟩
    rw [hold p fun hp => hapart p hp lo hlo]
    exact hx
  · intro p o k ho hpin
    by_cases hp : p ∈ temps'
    · exact Or.inl hp
    · rw [hold p hp] at ho
      exact (h.owners p o k ho hpin).imp (hsub p) id

/-- The operation works on temporaries, and returns no object. -/
theorem Tended.work (h : w.Tended table temps) (hstays : w.Stays table op)
    (htouches : ∀ p, w.Touches op p → p ∈ temps ∨ (w.next op).objs = w.objs) :
    (w.next op).Tended table temps := by
  refine h.call hstays (fun p hp => ?_) (fun _ => id) (fun _ => Or.inl)
    (fun p hp => (h.bound p hp).trans_le (length_next w op))
  by_cases htouch : w.Touches op p
  · rcases htouches p htouch with hmem | hsame
    · exact absurd hmem hp
    · rw [hsame]
  · exact getElem?_next htouch

/-- The operation returns an object, which is a temporary from then on. -/
theorem Tended.gain (h : w.Tended table temps) (hstays : w.Stays table op)
    (htouches : ∀ p, w.Touches op p → p ∈ temps ∨ p = w.objs.length)
    (hlength : w.objs.length < (w.next op).objs.length) :
    (w.next op).Tended table (w.objs.length :: temps) := by
  refine h.call hstays (fun p hp => getElem?_next fun htouch => hp ?_)
    (fun p hp => List.mem_cons_of_mem _ hp) (fun p hp => ?_) (fun p hp => ?_)
  · exact (htouches p htouch).elim (List.mem_cons_of_mem _) fun heq =>
      List.mem_cons.mpr (Or.inl heq)
  · exact (List.mem_cons.mp hp).symm
  · rcases List.mem_cons.mp hp with rfl | hp
    · exact hlength
    · exact (h.bound p hp).trans hlength

/-- The program writes to memory. -/
theorem Tended.store (h : w.Tended table temps) (a : Nat) (data : List UInt8) :
    (w.perform (.store a data)).Tended table temps where
  refs := h.refs.same ⟨rfl, rfl, rfl, rfl, le_rfl, rfl, rfl⟩
  order := ⟨h.order.leases, h.order.alive, h.order.done⟩
  entries lo p hlo := by
    obtain ⟨x, k, hx, hc, hid⟩ := h.entries lo p hlo
    exact ⟨x, k, hx, ⟨hc.rt, hc.valid, hc.ctl, hc.bound, hc.id, hc.gen⟩, hid⟩
  owners := h.owners
  apart := h.apart
  bound := h.bound

/-- A temporary without a reference can be forgotten. -/
theorem Tended.forget (h : w.Tended table (p :: temps))
    (hempty : ∀ o, w.objs[p]? = some o → o.pin = none) : w.Tended table temps where
  refs := h.refs
  order := h.order
  entries := h.entries
  owners q o k ho hpin := by
    rcases h.owners q o k ho hpin with hq | hq
    · rcases List.mem_cons.mp hq with rfl | hq
      · rw [hempty o ho] at hpin
        cases hpin
      · exact Or.inl hq
    · exact Or.inr hq
  apart q hq := h.apart q (List.mem_cons_of_mem p hq)
  bound q hq := h.bound q (List.mem_cons_of_mem p hq)

theorem Tended.congr (h : w.Tended table temps) {temps' : List Nat}
    (hmem : ∀ q, q ∈ temps' ↔ q ∈ temps) : w.Tended table temps' where
  refs := h.refs
  order := h.order
  entries := h.entries
  owners q o k ho hpin := (h.owners q o k ho hpin).imp (hmem q).mpr id
  apart q hq := h.apart q ((hmem q).mp hq)
  bound q hq := h.bound q ((hmem q).mp hq)

theorem Tended.swap {q : Nat} (h : w.Tended table [p, q]) : w.Tended table [q, p] :=
  h.congr fun r => by
    simp only [List.mem_cons, List.not_mem_nil, or_false]
    exact or_comm

/-- An entry is taken out of the table. -/
theorem Tended.unfile (h : w.Tended table temps) (hlo : table lo = some p) :
    w.Tended (Function.update table lo none) (p :: temps) where
  refs := h.refs
  order := h.order
  entries lo' q hq := by
    by_cases heq : lo' = lo
    · rw [heq, Function.update_self] at hq
      cases hq
    · rw [Function.update_of_ne heq] at hq
      exact h.entries lo' q hq
  owners q o k ho hpin := by
    rcases h.owners q o k ho hpin with hq | ⟨lo', hq⟩
    · exact Or.inl (List.mem_cons_of_mem p hq)
    · by_cases heq : lo' = lo
      · rw [heq, hlo] at hq
        cases hq
        exact Or.inl List.mem_cons_self
      · exact Or.inr ⟨lo', by rw [Function.update_of_ne heq]; exact hq⟩
  apart q hq lo' hlo' := by
    by_cases heq : lo' = lo
    · rw [heq, Function.update_self] at hlo'
      cases hlo'
    · rw [Function.update_of_ne heq] at hlo'
      rcases List.mem_cons.mp hq with rfl | hq
      · -- the handle there has one identity, so it has one entry
        obtain ⟨x, k, hx, -, hid⟩ := h.entries lo q hlo
        obtain ⟨x', k', hx', -, hid'⟩ := h.entries lo' q hlo'
        rw [hx] at hx'
        cases hx'
        exact heq (hid'.symm.trans hid)
      · exact h.apart q hq lo' hlo'
  bound q hq := by
    rcases List.mem_cons.mp hq with rfl | hq
    · obtain ⟨x, k, hx, -⟩ := h.entries lo q hlo
      exact (List.getElem?_eq_some_iff.mp hx).1
    · exact h.bound q hq

/-- A temporary becomes an entry of the table. -/
theorem Tended.file (h : w.Tended table (p :: temps)) (hp : p ∉ temps) (hlo : table lo = none)
    (hx : w.objs[p]? = some (.handle x)) (hcurrent : w.Current x k) (hid : x.id.lo = lo) :
    w.Tended (Function.update table lo (some p)) temps where
  refs := h.refs
  order := h.order
  entries lo' q hq := by
    by_cases heq : lo' = lo
    · rw [heq, Function.update_self] at hq
      cases hq
      exact ⟨x, k, hx, hcurrent, hid.trans heq.symm⟩
    · rw [Function.update_of_ne heq] at hq
      exact h.entries lo' q hq
  owners q o j ho hpin := by
    rcases h.owners q o j ho hpin with hq | ⟨lo', hq⟩
    · rcases List.mem_cons.mp hq with rfl | hq
      · exact Or.inr ⟨lo, Function.update_self _ _ _⟩
      · exact Or.inl hq
    · refine Or.inr ⟨lo', ?_⟩
      rwa [Function.update_of_ne]
      rintro rfl
      rw [hlo] at hq
      cases hq
  apart q hq lo' hlo' := by
    by_cases heq : lo' = lo
    · rw [heq, Function.update_self] at hlo'
      cases hlo'
      exact hp hq
    · rw [Function.update_of_ne heq] at hlo'
      exact h.apart q (List.mem_cons_of_mem p hq) lo' hlo'
  bound q hq := h.bound q (List.mem_cons_of_mem p hq)

/-! ## What the operations return -/

/-- The result is an error and no object, or a handle that is up to date. -/
def Hands (w : World) (r : Except Error Reply × World) : Prop :=
  (∃ e, r.1 = .error e ∧ r.2.objs = w.objs) ∨
    ∃ x k, r.1 = .ok (.object w.objs.length) ∧ r.2.objs = w.objs ++ [.handle x] ∧ r.2.Current x k

theorem hands_giveHandle {q : Except Error CtlId × Core} (hinv : (w.giveHandle q).2.RefInv []) :
    w.Hands (w.giveHandle q) ∧
      ∀ j, q.1 = .ok j → ∃ x, (w.giveHandle q).2.objs = w.objs ++ [.handle x] ∧ x.ctl = some j := by
  obtain ⟨res, c⟩ := q
  cases res with
  | error e => exact ⟨Or.inl ⟨_, rfl, rfl⟩, fun j hj => by cases hj⟩
  | ok j =>
      have hget : (w.giveHandle (.ok j, c)).2.objs[w.objs.length]?
          = some (.handle (.ofControl c j)) := List.getElem?_concat_length
      have hbound : j < (c.retain j).ctls.length := (hinv.alive (pins_pos hget rfl)).1
      have hrecord : ((c.retain j).control j).record = (c.control j).record := by
        have hlt : j < c.ctls.length := by rwa [Core.retain, Core.modify, List.length_modify] at hbound
        rw [Core.retain, Core.control_modify c _ hlt]
      refine ⟨Or.inr ⟨.ofControl c j, j, rfl, rfl, rfl, rfl, rfl, hbound, ?_, ?_⟩, ?_⟩
      · show (c.control j).record.id = ((c.retain j).control j).record.id
        rw [hrecord]
      · show (c.control j).record.generation = ((c.retain j).control j).record.generation
        rw [hrecord]
      · intro i hi
        cases hi
        exact ⟨_, rfl, rfl⟩

theorem hands_allocate (hinv : w.RefInv []) (env : Env) (req : AllocationRequest) :
    w.Hands (w.step (.allocate env req)) := by
  have hnext := hinv.next (.allocate env req)
  unfold World.next at hnext
  show w.Hands (w.allocate env req)
  change (w.allocate env req).2.RefInv [] at hnext
  unfold World.allocate at hnext ⊢
  split
  · exact Or.inl ⟨_, rfl, rfl⟩
  · rename_i hopen
    rw [if_neg hopen] at hnext
    exact (hands_giveHandle hnext).1

/-- A migration returns a handle to the buffer that it was called for. -/
theorem hands_migrate (hinv : w.RefInv []) (env : Env) (i : Nat) (target : MemoryDomain) :
    (∃ e, (w.step (.migrate env i target)).1 = .error e ∧
      (w.next (.migrate env i target)).objs = w.objs) ∨
    ∃ x k, (w.step (.migrate env i target)).1 = .ok (.object w.objs.length) ∧
      (w.next (.migrate env i target)).objs = w.objs ++ [.handle x] ∧
      (w.next (.migrate env i target)).Current x k ∧ (w.handle i).ctl = some k := by
  have hnext := hinv.next (.migrate env i target)
  unfold World.next at hnext ⊢
  change (w.migrate env i target).2.RefInv [] at hnext
  show (∃ e, (w.migrate env i target).1 = .error e ∧ (w.migrate env i target).2.objs = w.objs) ∨
    ∃ x k, (w.migrate env i target).1 = .ok (.object w.objs.length) ∧
      (w.migrate env i target).2.objs = w.objs ++ [.handle x] ∧
      (w.migrate env i target).2.Current x k ∧ (w.handle i).ctl = some k
  unfold World.migrate at hnext ⊢
  cases hk : (w.handle i).validateAlive w.core with
  | error e => exact Or.inl ⟨_, rfl, rfl⟩
  | ok k =>
      rw [hk] at hnext
      rcases hres : w.core.migrate env k target with ⟨res, c⟩
      simp only [hres] at hnext ⊢
      cases res with
      | error e => exact Or.inl ⟨_, rfl, rfl⟩
      | ok u =>
          obtain ⟨hhands, hctl⟩ := hands_giveHandle hnext
          rcases hhands with ⟨e, he, -⟩ | ⟨x, j, hok, hobjs, hcurrent⟩
          · cases he
          · obtain ⟨x', hobjs', hx'⟩ := hctl k rfl
            have hsame : x' = x := by
              rw [hobjs] at hobjs'
              simpa using hobjs'.symm
            rw [hsame, hcurrent.ctl] at hx'
            cases hx'
            exact Or.inr ⟨x, _, hok, hobjs, hcurrent,
              (BufferHandle.validateAlive_ok_iff.mp hk).ctl⟩

/-- A map is one more object, if there is one. -/
theorem gives_map (w : World) (env : Env) (i : Nat) (access : AccessMode) :
    (∃ e, (w.step (.map env i access)).1 = .error e ∧
      (w.next (.map env i access)).objs = w.objs) ∨
    ∃ m, (w.step (.map env i access)).1 = .ok (.object w.objs.length) ∧
      (w.next (.map env i access)).objs = w.objs ++ [.map m] := by
  unfold World.next
  show (∃ e, (w.give .map ((w.handle i).map w.core env access)).1 = .error e ∧
      (w.give .map ((w.handle i).map w.core env access)).2.objs = w.objs) ∨
    ∃ m, (w.give .map ((w.handle i).map w.core env access)).1 = .ok (.object w.objs.length) ∧
      (w.give .map ((w.handle i).map w.core env access)).2.objs = w.objs ++ [.map m]
  obtain ⟨res, c⟩ := (w.handle i).map w.core env access
  cases res with
  | error e => exact Or.inl ⟨_, rfl, rfl⟩
  | ok m => exact Or.inr ⟨m, rfl, rfl⟩

/-- A handle that is constructed from another one. -/
theorem next_move {r : Nat} (hx : w.objs[r]? = some (.handle x)) :
    (w.next (.move r)).objs = w.objs.set r (Obj.movedFrom (.handle x)) ++ [.handle x] := by
  show (w.moveFrom r).2.objs = _
  unfold World.moveFrom
  rw [hx]

/-- The target of an assignment holds what the source held. -/
theorem next_moveAssign {env : Env} {dst src : Nat} {y : BufferHandle}
    (hdst : w.objs[dst]? = some (.handle y)) (hsrc : w.objs[src]? = some (.handle x))
    (hne : dst ≠ src) : (w.next (.moveAssign env dst src)).objs[dst]? = some (.handle x) := by
  show (w.moveAssign env dst src).objs[dst]? = _
  have hlt := (List.getElem?_eq_some_iff.mp hdst).1
  unfold World.moveAssign
  rw [hdst, hsrc]
  simp only
  rw [if_neg (by simp [hne, Obj.sameClass])]
  refine List.getElem?_set_self ?_
  rw [List.length_set, length_destroyAt]
  exact hlt

/-- A destroyed object has no reference. -/
theorem next_destroy (hinv : w.RefInv []) (env : Env) (i : Nat) {o : Obj}
    (ho : (w.next (.destroy env i)).objs[i]? = some o) : o.pin = none := by
  have ho : (w.destroyAt env i).objs[i]? = some o := ho
  unfold destroyAt at ho
  split at ho
  · rename_i hnone
    rw [hnone] at ho
    cases ho
  · rename_i a ha
    have hlt := (List.getElem?_eq_some_iff.mp ha).1
    rw [List.getElem?_set_self hlt] at ho
    obtain rfl := Option.some.inj ho
    exact (Obj.empty_reset (hinv.objs a (List.mem_of_getElem? ha)) w.core env).pin

end World

/-! ## Commands -/

/-- What the shell does in a session, with answers that are `good`. -/
def Action.Ordinary (good : Env → Prop) : Action → Prop
  | .call (.allocate env req) => good env ∧ req.ns = kDefaultNamespace
  | .call (.migrate env _ _) => good env
  | .call (.map env _ _) => good env
  | .call (.verify env _) => good env
  | .call (.moveAssign env _ _) => good env
  | .call (.release env _) => good env
  | .call (.destroy env _) => good env
  | .call (.checksum _) => True
  | .call (.construct _) => True
  | .call (.move _) => True
  | .call _ => False
  | _ => True

namespace Cli

/-- The answers of the backends are good. -/
def Answers.All (good : Env → Prop) (ans : Answers) : Prop := ∀ n, good (ans.envs n)

namespace Shell

variable {good : Env → Prop} {plat : RuntimeImpl.Platform} {s : Shell}
  {table : Nat → Option Nat} {temps : List Nat} {env : Env} {x : BufferHandle} {k : CtlId} {lo : Nat}
  {ans : Answers}

/-- The world is the result of what the shell has done so far. -/
structure Ran (good : Env → Prop) (plat : RuntimeImpl.Platform) (s : Shell) : Prop where
  world : s.world = runs World.perform (World.init {} plat) s.trace
  acts : ∀ act ∈ s.trace, act.Ordinary good

/-- The state of a session, in the middle of a command. `table` is the table of the shell, without
the entry that the command works on. -/
structure Session (good : Env → Prop) (plat : RuntimeImpl.Platform) (table : Nat → Option Nat)
    (temps : List Nat) (s : Shell) : Prop where
  tended : s.world.Tended table temps
  ran : s.Ran good plat

theorem Ran.perform (h : s.Ran good plat) {act : Action} (hact : act.Ordinary good) :
    (s.perform act).Ran good plat where
  world := by
    show s.world.perform act = runs World.perform _ (s.trace ++ [act])
    rw [h.world, runs, runs, List.foldl_append]
    rfl
  acts a ha := by
    rcases List.mem_append.mp ha with hold | hnew
    · exact h.acts a hold
    · rw [List.mem_singleton.mp hnew]
      exact hact

theorem Session.print (h : s.Session good plat table temps) (line : Line) :
    (s.print line).Session good plat table temps := ⟨h.tended, h.ran.world, h.ran.acts⟩

/-- An operation on temporaries. -/
theorem Session.work (h : s.Session good plat table temps) {op : Op}
    (hact : (Action.call op).Ordinary good) (hop : ∀ env i target, op ≠ .migrate env i target)
    (htouches : ∀ p, s.world.Touches op p → p ∈ temps ∨ (s.world.next op).objs = s.world.objs) :
    (s.perform (.call op)).Session good plat table temps :=
  ⟨h.tended.work (World.stays _ _ hop) htouches, h.ran.perform hact⟩

theorem Session.release (h : s.Session good plat table temps) (henv : good env) {i : Nat}
    (hi : i ∈ temps) : (s.perform (.call (.release env i))).Session good plat table temps := by
  refine h.work henv (fun _ _ _ heq => by cases heq) fun p hp => Or.inl ?_
  rwa [show p = i from hp]

theorem Session.verified (h : s.Session good plat table temps) (henv : good env) (i : Nat) :
    (s.perform (.call (.verify env i))).Session good plat table temps :=
  h.work henv (fun _ _ _ heq => by cases heq) fun _ _ => Or.inr rfl

theorem Session.checksum (h : s.Session good plat table temps) (i : Nat) :
    (s.perform (.call (.checksum i))).Session good plat table temps :=
  h.work trivial (fun _ _ _ heq => by cases heq) fun _ _ => Or.inr rfl

/-- The end of a scope. -/
theorem Session.leave (henv : good env) (is : List Nat) (h : s.Session good plat table (is ++ temps)) :
    (s.leave env is).Session good plat table temps := by
  induction is generalizing s with
  | nil => exact h
  | cons i is ih =>
      refine ih ⟨?_, h.ran.perform henv⟩
      have hdestroyed : (s.world.next (.destroy env i)).Tended table (i :: is ++ temps) :=
        h.tended.work (World.stays _ _ fun _ _ _ heq => by cases heq) fun p hp => Or.inl (by
          rw [show p = i from hp]
          exact List.mem_cons_self)
      exact hdestroyed.forget fun o ho => World.next_destroy h.tended.refs env i ho

theorem Session.allocate (h : s.Session good plat table temps) (henv : good env)
    (req : AllocationRequest) (hns : req.ns = kDefaultNamespace) :
    (∃ e, (s.world.step (.allocate env req)).1 = .error e ∧
      (s.perform (.call (.allocate env req))).Session good plat table temps) ∨
    ∃ x k, (s.world.step (.allocate env req)).1 = .ok (.object s.world.objs.length) ∧
      (s.perform (.call (.allocate env req))).Session good plat table (s.world.objs.length :: temps) ∧
      (s.world.next (.allocate env req)).objs[s.world.objs.length]? = some (.handle x) ∧
      (s.world.next (.allocate env req)).Current x k := by
  have hstays : s.world.Stays table (.allocate env req) :=
    World.stays _ _ fun _ _ _ heq => by cases heq
  rcases World.hands_allocate h.tended.refs env req with
    ⟨e, he, hobjs⟩ | ⟨x, k, hok, hobjs, hcurrent⟩
  · exact Or.inl ⟨e, he, h.tended.work hstays fun _ _ => Or.inr hobjs, h.ran.perform ⟨henv, hns⟩⟩
  · refine Or.inr ⟨x, k, hok, ⟨h.tended.gain hstays (fun _ hp => Or.inr hp) ?_,
      h.ran.perform ⟨henv, hns⟩⟩, ?_, hcurrent⟩
    · unfold World.next
      rw [hobjs, List.length_append]
      exact Nat.lt_succ_self _
    · unfold World.next
      rw [hobjs]
      exact List.getElem?_concat_length

/-- `BufferHandle h = std::move(r)`. -/
theorem Session.moveTo (h : s.Session good plat table temps) {r : Nat} (hr : r ∈ temps)
    (hx : s.world.objs[r]? = some (.handle x)) (hcurrent : s.world.Current x k) :
    (s.moveTo r).2.Session good plat table (s.world.objs.length :: temps) ∧
      (s.moveTo r).2.world.objs[s.world.objs.length]? = some (.handle x) ∧
      (s.moveTo r).2.world.Current x k := by
  have hobjs := World.next_move hx
  refine ⟨⟨h.tended.gain (World.stays _ _ fun _ _ _ heq => by cases heq) ?_ ?_,
    h.ran.perform trivial⟩, ?_, hcurrent.next h.tended.refs rfl⟩
  · rintro p (rfl | rfl)
    · exact Or.inl hr
    · exact Or.inr rfl
  · rw [hobjs, List.length_append, List.length_set]
    exact Nat.lt_succ_self _
  · show (s.world.next (.move r)).objs[s.world.objs.length]? = _
    have hlength : s.world.objs.length
        = (s.world.objs.set r (Obj.movedFrom (.handle x))).length := List.length_set.symm
    rw [hobjs, hlength]
    exact List.getElem?_concat_length

/-- The assignment of a handle to the slot of a table without the entry. -/
theorem tended_assign (env : Env) {w : World} {table : Nat → Option Nat} {p h : Nat} {y : BufferHandle}
    (ht : w.Tended table (p :: temps)) (hp : p ∉ temps) (hh : h ∈ temps) (hlo : table lo = none)
    (hy : w.objs[p]? = some (.handle y)) (hx : w.objs[h]? = some (.handle x))
    (hcurrent : w.Current x k) (hid : x.id.lo = lo) :
    (w.next (.moveAssign env p h)).Tended (Function.update table lo (some p)) temps := by
  have hne : p ≠ h := by
    rintro rfl
    exact hp hh
  have hmoved : (w.next (.moveAssign env p h)).Tended table (p :: temps) :=
    ht.work (World.stays _ _ fun _ _ _ heq => by cases heq) fun q hq => by
      rcases hq with rfl | rfl
      · exact Or.inl List.mem_cons_self
      · exact Or.inl (List.mem_cons_of_mem p hh)
  exact hmoved.file hp hlo (World.next_moveAssign hy hx hne) (hcurrent.next ht.refs rfl) hid

/-- `handles[idlo] = std::move(h)`, where the command works on the entry. -/
theorem Session.reassign {i p : Nat} {temps' : List Nat} (hlo : s.handles.find? lo = some p)
    (h : s.Session good plat (Function.update s.handles.find? lo none) temps')
    (hmem : ∀ q, q ∈ p :: temps ↔ q ∈ temps') (henv : good env) (hp : p ∉ temps) (hi : i ∈ temps)
    {y : BufferHandle}
    (hy : s.world.objs[p]? = some (.handle y)) (hx : s.world.objs[i]? = some (.handle x))
    (hcurrent : s.world.Current x k) (hid : x.id.lo = lo) :
    (s.assign env lo i).Session good plat (s.assign env lo i).handles.find? temps := by
  unfold Shell.assign
  rw [hlo]
  have hassigned := tended_assign env (h.tended.congr hmem) hp hi (Function.update_self _ _ _) hy hx
    hcurrent hid
  rw [Function.update_idem, ← hlo, Function.update_eq_self] at hassigned
  exact ⟨hassigned, h.ran.perform henv⟩

/-- `handles[idlo] = std::move(h)`. -/
theorem Session.assign (h : s.Session good plat s.handles.find? temps) (henv : good env) {i : Nat}
    (hi : i ∈ temps) (hx : s.world.objs[i]? = some (.handle x)) (hcurrent : s.world.Current x k)
    (hid : x.id.lo = lo) :
    (s.assign env lo i).Session good plat (s.assign env lo i).handles.find? temps := by
  cases hlo : s.handles.find? lo with
  | some p =>
      -- the old entry is taken out, and comes back with the new handle
      obtain ⟨y, j, hy, -, -⟩ := h.tended.entries lo p hlo
      exact Session.reassign hlo ⟨h.tended.unfile hlo, h.ran⟩ (fun _ => Iff.rfl) henv
        (fun hp => h.tended.apart p hp lo hlo) hi hy hx hcurrent hid
  | none =>
      unfold Shell.assign
      rw [hlo]
      have hgain : (s.world.next (.construct (.handle {}))).Tended s.handles.find?
          (s.world.objs.length :: temps) := by
        refine h.tended.gain (World.stays _ _ fun _ _ _ heq => by cases heq) (fun _ => Or.inr) ?_
        show _ < (s.world.objs ++ [_]).length
        rw [List.length_append]
        exact Nat.lt_succ_self _
      have hfresh : s.world.objs.length ∉ temps := fun hp => (h.tended.bound _ hp).false
      have hslot : (s.world.next (.construct (.handle {}))).objs[s.world.objs.length]?
          = some (.handle {}) := List.getElem?_concat_length
      have hold : (s.world.next (.construct (.handle {}))).objs[i]? = some (.handle x) := by
        rw [← hx]
        exact World.getElem?_next fun htouch => hfresh (htouch ▸ hi)
      have hassigned := tended_assign env hgain hfresh hi hlo hslot hold
        (hcurrent.next h.tended.refs rfl) hid
      refine ⟨?_, ?_⟩
      · show (World.next _ _).Tended (s.handles.insert lo s.world.objs.length).find? temps
        rw [AssocMap.find?_insert_eq_update]
        exact hassigned
      · have hconstructed : (s.perform (.call (.construct (.handle {})))).Ran good plat :=
          h.ran.perform trivial
        have hfiled : Ran good plat { s.perform (.call (.construct (.handle {}))) with
            handles := s.handles.insert lo s.world.objs.length } :=
          ⟨hconstructed.world, hconstructed.acts⟩
        exact hfiled.perform (show Action.Ordinary good (.call (.moveAssign env _ i)) from henv)

/-- What a command does to a session. -/
def Kept (good : Env → Prop) (plat : RuntimeImpl.Platform) (s : Shell) : Prop :=
  s.Session good plat s.handles.find? []

theorem Kept.print (h : s.Kept good plat) (line : Line) : (s.print line).Kept good plat :=
  Session.print h line

theorem leave_handles (s : Shell) (env : Env) (is : List Nat) :
    (s.leave env is).handles = s.handles := by
  induction is generalizing s with
  | nil => rfl
  | cons i is ih => exact ih _

/-- The end of a command. -/
theorem Session.close {is : List Nat} (h : s.Session good plat s.handles.find? is)
    (henv : good env) : (s.leave env is).Kept good plat := by
  unfold Kept
  rw [leave_handles]
  exact Session.leave henv is (by rwa [List.append_nil])

theorem Kept.alloc (h : s.Kept good plat) (hans : ans.All good) (toks : List String) :
    (s.alloc toks ans).Kept good plat := by
  unfold Shell.alloc
  cases toks[1]? with
  | none => exact h.print _
  | some size =>
      simp only [Shell.call]
      rcases Session.allocate h (hans 0) (allocRequest toks size ans.devices) rfl with
        ⟨e, he, hs⟩ | ⟨x, k, hok, hs, hx, hcurrent⟩
      · rw [he]
        exact hs.print _
      · rw [hok]
        obtain ⟨hmoved, hget, hcurrent⟩ := hs.moveTo List.mem_cons_self hx hcurrent
        have hassigned := hmoved.assign (hans 1) List.mem_cons_self hget hcurrent
          (congrArg (fun y => y.id.lo) (World.handle_eq hget).symm)
        exact Session.close (hassigned.print _) (hans 2)

/-- A command that looks its entry up. -/
theorem Kept.onHandle (h : s.Kept good plat) {f : Nat → Nat → Shell}
    (hf : ∀ lo p, s.handles.find? lo = some p → (f lo p).Kept good plat) (toks : List String)
    (usage : String) : (s.onHandle toks usage f).Kept good plat := by
  unfold Shell.onHandle
  cases toks[1]? with
  | none => exact h.print _
  | some tok =>
      simp only
      cases hlo : s.handles.find? (numberOf tok).toNat with
      | none => exact h.print _
      | some p => exact hf _ p hlo

theorem Kept.free (h : s.Kept good plat) (hans : ans.All good) (toks : List String) :
    (s.free toks ans).Kept good plat := by
  refine h.onHandle (fun lo p hlo => ?_) toks _
  have hunfiled : s.Session good plat (Function.update s.handles.find? lo none) [p] :=
    ⟨h.tended.unfile hlo, h.ran⟩
  have hdone := (hunfiled.release (hans 0) List.mem_cons_self).leave (hans 1) [p]
  refine ⟨?_, hdone.ran.world, hdone.ran.acts⟩
  show World.Tended _ (s.handles.erase lo).find? []
  rw [AssocMap.find?_erase_eq_update]
  exact hdone.tended

theorem Kept.inspect (h : s.Kept good plat) (toks : List String) :
    (s.inspect toks).Kept good plat := by
  refine h.onHandle (fun lo p hlo => ?_) toks _
  exact h.print _

theorem Kept.verify (h : s.Kept good plat) (hans : ans.All good) (toks : List String) :
    (s.verify toks ans).Kept good plat := by
  refine h.onHandle (fun lo p hlo => ?_) toks _
  have hverified := Session.verified h (hans 0) p
  simp only [Shell.call]
  cases (s.world.step (.verify (ans.envs 0) p)).1 with
  | error e => exact hverified.print _
  | ok reply => exact hverified.print _

/-- A migration moves no buffer of another entry. -/
theorem stays_migrate {w : World} {temps : List Nat} (h : w.Tended table temps) {p : Nat}
    (hlo : table lo = some p) (env : Env) (target : MemoryDomain) :
    w.Stays (Function.update table lo none) (.migrate env p target) := by
  intro lo' q y j hq hy hcurrent hid
  obtain ⟨x, k, hx, hx', hid'⟩ := h.entries lo p hlo
  have hne : lo' ≠ lo := by
    rintro rfl
    rw [Function.update_self] at hq
    cases hq
  refine Bool.eq_false_iff.mpr fun hmoves => hne ?_
  have hctl := (BufferHandle.validateAlive_ok_iff.mp (World.moves_ok hmoves).1).ctl
  rw [World.handle_eq hx, hx'.ctl] at hctl
  cases hctl
  rw [← hid, ← hid', hcurrent.id, hx'.id]

/-- The migration of the buffer of an entry: it fails, or there is another handle to the buffer and
the entry is out of date. -/
theorem Kept.migration (h : s.Kept good plat) {p : Nat} (hlo : s.handles.find? lo = some p)
    (henv : good env) (target : MemoryDomain) :
    (∃ e, (s.world.step (.migrate env p target)).1 = .error e ∧
      (s.perform (.call (.migrate env p target))).Session good plat s.handles.find? []) ∨
    ∃ x k, (s.world.step (.migrate env p target)).1 = .ok (.object s.world.objs.length) ∧
      (s.perform (.call (.migrate env p target))).Session good plat
        (Function.update s.handles.find? lo none) [s.world.objs.length, p] ∧
      (s.world.next (.migrate env p target)).objs[s.world.objs.length]? = some (.handle x) ∧
      (s.world.next (.migrate env p target)).Current x k ∧ x.id.lo = lo := by
  obtain ⟨y, j, hy, hcurrent, hid⟩ := h.tended.entries lo p hlo
  rcases World.hands_migrate h.tended.refs env p target with
    ⟨e, he, hobjs⟩ | ⟨x, k, hok, hobjs, hnew, hctl⟩
  · refine Or.inl ⟨e, he, h.tended.work ?_ fun _ _ => Or.inr hobjs, h.ran.perform henv⟩
    -- no buffer is moved if the migration fails
    intro lo' q x k _ _ _ _
    refine Bool.eq_false_iff.mpr fun hmoves => ?_
    have hisOk := (World.moves_ok hmoves).2
    rw [he] at hisOk
    cases hisOk
  · refine Or.inr ⟨x, k, hok, ⟨?_, h.ran.perform henv⟩, ?_, hnew, ?_⟩
    · refine (h.tended.unfile hlo).gain (stays_migrate h.tended hlo _ _) (fun _ hp => Or.inr hp) ?_
      rw [hobjs, List.length_append]
      exact Nat.lt_succ_self _
    · rw [hobjs]
      exact List.getElem?_concat_length
    · -- the new handle has the identity of the old one
      rw [World.handle_eq hy, hcurrent.ctl] at hctl
      cases hctl
      have hsame := (h.tended.refs.ages (.migrate env p target)).same j hcurrent.bound
      rw [hnew.id, hsame.id, ← hcurrent.id, hid]

/-- `BufferHandle h2 = std::move(r); handles[idlo] = std::move(h2)`. -/
theorem Session.replace {r p : Nat} (hlo : s.handles.find? lo = some p)
    (h : s.Session good plat (Function.update s.handles.find? lo none) [r, p]) (hne : p ≠ r)
    {y : BufferHandle} (hy : s.world.objs[p]? = some (.handle y))
    (hx : s.world.objs[r]? = some (.handle x)) (hcurrent : s.world.Current x k)
    (hid : x.id.lo = lo) (henv : good env) :
    ((s.moveTo r).2.assign env lo (s.moveTo r).1).Session good plat
      ((s.moveTo r).2.assign env lo (s.moveTo r).1).handles.find? [(s.moveTo r).1, r] := by
  obtain ⟨hmoved, hget, hcurrent'⟩ := h.moveTo List.mem_cons_self hx hcurrent
  have hlt : p < s.world.objs.length := (List.getElem?_eq_some_iff.mp hy).1
  have hstill : ¬ s.world.Touches (.move r) p := by
    rintro (heq | heq)
    · exact hne heq
    · exact hlt.ne heq
  have hmem : ∀ q, q ∈ [p, s.world.objs.length, r] ↔ q ∈ [s.world.objs.length, r, p] := by
    intro q
    simp only [List.mem_cons, List.not_mem_nil, or_false]
    tauto
  have hlo' : (s.moveTo r).2.handles.find? lo = some p := hlo
  have hp : p ∉ [s.world.objs.length, r] := by simp [hlt.ne, hne]
  exact Session.reassign hlo' hmoved hmem henv hp List.mem_cons_self
    ((World.getElem?_next hstill).trans hy) hget hcurrent' hid

theorem Kept.migrate (h : s.Kept good plat) (hans : ans.All good) (toks : List String) :
    (s.migrate toks ans).Kept good plat := by
  unfold Shell.migrate
  cases toks[2]? with
  | none => exact h.print _
  | some d =>
      refine h.onHandle (fun lo p hlo => ?_) toks _
      simp only [Shell.call]
      rcases h.migration hlo (hans 0) (migrateDomain d) with
        ⟨e, he, hfailed⟩ | ⟨x, k, hok, hs, hx, hcurrent, hid⟩
      · rw [he]
        exact hfailed.print _
      · rw [hok]
        obtain ⟨y, j, hy, -, -⟩ := h.tended.entries lo p hlo
        have hne : p ≠ s.world.objs.length := (List.getElem?_eq_some_iff.mp hy).1.ne
        have hlo' : (s.perform (.call (.migrate (ans.envs 0) p (migrateDomain d)))).handles.find? lo
            = some p := hlo
        have hstill : ¬ s.world.Touches (.migrate (ans.envs 0) p (migrateDomain d)) p := hne
        have hassigned := Session.replace hlo' hs hne ((World.getElem?_next hstill).trans hy) hx
          hcurrent hid (hans 1)
        exact Session.close (hassigned.print _) (hans 2)

theorem Session.load (h : s.Session good plat table temps) (a n : Nat) :
    (s.perform (.load a n)).Session good plat table temps := ⟨h.tended, h.ran.perform trivial⟩

/-- The map of the self-test is one more temporary, if there is one. -/
theorem Session.fill (h : s.Session good plat table temps) (hans : ans.All good) (i : Nat) :
    (s.fill ans i).2.Session good plat table ((s.fill ans i).1 ++ temps) ∧
      (s.fill ans i).2.handles = s.handles := by
  have hstays : s.world.Stays table (.map (ans.envs 1) i .readWrite) :=
    World.stays _ _ fun _ _ _ heq => by cases heq
  unfold Shell.fill
  simp only [Shell.call]
  rcases s.world.gives_map (ans.envs 1) i .readWrite with ⟨e, he, hobjs⟩ | ⟨m, hok, hobjs⟩
  · rw [he]
    exact ⟨⟨h.tended.work hstays fun _ _ => Or.inr hobjs, h.ran.perform (hans 1)⟩, rfl⟩
  · rw [hok]
    have hmapped : (s.perform (.call (.map (ans.envs 1) i .readWrite))).Session good plat table
        (s.world.objs.length :: temps) := by
      refine ⟨h.tended.gain hstays (fun _ => Or.inr) ?_, h.ran.perform (hans 1)⟩
      rw [hobjs, List.length_append]
      exact Nat.lt_succ_self _
    have hstored : ∀ a, ((s.perform (.call (.map (ans.envs 1) i .readWrite))).perform
        (.store a selftestBytes)).Session good plat table (s.world.objs.length :: temps) :=
      fun a => ⟨hmapped.tended.store a _, hmapped.ran.perform trivial⟩
    exact ⟨(hstored _).release (hans 2) List.mem_cons_self, rfl⟩

theorem Session.check (h : s.Session good plat table temps) (hans : ans.All good) {i : Nat}
    (hi : i ∈ temps) : (s.check ans i).Session good plat table temps :=
  (((h.checksum i).verified (hans 3) i).release (hans 4) hi).print _

/-- The self-test, from the map on. -/
theorem Session.test (h : s.Session good plat s.handles.find? temps) (hans : ans.All good) {i : Nat}
    (hi : i ∈ temps) : (((s.fill ans i).2.check ans i).leave (ans.envs 5)
      ((s.fill ans i).1 ++ temps)).Kept good plat := by
  obtain ⟨hfilled, hhandles⟩ := h.fill hans i
  have hchecked := hfilled.check hans (List.mem_append_right _ hi)
  have htable : ((s.fill ans i).2.check ans i).handles = s.handles := hhandles
  rw [← htable] at hchecked
  exact hchecked.close (hans 5)

theorem Kept.selftest (h : s.Kept good plat) (hans : ans.All good) :
    (s.selftest ans).Kept good plat := by
  unfold Shell.selftest
  simp only [Shell.call]
  rcases Session.allocate h (hans 0) (unpooledRequest 1048576) rfl with
    ⟨e, he, hs⟩ | ⟨x, k, hok, hs, hx, hcurrent⟩
  · rw [he]
    exact hs.print _
  · rw [hok]
    obtain ⟨hmoved, -, -⟩ := hs.moveTo List.mem_cons_self hx hcurrent
    exact Session.test hmoved hans List.mem_cons_self

theorem Kept.benchmarkLoop (hans : ans.All good) (n : Nat) (h : s.Kept good plat) :
    (Shell.benchmarkLoop ans n s).Kept good plat := by
  induction n generalizing s with
  | zero => exact h
  | succ n ih =>
      unfold Shell.benchmarkLoop
      simp only [Shell.call]
      rcases Session.allocate h (hans (2 * n)) (unpooledRequest 4096) rfl with
        ⟨e, he, hs⟩ | ⟨x, k, hok, hs, hx, hcurrent⟩
      · rw [he]
        exact hs
      · rw [hok]
        obtain ⟨hmoved, hget, hcurrent'⟩ := hs.moveTo List.mem_cons_self hx hcurrent
        have hctl : ((Shell.moveTo _ s.world.objs.length).2.world.handle
            (Shell.moveTo _ s.world.objs.length).1).ctl = some k :=
          (congrArg BufferHandle.ctl (World.handle_eq hget)).trans hcurrent'.ctl
        simp only [hctl]
        exact ih (Session.close ((hmoved.load _ 1).release (hans _) List.mem_cons_self) (hans _))

theorem Kept.run (h : s.Kept good plat) (hans : ans.All good) (toks : List String) (v : Verb) :
    (s.run toks ans v).Kept good plat := by
  cases v with
  | help | info | backends | devices | domains | stats | pools => exact h.print _
  | alloc => exact h.alloc hans toks
  | free => exact h.free hans toks
  | inspect => exact h.inspect toks
  | verify => exact h.verify hans toks
  | migrate => exact h.migrate hans toks
  | selftest => exact h.selftest hans
  | benchmark => exact (h.benchmarkLoop hans 200000).print _
  | quit => exact h

theorem Kept.handleCmd (h : s.Kept good plat) (hans : ans.All good) (toks : List String) :
    (s.handleCmd toks ans).2.Kept good plat := by
  unfold Shell.handleCmd
  split
  · exact h
  · split
    · exact h.print _
    · exact h
    · exact h.run hans _ _

theorem Kept.interact (h : s.Kept good plat) {lines : List (String × Answers)}
    (hlines : ∀ e ∈ lines, e.2.All good) : (s.interact lines).Kept good plat := by
  induction lines generalizing s with
  | nil => exact h
  | cons e lines ih =>
      have hcmd := h.handleCmd (hlines e List.mem_cons_self) (split e.1)
      unfold Shell.interact
      rcases hres : s.handleCmd (split e.1) e.2 with ⟨alive, s'⟩
      rw [hres] at hcmd
      cases alive with
      | true => exact ih hcmd fun e' he' => hlines e' (List.mem_cons_of_mem e he')
      | false => exact hcmd.print _

theorem kept_init (good : Env → Prop) (plat : RuntimeImpl.Platform) :
    (Shell.init plat).Kept good plat where
  tended :=
    { refs := World.refInv_init {} plat
      order := (World.inOrder_reach (.start : Reach World.next (fun _ _ => True) _ _)).1
      entries := fun _ _ h => by cases h
      owners := fun _ _ _ h => by cases h
      apart := fun _ h => by cases h
      bound := fun _ h => by cases h }
  ran := ⟨rfl, fun _ h => by cases h⟩

/-- Every state of the program is one of a session. -/
theorem kept_main (plat : RuntimeImpl.Platform) (args : List String) (hans : ans.All good)
    {lines : List (String × Answers)} (hlines : ∀ e ∈ lines, e.2.All good) :
    (Shell.main plat args ans lines).Kept good plat := by
  have hinit := kept_init good plat
  unfold Shell.main
  simp only
  split
  · exact (hinit.print _).interact hlines
  · exact hinit.print _
  · exact hinit.handleCmd hans _

end Shell

end Cli

/-! ## The table is the registry -/

namespace World

variable {w : World} {table : Nat → Option Nat} {x : BufferHandle} {k : CtlId} {p lo : Nat}

/-- A handle that is up to date is valid, as long as it is in use. -/
theorem Current.live (h : w.Current x k) (hinv : w.RefInv []) (horder : w.InOrder)
    (hp : w.objs[p]? = some (.handle x)) : x.validateAlive w.core = .ok k := by
  have halive : w.core.Alive k := hinv.alive (pins_pos hp h.pin)
  exact BufferHandle.validateAlive_eq h.valid h.ctl halive.2 h.gen (horder.alive k halive).known

/-- An object with a reference is an entry of the table. -/
theorem Tended.holder (h : w.Tended table []) {o : Obj} (ho : w.objs[p]? = some o)
    (hpin : o.pin = some k) : table (w.core.control k).record.id.lo = some p ∧
      ∃ x, o = .handle x ∧ w.Current x k := by
  obtain ⟨lo, hlo⟩ := (h.owners p o k ho hpin).resolve_left (List.not_mem_nil)
  obtain ⟨x, j, hx, hcurrent, hid⟩ := h.entries lo p hlo
  obtain rfl : Obj.handle x = o := Option.some.inj (hx.symm.trans ho)
  obtain rfl : j = k := Option.some.inj (hcurrent.pin.symm.trans hpin)
  rw [← hcurrent.id, hid]
  exact ⟨hlo, x, rfl, hcurrent⟩

/-- A buffer has one reference, that of its entry. -/
theorem Tended.pins_le_one (h : w.Tended table []) (k : CtlId) : w.pins k ≤ 1 := by
  refine countP_le_one fun i j a b hi hj ha hb => ?_
  have hholder := (h.holder hi (of_decide_eq_true ha)).1
  rw [(h.holder hj (of_decide_eq_true hb)).1] at hholder
  exact (Option.some.inj hholder).symm

theorem RefInv.pins_pos_of_alive (hinv : w.RefInv []) (hk : w.core.Alive k) : 0 < w.pins k := by
  refine Nat.pos_of_ne_zero fun hzero => ?_
  have hfinalized := (hinv.core.finalized k _ (views_get w.core hk.1)).mpr hzero
  exact Bool.false_ne_true (hk.2.symm.trans hfinalized)

/-- Every buffer has an entry. -/
theorem Tended.entry (h : w.Tended table []) (hk : w.core.Alive k) :
    ∃ p x, table (w.core.control k).record.id.lo = some p ∧ w.objs[p]? = some (.handle x) ∧
      w.Current x k := by
  obtain ⟨o, hmem, ho⟩ := List.countP_pos_iff.mp (h.refs.pins_pos_of_alive hk)
  obtain ⟨p, hp⟩ := List.mem_iff_getElem?.mp hmem
  obtain ⟨hlo, x, rfl, hcurrent⟩ := h.holder hp (of_decide_eq_true ho)
  exact ⟨p, x, hlo, hp, hcurrent⟩

theorem Tended.refs_eq_one (h : w.Tended table []) (hk : w.core.Alive k) :
    (w.core.control k).refs = 1 := by
  have hpins : w.pins k = 1 :=
    Nat.le_antisymm (h.pins_le_one k) (h.refs.pins_pos_of_alive hk)
  have hrefs := h.refs.core.refs k _ (views_get w.core hk.1)
  rw [hpins] at hrefs
  exact hrefs

end World

namespace Cli

/-- The table of the shell is the registry of its runtime: each entry is a valid handle, the only
reference to its buffer, and there is an entry for each buffer. -/
structure Shell.Mirrors (s : Shell) : Prop where
  entries : ∀ lo p, s.handles.find? lo = some p → ∃ k,
    (s.world.handle p).validateAlive s.world.core = .ok k ∧
      (s.world.core.control k).record.id.lo = lo ∧ (s.world.core.control k).refs = 1
  buffers : ∀ k, s.world.core.Alive k → ∃ p,
    s.handles.find? (s.world.core.control k).record.id.lo = some p ∧
      (s.world.handle p).ctl = some k
  count : s.world.core.rt.telemetry.activeBuffers = s.handles.size

theorem Shell.Kept.size {good : Env → Prop} {plat : RuntimeImpl.Platform} {s : Shell}
    (h : s.Kept good plat) : s.world.core.rt.registry.size = s.handles.size := by
  have hinv := h.tended.refs
  refine AssocMap.size_eq_of_keys BufferId.lo ?_ fun lo => ?_
  · intro id hid id' hid' heq
    obtain ⟨k, hk⟩ := (AssocMap.mem_keys_iff _ _).mp hid
    obtain ⟨k', hk'⟩ := (AssocMap.mem_keys_iff _ _).mp hid'
    obtain ⟨halive, rfl⟩ := hinv.registered_block hk
    obtain ⟨halive', rfl⟩ := hinv.registered_block hk'
    rw [hinv.lo_inj halive.1 halive'.1 heq]
  · rw [AssocMap.mem_keys_iff]
    constructor
    · rintro ⟨p, hp⟩
      obtain ⟨x, k, hx, hcurrent, hid⟩ := h.tended.entries lo p hp
      have halive := hinv.alive (World.pins_pos hx hcurrent.pin)
      refine ⟨x.id, (AssocMap.mem_keys_iff _ _).mpr ⟨k, ?_⟩, hid⟩
      exact (hinv.core.registry x.id k).mpr ⟨_, World.views_get _ halive.1, hcurrent.id.symm,
        World.pins_pos hx hcurrent.pin⟩
    · rintro ⟨id, hid, rfl⟩
      obtain ⟨k, hk⟩ := (AssocMap.mem_keys_iff _ _).mp hid
      obtain ⟨halive, rfl⟩ := hinv.registered_block hk
      obtain ⟨p, x, hp, -⟩ := h.tended.entry halive
      exact ⟨p, hp⟩

/-- **The table of the shell is exact.** Whatever is typed and whatever the machine answers, the
table holds one handle for each buffer, under its number, and this handle is valid. -/
theorem shell_mirrors_runtime (plat : RuntimeImpl.Platform) (args : List String) (ans : Answers)
    (lines : List (String × Answers)) : (Shell.main plat args ans lines).Mirrors := by
  have h : (Shell.main plat args ans lines).Kept (fun _ => True) plat :=
    Shell.kept_main plat args (fun _ => trivial) fun _ _ _ => trivial
  refine ⟨fun lo p hlo => ?_, fun k hk => ?_, h.size⟩
  · obtain ⟨x, k, hx, hcurrent, hid⟩ := h.tended.entries lo p hlo
    refine ⟨k, ?_, ?_, h.tended.refs_eq_one (h.tended.refs.alive (World.pins_pos hx hcurrent.pin))⟩
    · rw [World.handle_eq hx]
      exact hcurrent.live h.tended.refs h.tended.order hx
    · rw [← hcurrent.id, hid]
  · obtain ⟨p, x, hp, hx, hcurrent⟩ := h.tended.entry hk
    refine ⟨p, hp, ?_⟩
    rw [World.handle_eq hx]
    exact hcurrent.ctl

end Cli

end UnifiedBuffer
