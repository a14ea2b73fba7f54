import UnifiedBuffer.Runtime.Reports
import UnifiedBuffer.Safety.Generations

set_option autoImplicit false

/-! # The decision log and the rejection counters of a run

What `decisions()` and the rejection counters of `stats()` say after a run, against what happened in
it. `World.events` are the events that an operation logs and `World.rejection` is the code that it
is rejected with; one lemma (`World.RefInv.reports`) says of every operation what it adds to both
records, and the runs follow by counting.

Neither record is what it is documented to be. The log keeps one entry more than its capacity. And
of the operations that are refused because a handle is stale, none is counted: `validate_alive` and
`finalize_by_id` return the error and leave the counters alone. -/

namespace UnifiedBuffer

open Lib RuntimeImpl

/-! ## Calls -/

/-- A call of the program: a public operation, or `device_pointer`, which changes nothing but can be
rejected. -/
inductive ClientCall where
  | op (op : Op)
  | devicePointer (i : Nat)

/-- The state after a call. -/
def World.call (w : World) : ClientCall → World
  | .op op => w.next op
  | .devicePointer _ => w

/-- The backends of the operation do not answer with a counted code. -/
def Op.Plain : Op → Prop
  | .allocate env _ | .importBuffer env _ _ _ | .exportBuffer env _ | .migrate env _ _
  | .map env _ _ | .verify env _ | .copyTo env _ _ _ _ | .copyFrom env _ _ _ _ => env.Plain
  | _ => True

def ClientCall.Plain : ClientCall → Prop
  | .op o => o.Plain
  | .devicePointer _ => True

/-- The handle that the call is made on, which `validate_alive` checks first. -/
def ClientCall.handle : ClientCall → Option Nat
  | .op (.exportBuffer _ i) | .op (.migrate _ i _) | .op (.share i) | .op (.view i _ _ _)
  | .op (.map _ i _) | .op (.acquire _ i) | .op (.verify _ i) | .op (.checksum i)
  | .op (.copyTo _ i _ _ _) | .op (.copyFrom _ i _ _ _) | .devicePointer i => some i
  | _ => none

namespace World

variable (w : World)

/-- The code that a call is rejected with. An import hides the error of its `lookup`. -/
def rejection : ClientCall → Option ErrorCode
  | .op (.importBuffer env desc ns label) => w.core.importRejection env desc ns label
  | .op op => codeOf (w.step op).1
  | .devicePointer i => codeOf ((w.handle i).devicePointer w.core)

/-- `validate_alive` refuses the handle of the call, or `finalize_by_id` finds no such buffer. -/
def refusedStale (call : ClientCall) : Bool :=
  match call.handle, call with
  | some i, _ => !((w.handle i).validateAlive w.core).isOk
  | none, .op (.invalidate _ id) => (w.core.rt.registry.find? id).isNone
  | _, _ => false

/-- The code of the rejection that the call counts. -/
def countedRejection (call : ClientCall) : Option ErrorCode :=
  if w.refusedStale call then none else w.rejection call

/-- The events that an operation logs. -/
def events : Op → List Decision
  | .importBuffer env desc ns label => w.core.importEvents env desc ns label
  | .exportBuffer env i =>
      match (w.handle i).validateAlive w.core with
      | .error _ => []
      | .ok k => Core.exportEvents (w.core.control k).record (w.core.exportDescriptor env k).1
  | .migrate env i target =>
      match (w.handle i).validateAlive w.core with
      | .error _ => []
      | .ok k => migrateEvents (w.core.control k) target (w.core.migrate env k target).1
  | op =>
      -- the release of the last reference is a finalization
      match w.released op with
      | none => []
      | some k =>
          if (w.core.control k).refs = 1 then w.core.rt.finalizeEvents (w.core.control k) else []

end World

/-! ## Stale handles -/

theorem validateAlive_stale {h : BufferHandle} {c : Core} {e : Error}
    (he : h.validateAlive c = .error e) : e.Stale := by
  unfold BufferHandle.validateAlive at he
  split at he
  · simp only at he
    split at he
    · cases he
      exact .inr rfl
    split at he
    · cases he
      exact .inl rfl
    split at he
    · cases he
      exact .inr rfl
    · cases he
  · cases he
    exact .inr rfl

namespace World

variable {w : World} {base : List BufferId}

theorem codeOf_give {α : Type} (wrap : α → Obj) (p : Except Error α × Core) :
    codeOf (w.give wrap p).1 = codeOf p.1 := by
  obtain ⟨res, c⟩ := p
  cases res <;> rfl

theorem codeOf_giveHandle (p : Except Error CtlId × Core) :
    codeOf (w.giveHandle p).1 = codeOf p.1 ∧ (w.giveHandle p).2.core.rt = p.2.rt := by
  obtain ⟨res, c⟩ := p
  cases res <;> exact ⟨rfl, rfl⟩

theorem codeOf_answer {α : Type} (reply : α → Reply) (p : Except Error α × Core) :
    codeOf (w.answer reply p).1 = codeOf p.1 := by
  obtain ⟨res, c⟩ := p
  cases res <;> rfl

/-- A method that is refused as stale. -/
theorem refuses_give {α : Type} {wrap : α → Obj} {p : Except Error α × Core}
    (h : w.core.Refuses p) :
    (w.give wrap p).2 = w ∧ ∃ e : Error, e.Stale ∧ codeOf (w.give wrap p).1 = some e.code := by
  obtain ⟨e, he, rfl⟩ := h
  exact ⟨rfl, e, he, rfl⟩

theorem refuses_answer {α : Type} {reply : α → Reply} {p : Except Error α × Core}
    (h : w.core.Refuses p) :
    (w.answer reply p).2 = w ∧
      ∃ e : Error, e.Stale ∧ codeOf (w.answer reply p).1 = some e.code := by
  obtain ⟨e, he, rfl⟩ := h
  exact ⟨rfl, e, he, rfl⟩

/-- The handle of a refused call is dead. -/
theorem dead_of_refused {call : ClientCall} (h : w.refusedStale call = true) {i : Nat}
    (hi : call.handle = some i) : (w.handle i).Dead w := by
  unfold refusedStale at h
  simp only [hi] at h
  cases hres : (w.handle i).validateAlive w.core with
  | ok k =>
      rw [hres] at h
      cases h
  | error e => exact dead_of_error (validateAlive_stale hres) hres

/-- A call on a stale handle, or for a buffer that is gone, is rejected and does nothing. -/
theorem refusedStale_spec {call : ClientCall} (h : w.refusedStale call = true) :
    w.call call = w ∧ ∃ e : Error, e.Stale ∧ w.rejection call = some e.code := by
  have hdead := fun {i : Nat} => w.dead_of_refused h (i := i)
  have hstep : ∀ {op : Op}, (∃ e : Error, e.Stale ∧ w.step op = (.error e, w)) →
      w.next op = w ∧ ∃ e : Error, e.Stale ∧ codeOf (w.step op).1 = some e.code := by
    rintro op ⟨e, he, heq⟩
    exact ⟨congrArg Prod.snd heq, e, he, congrArg (fun p => codeOf p.1) heq⟩
  cases call with
  | devicePointer i =>
      obtain ⟨e, he, hres⟩ := (hdead rfl).devicePointer
      exact ⟨rfl, e, he, congrArg codeOf hres⟩
  | op op =>
      cases op with
      | exportBuffer env i => exact hstep ((hdead rfl).exportBuffer i rfl env)
      | migrate env i target => exact hstep ((hdead rfl).migrate i rfl env target)
      | share i => exact refuses_give (hdead rfl).share
      | view i offset len access => exact refuses_give ((hdead rfl).view offset len access)
      | map env i access => exact refuses_give ((hdead rfl).map env access)
      | acquire kind i =>
          cases kind with
          | read => exact refuses_give (hdead rfl).acquireRead
          | write => exact refuses_give (hdead rfl).acquireWrite
          | exclusive => exact refuses_give (hdead rfl).acquireExclusive
      | verify env i => exact refuses_answer ((hdead rfl).verify env)
      | checksum i => exact refuses_answer (hdead rfl).checksum
      | copyTo env i dst dstOffset len =>
          exact refuses_answer ((hdead rfl).copyTo env dst dstOffset len)
      | copyFrom env i src srcOffset len =>
          exact refuses_answer ((hdead rfl).copyFrom env src srcOffset len)
      | invalidate env id =>
          have hnone : w.core.rt.registry.find? id = none := by
            simpa [refusedStale, ClientCall.handle] using h
          have hres : w.core.finalizeById env id
              = (.error ⟨.staleHandle, "finalize_by_id: not found"⟩, w.core) := by
            unfold Core.finalizeById
            rw [hnone]
          exact refuses_answer ⟨_, .inr rfl, hres⟩
      | _ => simp [refusedStale, ClientCall.handle] at h

end World

/-! ## Methods of a live handle -/

namespace BufferHandle

variable {P : Prop} {h : BufferHandle} {c : Core} {k : CtlId} (hk : h.validateAlive c = .ok k)
  (env : Env)

theorem transfer_reports (dst src : Nat) (len : UInt64) (dstDev srcDev : Bool) :
    Reports env.Plain c.rt (transfer c env dst src len dstDev srcDev).2.rt []
      (codeOf (transfer c env dst src len dstDev srcDev).1) := by
  have hcopy := fun henv => @Os.copyMemory_uncounted c.os env henv dst src len dstDev srcDev
  unfold transfer
  split
  · rename_i e os heq
    rw [heq] at hcopy
    exact (Silent.refl c.rt).reports hcopy
  · exact Silent.reports_none ⟨rfl, rfl⟩

include hk

theorem share_reports : Reports P c.rt (h.share c).2.rt [] (codeOf (h.share c).1) := by
  unfold share
  rw [hk]
  exact (Silent.refl c.rt).reports_none

theorem view_reports (offset len : UInt64) (access : AccessMode) :
    Reports P c.rt (h.view c offset len access).2.rt []
      (codeOf (h.view c offset len access).1) := by
  unfold view
  rw [ensureValid_live hk]
  split
  · rename_i e heq
    split at heq
    · cases heq
      exact c.rt.reports_refused rfl
    · cases heq
  · simp only
    repeat' split
    all_goals first
      | exact c.rt.reports_refused rfl
      | exact (Silent.refl c.rt).reports_none

theorem map_reports (access : AccessMode) :
    Reports env.Plain c.rt (h.map c env access).2.rt [] (codeOf (h.map c env access).1) := by
  unfold map
  rw [ensureValid_live hk]
  split
  · rename_i e heq
    split at heq
    · cases heq
      exact c.rt.reports_refused rfl
    · cases heq
  · rename_i j _
    simp only
    split
    · exact c.rt.reports_refused rfl
    split
    · exact c.rt.reports_refused rfl
    have hmap := fun henv : env.Plain =>
      henv.map (c.control j).record.domain (c.control j).record.backing access
    split
    · rename_i e heq
      rw [heq] at hmap
      exact (Silent.refl c.rt).reports hmap
    · exact Silent.reports_none ⟨rfl, rfl⟩

theorem acquire_reports (kind : LeaseKind) :
    Reports P c.rt (h.acquire kind c).2.rt [] (codeOf (h.acquire kind c).1) := by
  unfold acquire
  rw [hk]
  simp only
  split
  · refine ⟨rfl, fun _ c _ => ?_⟩
    cases c <;> rfl
  · exact (Silent.refl c.rt).reports_none

theorem verify_reports :
    Reports env.Plain c.rt (h.verify c env).2.rt [] (codeOf (h.verify c env).1) := by
  have hstate := (validateAlive_ok_iff.mp hk).state
  have hverify := fun henv : env.Plain => henv.verify (c.control k).record.domain
    (c.control k).record.backing (c.control k).record.committed
  unfold verify
  rw [hk]
  simp only
  split
  · exact Silent.reports ⟨rfl, rfl⟩ fun _ => uncounted_some rfl
  split
  · -- `validate_alive` has made this check
    rename_i hreleased
    exact absurd (.inl hreleased) hstate
  split
  · rename_i e heq
    rw [heq] at hverify
    exact Silent.reports ⟨rfl, rfl⟩ hverify
  split
  · exact Silent.reports ⟨rfl, rfl⟩ fun _ => uncounted_some rfl
  · exact Silent.reports_none ⟨rfl, rfl⟩

theorem checksum_reports : Reports P c.rt (h.checksum c).2.rt [] (codeOf (h.checksum c).1) := by
  unfold checksum
  rw [hk]
  simp only
  split
  · exact c.rt.reports_refused rfl
  split
  · exact c.rt.reports_refused rfl
  · exact Silent.reports_none ⟨rfl, rfl⟩

theorem copyTo_reports (dst : Nat) (dstOffset len : UInt64) :
    Reports env.Plain c.rt (h.copyTo c env dst dstOffset len).2.rt []
      (codeOf (h.copyTo c env dst dstOffset len).1) := by
  unfold copyTo
  rw [ensureValid_live hk, if_neg (by simp)]
  simp only
  repeat' split
  all_goals first
    | exact c.rt.reports_refused rfl
    | exact transfer_reports env _ _ _ _ _

theorem copyFrom_reports (src : Nat) (srcOffset len : UInt64) :
    Reports env.Plain c.rt (h.copyFrom c env src srcOffset len).2.rt []
      (codeOf (h.copyFrom c env src srcOffset len).1) := by
  unfold copyFrom
  rw [ensureValid_live hk]
  split
  · rename_i e heq
    split at heq
    · cases heq
      exact c.rt.reports_refused rfl
    · cases heq
  · simp only
    repeat' split
    all_goals first
      | exact c.rt.reports_refused rfl
      | exact transfer_reports env _ _ _ _ _

end BufferHandle

/-! ## Operations -/

namespace World

variable {w : World} {base : List BufferId}

/-- The log says of a buffer what it was before the last reference let go of it. -/
theorem finalizeEvents_adjusted {c c' : Core} (h : c.Adjusted c') (k : CtlId) :
    c'.rt.finalizeEvents (c'.control k) = c.rt.finalizeEvents (c.control k) := by
  have hbuf := h.blocks k
  have hpool : c'.rt.goesToPool (c'.control k).record = c.rt.goesToPool (c.control k).record := by
    unfold goesToPool returnsToPool
    rw [hbuf.record, h.quiet.poolFull, h.quiet.cfg]
  unfold finalizeEvents
  rw [hbuf.finalized, hpool, hbuf.record]

/-- The release of a reference. -/
theorem RefInv.release_reports {P : Prop} (hinv : w.RefInv base) {op : Op} {env : Env}
    (henv : op.releases = some env) {k : CtlId} (hrel : w.released op = some k) :
    Reports P w.core.rt (w.next op).core.rt
      (if (w.core.control k).refs = 1 then w.core.rt.finalizeEvents (w.core.control k) else [])
      none := by
  obtain ⟨i, o, ho, hpin, hcore⟩ := hinv.released_core henv hrel
  have hk := hinv.alive (w.pins_pos ho hpin)
  obtain ⟨-, -, hrefs⟩ := Effects.letGo_alive o w.core hk.1 hk.2
  have hsilent : Silent w.core.rt (o.letGo w.core k).rt := by
    cases o <;> exact ⟨rfl, rfl⟩
  have hadj := (Core.adjusted_letGo o w.core k).trans (Core.adjusted_modify _ k
    (f := fun ctl => { ctl with refs := ctl.refs - 1 }) fun _ => ⟨rfl, rfl⟩)
  rw [hcore, Obj.releaseCore, hpin]
  simp only
  unfold Core.dropRef
  by_cases hlast : (w.core.control k).refs = 1
  · rw [if_pos (hrefs.trans hlast), if_pos hlast, ← finalizeEvents_adjusted hadj k]
    exact hsilent.before (finalize_reports _ _ env _)
  · rw [if_neg (hrefs.symm ▸ hlast), if_neg hlast]
    exact hsilent.reports_none

section Replies

variable {P : Prop} {α : Type} {rt : RuntimeImpl} {events : List Decision}

theorem Reports.given {wrap : α → Obj} {p : Except Error α × Core}
    (h : Reports P rt p.2.rt events (codeOf p.1)) :
    Reports P rt (w.give wrap p).2.core.rt events (codeOf (w.give wrap p).1) := by
  rw [give_core, codeOf_give]
  exact h

theorem Reports.answered {reply : α → Reply} {p : Except Error α × Core}
    (h : Reports P rt p.2.rt events (codeOf p.1)) :
    Reports P rt (w.answer reply p).2.core.rt events (codeOf (w.answer reply p).1) := by
  rw [codeOf_answer]
  exact h

theorem Reports.handed {p : Except Error CtlId × Core}
    (h : Reports P rt p.2.rt events (codeOf p.1)) :
    Reports P rt (w.giveHandle p).2.core.rt events (codeOf (w.giveHandle p).1) := by
  rw [(codeOf_giveHandle p).1, (codeOf_giveHandle p).2]
  exact h

end Replies

theorem exportBuffer_reports {env : Env} {i : Nat} {k : CtlId}
    (hk : (w.handle i).validateAlive w.core = .ok k) :
    Reports env.Plain w.core.rt (w.exportBuffer env i).2.core.rt (w.events (.exportBuffer env i))
      (codeOf (w.exportBuffer env i).1) := by
  have hevents : w.events (.exportBuffer env i)
      = Core.exportEvents (w.core.control k).record (w.core.exportDescriptor env k).1 := by
    rw [events, hk]
  rw [hevents, World.exportBuffer, hk]
  exact Reports.answered (w.core.exportDescriptor_reports env k)

theorem migrateBuffer_reports {env : Env} {i : Nat} {target : MemoryDomain} {k : CtlId}
    (hk : (w.handle i).validateAlive w.core = .ok k) :
    Reports env.Plain w.core.rt (w.migrate env i target).2.core.rt
      (w.events (.migrate env i target)) (codeOf (w.migrate env i target).1) := by
  have hevents : w.events (.migrate env i target)
      = migrateEvents (w.core.control k) target (w.core.migrate env k target).1 := by
    rw [events, hk]
  have hcore := w.core.migrate_reports env k target
  rw [hevents, World.migrate, hk]
  simp only
  generalize w.core.migrate env k target = out at hcore ⊢
  obtain ⟨res, c⟩ := out
  cases res with
  | error e => exact hcore
  | ok u => exact hcore

/-- An operation that gives up a reference. -/
theorem RefInv.releases_reports (hinv : w.RefInv base) {op : Op} {env : Env}
    (henv : op.releases = some env) :
    Reports op.Plain w.core.rt (w.next op).core.rt (w.events op) none := by
  have hevents : w.events op = match w.released op with
      | none => []
      | some k =>
          if (w.core.control k).refs = 1 then w.core.rt.finalizeEvents (w.core.control k)
          else [] := by
    cases op <;> first | rfl | cases henv
  rw [hevents]
  cases hrel : w.released op with
  | none =>
      rw [hinv.unreleased_core henv hrel]
      exact (Silent.refl _).reports_none
  | some k => exact hinv.release_reports henv hrel

theorem validateAlive_of_live {call : ClientCall} (hlive : w.refusedStale call = false) {i : Nat}
    (hi : call.handle = some i) : ∃ k, (w.handle i).validateAlive w.core = .ok k := by
  unfold refusedStale at hlive
  simp only [hi] at hlive
  cases hres : (w.handle i).validateAlive w.core with
  | ok k => exact ⟨k, rfl⟩
  | error e =>
      rw [hres] at hlive
      cases hlive

/-- Every registered buffer has a reference, so the loop of `shutdown` finalizes none. -/
theorem RefInv.shutdown_reports (hinv : w.RefInv base) (env : Env) :
    Reports True w.core.rt (w.core.shutdown env).rt [] none := by
  rw [hinv.core.shutdown_eq env]
  split
  · exact (Silent.refl _).reports_none
  · have htrim := poolTrim_silent { w.core.rt with closed := true } w.core.os
    exact Silent.reports_none ⟨htrim.dec, htrim.rejections⟩

/-- A registered buffer has references, so `finalize_by_id` finds it busy. -/
theorem RefInv.invalidate_reports (hinv : w.RefInv base) {env : Env} {id : BufferId}
    (hlive : w.refusedStale (.op (.invalidate env id)) = false) :
    Reports True w.core.rt (w.next (.invalidate env id)).core.rt []
      (w.rejection (.op (.invalidate env id))) := by
  have hres := hinv.finalizeById env id
  cases hfind : w.core.rt.registry.find? id with
  | none => simp [refusedStale, ClientCall.handle, hfind] at hlive
  | some k =>
      rw [hfind] at hres
      refine Reports.answered ?_
      rw [hres]
      exact w.core.rt.reports_refused rfl

/-- The operations that reach neither `validate_alive` nor `finalize_by_id` with something stale. -/
theorem RefInv.reports_live (hinv : w.RefInv base) (op : Op)
    (hlive : w.refusedStale (.op op) = false) :
    Reports op.Plain w.core.rt (w.next op).core.rt (w.events op) (w.rejection (.op op)) := by
  have hvalid := fun {i : Nat} => w.validateAlive_of_live hlive (i := i)
  cases op with
  | allocate env req =>
      show Reports env.Plain w.core.rt (w.allocate env req).2.core.rt []
        (codeOf (w.allocate env req).1)
      unfold World.allocate
      split
      · exact w.core.rt.reports_refused rfl
      · exact Reports.handed (w.core.allocate_reports env req)
  | wrapExternal desc => exact Reports.handed (w.core.wrapExternal_reports desc)
  | importBuffer env desc ns label =>
      have hrt := (w.codeOf_giveHandle (w.core.importDescriptor env desc ns label)).2
      exact hrt.symm ▸ w.core.importDescriptor_reports env desc ns label
  | exportBuffer env i =>
      obtain ⟨k, hk⟩ := hvalid rfl
      exact exportBuffer_reports hk
  | migrate env i target =>
      obtain ⟨k, hk⟩ := hvalid rfl
      exact migrateBuffer_reports hk
  | share i =>
      obtain ⟨k, hk⟩ := hvalid rfl
      exact Reports.given (BufferHandle.share_reports hk)
  | view i offset len access =>
      obtain ⟨k, hk⟩ := hvalid rfl
      exact Reports.given (BufferHandle.view_reports hk offset len access)
  | map env i access =>
      obtain ⟨k, hk⟩ := hvalid rfl
      exact Reports.given (BufferHandle.map_reports hk env access)
  | acquire kind i =>
      obtain ⟨k, hk⟩ := hvalid rfl
      exact Reports.given (BufferHandle.acquire_reports hk kind)
  | verify env i =>
      obtain ⟨k, hk⟩ := hvalid rfl
      exact Reports.answered (BufferHandle.verify_reports hk env)
  | checksum i =>
      obtain ⟨k, hk⟩ := hvalid rfl
      exact Reports.answered (BufferHandle.checksum_reports hk)
  | copyTo env i dst dstOffset len =>
      obtain ⟨k, hk⟩ := hvalid rfl
      exact Reports.answered (BufferHandle.copyTo_reports hk env dst dstOffset len)
  | copyFrom env i src srcOffset len =>
      obtain ⟨k, hk⟩ := hvalid rfl
      exact Reports.answered (BufferHandle.copyFrom_reports hk env src srcOffset len)
  | construct o => exact (Silent.refl _).reports_none
  | move src =>
      show Reports True w.core.rt (w.moveFrom src).2.core.rt [] (codeOf (w.moveFrom src).1)
      unfold World.moveFrom
      split <;> exact (Silent.refl _).reports_none
  | moveAssign env dst src => exact hinv.releases_reports rfl
  | release env i => exact hinv.releases_reports rfl
  | destroy env i => exact hinv.releases_reports rfl
  | invalidate env id => exact hinv.invalidate_reports hlive
  | poolTrim => exact (w.core.rt.poolTrim_silent w.core.os).reports_none
  | shutdown env => exact hinv.shutdown_reports env
  | createNamespace nsc => exact Silent.reports_none ⟨rfl, rfl⟩

/-- What is refused logs nothing. -/
theorem events_of_refused {op : Op} (h : w.refusedStale (.op op) = true) : w.events op = [] := by
  unfold refusedStale at h
  cases op with
  | exportBuffer env i | migrate env i target =>
      simp only [ClientCall.handle, Bool.not_eq_true'] at h
      cases hres : (w.handle i).validateAlive w.core with
      | error e => rw [events, hres]
      | ok k =>
          rw [hres] at h
          cases h
  | _ => first | rfl | simp [ClientCall.handle] at h

/-- **One step**: an operation adds to the records the events and the rejection that `events` and
`countedRejection` name. -/
theorem RefInv.reports (hinv : w.RefInv base) (op : Op) :
    Reports op.Plain w.core.rt (w.next op).core.rt (w.events op)
      (w.countedRejection (.op op)) := by
  unfold countedRejection
  cases hstale : w.refusedStale (.op op) with
  | false => exact hinv.reports_live op hstale
  | true =>
      have hsame : w.next op = w := (refusedStale_spec hstale).1
      have hevents := w.events_of_refused hstale
      rw [hsame, hevents]
      exact (Silent.refl _).reports_none

end World

/-! ## The decision log of a run -/

/-- The events that a run logs. -/
def World.history (w : World) (ops : List Op) : List Decision :=
  Lib.history World.next World.events w ops

theorem World.RefInv.dec_runs {w : World} {base : List BufferId} (hinv : w.RefInv base)
    (ops : List Op) :
    (Lib.runs World.next w ops).core.rt.dec
      = (w.history ops).foldl (pushCapped 4096) w.core.rt.dec :=
  foldl_history (fun w => w.core.rt.dec) (pushCapped 4096) (fun _ op h => h.next op)
    (fun _ op h => (h.reports op).dec) hinv ops

theorem foldl_note_dec (rt : RuntimeImpl) (notes : List Decision) :
    (notes.foldl (fun rt e => rt.note e.1 e.2) rt).dec = notes.foldl (pushCapped 4096) rt.dec := by
  induction notes generalizing rt with
  | nil => rfl
  | cons e notes ih => exact ih (rt.note e.1 e.2)

/-- A log that was empty at first. -/
theorem decisions_of_dec {rt : RuntimeImpl} {notes : List Decision}
    (h : rt.dec = notes.foldl (pushCapped 4096) []) :
    rt.decisions = notes.rtake 4097 ∧
      (rt.decisions = notes.rtake 4096 ↔ notes.length ≤ 4096) := by
  have hdec : rt.decisions = notes.rtake 4097 := h.trans (foldl_pushCapped 4096 notes)
  rw [hdec]
  exact ⟨rfl, rtake_succ_eq_iff notes 4096⟩

/-- **The decision log is the end of the event history**, for every sequence of calls of `note` and
for every run: `decisions()` returns the last 4097 events, in order. These are the last 4096 events
exactly if no more than 4096 were logged so far. -/
theorem decisions_are_last_events (cfg : RuntimeConfig) (plat : Platform) :
    (∀ notes : List Decision,
      let rt := notes.foldl (fun rt e => rt.note e.1 e.2) (RuntimeImpl.init cfg plat)
      rt.decisions = notes.rtake 4097 ∧
        (rt.decisions = notes.rtake 4096 ↔ notes.length ≤ 4096)) ∧
    (∀ ops : List Op,
      let start := World.init cfg plat
      let rt := (runs World.next start ops).core.rt
      rt.decisions = (start.history ops).rtake 4097 ∧
        (rt.decisions = (start.history ops).rtake 4096 ↔ (start.history ops).length ≤ 4096)) := by
  constructor
  · intro notes
    exact decisions_of_dec (foldl_note_dec _ notes)
  · intro ops
    exact decisions_of_dec ((World.refInv_init cfg plat).dec_runs ops)

/-! A program that exports the same buffer again and again fills the log. -/

namespace World

/-- The first object is a live handle of a host buffer that may be exported. -/
structure Exporting (w : World) (k : CtlId) : Prop where
  live : (w.handle 0).validateAlive w.core = .ok k
  exportable : (w.core.control k).record.flags.exportable = true
  host : (w.core.control k).record.domain = .host
  enabled : ∃ dom, w.core.rt.domain .host = some dom

/-- An export logs one event and can be repeated. -/
theorem Exporting.step {w : World} {k : CtlId} (h : w.Exporting k) :
    (w.events (.exportBuffer {} 0)).length = 1 ∧ (w.next (.exportBuffer {} 0)).Exporting k := by
  obtain ⟨dom, hdom⟩ := h.enabled
  have hok : ∃ d rt, w.core.exportDescriptor {} k = (.ok d, { w.core with rt := rt }) ∧
      rt.domains = w.core.rt.domains := by
    unfold Core.exportDescriptor
    simp only [h.exportable, h.host, hdom, Core.handleKind, Bool.true_eq_false, if_false]
    exact ⟨_, _, rfl, rfl⟩
  obtain ⟨d, rt, hres, hdomains⟩ := hok
  have hnext : w.next (.exportBuffer {} 0) = { w with core := { w.core with rt := rt } } := by
    show (w.exportBuffer {} 0).2 = _
    rw [World.exportBuffer, h.live]
    simp only
    rw [hres]
    rfl
  constructor
  · rw [events, h.live]
    simp only
    rw [hres]
    rfl
  · rw [hnext]
    exact ⟨h.live, h.exportable, h.host, dom, (congrFun hdomains .host).trans hdom⟩

theorem Exporting.history_length {w : World} {k : CtlId} (h : w.Exporting k) (n : Nat) :
    (w.history (List.replicate n (.exportBuffer {} 0))).length = n := by
  induction n generalizing w with
  | zero => rfl
  | succ n ih =>
      obtain ⟨hone, hnext⟩ := h.step
      have hrest : (Lib.history World.next World.events (w.next (.exportBuffer {} 0))
          (List.replicate n (.exportBuffer {} 0))).length = n := ih hnext
      rw [List.replicate_succ, World.history, Lib.history, List.length_append, hone, hrest,
        Nat.add_comm]

end World

/-- A page is allocated and exported `n` times. -/
def exportedPage (n : Nat) : List Op :=
  .allocate (.findsAt 4096) { size := 4096, flags := { exportable := true } } ::
    List.replicate n (.exportBuffer {} 0)

theorem history_exportedPage (n : Nat) :
    ((World.init {} {}).history (exportedPage n)).length = n := by
  have hfirst : World.Exporting ((World.init {} {}).next
      (.allocate (.findsAt 4096) { size := 4096, flags := { exportable := true } })) 0 :=
    ⟨by decide, by decide, by decide, ⟨_, rfl⟩⟩
  exact hfirst.history_length n

/-- After 4097 exports all of them are in the log. -/
theorem log_of_4097_exports :
    ((World.init {} {}).history (exportedPage 4097)).length = 4097 ∧
      (runs World.next (World.init {} {}) (exportedPage 4097)).core.rt.decisions
        ≠ ((World.init {} {}).history (exportedPage 4097)).rtake 4096 := by
  have hlen := history_exportedPage 4097
  have hlog := decisions_of_dec ((World.refInv_init {} {}).dec_runs (exportedPage 4097))
  refine ⟨hlen, fun heq => ?_⟩
  have hle := hlog.2.mp heq
  omega

/-! ## The rejection counters of a run -/

namespace World

variable {w : World} {base : List BufferId}

theorem RefInv.call (hinv : w.RefInv base) (call : ClientCall) : (w.call call).RefInv base := by
  cases call with
  | op op => exact hinv.next op
  | devicePointer i => exact hinv

/-- A live handle is refused a device pointer for a reason that is not counted. -/
theorem devicePointer_uncounted (i : Nat) :
    Uncounted (w.countedRejection (.devicePointer i)) := by
  unfold countedRejection
  cases hstale : w.refusedStale (.devicePointer i) with
  | true => exact uncounted_none
  | false =>
      show Uncounted (codeOf ((w.handle i).devicePointer w.core))
      obtain ⟨k, hk⟩ := w.validateAlive_of_live hstale rfl
      unfold BufferHandle.devicePointer
      rw [hk]
      simp only
      split
      · exact uncounted_some rfl
      · exact uncounted_none

theorem RefInv.call_rejections (hinv : w.RefInv base) {call : ClientCall} (hplain : call.Plain)
    {code : ErrorCode} (hcode : code.counted = true) :
    (w.call call).core.rt.telem.rejections code
      = w.core.rt.telem.rejections code + if w.countedRejection call = some code then 1 else 0 := by
  cases call with
  | op op => exact (hinv.reports op).rejections hplain code hcode
  | devicePointer i =>
      have hne : w.countedRejection (.devicePointer i) ≠ some code := by
        intro heq
        rw [devicePointer_uncounted i code heq] at hcode
        cases hcode
      rw [if_neg hne]
      rfl

/-- A counter holds the number of the calls that were rejected so and not refused as stale. -/
theorem RefInv.rejections_runs (hinv : w.RefInv base) {calls : List ClientCall}
    (hplain : ∀ call ∈ calls, call.Plain) {code : ErrorCode} (hcode : code.counted = true) :
    (Lib.runs World.call w calls).core.rt.telem.rejections code
      = w.core.rt.telem.rejections code
        + tally World.call (fun w call => w.countedRejection call = some code) w calls :=
  tally_counter (fun w => w.core.rt.telem.rejections code) (fun _ call h => h.call call)
    (fun _ _ h hp => h.call_rejections hp hcode) hinv
    (Along.of_mem (fun call hc _ => hplain call hc) w)

theorem rejection_of_counted {call : ClientCall} {code : ErrorCode}
    (h : w.countedRejection call = some code) : w.rejection call = some code := by
  unfold countedRejection at h
  split at h
  · cases h
  · exact h

theorem countedRejection_iff {call : ClientCall} {code : ErrorCode} :
    (w.rejection call = some code → w.countedRejection call = some code) ↔
      (w.rejection call = some code → w.refusedStale call = false) := by
  unfold countedRejection
  cases w.refusedStale call <;> simp

/-- Lease conflicts and exceeded quotas are not found by `validate_alive`. -/
theorem refusedStale_of_rejection {call : ClientCall} {code : ErrorCode}
    (h : w.rejection call = some code) (hcode : code ≠ .staleHandle ∧ code ≠ .staleGeneration) :
    w.refusedStale call = false := by
  cases hstale : w.refusedStale call with
  | false => rfl
  | true =>
      obtain ⟨e, he, heq⟩ := (refusedStale_spec hstale).2
      obtain rfl : code = e.code := Option.some.inj (h.symm.trans heq)
      rcases he with he | he
      · exact absurd he hcode.2
      · exact absurd he hcode.1

end World

/-- **The rejection counters of a run.** `lease_conflicts` and `quota_rejections` are the numbers of
calls rejected for these reasons. `stale_handle_rejections` and `stale_generation_rejections` are
the numbers exactly if none of the calls rejected for that reason was refused by `validate_alive` or
`finalize_by_id`; only the lookup of a local import counts. -/
theorem rejections_exact_iff {cfg : RuntimeConfig} {plat : Platform} {calls : List ClientCall}
    (hplain : ∀ call ∈ calls, call.Plain) :
    let start := World.init cfg plat
    let stats := (runs World.call start calls).core.rt.telemetry
    let rejected := fun code =>
      tally World.call (fun w call => w.rejection call = some code) start calls
    stats.leaseConflicts = rejected .leaseConflict ∧
    stats.quotaRejections = rejected .quotaExceeded ∧
    (stats.staleHandleRejections = rejected .staleHandle ↔
      Along World.call (fun w call => w.rejection call = some .staleHandle →
        w.refusedStale call = false) start calls) ∧
    (stats.staleGenerationRejections = rejected .staleGeneration ↔
      Along World.call (fun w call => w.rejection call = some .staleGeneration →
        w.refusedStale call = false) start calls) := by
  intro start stats rejected
  have hinv := World.refInv_init cfg plat
  have hcounter : ∀ code : ErrorCode, code.counted = true →
      (stats.rejections code = rejected code ↔
        Along World.call (fun w call => w.rejection call = some code →
          w.refusedStale call = false) start calls) := by
    intro code hcode
    have hruns : stats.rejections code = start.core.rt.telem.rejections code
        + tally World.call (fun w call => w.countedRejection call = some code) start calls :=
      hinv.rejections_runs hplain hcode
    have hzero : start.core.rt.telem.rejections code = 0 := by cases code <;> rfl
    rw [hruns, hzero, Nat.zero_add,
      tally_eq_iff (fun _ _ => World.rejection_of_counted) start calls]
    exact Along.congr (fun _ _ => World.countedRejection_iff) start calls
  have hexact : ∀ code : ErrorCode, code.counted = true →
      code ≠ .staleHandle ∧ code ≠ .staleGeneration → stats.rejections code = rejected code :=
    fun code hcode hne => (hcounter code hcode).mpr (Along.of_mem
      (fun call _ w (h : w.rejection call = some code) => World.refusedStale_of_rejection h hne)
      start)
  exact ⟨hexact .leaseConflict rfl (by decide), hexact .quotaExceeded rfl (by decide),
    hcounter .staleHandle rfl, hcounter .staleGeneration rfl⟩

/-- Backends that find memory, or refuse it with their own codes. -/
theorem Env.findsAt_plain (address : Nat) : (Env.findsAt address).Plain := by
  constructor <;> intros <;> first | exact uncounted_none | exact uncounted_some rfl

theorem Env.plain_default : ({} : Env).Plain := by
  constructor <;> intros <;> first | exact uncounted_none | exact uncounted_some rfl

/-- A local descriptor of an unknown buffer is imported. -/
def unknownImport : ClientCall :=
  .op (.importBuffer {} { handleKind := "local", size := 4096, ns := kDefaultNamespace }
    kDefaultNamespace "")

/-- A page is allocated and released, and its handle is used once more; then an unknown buffer is
imported. -/
def releasedPage : List ClientCall :=
  [.op (.allocate (.findsAt 4096) { size := 4096 }), .op (.release {} 0), .op (.verify {} 0),
    unknownImport]

theorem releasedPage_plain : ∀ call ∈ releasedPage, call.Plain := by
  simp only [releasedPage, List.mem_cons, List.not_mem_nil, or_false, forall_eq_or_imp, forall_eq]
  exact ⟨Env.findsAt_plain 4096, trivial, Env.plain_default, Env.plain_default⟩

/-- The theorem at work: in this run the lease conflicts are right, and the stale handles are
not. -/
theorem rejections_exact_iff_releasedPage :
    (∀ call ∈ releasedPage, call.Plain) ∧
    (runs World.call (World.init {} {}) releasedPage).core.rt.telemetry.leaseConflicts
      = tally World.call (fun w call => w.rejection call = some .leaseConflict) (World.init {} {})
        releasedPage ∧
    (runs World.call (World.init {} {}) releasedPage).core.rt.telemetry.staleHandleRejections
      ≠ tally World.call (fun w call => w.rejection call = some .staleHandle) (World.init {} {})
        releasedPage := by
  have h := @rejections_exact_iff {} {} _ releasedPage_plain
  exact ⟨releasedPage_plain, h.1, fun heq => absurd (h.2.2.1.mp heq) (by decide)⟩

/-- Two operations are rejected with `stale_handle`, and one of them is counted. -/
theorem stale_verify_not_counted :
    tally World.call (fun w call => w.rejection call = some .staleHandle) (World.init {} {})
        releasedPage = 2 ∧
      (runs World.call (World.init {} {}) releasedPage).core.rt.telemetry.staleHandleRejections
        = 1 := by
  decide

end UnifiedBuffer
