import UnifiedBuffer.Cli.Session
import UnifiedBuffer.Safety.Peaks
import UnifiedBuffer.Safety.Pointers
import UnifiedBuffer.Safety.Zeroing

set_option autoImplicit false

/-! # The self-test

The `selftest` command allocates a buffer, fills it, takes its checksum, verifies it and releases
it, and then expects the runtime to be empty: no buffer, and no byte of host memory. The buffer does
not come from the pool and does not go there, so the command leaves everything as it was, and what
it finds at the end is what was there before. -/

namespace UnifiedBuffer

open Lib

/-! ## Deals that leave the pool alone -/

/-- The deal leaves the slots of the pool and the backends as they are. -/
def Deal.Aside : Deal → Prop
  | .take _ _ => False
  | .lose _ _ => False
  | .shelve _ => False
  | .trim _ => False
  | .close => False
  | .requota _ => False
  | _ => True

theorem Stock.runs_aside {s : Stock} {deals : List Deal} (h : ∀ deal ∈ deals, deal.Aside) :
    (runs Stock.apply s deals).idle = s.idle ∧ (runs Stock.apply s deals).house = s.house := by
  induction deals generalizing s with
  | nil => exact ⟨rfl, rfl⟩
  | cons deal deals ih =>
      have hfirst : (s.apply deal).idle = s.idle ∧ (s.apply deal).house = s.house := by
        have hdeal := h deal List.mem_cons_self
        cases deal with
        | take | lose | shelve | trim | close | requota => exact absurd hdeal id
        | _ => exact ⟨rfl, rfl⟩
      obtain ⟨hidle, hhouse⟩ := ih (fun x hx => h x (List.mem_cons_of_mem deal hx))
      exact ⟨hidle.trans hfirst.1, hhouse.trans hfirst.2⟩

/-- A request that does not want to be pooled. -/
theorem RuntimeImpl.allocateDeals_aside (rt : RuntimeImpl) (os : Os) (env : Env)
    {req : AllocationRequest} (hpooled : req.flags.pooled = false) :
    ∀ deal ∈ rt.allocateDeals os env req, deal.Aside := by
  have hoffer : ∀ alignment classSize, rt.poolOffer req alignment classSize = none := by
    intro alignment classSize
    unfold poolOffer
    rw [hpooled]
    rfl
  unfold allocateDeals
  split
  · simp
  simp only [hoffer]
  split
  · simp [Deal.Aside]
  split
  · simp [Deal.Aside]
  split <;> simp [Deal.Aside]

/-- A buffer that is not pooled goes back to its backend. -/
theorem Core.dropDeals_aside {c : Core} {k : CtlId}
    (hpooled : (c.control k).record.flags.pooled = false) :
    ∀ deal ∈ c.dropDeals k, deal.Aside := by
  have hnot : ∀ h, (c.control k).held = some h → h.poolable = false := by
    intro h hh
    unfold Control.held at hh
    split at hh
    · cases hh
    · cases hh
      show ((c.control k).record.poolEligible && (c.control k).record.flags.pooled) = false
      rw [hpooled, Bool.and_false]
  unfold dropDeals
  split
  · unfold RuntimeImpl.finalizeDeals
    split
    · simp
    rename_i h hh
    rw [hnot h hh]
    split
    · simp [Deal.Aside]
    · simp [Deal.Aside]
  · simp

namespace World

variable {w w₀ : World} {op : Op} {k : CtlId} {x : BufferHandle} {i : Nat}

/-! ## The buffer of the test -/

/-- The record of a buffer of host memory that stays out of the pool and was never migrated. -/
structure Probed (r : Record) : Prop where
  host : r.domain = .host
  unpooled : r.flags.pooled = false
  based : r.backing.base ≠ 0
  unhashed : r.metaCrc = 0
  within : r.committed ≤ r.backing.committed

/-- The buffer of the test is `k`. Pool and backends are as they were in `w₀`. -/
structure Probe (w₀ w : World) (k : CtlId) : Prop where
  alive : w.core.Alive k
  record : Probed (w.core.control k).record
  idle : w.core.stock.idle = w₀.core.stock.idle
  house : w.core.stock.house = w₀.core.stock.house
  served : w₀.core.stock.house.backends .host = true

/-- The record of a buffer that is neither new nor migrated. -/
theorem same_next (hinv : w.RefInv []) (hop : ∀ env i target, op ≠ .migrate env i target)
    (hk : k < w.core.ctls.length) (hnext : (w.next op).core.Alive k) :
    (w.core.control k).record.Same ((w.next op).core.control k).record := by
  cases (fates hinv op).blocks k hnext with
  | kept _ same => exact same
  | moved heq => exact absurd heq (hop _ _ _)
  | fresh _ new | reused _ new | wrapped _ new | opened _ new => exact absurd new hk.ne

theorem Probe.next (h : w₀.Probe w k) (hinv : w.RefInv [])
    (hop : ∀ env i target, op ≠ .migrate env i target) (hdeals : ∀ deal ∈ w.deals op, deal.Aside)
    (hnext : (w.next op).core.Alive k) : w₀.Probe (w.next op) k := by
  have hsame := same_next hinv hop h.alive.1 hnext
  obtain ⟨heq, -⟩ := next_stock hinv op
  obtain ⟨hidle, hhouse⟩ := Stock.runs_aside hdeals
  refine ⟨hnext, ?_, ?_, ?_, h.served⟩
  · rw [hsame]
    exact ⟨h.record.host, h.record.unpooled, h.record.based, h.record.unhashed, h.record.within⟩
  · rw [heq, hidle, h.idle]
  · rw [heq, hhouse, h.house]

/-- The request of the test succeeds. -/
theorem probe_allocate (hinv : w.RefInv []) {env : Env} (henv : env.Reliable)
    {req : AllocationRequest} (hhost : req.domain = .host) (hpooled : req.flags.pooled = false)
    (hnew : (w.next (.allocate env req)).core.Alive w.core.ctls.length) :
    w.Probe (w.next (.allocate env req)) w.core.ctls.length := by
  obtain ⟨heq, -⟩ := next_stock hinv (.allocate env req)
  obtain ⟨hidle, hhouse⟩ :=
    Stock.runs_aside (s := w.core.stock) (w.core.rt.allocateDeals_aside w.core.os env hpooled)
  have hrecord : w.core.rt.house.backends req.domain = true ∧ ∃ alignment a,
      a.present = true ∧ (w.core.rt.backedRecord env req alignment
      (w.core.os.stamp a) false).Same
        ((w.next (.allocate env req)).core.control w.core.ctls.length).record := by
    cases (fates hinv _).blocks _ hnew with
    | kept alive _ => exact absurd alive.1 (Nat.lt_irrefl _)
    | moved hop | wrapped hop | opened hop => cases hop
    | fresh hop _ admission backend _ _ same =>
        cases hop
        exact ⟨Core.admits_backend admission, _, _, henv.memory _ _ _ _ backend, same⟩
    | reused hop _ _ offer =>
        cases hop
        unfold RuntimeImpl.poolOffer at offer
        rw [hpooled] at offer
        cases offer
  obtain ⟨hserved, alignment, a, hpresent, hsame⟩ := hrecord
  rw [hhost] at hserved
  have hbased : a.base ≠ 0 := by
    unfold NativeAllocation.base
    unfold NativeAllocation.present at hpresent
    split
    · assumption
    · simp_all
  refine ⟨hnew, ?_, by rw [heq]; exact hidle, by rw [heq]; exact hhouse, hserved⟩
  rw [hsame]
  exact ⟨hhost, hpooled, hbased, rfl, UInt64.le_refl _⟩

/-- An object that was released has no reference. -/
theorem next_release (hinv : w.RefInv []) (env : Env) (i : Nat) {o : Obj}
    (ho : (w.next (.release env i)).objs[i]? = some o) : o.pin = none := by
  have ho : (w.releaseAt env i).objs[i]? = some o := ho
  unfold releaseAt at ho
  split at ho
  · rename_i hnone
    rw [hnone] at ho
    cases ho
  · rename_i a ha
    have hlt := (List.getElem?_eq_some_iff.mp ha).1
    rw [List.getElem?_set_self hlt] at ho
    obtain rfl := Option.some.inj ho
    exact (Obj.empty_release (hinv.objs a (List.mem_of_getElem? ha)) w.core env).pin

theorem next_move_source (hx : w.objs[i]? = some (.handle x)) {o : Obj}
    (ho : (w.next (.move i)).objs[i]? = some o) : o.pin = none := by
  have hlt := (List.getElem?_eq_some_iff.mp hx).1
  rw [next_move hx, List.getElem?_append_left (by rwa [List.length_set]),
    List.getElem?_set_self hlt] at ho
  cases ho
  exact (Obj.empty_movedFrom _).pin

/-- The checksum of the buffer can be taken. -/
theorem Probe.checksum (h : w₀.Probe w k) (hvalid : (w.handle i).validateAlive w.core = .ok k) :
    ∃ crc, (w.step (.checksum i)).1 = .ok (.checksum crc) := by
  have hdomain : (w.core.control k).record.domain ≠ .device := by
    rw [h.record.host]
    decide
  show ∃ crc, (w.answer .checksum ((w.handle i).checksum w.core)).1 = .ok (.checksum crc)
  unfold BufferHandle.checksum
  rw [hvalid]
  simp only [if_neg hdomain, if_neg h.record.based]
  exact ⟨_, rfl⟩

/-- The buffer passes its verification. -/
theorem Probe.verify (h : w₀.Probe w k) (horder : w.InOrder)
    (hvalid : (w.handle i).validateAlive w.core = .ok k) {env : Env} (henv : env.AcceptsInBounds) :
    (w.step (.verify env i)).1 = .ok .done := by
  have hdomain : (w.core.rt.domain (w.core.control k).record.domain).isSome = true := by
    have hserved := h.served
    rw [← h.house] at hserved
    rw [h.record.host]
    exact hserved
  have hverify := BufferHandle.verify_enabled env hvalid (horder.alive k h.alive).known hdomain
    (henv _ _ _ h.record.within)
  rw [if_neg fun hbad => hbad.1 h.record.unhashed] at hverify
  show ((w.handle i).verify w.core env).1.map _ = _
  rw [hverify]
  rfl

theorem releaseDeals_eq {env : Env} {o : Obj} (ho : w.objs[i]? = some o) (hpin : o.pin = some k) :
    w.deals (.release env i) = w.core.dropDeals k := by
  show w.releaseDeals i = _
  unfold releaseDeals
  rw [ho, Option.bind_some, hpin]

theorem Probe.store (h : w₀.Probe w k) (a : Nat) (data : List UInt8) :
    w₀.Probe (w.perform (.store a data)) k := ⟨h.alive, h.record, h.idle, h.house, h.served⟩

/-- A map is an object of the buffer that it was made for. -/
theorem next_map_pin {env : Env} {access : AccessMode} {m : BufferMap}
    (hvalid : (w.handle i).validateAlive w.core = .ok k)
    (hobjs : (w.next (.map env i access)).objs = w.objs ++ [.map m]) : m.ctl = some k := by
  have hobjs : (w.give .map ((w.handle i).map w.core env access)).2.objs = w.objs ++ [.map m] :=
    hobjs
  rcases hres : (w.handle i).map w.core env access with ⟨res, c⟩
  rw [hres] at hobjs
  cases res with
  | error e =>
      have hlength := congrArg List.length (show w.objs = w.objs ++ [.map m] from hobjs)
      rw [List.length_append] at hlength
      exact absurd hlength (Nat.ne_of_lt (Nat.lt_succ_self _))
  | ok m' =>
      have hsame : m' = m := by
        have hlast := List.append_cancel_left (show w.objs ++ [.map m'] = w.objs ++ [.map m] from hobjs)
        simpa using hlast
      obtain ⟨j, hj, hctl, -⟩ := map_ok (congrArg Prod.fst hres)
      rw [hvalid] at hj
      cases hj
      rw [← hsame]
      exact hctl

end World

namespace Cli

namespace Shell

variable {good : Env → Prop} {plat : RuntimeImpl.Platform} {s s₀ : Shell} {ans : Answers} {i : Nat}
  {k : CtlId} {x : BufferHandle}

/-- In the middle of the self-test: the handle at `i` is that of the buffer of the test. -/
structure Testing (good : Env → Prop) (plat : RuntimeImpl.Platform) (s₀ s : Shell) (i : Nat)
    (x : BufferHandle) (k : CtlId) : Prop where
  session : s.Session good plat s₀.handles.find? [i]
  probe : s₀.world.Probe s.world k
  handle : s.world.objs[i]? = some (.handle x)
  current : s.world.Current x k
  handles : s.handles = s₀.handles
  printed : s.printed = s₀.printed

theorem Testing.valid (h : s₀.Testing good plat s i x k) :
    (s.world.handle i).validateAlive s.world.core = .ok k := by
  rw [World.handle_eq h.handle]
  exact h.current.live h.session.tended.refs h.session.tended.order h.handle

/-- An operation that only looks at the buffer. -/
theorem Testing.look (h : s₀.Testing good plat s i x k) {op : Op}
    (hact : (Action.call op).Ordinary good) (hop : ∀ env i target, op ≠ .migrate env i target)
    (hdeals : s.world.deals op = []) (hobjs : (s.world.next op).objs = s.world.objs) :
    s₀.Testing good plat (s.perform (.call op)) i x k := by
  have hhandle : (s.world.next op).objs[i]? = some (.handle x) := by
    rw [hobjs]
    exact h.handle
  have hinv := h.session.tended.refs
  refine ⟨h.session.work hact hop fun _ _ => Or.inr hobjs, ?_, hhandle,
    h.current.next hinv (Bool.eq_false_iff.mpr fun hmoves => ?_), h.handles, h.printed⟩
  · exact h.probe.next hinv hop (fun deal hmem => by rw [hdeals] at hmem; cases hmem)
      ((hinv.next op).alive (World.pins_pos hhandle h.current.pin))
  · cases op with
    | migrate env i target => exact hop env i target rfl
    | _ => cases hmoves

/-- A map of the buffer is released. -/
theorem Testing.unmap {m : Nat} {y : BufferMap}
    (hs : s.Session good plat s₀.handles.find? [m, i]) (hne : i ≠ m)
    (hm : s.world.objs[m]? = some (.map y)) (hctl : y.ctl = some k)
    (hhandle : s.world.objs[i]? = some (.handle x)) (hcurrent : s.world.Current x k)
    (hprobe : s₀.world.Probe s.world k) (hhandles : s.handles = s₀.handles)
    (hprinted : s.printed = s₀.printed) {env : Env} (henv : good env) :
    s₀.Testing good plat (s.perform (.call (.release env m))) i x k := by
  have hinv := hs.tended.refs
  have hreleased := hs.release henv List.mem_cons_self
  have hstill : ¬ s.world.Touches (.release env m) i := hne
  have hkept := (World.getElem?_next hstill).trans hhandle
  refine ⟨⟨hreleased.tended.forget fun o ho => World.next_release hinv env m ho, hreleased.ran⟩,
    ?_, hkept, hcurrent.next hinv rfl, hhandles, hprinted⟩
  refine hprobe.next hinv (fun _ _ _ heq => by cases heq) ?_
    ((hinv.next _).alive (World.pins_pos hkept hcurrent.pin))
  rw [World.releaseDeals_eq hm hctl]
  exact Core.dropDeals_aside hprobe.record.unpooled

/-- The map of the self-test comes and goes. -/
theorem Testing.fill (h : s₀.Testing good plat s i x k) (hans : ans.All good) :
    s₀.Testing good plat (s.fill ans i).2 i x k := by
  have hinv := h.session.tended.refs
  have hstays : s.world.Stays s₀.handles.find? (.map (ans.envs 1) i .readWrite) :=
    World.stays _ _ fun _ _ _ heq => by cases heq
  unfold Shell.fill
  simp only [Shell.call]
  rcases s.world.gives_map (ans.envs 1) i .readWrite with ⟨e, he, hobjs⟩ | ⟨m, hok, hobjs⟩
  · rw [he]
    exact h.look (hans 1) (fun _ _ _ heq => by cases heq) rfl hobjs
  · rw [hok]
    have hne : i ≠ s.world.objs.length := (List.getElem?_eq_some_iff.mp h.handle).1.ne
    have hmapped : (s.perform (.call (.map (ans.envs 1) i .readWrite))).Session good plat
        s₀.handles.find? [s.world.objs.length, i] := by
      refine ⟨h.session.tended.gain hstays (fun _ => Or.inr) ?_, h.session.ran.perform (hans 1)⟩
      rw [hobjs, List.length_append]
      exact Nat.lt_succ_self _
    have hmap : (s.world.next (.map (ans.envs 1) i .readWrite)).objs[s.world.objs.length]?
        = some (.map m) := by
      rw [hobjs]
      exact List.getElem?_concat_length
    have hhandle : (s.world.next (.map (ans.envs 1) i .readWrite)).objs[i]? = some (.handle x) := by
      rw [hobjs, World.getElem?_append_new _ _ hne]
      exact h.handle
    have hcurrent : (s.world.next (.map (ans.envs 1) i .readWrite)).Current x k :=
      h.current.next hinv rfl
    have hprobe : s₀.world.Probe (s.world.next (.map (ans.envs 1) i .readWrite)) k :=
      h.probe.next hinv (fun _ _ _ heq => by cases heq) (fun _ hmem => by cases hmem)
        ((hinv.next _).alive (World.pins_pos hhandle h.current.pin))
    -- the bytes are written, and the map is released
    have hstored : ∀ a, ((s.perform (.call (.map (ans.envs 1) i .readWrite))).perform
        (.store a selftestBytes)).Session good plat s₀.handles.find? [s.world.objs.length, i] :=
      fun a => ⟨hmapped.tended.store a _, hmapped.ran.perform trivial⟩
    exact Testing.unmap (hstored _) hne hmap (World.next_map_pin h.valid hobjs) hhandle
      ⟨hcurrent.rt, hcurrent.valid, hcurrent.ctl, hcurrent.bound, hcurrent.id, hcurrent.gen⟩
      (hprobe.store _ _) h.handles h.printed (hans 2)

/-- The self-test begins: the request has succeeded. -/
theorem Kept.testing (h : s.Kept good plat) {env : Env} (henv : good env) (hmemory : env.Reliable)
    (size : UInt64)
    (hok : (s.world.step (.allocate env (unpooledRequest size))).1.isOk = true) :
    (s.world.step (.allocate env (unpooledRequest size))).1 = .ok (.object s.world.objs.length) ∧
      ∃ x k, s.Testing good plat
        ((s.perform (.call (.allocate env (unpooledRequest size)))).moveTo s.world.objs.length).2
        (s.world.next (.allocate env (unpooledRequest size))).objs.length x k := by
  have hinv := h.tended.refs
  rcases Session.allocate h henv (unpooledRequest size) rfl with
    ⟨e, he, -⟩ | ⟨x, k, hreply, hs, hx, hcurrent⟩
  · rw [he] at hok
    cases hok
  · obtain ⟨hctl, halive⟩ := World.allocate_new hinv hok
    rw [World.handle_eq hx, hcurrent.ctl] at hctl
    cases hctl
    have hprobe := World.probe_allocate hinv hmemory rfl rfl halive
    obtain ⟨hmoved, hget, hcurrent'⟩ := hs.moveTo List.mem_cons_self hx hcurrent
    refine ⟨hreply, x, s.world.core.ctls.length, ⟨?_, hmoved.ran⟩, ?_, hget, hcurrent', rfl, rfl⟩
    · -- nothing is left in the object that the request returned
      exact hmoved.tended.swap.forget fun o ho => World.next_move_source hx ho
    · exact hprobe.next (hinv.next _) (fun _ _ _ heq => by cases heq) (fun _ hmem => by cases hmem)
        (hmoved.tended.refs.alive (World.pins_pos hget hcurrent'.pin))

/-- The rest of the self-test: both checks succeed, and what is printed depends on what is left. -/
theorem Testing.check (h : s₀.Testing good plat s i x k) (hans : ans.All good)
    (haccepts : (ans.envs 3).AcceptsInBounds) :
    (s.check ans i).Session good plat (s.check ans i).handles.find? [] ∧
      (s.check ans i).handles = s₀.handles ∧
      (s.check ans i).world.core.stock.idle = s₀.world.core.stock.idle ∧
      ∃ crc, (s.check ans i).printed = s₀.printed ++ [.selftest
        (decide ((s.check ans i).world.core.rt.telemetry.activeBuffers = 0 ∧
          (s.check ans i).world.core.rt.telemetry.hostBytes = 0)) crc] := by
  obtain ⟨crc, hcrc⟩ := h.probe.checksum h.valid
  have hsummed : s₀.Testing good plat (s.perform (.call (.checksum i))) i x k :=
    h.look trivial (fun _ _ _ heq => by cases heq) rfl rfl
  have hverify := hsummed.probe.verify hsummed.session.tended.order hsummed.valid haccepts
  have hverified : s₀.Testing good plat ((s.perform (.call (.checksum i))).perform
      (.call (.verify (ans.envs 3) i))) i x k :=
    hsummed.look (hans 3) (fun _ _ _ heq => by cases heq) rfl rfl
  have hinv := hverified.session.tended.refs
  have hreleased := hverified.session.release (hans 4) List.mem_cons_self
  have hdone := hreleased.tended.forget fun o ho => World.next_release hinv (ans.envs 4) i ho
  refine ⟨⟨?_, hreleased.ran.world, hreleased.ran.acts⟩, h.handles, ?_, crc, ?_⟩
  · rw [show (s.check ans i).handles = s₀.handles from h.handles]
    exact hdone
  · -- the buffer goes back to its backend
    obtain ⟨heq, -⟩ := World.next_stock hinv (.release (ans.envs 4) i)
    rw [World.releaseDeals_eq hverified.handle hverified.current.pin] at heq
    have haside := Core.dropDeals_aside hverified.probe.record.unpooled
    exact (congrArg Stock.idle heq).trans ((Stock.runs_aside haside).1.trans hverified.probe.idle)
  · have hverify : ((s.world.next (.checksum i)).step (.verify (ans.envs 3) i)).1 = .ok .done :=
      hverify
    unfold Shell.check
    simp only [Shell.call, Shell.print, Shell.perform, World.perform, hcrc, hverify, h.printed]
    rfl

end Shell

end Cli

/-! ## What the statistics say -/

/-- The backends that are asked for memory are honest. -/
def World.Truthful (w : World) : Action → Prop
  | .call (.allocate env _) => env.Honest w.core.os.calls
  | .call (.migrate env _ _) => env.Honest w.core.os.calls
  | _ => True

namespace Stock

variable {n : NamespaceId} {s : Stock}

/-- Other namespaces have no committed bytes. -/
theorem Exact.comm_other (h : s.Exact n) {m : NamespaceId} (hm : m ≠ n) (d : MemoryDomain) :
    s.ledger.comm m d = 0 := by
  have hlive : s.liveBytes (fun _ => true) m d = 0 := by
    refine Multiset.sum_eq_zero fun v hv => ?_
    obtain ⟨b, hb, rfl⟩ := Multiset.mem_map.mp hv
    exact (if_pos rfl).trans (if_neg fun heq => hm (heq.1.symm.trans (h.live b hb).1))
  have hidle : s.idleBytes m d = 0 := by
    refine Multiset.sum_eq_zero fun v hv => ?_
    obtain ⟨p, hp, rfl⟩ := Multiset.mem_map.mp hv
    exact if_neg fun heq => hm (heq.1.symm.trans (h.idle p hp).1)
  rw [h.cells, Stock.charge, hlive, hidle]

end Stock

namespace World

variable {w : World} {n : NamespaceId}

/-- The bytes that the statistics report of a domain. -/
theorem domainBytes_exact (hinv : w.RefInv []) (h : w.core.stock.Exact n) (d : MemoryDomain) :
    (w.core.rt.domainBytes d).toNat = w.core.committedIn d + w.core.idleIn d := by
  have hother : ∀ m, m ≠ n → w.core.rt.ledger.committed.get m d = 0 := fun m hm =>
    (toNat_eq_zero_iff _).mp (h.comm_other hm d)
  rw [RuntimeImpl.toNat_domainBytes, Cells.total_of_one _ hother,
    Nat.mod_eq_of_lt (UInt64.toNat_lt _), ← hinv.committedIn_eq (fun b hb => (h.live b hb).1),
    ← w.core.idleIn_eq (fun p hp => (h.idle p hp).1)]
  exact h.cells n d

end World

namespace Cli

namespace Shell

variable {good : Env → Prop} {plat : RuntimeImpl.Platform} {s : Shell} {ans : Answers}

/-- Committed bytes are exact in a session with honest backends. -/
theorem Ran.exact (h : s.Ran good plat)
    (hhonest : Along World.perform World.Truthful (World.init {} plat) s.trace) :
    s.world.core.stock.Exact kDefaultNamespace := by
  have hacts : Along World.perform (fun _ act => act.Ordinary good) (World.init {} plat) s.trace :=
    Along.of_mem (fun act hact _ => h.acts act hact) _
  have hboth := hacts.invariant (I := fun w => w.RefInv [] ∧ w.core.stock.Exact kDefaultNamespace)
    hhonest ⟨World.refInv_init {} plat, exact_init _ {} plat⟩ (fun w act hw hact hhonest => by
      cases act with
      | load a n => exact hw
      | store a data => exact ⟨hw.1.same ⟨rfl, rfl, rfl, rfl, le_rfl, rfl, rfl⟩, hw.2⟩
      | call op =>
          have hone : w.OneNamespace kDefaultNamespace op := by
            cases op with
            | allocate env req => exact ⟨hact.2, hhonest⟩
            | migrate env i target => exact hhonest
            | map | verify | checksum | construct | move | moveAssign | release | destroy => trivial
            | _ => exact absurd hact id
          obtain ⟨heq, hcan⟩ := World.next_stock hw.1 op
          refine ⟨hw.1.next op, ?_⟩
          show (w.next op).core.stock.Exact kDefaultNamespace
          rw [heq]
          exact hcan.invariant (hone.keeps hw.1 hw.2) hw.2 fun _ _ h hcan hgood => h.apply hcan hgood)
  rw [h.world]
  exact hboth.2

/-- What the self-test finds at its end is decided by the table and the pool. -/
theorem Kept.empty_iff {s₀ : Shell} (h : s.Kept good plat)
    (hexact : s.world.core.stock.Exact kDefaultNamespace)
    (hexact₀ : s₀.world.core.stock.Exact kDefaultNamespace)
    (hidle : s.world.core.stock.idle = s₀.world.core.stock.idle) :
    (s.world.core.rt.telemetry.activeBuffers = 0 ∧ s.world.core.rt.telemetry.hostBytes = 0) ↔
      (s.handles.size = 0 ∧ s₀.world.core.idleIn .host = 0) := by
  have hactive : s.world.core.rt.telemetry.activeBuffers = s.handles.size := h.size
  have hsum : s.world.core.rt.telemetry.hostBytes.toNat = _ :=
    World.domainBytes_exact h.tended.refs hexact .host
  have hslots : s.world.core.idleIn .host = s₀.world.core.idleIn .host := by
    rw [← Core.idleIn_eq _ (fun p hp => (hexact.idle p hp).1),
      ← Core.idleIn_eq _ (fun p hp => (hexact₀.idle p hp).1), Stock.idleBytes, Stock.idleBytes, hidle]
  rw [hactive, ← toNat_eq_zero_iff, hsum, hslots]
  refine and_congr_right fun hsize => ?_
  have hnone : s.world.core.registered = [] := by
    rw [← h.size] at hsize
    exact List.map_eq_nil_iff.mpr (List.length_eq_zero_iff.mp hsize)
  rw [Core.committedIn, hnone]
  exact ⟨fun hzero => (Nat.add_eq_zero_iff.mp hzero).2, fun hzero => by rw [hzero]; rfl⟩

/-! ## The trace -/

theorem trace_perform (s : Shell) (act : Action) : s.trace <+: (s.perform act).trace :=
  List.prefix_append _ _

theorem trace_leave (s : Shell) (env : Env) (is : List Nat) : s.trace <+: (s.leave env is).trace := by
  induction is generalizing s with
  | nil => exact List.prefix_rfl
  | cons i is ih => exact (s.trace_perform (.call (.destroy env i))).trans (ih _)

theorem trace_fill (s : Shell) (ans : Answers) (i : Nat) : s.trace <+: (s.fill ans i).2.trace := by
  have hmap := s.trace_perform (.call (.map (ans.envs 1) i .readWrite))
  unfold Shell.fill
  simp only [Shell.call]
  rcases s.world.gives_map (ans.envs 1) i .readWrite with ⟨e, he, -⟩ | ⟨m, hok, -⟩
  · rw [he]
    exact hmap
  · rw [hok]
    exact (hmap.trans (trace_perform _ _)).trans (trace_perform _ _)

theorem trace_check (s : Shell) (ans : Answers) (i : Nat) : s.trace <+: (s.check ans i).trace :=
  ((s.trace_perform _).trans (trace_perform _ _)).trans
    (trace_perform _ (.call (.release (ans.envs 4) i)))

theorem printed_leave (s : Shell) (env : Env) (is : List Nat) :
    (s.leave env is).printed = s.printed := by
  induction is generalizing s with
  | nil => rfl
  | cons i is ih => exact ih _

/-- The self-test after a request that has succeeded. -/
theorem selftest_eq {r : Nat}
    (hok : (s.world.step (.allocate (ans.envs 0) (unpooledRequest 1048576))).1 = .ok (.object r))
    {t : Shell}
    (ht : t = ((s.perform (.call (.allocate (ans.envs 0) (Shell.unpooledRequest 1048576)))).moveTo r).2)
    {i : Nat}
    (hi : i = (s.world.next (.allocate (ans.envs 0) (Shell.unpooledRequest 1048576))).objs.length) :
    s.selftest ans
      = ((t.fill ans i).2.check ans i).leave (ans.envs 5) ((t.fill ans i).1 ++ [i, r]) := by
  subst ht hi
  unfold Shell.selftest
  simp only [Shell.call]
  rw [hok]
  rfl

end Shell

/-- **What the self-test tests.** With honest backends, a self-test whose request succeeds reports
`PASS` exactly if the table was empty and the pool held no host memory before: a buffer of the
session makes it fail, and so does a buffer that was freed earlier, if it has gone to the pool. -/
theorem selftest_passes_iff (plat : RuntimeImpl.Platform) (args : List String) {first ans : Answers}
    {lines : List (String × Answers)} {s : Shell} (hs : s = Shell.main plat args first lines)
    (hhonest : Along World.perform World.Truthful (World.init {} plat) (s.selftest ans).trace)
    (haccepts : (ans.envs 3).AcceptsInBounds)
    (hok : (s.world.step (.allocate (ans.envs 0) (Shell.unpooledRequest 1048576))).1.isOk = true) :
    (s.selftest ans).handles = s.handles ∧
      ∃ crc, (s.selftest ans).printed = s.printed ++
        [.selftest (decide (s.handles.size = 0 ∧ s.world.core.idleIn .host = 0)) crc] := by
  have hkept : s.Kept (fun _ => True) plat := by
    rw [hs]
    exact Shell.kept_main plat args (fun _ => trivial) fun _ _ _ => trivial
  have hans : ans.All (fun _ => True) := fun _ => trivial
  -- the trace of the test, from its end to its beginning
  generalize ht : ((s.perform (.call (.allocate (ans.envs 0)
    (Shell.unpooledRequest 1048576)))).moveTo s.world.objs.length).2 = t
  generalize hi : (s.world.next (.allocate (ans.envs 0)
    (Shell.unpooledRequest 1048576))).objs.length = i
  have hreply : (s.world.step (.allocate (ans.envs 0) (Shell.unpooledRequest 1048576))).1
      = .ok (.object s.world.objs.length) := by
    rcases World.hands_allocate hkept.tended.refs (ans.envs 0) (Shell.unpooledRequest 1048576) with
      ⟨e, he, -⟩ | ⟨x, k, hreply, -⟩
    · rw [he] at hok
      cases hok
    · exact hreply
  rw [Shell.selftest_eq hreply ht.symm hi.symm] at hhonest ⊢
  have hchecked := hhonest.initial (Shell.trace_leave _ _ _)
  have hbegun : (s.perform (.call (.allocate (ans.envs 0) (Shell.unpooledRequest 1048576)))).trace
      <+: ((t.fill ans i).2.check ans i).trace := by
    have hmoved : (s.perform (.call (.allocate (ans.envs 0) (Shell.unpooledRequest 1048576)))).trace
        <+: t.trace := by
      rw [← ht]
      exact Shell.trace_perform _ _
    exact (hmoved.trans (t.trace_fill ans i)).trans (Shell.trace_check _ ans i)
  obtain ⟨hbefore, hhonest₀, -⟩ := Along.append_iff.mp (hchecked.initial hbegun)
  rw [← hkept.ran.world] at hhonest₀
  obtain ⟨-, x, k, htesting⟩ := hkept.testing trivial (Env.Honest.reliable hhonest₀) 1048576 hok
  rw [ht, hi] at htesting
  obtain ⟨hsession, hhandles, hidle, crc, hprinted⟩ := (htesting.fill hans).check hans haccepts
  have hverdict := Shell.Kept.empty_iff hsession (hsession.ran.exact hchecked)
    (hkept.ran.exact hbefore) hidle
  rw [hhandles] at hverdict
  refine ⟨(Shell.leave_handles _ _ _).trans hhandles, crc, ?_⟩
  rw [Shell.printed_leave, hprinted, decide_eq_decide.mpr hverdict]

/-- A page is allocated and freed, and goes to the pool. -/
def pageInPool : Shell :=
  Shell.main {} [] {} [("alloc 4096", { envs := fun _ => .pageAt 4096 }), ("free 1", {})]

/-- The theorem at work: the table is empty, and still the self-test fails. -/
theorem selftest_passes_iff_pageInPool :
    pageInPool.handles.size = 0 ∧ ∃ crc,
      (pageInPool.selftest { envs := fun _ => .roomAt 8192 1048576 }).printed
        = pageInPool.printed ++ [.selftest false crc] := by
  refine ⟨by decide +kernel, ?_⟩
  have hhonest : Along World.perform World.Truthful (World.init {} {})
      (pageInPool.selftest { envs := fun _ => .roomAt 8192 1048576 }).trace := by
    refine ⟨firstPage_honest, trivial, trivial, trivial, trivial, trivial, trivial, trivial, ?_,
      trivial, trivial, trivial, trivial, trivial, trivial, trivial, trivial, trivial, trivial, trivial⟩
    refine roomAt_honest (by decide) (by decide) fun x hx => Or.inl ?_
    obtain rfl := List.mem_singleton.mp hx
    decide
  obtain ⟨-, crc, hprinted⟩ := selftest_passes_iff {} [] (s := pageInPool) rfl hhonest
    (fun _ _ _ _ => rfl) (by decide +kernel)
  refine ⟨crc, hprinted.trans ?_⟩
  have hpool : ¬ (pageInPool.handles.size = 0 ∧ pageInPool.world.core.idleIn .host = 0) := by
    decide +kernel
  rw [decide_eq_false hpool]

end Cli

end UnifiedBuffer
