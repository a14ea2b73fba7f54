import UnifiedBuffer.Safety.Contents
import UnifiedBuffer.Safety.Objects
import UnifiedBuffer.Safety.Ownership

set_option autoImplicit false

/-! # The pointers of maps and views

A `BufferMap` and a `BufferView` keep the address they were created with. A migration frees the
backing under them, so such an address is good only as long as the generation it was taken at is the
current one (`pointers_valid`). -/

namespace UnifiedBuffer

open Lib

/-! ## Freed memory -/

/-- From `calls` to `calls'`, only backings with the property `P` were freed. -/
def FreesOnly (P : Backing → Prop) (calls calls' : List BackendCall) : Prop :=
  ∃ new, calls'.filterMap BackendCall.frees = new ++ calls.filterMap BackendCall.frees ∧
    ∀ y ∈ new, P y

namespace FreesOnly

variable {P : Backing → Prop} {calls calls' calls'' : List BackendCall}

theorem refl (P : Backing → Prop) (calls : List BackendCall) : FreesOnly P calls calls :=
  ⟨[], rfl, fun _ h => by cases h⟩

theorem of_eq (h : calls'.filterMap BackendCall.frees = calls.filterMap BackendCall.frees) :
    FreesOnly P calls calls' :=
  ⟨[], h, fun _ h => by cases h⟩

theorem trans (h : FreesOnly P calls calls') (h' : FreesOnly P calls' calls'') :
    FreesOnly P calls calls'' := by
  obtain ⟨new, hnew, hP⟩ := h
  obtain ⟨new', hnew', hP'⟩ := h'
  refine ⟨new' ++ new, by rw [hnew', hnew, List.append_assoc], fun y hy => ?_⟩
  rcases List.mem_append.mp hy with hy | hy
  · exact hP' y hy
  · exact hP y hy

theorem free (h : FreesOnly P calls calls') {d : MemoryDomain} {a : NativeAllocation}
    (hP : P (d, a)) : FreesOnly P calls (.freed d a :: calls') := by
  refine h.trans ⟨[(d, a)], rfl, fun y hy => ?_⟩
  rw [List.mem_singleton.mp hy]
  exact hP

theorem freeIn (h : FreesOnly P calls calls') (rt : RuntimeImpl) {os : Os}
    (hos : os.calls = calls') {d : MemoryDomain} {a : NativeAllocation} (hP : P (d, a)) :
    FreesOnly P calls (rt.freeIn os d a).calls := by
  subst hos
  unfold RuntimeImpl.freeIn
  split
  · exact h.free hP
  · exact h

theorem trimSlots (slots : List (PoolKey × PoolSlot)) (x : RuntimeImpl × Os)
    (h : FreesOnly P calls x.2.calls) (hP : ∀ e ∈ slots, P (filedSlot e)) :
    FreesOnly P calls (slots.foldl RuntimeImpl.trimSlot x).2.calls := by
  induction slots generalizing x with
  | nil => exact h
  | cons e slots ih =>
      refine ih _ (h.freeIn x.1 rfl (hP e List.mem_cons_self)) (fun e' he' => ?_)
      exact hP e' (List.mem_cons_of_mem e he')

end FreesOnly

namespace World

variable {w : World} {op : Op} {k : CtlId}

/-- The operation neither migrates the buffer nor drops its last reference. -/
structure LeavesInPlace (w : World) (k : CtlId) (op : Op) : Prop where
  stays : w.moves op k = false
  last : w.released op = some k → (w.core.control k).refs ≠ 1

/-- The memory shares no byte with that of the buffer. -/
def ClearOf (w : World) (k : CtlId) (y : Backing) : Prop :=
  y.Clear (w.core.control k).record.filed

theorem allocate_frees (hk : w.core.Alive k) {env : Env}
    (hsep : env.Separate w.core.stock.held) (req : AllocationRequest) :
    FreesOnly (w.ClearOf k) w.core.os.calls (w.core.allocate env req).2.os.calls := by
  have hrun := w.core.rt.allocateRecord_run w.core.os env req
  unfold Core.allocate
  generalize w.core.rt.allocateRecord w.core.os env req = out at hrun ⊢
  have hfresh : ∀ {d : MemoryDomain} {bytes alignment : UInt64} {a : NativeAllocation},
      env.allocate d bytes alignment = .ok a → w.ClearOf k (d, w.core.os.stamp a) :=
    fun ha => hsep.allocate _ _ _ _ ha _ (Core.held_of_alive hk)
  cases hrun with
  | refused | backendFailed => exact .refl _ _
  | commitFailed _ _ backend => exact (FreesOnly.of_eq rfl).free (hfresh backend)
  | freshZeroFailed _ _ backend =>
      refine FreesOnly.free (.of_eq ?_) (hfresh backend)
      rw [RuntimeImpl.zeroed_calls]
      rfl
  | fresh =>
      refine .of_eq ?_
      show (RuntimeImpl.zeroed _ _ _ _ _ _).calls.filterMap _ = _
      rw [RuntimeImpl.zeroed_calls]
      rfl
  | pooledZeroFailed | pooled =>
      refine .of_eq ?_
      show (RuntimeImpl.zeroed _ _ _ _ _ _).calls.filterMap _ = _
      rw [RuntimeImpl.zeroed_calls]

theorem migrate_frees (h : w.Orderly) (hk : w.core.Alive k) {env : Env}
    (hsep : env.Separate w.core.stock.held) {i : Nat} {j : CtlId}
    (hj : (w.handle i).validateAlive w.core = .ok j) (target : MemoryDomain)
    (hstays : j = k → ((w.core.migrate env j target).2.control k).record.generation
      = (w.core.control k).record.generation) :
    FreesOnly (w.ClearOf k) w.core.os.calls (w.core.migrate env j target).2.os.calls := by
  have halive := h.refs.alive (handle_alive h.refs hj).1
  have hrun := w.core.rt.migrate_run w.core.os env (w.core.control j) target
  unfold Core.migrate at hstays ⊢
  generalize w.core.rt.migrate w.core.os env (w.core.control j) target = out at hrun hstays ⊢
  -- the copy into a new backing frees nothing
  have hcopy : ∀ a, FreesOnly (w.ClearOf k) w.core.os.calls
      (RuntimeImpl.migrateCopy w.core.os env (w.core.control j) target a).2.calls := by
    intro a
    refine .of_eq ?_
    rw [RuntimeImpl.migrateCopy_calls]
    rfl
  have hfresh : ∀ {bytes alignment : UInt64} {a : NativeAllocation},
      env.allocate target bytes alignment = .ok a → w.ClearOf k (target, w.core.os.stamp a) :=
    fun ha => hsep.allocate _ _ _ _ ha _ (Core.held_of_alive hk)
  cases hrun with
  | refused | stays | backendFailed => exact .refl _ _
  | copyFailed _ backend
  | commitFailed _ backend
  | verifyFailed _ backend => exact (hcopy _).free (hfresh backend)
  | swapped _ backend =>
      -- the old backing is freed, and it is not the one of `k`
      have hne : j ≠ k := by
        rintro rfl
        have hgen := hstays rfl
        rw [Core.control_of_set (c := w.core) rfl halive.1, if_pos rfl] at hgen
        exact Nat.succ_ne_self _ hgen
      have hclear : w.ClearOf k (w.core.control j).record.filed :=
        (Core.clear_blocks h.disjoint hk halive hne).symm
      show FreesOnly _ _ (if _ then _ else _ : Os).calls
      split
      · exact (hcopy _).freeIn w.core.rt rfl hclear
      · exact hcopy _

theorem finalize_frees {c : Core} {j : CtlId} (env : Env) {calls : List BackendCall}
    (h : FreesOnly (w.ClearOf k) calls c.os.calls)
    (hclear : w.ClearOf k (c.control j).record.filed) :
    FreesOnly (w.ClearOf k) calls (c.finalize env j true).os.calls := by
  have hrun := c.rt.finalize_run c.os env (c.control j) true
  unfold Core.finalize
  generalize c.rt.finalize c.os env (c.control j) true = out at hrun ⊢
  cases hrun with
  | again | kept => exact h
  | pooled =>
      show FreesOnly _ _ (RuntimeImpl.zeroOnRelease _ _ _ _).2.calls
      rw [RuntimeImpl.zeroOnRelease_calls]
      exact h
  | evicted => exact h.freeIn c.rt (RuntimeImpl.zeroOnRelease_calls _ _ _ _) hclear
  | freed => exact h.freeIn c.rt rfl hclear

/-- The generation of a buffer that is not moved stays. -/
theorem LeavesInPlace.generation (h : w.LeavesInPlace k op) {env : Env} {i : Nat}
    {target : MemoryDomain}
    (hop : op = .migrate env i target) (hvalid : (w.handle i).validateAlive w.core = .ok k)
    (hk : k < w.core.ctls.length) :
    ((w.core.migrate env k target).2.control k).record.generation
      = (w.core.control k).record.generation := by
  subst hop
  have hstays := h.stays
  unfold moves at hstays
  simp only [hvalid, w.migrate_isOk hvalid] at hstays
  rw [((w.core.migrate_blocks env hk target).2 k).2, if_neg, Nat.add_zero]
  rintro ⟨-, hne, hok⟩
  simp [hne, hok] at hstays

/-- No memory that the buffer shares a byte with is freed by an operation that keeps it. -/
theorem Orderly.frees (h : w.Orderly) (hop : w.Separate op) (hk : w.core.Alive k)
    (hplace : w.LeavesInPlace k op) :
    FreesOnly (w.ClearOf k) w.core.os.calls (w.next op).core.os.calls := by
  have hbrings : ∀ {P : Record → Prop} {p : Except Error CtlId × Core}, w.core.Brings P p →
      FreesOnly (w.ClearOf k) w.core.os.calls p.2.os.calls := by
    intro P p hp
    cases hp with
    | failed booked | known booked | fresh booked => exact .of_eq booked.freed
  have htrim : ∀ {rt : RuntimeImpl}, rt.pool = w.core.rt.pool →
      FreesOnly (w.ClearOf k) w.core.os.calls (rt.poolTrim w.core.os).2.calls := by
    intro rt hpool
    refine FreesOnly.trimSlots _ (rt, w.core.os) (.refl _ _) (fun e he => ?_)
    rw [hpool] at he
    exact (Core.clear_slot h.disjoint hk he).symm
  have hfated := fated_effects h.refs op
  have heffects : w.Effects op (fun c => w.Fated op c ∧
      FreesOnly (w.ClearOf k) w.core.os.calls c.os.calls) :=
    { noted := fun hb hc => ⟨hc.1.booked hb.toBooked, hc.2.trans (.of_eq hb.freed)⟩
      adjusted := fun j _ hf hc => ⟨hc.1.modify j hf, hc.2⟩
      allocate := by
        rintro env req rfl
        exact ⟨hfated.allocate env req rfl, allocate_frees hk hop req⟩
      wrapExternal := fun desc heq =>
        ⟨hfated.wrapExternal desc heq, hbrings (w.core.wrapExternal_brings desc)⟩
      importBuffer := fun env desc ns label heq =>
        ⟨hfated.importBuffer env desc ns label heq,
          hbrings (w.core.importDescriptor_brings env desc ns label)⟩
      migrate := by
        rintro env i target j rfl hj
        refine ⟨hfated.migrate env i target j rfl hj, migrate_frees h hk hop hj target ?_⟩
        rintro rfl
        exact hplace.generation rfl hj hk.1
      copyTo := fun env i dst dstOffset len heq =>
        ⟨hfated.copyTo env i dst dstOffset len heq, .of_eq (by
          rw [(copyTo_idle (w.handle i) w.core env dst dstOffset len).calls])⟩
      copyFrom := fun env i src srcOffset len heq =>
        ⟨hfated.copyFrom env i src srcOffset len heq, .of_eq (by
          rw [(copyFrom_idle (w.handle i) w.core env src srcOffset len).calls])⟩
      finalize := by
        intro c env j henv hrel hrefs hj halive hc
        refine ⟨hc.1.finalize henv hrel hrefs ⟨hj, halive⟩, finalize_frees env hc.2 ?_⟩
        -- the buffer that ends is another one, and is still what it was
        have hne : j ≠ k := fun heq => hplace.last (heq ▸ hrel) (heq ▸ hrefs)
        cases hc.1.blocks j ⟨hj, halive⟩ with
        | kept alive same =>
            have hfiled : (c.control j).record.filed = (w.core.control j).record.filed := by
              unfold Record.filed
              rw [same]
            rw [hfiled]
            exact (Core.clear_blocks h.disjoint hk alive hne).symm
        | moved heq | fresh heq | reused heq | wrapped heq | opened heq =>
            rw [heq] at henv
            cases henv
      poolTrim := fun heq => ⟨hfated.poolTrim heq, htrim rfl⟩
      shutdown := fun env heq hopen => ⟨hfated.shutdown env heq hopen, htrim rfl⟩
      createNamespace := fun nsc heq => ⟨hfated.createNamespace nsc heq, .refl _ _⟩ }
  exact (heffects.next h.refs ⟨.start w op, .refl _ _⟩).2

/-- The memory of a buffer stays in place as long as it is kept, and none of it is freed. -/
theorem Orderly.kept (h : w.Orderly) (hk : w.core.Alive k) (hplace : w.LeavesInPlace k op) :
    (w.next op).core.Alive k ∧
      (w.core.control k).record.Same ((w.next op).core.control k).record := by
  have halive := alive_next h.refs hk hplace.last
  refine ⟨halive, ?_⟩
  cases (fates h.refs op).blocks k halive with
  | kept _ same => exact same
  | moved hop valid admission backend copy same =>
      have hgen := (h.refs.ages op).generation k hk.1
      rw [hplace.stays, same] at hgen
      exact absurd hgen (Nat.succ_ne_self _)
  | fresh _ new | reused _ new | wrapped _ new | opened _ new =>
      exact absurd hk.1 (new ▸ Nat.lt_irrefl _)

/-- Along a run that leaves the buffer in place. -/
theorem frees_runs {ok : World → Op → Prop} {cfg : RuntimeConfig} {plat : RuntimeImpl.Platform}
    (hok : ∀ w op, ok w op → w.Sane op) {ops : List Op}
    (hreach : Reach World.next ok (World.init cfg plat) w) (hk : w.core.Alive k)
    (hops : Along World.next (fun w op => ok w op ∧ w.LeavesInPlace k op) w ops) :
    (runs World.next w ops).core.Alive k ∧
      (w.core.control k).record.Same ((runs World.next w ops).core.control k).record ∧
      FreesOnly (w.ClearOf k) w.core.os.calls (runs World.next w ops).core.os.calls := by
  induction ops generalizing w with
  | nil => exact ⟨hk, .refl _, .refl _ _⟩
  | cons op ops ih =>
      obtain ⟨⟨hop, hplace⟩, hrest⟩ := hops
      have horderly := orderly_reach hreach hok
      obtain ⟨halive, hsame⟩ := horderly.kept hk hplace
      have hfirst := horderly.frees (hok _ op hop).separate hk hplace
      obtain ⟨hend, hsame', hfrees⟩ := ih (.next op hreach hop) halive hrest
      refine ⟨hend, hsame.trans hsame', hfirst.trans ?_⟩
      have hclear : (w.next op).ClearOf k = w.ClearOf k := by
        unfold ClearOf Record.filed
        rw [hsame]
      rw [← hclear]
      exact hfrees

end World

/-! ## Pointers in hand -/

/-- An address that an object keeps, with the buffer and the generation it was taken from. -/
structure Pointer where
  ctl : CtlId
  gen : BufferGeneration
  data : Nat

/-- The pointer of a map or a view that is not released. -/
def Obj.pointer : Obj → Option Pointer
  | .map m => m.ctl.map (fun k => ⟨k, m.gen, m.data⟩)
  | .view v => v.ctl.map (fun k => ⟨k, v.gen, v.data⟩)
  | _ => none

namespace Obj

theorem pointer_pin {o : Obj} {p : Pointer} (h : o.pointer = some p) : o.pin = some p.ctl := by
  cases o with
  | handle | lease => cases h
  | map m =>
      obtain ⟨k, hk, rfl⟩ := Option.map_eq_some_iff.mp h
      exact hk
  | view v =>
      obtain ⟨k, hk, rfl⟩ := Option.map_eq_some_iff.mp h
      exact hk

theorem pointer_of_empty {o : Obj} (h : o.Empty) : o.pointer = none := by
  cases hp : o.pointer with
  | none => rfl
  | some p =>
      have hpin := h.pin
      rw [pointer_pin hp] at hpin
      cases hpin

end Obj

namespace World

variable {w : World} {op : Op} {p : Pointer}

/-- The pointer is held by a map or a view. -/
def Holds (w : World) (p : Pointer) : Prop := ∃ o ∈ w.objs, o.pointer = some p

theorem Holds.alive (hinv : w.RefInv []) (h : w.Holds p) : w.core.Alive p.ctl := by
  obtain ⟨o, ho, hp⟩ := h
  obtain ⟨i, hi⟩ := List.mem_iff_getElem?.mp ho
  exact hinv.alive (w.pins_pos hi (Obj.pointer_pin hp))

/-- The address of the pointer is good unless the generation has moved on. -/
structure Good (w : World) (p : Pointer) : Prop where
  gen_le : p.gen ≤ (w.core.control p.ctl).record.generation
  inside : p.gen = (w.core.control p.ctl).record.generation → p.data ≠ 0 →
    (w.core.control p.ctl).record.filed.Has (w.core.control p.ctl).record.domain.space p.data

/-- A good pointer stays good as long as its buffer lives. -/
theorem Good.next (hinv : w.RefInv []) (hlt : p.ctl < w.core.ctls.length) (h : w.Good p)
    (halive : (w.next op).core.Alive p.ctl) : (w.next op).Good p := by
  cases (fates hinv op).blocks p.ctl halive with
  | kept _ same =>
      refine ⟨?_, ?_⟩
      · rw [same]
        exact h.gen_le
      · unfold Record.filed
        rw [same]
        exact h.inside
  | moved hop valid admission backend copy same =>
      -- the pointer is out of date from now on
      have hgen : ((w.next op).core.control p.ctl).record.generation
          = (w.core.control p.ctl).record.generation + 1 := by rw [same]; rfl
      refine ⟨?_, fun heq => ?_⟩
      · rw [hgen]
        exact Nat.le_succ_of_le h.gen_le
      · rw [hgen] at heq
        exact absurd (heq ▸ h.gen_le) (Nat.not_succ_le_self _)
  | fresh _ new | reused _ new | wrapped _ new | opened _ new =>
      exact absurd hlt (new ▸ Nat.lt_irrefl _)

end World

/-- `IDomain::map` returns the address of the memory, or null. -/
def Env.Maps (env : Env) : Prop :=
  ∀ d a access p, env.map d a access = .ok p → p ≠ 0 → p = a.base

def Op.Maps : Op → Prop
  | .map env _ _ => env.Maps
  | _ => True

/-- What a successful `map` has returned. -/
theorem map_ok {h : BufferHandle} {c : Core} {env : Env} {access : AccessMode} {m : BufferMap}
    (hm : (h.map c env access).1 = .ok m) :
    ∃ k, h.validateAlive c = .ok k ∧ m.ctl = some k ∧ m.gen = h.gen ∧
      env.map (c.control k).record.domain (c.control k).record.backing access = .ok m.data := by
  unfold BufferHandle.map at hm
  split at hm
  · cases hm
  rename_i k hvalid
  simp only at hm
  split at hm
  · cases hm
  split at hm
  · cases hm
  split at hm
  · cases hm
  rename_i q hq
  cases hm
  exact ⟨k, World.ensureValid_ok hvalid, rfl, rfl, hq⟩

namespace World

variable {w : World} {op : Op} {p : Pointer}

/-- The address in a new view is inside the buffer. -/
theorem view_good (hgeo : w.core.Geometric) (hinv : w.RefInv []) {i : Nat} {offset len : UInt64}
    {access : AccessMode} {v : BufferView}
    (hv : ((w.handle i).view w.core offset len access).1 = .ok v)
    (hp : (Obj.view v).pointer = some p) : p.ctl < w.core.ctls.length ∧ w.Good p := by
  obtain ⟨k, hk, hctl, hgen, hlen, hrange, hdata⟩ := view_ok hv
  obtain ⟨j, hj, rfl⟩ := Option.map_eq_some_iff.mp hp
  obtain rfl : k = j := Option.some.inj (hctl.symm.trans hj)
  have hsound := handle_sound hinv hgeo hk
  refine ⟨(hinv.alive (handle_alive hinv hk).1).1, ?_, fun _ hnull => ?_⟩
  · exact Nat.le_of_eq (hgen.trans (BufferHandle.validateAlive_ok_iff.mp hk).gen)
  · have hnull : v.data ≠ 0 := hnull
    rw [hdata] at hnull
    have hmap : (w.core.control k).record.backing.hostMap ≠ 0 := by
      intro hzero
      rw [if_neg (not_not.mpr hzero)] at hnull
      exact hnull rfl
    have hbase : (w.core.control k).record.backing.base
        = (w.core.control k).record.backing.hostMap := if_pos hmap
    have hfits := rangeInBounds_le hrange
    have hpos : len.toNat ≠ 0 := fun h => hlen (UInt64.toNat_inj.mp h)
    show (w.core.control k).record.filed.Has _ v.data
    rw [hdata, if_pos hmap, ← hbase]
    exact hsound.has (by omega)

/-- The address in a new map is that of the buffer. -/
theorem map_good (hgeo : w.core.Geometric) (hinv : w.RefInv []) {i : Nat} {env : Env}
    (henv : env.Maps) {access : AccessMode} {m : BufferMap}
    (hm : ((w.handle i).map w.core env access).1 = .ok m)
    (hp : (Obj.map m).pointer = some p) : p.ctl < w.core.ctls.length ∧ w.Good p := by
  obtain ⟨k, hk, hctl, hgen, hdata⟩ := map_ok hm
  obtain ⟨j, hj, rfl⟩ := Option.map_eq_some_iff.mp hp
  obtain rfl : k = j := Option.some.inj (hctl.symm.trans hj)
  have hsound := handle_sound hinv hgeo hk
  refine ⟨(hinv.alive (handle_alive hinv hk).1).1, ?_, fun _ hnull => ?_⟩
  · exact Nat.le_of_eq (hgen.trans (BufferHandle.validateAlive_ok_iff.mp hk).gen)
  · show (w.core.control k).record.filed.Has _ m.data
    rw [henv _ _ _ _ hdata hnull, ← Nat.add_zero (NativeAllocation.base _)]
    exact hsound.has (UInt64.lt_iff_toNat_lt.mp hsound.size_pos)

/-- A pointer that is held after an operation was held before it, or was good before it. -/
theorem Orderly.holds_next (h : w.Orderly) (hop : op.Maps) (hp : (w.next op).Holds p) :
    w.Holds p ∨ p.ctl < w.core.ctls.length ∧ w.Good p := by
  obtain ⟨o, ho, hptr⟩ := hp
  rcases h.refs.comes ho with hold | hempty | hmade
  · exact Or.inl ⟨o, hold, hptr⟩
  · rw [Obj.pointer_of_empty hempty] at hptr
    cases hptr
  · cases hmade with
    | handle | lease => cases hptr
    | view ok => exact Or.inr (view_good h.geometric h.refs ok hptr)
    | map ok => exact Or.inr (map_good h.geometric h.refs hop ok hptr)

/-- In every state, all pointers in hand are good. -/
theorem good_reach {ok : World → Op → Prop} {cfg : RuntimeConfig} {plat : RuntimeImpl.Platform}
    (hreach : Reach World.next ok (World.init cfg plat) w)
    (hok : ∀ w op, ok w op → w.Sane op ∧ op.Maps) : ∀ p, w.Holds p → w.Good p := by
  refine Reach.invariant_of (I := fun w => ∀ p, w.Holds p → w.Good p) hreach
    (fun s hs => orderly_reach hs fun w op h => (hok w op h).1) ?_ ?_
  · rintro p ⟨o, ho, -⟩
    cases ho
  · intro s op hs ih hop p hp
    have halive := hp.alive (hs.refs.next op)
    rcases hs.holds_next (hok s op hop).2 hp with hold | ⟨hlt, hgood⟩
    · exact (ih p hold).next hs.refs (hold.alive hs.refs).1 halive
    · exact hgood.next hs.refs hlt halive

end World

/-- **Maps and views do not dangle while their generation is current.** In every reachable state
the pointer of a map or a view that is held, if it is not null and its generation is that of the
buffer, lies in the current backing of the buffer, which is alive and whose native allocation is
not freed. As long as the buffer is then neither migrated nor let go of, the backing stays where it
is, and no memory that shares a byte with it is freed. -/
theorem pointers_valid {cfg : RuntimeConfig} {plat : RuntimeImpl.Platform} {w : World}
    (hreach : Reach World.next (fun w op => w.Sane op ∧ op.Maps) (World.init cfg plat) w)
    {p : Pointer} (hp : w.Holds p) :
    (p.gen = (w.core.control p.ctl).record.generation → p.data ≠ 0 → w.core.Alive p.ctl ∧
      (w.core.control p.ctl).record.filed.Has (w.core.control p.ctl).record.domain.space p.data ∧
      ∀ n, serialOf (w.core.control p.ctl).record.filed = some n →
        n ∉ freedSerials w.core.os.calls) ∧
    ∀ ops, Along World.next
        (fun w op => (w.Sane op ∧ op.Maps) ∧ w.LeavesInPlace p.ctl op) w ops →
      (w.core.control p.ctl).record.Same ((runs World.next w ops).core.control p.ctl).record ∧
      FreesOnly (w.ClearOf p.ctl) w.core.os.calls (runs World.next w ops).core.os.calls := by
  have horderly := World.orderly_reach hreach (fun _ _ h => h.1)
  have halive := hp.alive horderly.refs
  refine ⟨fun hgen hnull => ⟨halive, ?_, fun n hn => ?_⟩, fun ops hops => ?_⟩
  · exact (World.good_reach hreach (fun _ _ h => h) p hp).inside hgen hnull
  · have hcustody := custody_reach hreach
    have hout := hcustody.inHand _ (Core.held_of_alive halive) (by rw [hn]; rfl)
    exact hcustody.orderly.not_freed hout (serialOf_eq_some.mp hn)
  · exact (World.frees_runs (fun _ _ h => h.1) hreach halive hops).2

/-- A view of ten bytes and a map of a buffer at address 4096. -/
def pointedAt : List Op :=
  [.allocate (.servesAt 4096) { size := 100 }, .view 0 16 10 .read, .map {} 0 .read]

theorem pointedAt_sane : Along World.next (fun w op => w.Sane op ∧ op.Maps)
    (World.init {} {}) pointedAt :=
  ⟨⟨⟨Env.servesAt_faithful _, Env.servesAt_separate (by decide)⟩, trivial⟩,
    ⟨⟨trivial, trivial⟩, trivial⟩, ⟨⟨trivial, trivial⟩, fun _ _ _ _ h _ => by cases h; rfl⟩, trivial⟩

/-- The theorem at work: the view points to byte 16 of the buffer. -/
theorem pointers_valid_pointedAt :
    (runs World.next (World.init {} {}) pointedAt).Holds ⟨0, 1, 4112⟩ ∧
      (((runs World.next (World.init {} {}) pointedAt).core.control 0).record.filed).Has
        .host 4112 := by
  have hreach : Reach World.next (fun w op => w.Sane op ∧ op.Maps) (World.init {} {})
      (runs World.next (World.init {} {}) pointedAt) := reach_runs .start pointedAt_sane
  have hheld : (runs World.next (World.init {} {}) pointedAt).Holds ⟨0, 1, 4112⟩ :=
    ⟨_, List.mem_of_getElem? (i := 1) rfl, rfl⟩
  exact ⟨hheld, ((pointers_valid hreach hheld).1 rfl (by decide)).2.1⟩

/-- A migration leaves the view and the map behind: both are still held with the address 4112 or
4096, the backing there has been freed, and the buffer is elsewhere. -/
theorem migration_leaves_pointers :
    ∃ w, Reach World.next (fun w op => w.Sane op ∧ op.Maps) (World.init {} {}) w ∧
      w.Holds ⟨0, 1, 4112⟩ ∧ w.Holds ⟨0, 1, 4096⟩ ∧ w.core.Alive 0 ∧
      ¬ (w.core.control 0).record.filed.Has .host 4112 ∧
      ¬ (w.core.control 0).record.filed.Has .host 4096 ∧
      ∃ y ∈ w.core.freed, y.Has .host 4112 ∧ y.Has .host 4096 := by
  refine ⟨runs World.next (World.init {} {}) (pointedAt ++ [.migrate (.servesAt 8192) 0 .sharedHost]),
    ?_, ⟨_, List.mem_of_getElem? (i := 1) rfl, rfl⟩, ⟨_, List.mem_of_getElem? (i := 2) rfl, rfl⟩,
    ⟨by decide, by decide⟩, ?_, ?_, _, List.mem_of_getElem? (i := 0) rfl, ?_, ?_⟩
  · exact reach_runs .start (pointedAt_sane.append
      ⟨⟨⟨Env.servesAt_faithful _, Env.servesAt_separate (by decide)⟩, trivial⟩, trivial⟩)
  all_goals unfold Backing.Has; decide

end UnifiedBuffer
