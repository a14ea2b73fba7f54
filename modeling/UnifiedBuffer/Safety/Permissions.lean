import UnifiedBuffer.Safety.Fates
import UnifiedBuffer.Safety.Geometry
import UnifiedBuffer.Safety.Objects

set_option autoImplicit false

/-! # Read-only buffers

The access mode of a buffer never changes. A request to write is refused on a read-only buffer where
it is checked: by `copy_from`, and by `map` and `view` for the mode `WRITE`. The mode `READ_WRITE`
passes both, and leases are given out without a look at the mode. -/

namespace UnifiedBuffer

open Lib

/-! ## Objects that allow to write -/

/-- The block that an object gives write access to. -/
def Obj.writes : Obj → Option CtlId
  | .handle _ => none
  | .lease l => if l.kind = .read then none else l.ctl
  | .map m => if m.access = .read then none else m.ctl
  | .view v => if v.access = .read then none else v.ctl

theorem Obj.writes_pin {o : Obj} {k : CtlId} (h : o.writes = some k) : o.pin = some k := by
  cases o with
  | handle => cases h
  | lease | map | view =>
      unfold Obj.writes at h
      simp only at h
      split at h
      · cases h
      · exact h

/-- The handle on which an operation asks for write access that is not checked. -/
def Op.unchecked : Op → Option Nat
  | .view i _ _ .readWrite => some i
  | .map _ i .readWrite => some i
  | .acquire .write i => some i
  | .acquire .exclusive i => some i
  | _ => none

namespace BufferHandle

variable {h : BufferHandle} {c : Core} {k : CtlId}

/-- What `ensure_valid` has checked. -/
theorem ensureValid_permits {want : AccessMode} (hk : h.ensureValid c want = .ok k) :
    h.validateAlive c = .ok k ∧ ¬ (want = .write ∧ (c.control k).record.access = .read) := by
  refine ⟨World.ensureValid_ok hk, fun hdenied => ?_⟩
  unfold ensureValid at hk
  rw [World.ensureValid_ok hk] at hk
  simp only [if_pos hdenied] at hk
  cases hk

theorem view_permits {offset len : UInt64} {access : AccessMode} {v : BufferView}
    (hv : (h.view c offset len access).1 = .ok v) :
    v.access = access ∧ ∃ k, v.ctl = some k ∧ h.validateAlive c = .ok k ∧
      ¬ (access = .write ∧ (c.control k).record.access = .read) := by
  unfold view at hv
  split at hv
  · cases hv
  rename_i k hvalid
  obtain ⟨halive, hpermit⟩ := ensureValid_permits hvalid
  simp only at hv
  repeat' split at hv
  all_goals cases hv
  all_goals exact ⟨rfl, k, rfl, halive, hpermit⟩

theorem map_permits {env : Env} {access : AccessMode} {m : BufferMap}
    (hm : (h.map c env access).1 = .ok m) :
    m.access = access ∧ ∃ k, m.ctl = some k ∧ h.validateAlive c = .ok k ∧
      ¬ (access = .write ∧ (c.control k).record.access = .read) := by
  unfold map at hm
  split at hm
  · cases hm
  rename_i k hvalid
  obtain ⟨halive, hpermit⟩ := ensureValid_permits hvalid
  simp only at hm
  repeat' split at hm
  all_goals cases hm
  exact ⟨rfl, k, rfl, halive, hpermit⟩

theorem acquire_permits {kind : LeaseKind} {l : BufferLease}
    (hl : (h.acquire kind c).1 = .ok l) :
    l.kind = kind ∧ ∃ k, l.ctl = some k ∧ h.validateAlive c = .ok k := by
  unfold acquire at hl
  split at hl
  · cases hl
  rename_i k halive
  split at hl
  · cases hl
  cases hl
  exact ⟨rfl, k, rfl, halive⟩

/-- `copy_from` on a read-only buffer fails and changes nothing. -/
theorem copyFrom_readonly (hctl : h.ctl = some k) (hread : (c.control k).record.access = .read)
    (env : Env) (src : Nat) (srcOffset len : UInt64) :
    ∃ e, h.copyFrom c env src srcOffset len = (.error e, c) := by
  unfold copyFrom
  cases hvalid : h.ensureValid c .write with
  | error e => exact ⟨_, rfl⟩
  | ok j =>
      obtain ⟨halive, hpermit⟩ := ensureValid_permits hvalid
      have hlive := BufferHandle.validateAlive_ok_iff.mp halive
      obtain rfl : k = j := Option.some.inj (hctl.symm.trans hlive.ctl)
      exact absurd ⟨rfl, hread⟩ hpermit

end BufferHandle

namespace World

variable {w : World} {op : Op} {base : List BufferId} {k : CtlId}

/-- The check stops only the mode `WRITE`. -/
theorem mode_of_permit {want access : AccessMode} (hwrite : want ≠ .read)
    (hpermit : ¬ (want = .write ∧ access = .read)) : access ≠ .read ∨ want = .readWrite := by
  cases want with
  | read => exact absurd rfl hwrite
  | write => exact Or.inl fun hread => hpermit ⟨rfl, hread⟩
  | readWrite => exact Or.inr rfl

/-- A new object gives write access to a live buffer, which allows it unless nobody has checked. -/
theorem Makes.writes {o : Obj} (h : w.Makes op o) (hk : o.writes = some k) :
    ∃ i, (w.handle i).validateAlive w.core = .ok k ∧
      ((w.core.control k).record.access ≠ .read ∨ op.unchecked = some i) := by
  have hpin := Obj.writes_pin hk
  cases h with
  | handle => cases hk
  | @view i offset len access v ok =>
      obtain ⟨rfl, j, hv, halive, hpermit⟩ := BufferHandle.view_permits ok
      obtain rfl : j = k := Option.some.inj (hv.symm.trans hpin)
      have hwrite : v.access ≠ .read := fun hread => by simp [Obj.writes, hread] at hk
      refine ⟨i, halive, (mode_of_permit hwrite hpermit).imp_right fun hboth => ?_⟩
      rw [hboth]
      rfl
  | @map env i access m ok =>
      obtain ⟨rfl, j, hm, halive, hpermit⟩ := BufferHandle.map_permits ok
      obtain rfl : j = k := Option.some.inj (hm.symm.trans hpin)
      have hwrite : m.access ≠ .read := fun hread => by simp [Obj.writes, hread] at hk
      refine ⟨i, halive, (mode_of_permit hwrite hpermit).imp_right fun hboth => ?_⟩
      rw [hboth]
      rfl
  | @lease kind i l ok =>
      obtain ⟨hkind, j, hl, halive⟩ := BufferHandle.acquire_permits ok
      obtain rfl : j = k := Option.some.inj (hl.symm.trans hpin)
      -- a lease to write is granted whatever the buffer allows
      cases kind with
      | read => simp [Obj.writes, hkind] at hk
      | write | exclusive => exact ⟨i, halive, Or.inr rfl⟩

theorem give_mem {α : Type} {wrap : α → Obj} {q : Except Error α × Core}
    (hok : (w.give wrap q).1.isOk = true) : ∃ a, q.1 = .ok a ∧ wrap a ∈ (w.give wrap q).2.objs := by
  obtain ⟨res, c⟩ := q
  cases res with
  | error e => cases hok
  | ok a => exact ⟨a, rfl, List.mem_append_right _ (List.mem_singleton.mpr rfl)⟩

theorem give_isOk {α : Type} {wrap : α → Obj} {q : Except Error α × Core} {a : α}
    (hq : q.1 = .ok a) : (w.give wrap q).1.isOk = true := by
  obtain ⟨res, c⟩ := q
  cases hq
  rfl

/-- The operation that returns such an object has succeeded. -/
theorem Makes.isOk {o : Obj} (h : w.Makes op o) (hk : o.writes = some k) :
    (w.step op).1.isOk = true := by
  cases h with
  | handle => cases hk
  | view ok | map ok | lease ok => exact give_isOk ok

/-- Write access that is not checked is given to every live buffer. -/
theorem unchecked_writes {i : Nat} (hi : op.unchecked = some i) (hok : (w.step op).1.isOk = true) :
    ∃ o ∈ (w.next op).objs, ∃ k, o.writes = some k ∧
      (w.handle i).validateAlive w.core = .ok k := by
  cases op with
  | view j offset len access =>
      cases access with
      | read | write => cases hi
      | readWrite =>
          cases hi
          obtain ⟨v, hv, hmem⟩ := give_mem hok
          obtain ⟨haccess, k, hpin, halive, -⟩ := BufferHandle.view_permits hv
          exact ⟨_, hmem, k, by simp [Obj.writes, haccess, hpin], halive⟩
  | map env j access =>
      cases access with
      | read | write => cases hi
      | readWrite =>
          cases hi
          obtain ⟨m, hm, hmem⟩ := give_mem hok
          obtain ⟨haccess, k, hpin, halive, -⟩ := BufferHandle.map_permits hm
          exact ⟨_, hmem, k, by simp [Obj.writes, haccess, hpin], halive⟩
  | acquire kind j =>
      cases kind with
      | read => cases hi
      | write | exclusive =>
          cases hi
          obtain ⟨l, hl, hmem⟩ := give_mem hok
          obtain ⟨hkind, k, hpin, halive⟩ := BufferHandle.acquire_permits hl
          exact ⟨_, hmem, k, by simp [Obj.writes, hkind, hpin], halive⟩
  | _ => cases hi

/-! ## Runs -/

/-- The access mode of a buffer does not change. -/
theorem access_next (hinv : w.RefInv base) (hk : w.core.Alive k)
    (hk' : (w.next op).core.Alive k) :
    ((w.next op).core.control k).record.access = (w.core.control k).record.access := by
  cases (fates hinv op).blocks k hk' with
  | kept _ same => rw [same]
  | moved _ _ _ _ _ same => rw [same]; rfl
  | fresh _ new | reused _ new | wrapped _ new | opened _ new =>
      exact absurd hk.1 (Nat.not_lt_of_le (Nat.le_of_eq new.symm))

/-- No object gives write access to a read-only buffer. -/
def Permitted (w : World) : Prop :=
  ∀ o ∈ w.objs, ∀ k, o.writes = some k → (w.core.control k).record.access ≠ .read

/-- The operation asks for no unchecked write access to a read-only buffer. -/
def AsksInRights (w : World) (op : Op) : Prop :=
  ∀ i, op.unchecked = some i → ∀ k, (w.handle i).ctl = some k →
    (w.core.control k).record.access ≠ .read

theorem writes_alive (hinv : w.RefInv base) {o : Obj} (ho : o ∈ w.objs) (hk : o.writes = some k) :
    w.core.Alive k := by
  obtain ⟨i, hi⟩ := List.mem_iff_getElem?.mp ho
  exact hinv.alive (w.pins_pos hi (Obj.writes_pin hk))

/-- One step keeps the law exactly if it is not a successful request beyond the access mode. -/
theorem permitted_next_iff (hinv : w.RefInv base) (h : w.Permitted) (op : Op) :
    (w.next op).Permitted ↔ w.AsksInRights op ∨ (w.step op).1.isOk = false := by
  -- the mode is that of the state before for every buffer some object writes to
  have hmode : ∀ {o : Obj} {k : CtlId}, o ∈ (w.next op).objs → o.writes = some k →
      w.core.Alive k →
      ((w.next op).core.control k).record.access = (w.core.control k).record.access :=
    fun ho hk halive => access_next hinv halive (writes_alive (hinv.next op) ho hk)
  constructor
  · intro hnext
    cases hok : (w.step op).1.isOk with
    | false => exact Or.inr rfl
    | true =>
        refine Or.inl fun i hi k hctl => ?_
        obtain ⟨o, ho, j, hwrites, hvalid⟩ := unchecked_writes hi hok
        have hlive := BufferHandle.validateAlive_ok_iff.mp hvalid
        obtain rfl : k = j := Option.some.inj (hctl.symm.trans hlive.ctl)
        rw [← hmode ho hwrites (hinv.alive (handle_alive hinv hvalid).1)]
        exact hnext o ho k hwrites
  · intro hcond o ho k hk
    rcases hinv.comes ho with hold | hempty | hmade
    · rw [hmode ho hk (writes_alive hinv hold hk)]
      exact h o hold k hk
    · have hpin := hempty.pin
      rw [Obj.writes_pin hk] at hpin
      cases hpin
    · obtain ⟨i, hvalid, hcheck⟩ := hmade.writes hk
      rw [hmode ho hk (hinv.alive (handle_alive hinv hvalid).1)]
      rcases hcheck with hallowed | hunchecked
      · exact hallowed
      · rcases hcond with hasks | hfail
        · exact hasks i hunchecked k (BufferHandle.validateAlive_ok_iff.mp hvalid).ctl
        · exact absurd (hmade.isOk hk) (Bool.eq_false_iff.mp hfail)

theorem permitted_reach {cfg : RuntimeConfig} {plat : RuntimeImpl.Platform}
    (hreach : Reach World.next World.AsksInRights (World.init cfg plat) w) : w.Permitted := by
  refine hreach.invariant_of (I := fun w => w.Permitted) (K := fun w => w.RefInv [])
    (fun _ h => refInv_reach h) ?_ (fun v op hinv h hok => ?_)
  · exact fun o ho => by cases ho
  · exact (permitted_next_iff hinv h op).mpr (Or.inl hok)

/-- Everything that is outstanding on the buffer is for reading. -/
structure OnlyRead (w : World) (k : CtlId) : Prop where
  maps : ∀ m, .map m ∈ w.objs → m.ctl = some k → m.access = .read
  views : ∀ v, .view v ∈ w.objs → v.ctl = some k → v.access = .read
  leases : ∀ l, .lease l ∈ w.objs → l.ctl = some k → l.kind = .read

theorem permitted_iff (w : World) :
    w.Permitted ↔ ∀ k, (w.core.control k).record.access = .read → w.OnlyRead k := by
  constructor
  · intro h k hread
    refine ⟨fun m hm hk => ?_, fun v hv hk => ?_, fun l hl hk => ?_⟩
    · by_contra hne
      exact h _ hm k (by simp [Obj.writes, hne, hk]) hread
    · by_contra hne
      exact h _ hv k (by simp [Obj.writes, hne, hk]) hread
    · by_contra hne
      exact h _ hl k (by simp [Obj.writes, hne, hk]) hread
  · intro h o ho k hk hread
    have hpin := Obj.writes_pin hk
    cases o with
    | handle => cases hk
    | lease l => simp [Obj.writes, (h k hread).leases l ho hpin] at hk
    | map m => simp [Obj.writes, (h k hread).maps m ho hpin] at hk
    | view v => simp [Obj.writes, (h k hread).views v ho hpin] at hk

end World

/-- **Read-only buffers.** In every run without a request for `READ_WRITE` maps and views or for
write and exclusive leases on a read-only buffer, everything outstanding on such a buffer is for
reading. The next operation keeps this exactly if it is no such request that succeeds. `copy_from`
on a read-only buffer always fails and changes nothing. -/
theorem readonly_outstanding {cfg : RuntimeConfig} {plat : RuntimeImpl.Platform} {w : World}
    (hreach : Reach World.next World.AsksInRights (World.init cfg plat) w) :
    (∀ k, (w.core.control k).record.access = .read → w.OnlyRead k) ∧
      (∀ op, (∀ k, ((w.next op).core.control k).record.access = .read → (w.next op).OnlyRead k) ↔
        w.AsksInRights op ∨ (w.step op).1.isOk = false) ∧
      ∀ (c : Core) (h : BufferHandle) (k : CtlId), h.ctl = some k →
        (c.control k).record.access = .read → ∀ env src srcOffset len,
          ∃ e, h.copyFrom c env src srcOffset len = (.error e, c) := by
  have hpermitted := World.permitted_reach hreach
  refine ⟨(World.permitted_iff w).mp hpermitted, fun op => ?_, ?_⟩
  · rw [← World.permitted_iff]
    exact World.permitted_next_iff (World.refInv_reach hreach) hpermitted op
  · exact fun c h k hctl hread => BufferHandle.copyFrom_readonly hctl hread

def readPage : World :=
  runs World.next (World.init {} {})
    [.allocate (.findsAt 4096) { size := 4096, access := .read }, .map {} 0 .read]

/-- The theorem at work: the map of the page is for reading, and a second one for both would break
the law. -/
theorem readonly_outstanding_readPage :
    (readPage.core.control 0).record.access = .read ∧
      (readPage.core.control 0).record.mapCount = 1 ∧ readPage.OnlyRead 0 ∧
      ¬ ∀ k, ((readPage.next (.map {} 0 .readWrite)).core.control k).record.access = .read →
        (readPage.next (.map {} 0 .readWrite)).OnlyRead k := by
  have hreach : Reach World.next World.AsksInRights (World.init {} {}) readPage :=
    reach_runs .start ⟨fun i hi => (by cases hi), fun i hi => (by cases hi), trivial⟩
  have h := readonly_outstanding hreach
  refine ⟨by decide, by decide, h.1 0 (by decide), fun hall => ?_⟩
  rcases (h.2.1 (.map {} 0 .readWrite)).mp hall with hasks | hfail
  · exact hasks 0 rfl 0 (by decide) (by decide)
  · exact absurd hfail (by decide)

/-- A read-only page is mapped and viewed for reading and writing, and leased for writing. -/
theorem readonly_page_written :
    let w := runs World.next (World.init {} {})
      [.allocate (.findsAt 4096) { size := 4096, access := .read }, .map {} 0 .readWrite,
        .view 0 0 16 .readWrite, .acquire .write 0]
    (w.core.control 0).record.access = .read ∧
      w.objs.tail = [.map { rt := true, ctl := some 0, gen := 1, access := .readWrite,
                            data := 4096 },
        .view { rt := true, ctl := some 0, gen := 1, off := 0, len := 16, access := .readWrite,
                data := 4096 },
        .lease { rt := true, ctl := some 0, gen := 1, kind := .write }] := by
  decide

end UnifiedBuffer
