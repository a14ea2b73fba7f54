import UnifiedBuffer.Safety.Pointers
import UnifiedBuffer.Safety.Store

set_option autoImplicit false

/-! # Maps and views as windows

A map shows a whole buffer and a view a range of it. While its generation is the current one, a load
through its pointer is a read of the buffer at the place that the window is at, and a store a write
there (`windows_show_buffers`), so all windows, `copy_from` and `copy_to` agree on the contents. -/

namespace UnifiedBuffer

open Lib

/-- What a map or a view shows: `len` bytes from `offset` on of a buffer, at the address `data`. -/
structure Window where
  ctl : CtlId
  gen : BufferGeneration
  data : Nat
  offset : Nat
  len : Nat

/-- The window of a map or a view that is not released. A map has no length of its own. -/
def Obj.window (c : Core) : Obj → Option Window
  | .map m => m.ctl.map fun k => ⟨k, m.gen, m.data, 0, (c.control k).record.size.toNat⟩
  | .view v => v.ctl.map fun k => ⟨k, v.gen, v.data, v.off.toNat, v.len.toNat⟩
  | _ => none

/-- The window is at its place in the buffer unless the generation has moved on. -/
structure Window.Aimed (x : Window) (c : Core) : Prop where
  gen_le : x.gen ≤ (c.control x.ctl).record.generation
  range : x.offset + x.len ≤ (c.control x.ctl).record.size.toNat
  place : x.gen = (c.control x.ctl).record.generation → x.data ≠ 0 →
    x.data = (c.control x.ctl).record.backing.base + x.offset

namespace Obj

theorem window_pin {o : Obj} {c : Core} {x : Window} (h : o.window c = some x) :
    o.pin = some x.ctl := by
  cases o with
  | handle | lease => cases h
  | map m =>
      obtain ⟨k, hk, rfl⟩ := Option.map_eq_some_iff.mp h
      exact hk
  | view v =>
      obtain ⟨k, hk, rfl⟩ := Option.map_eq_some_iff.mp h
      exact hk

/-- A window is what it was as long as no buffer changes its size. -/
theorem window_congr {o : Obj} {c c' : Core} {x : Window} (h : o.window c' = some x)
    (hsize : (c'.control x.ctl).record.size = (c.control x.ctl).record.size) :
    o.window c = some x := by
  cases o with
  | handle | lease => cases h
  | map m =>
      obtain ⟨k, hk, rfl⟩ := Option.map_eq_some_iff.mp h
      refine Option.map_eq_some_iff.mpr ⟨k, hk, ?_⟩
      rw [hsize]
  | view v => exact h

end Obj

namespace World

variable {w : World} {op : Op}

/-- All windows in hand are at their places. -/
def Aimed (w : World) : Prop := ∀ o ∈ w.objs, ∀ x, o.window w.core = some x → x.Aimed w.core

theorem window_alive (hinv : w.RefInv []) {o : Obj} (ho : o ∈ w.objs) {x : Window}
    (hx : o.window w.core = some x) : w.core.Alive x.ctl := by
  obtain ⟨i, hi⟩ := List.mem_iff_getElem?.mp ho
  exact hinv.alive (w.pins_pos hi (Obj.window_pin hx))

/-! ## One action -/

/-- A buffer that lives on has the size it had. -/
theorem size_next (hinv : w.RefInv []) {k : CtlId} (hlt : k < w.core.ctls.length)
    (halive : (w.next op).core.Alive k) :
    ((w.next op).core.control k).record.size = (w.core.control k).record.size := by
  cases (fates hinv op).blocks k halive with
  | kept _ same => rw [same]
  | moved _ _ _ _ _ same =>
      rw [same]
      rfl
  | fresh _ new | reused _ new | wrapped _ new | opened _ new =>
      exact absurd hlt (new ▸ Nat.lt_irrefl _)

/-- A window stays where it is as long as its buffer lives. -/
theorem aimed_next {x : Window} (h : x.Aimed w.core) (hinv : w.RefInv [])
    (hlt : x.ctl < w.core.ctls.length) (halive : (w.next op).core.Alive x.ctl) :
    x.Aimed (w.next op).core := by
  have hsize := size_next hinv hlt halive
  cases (fates hinv op).blocks x.ctl halive with
  | kept _ same =>
      refine ⟨?_, hsize ▸ h.range, ?_⟩
      · rw [same]
        exact h.gen_le
      · rw [same]
        exact h.place
  | moved _ _ _ _ _ same =>
      -- the buffer is elsewhere, and the window is out of date from now on
      have hgen : ((w.next op).core.control x.ctl).record.generation
          = (w.core.control x.ctl).record.generation + 1 := by rw [same]; rfl
      have hle := h.gen_le
      refine ⟨?_, hsize ▸ h.range, fun heq => ?_⟩
      · rw [hgen]
        exact Nat.le_succ_of_le hle
      · rw [hgen] at heq
        exact absurd (heq ▸ hle) (Nat.not_succ_le_self _)
  | fresh _ new | reused _ new | wrapped _ new | opened _ new =>
      exact absurd hlt (new ▸ Nat.lt_irrefl _)

theorem view_aimed {i : Nat} {offset len : UInt64} {access : AccessMode} {v : BufferView}
    (hv : ((w.handle i).view w.core offset len access).1 = .ok v) {x : Window}
    (hx : (Obj.view v).window w.core = some x) : x.Aimed w.core := by
  obtain ⟨k, hk, hctl, hgen, -, hrange, hdata⟩ := view_ok hv
  obtain ⟨hoff, hlen⟩ := view_range hv
  obtain ⟨j, hj, rfl⟩ := Option.map_eq_some_iff.mp hx
  obtain rfl : k = j := Option.some.inj (hctl.symm.trans hj)
  refine ⟨Nat.le_of_eq (hgen.trans (BufferHandle.validateAlive_ok_iff.mp hk).gen), ?_, ?_⟩
  · show v.off.toNat + v.len.toNat ≤ _
    rw [hoff, hlen]
    exact rangeInBounds_le hrange
  · intro _ hnull
    have hnull : v.data ≠ 0 := hnull
    show v.data = _ + v.off.toNat
    rw [hdata] at hnull ⊢
    by_cases hmap : (w.core.control k).record.backing.hostMap ≠ 0
    · have hbase : (w.core.control k).record.backing.base
          = (w.core.control k).record.backing.hostMap := if_pos hmap
      rw [if_pos hmap, hoff, hbase]
    · rw [if_neg hmap] at hnull
      exact absurd rfl hnull

theorem map_aimed {i : Nat} {env : Env} (henv : env.Maps) {access : AccessMode} {m : BufferMap}
    (hm : ((w.handle i).map w.core env access).1 = .ok m) {x : Window}
    (hx : (Obj.map m).window w.core = some x) : x.Aimed w.core := by
  obtain ⟨k, hk, hctl, hgen, hdata⟩ := map_ok hm
  obtain ⟨j, hj, rfl⟩ := Option.map_eq_some_iff.mp hx
  obtain rfl : k = j := Option.some.inj (hctl.symm.trans hj)
  refine ⟨Nat.le_of_eq (hgen.trans (BufferHandle.validateAlive_ok_iff.mp hk).gen), ?_, ?_⟩
  · exact Nat.le_of_eq (Nat.zero_add _)
  · exact fun _ hnull => henv _ _ _ _ hdata hnull

/-- The buffer of a new window was there before. -/
theorem makes_alive (hinv : w.RefInv []) {o : Obj} (hmade : w.Makes op o) {c : Core} {x : Window}
    (hx : o.window c = some x) : w.core.Alive x.ctl := by
  cases hmade with
  | handle | lease => cases hx
  | view ok =>
      obtain ⟨k, hk, hctl, -⟩ := view_ok ok
      obtain ⟨j, hj, rfl⟩ := Option.map_eq_some_iff.mp hx
      obtain rfl : k = j := Option.some.inj (hctl.symm.trans hj)
      exact hinv.alive (handle_alive hinv hk).1
  | map ok =>
      obtain ⟨k, hk, hctl, -⟩ := map_ok ok
      obtain ⟨j, hj, rfl⟩ := Option.map_eq_some_iff.mp hx
      obtain rfl : k = j := Option.some.inj (hctl.symm.trans hj)
      exact hinv.alive (handle_alive hinv hk).1

theorem Aimed.next (h : w.Aimed) (hinv : w.RefInv []) (hop : op.Maps) : (w.next op).Aimed := by
  intro o ho x hx
  have halive := window_alive (hinv.next op) ho hx
  rcases hinv.comes ho with hold | hempty | hmade
  · obtain ⟨i, hi⟩ := List.mem_iff_getElem?.mp hold
    have hlt := (hinv.alive (w.pins_pos hi (Obj.window_pin hx))).1
    exact aimed_next (h o hold x (Obj.window_congr hx (size_next hinv hlt halive))) hinv hlt halive
  · have hpin := hempty.pin
    rw [Obj.window_pin hx] at hpin
    cases hpin
  · have hlt := (makes_alive hinv hmade hx).1
    replace hx := Obj.window_congr hx (size_next hinv hlt halive)
    refine aimed_next ?_ hinv hlt halive
    cases hmade with
    | handle | lease => cases hx
    | view ok => exact view_aimed ok hx
    | map ok => exact map_aimed hop ok hx

/-- The actions that the following is about. -/
def Tidy (w : World) (act : Action) : Prop :=
  w.Discreet act ∧ ∀ op, act = .call op → op.Maps

theorem Aimed.perform (h : w.Aimed) (hinv : w.RefInv []) {act : Action} (hact : w.Tidy act) :
    (w.perform act).Aimed := by
  cases act with
  | call op => exact h.next hinv (hact.2 op rfl)
  | load a n => exact h
  | store a data =>
      intro o ho x hx
      obtain ⟨hle, hrange, hplace⟩ := h o ho x (Obj.window_congr hx rfl)
      exact ⟨hle, hrange, hplace⟩

theorem aimed_reach {cfg : RuntimeConfig} {plat : RuntimeImpl.Platform}
    (hreach : Reach World.perform World.Tidy (World.init cfg plat) w) : w.Orderly ∧ w.Aimed :=
  hreach.invariant (I := fun w => w.Orderly ∧ w.Aimed)
    ⟨.init cfg plat, fun o ho => by cases ho⟩
    (fun _ _ h hact => ⟨h.1.perform hact.1, h.2.perform h.1.refs hact⟩)

/-- The buffer that has a range of bytes is the only one. -/
theorem Orderly.bufferAt_eq (h : w.Orderly) {k : CtlId} {a n : Nat} (hpos : 0 < n)
    (hcovers : w.core.Covers a n k) : w.core.bufferAt a n = some k := by
  have hfound : (w.core.bufferAt a n).isSome :=
    List.find?_isSome.mpr ⟨k, List.mem_range.mpr hcovers.1.1, decide_eq_true hcovers⟩
  obtain ⟨j, hj⟩ := Option.isSome_iff_exists.mp hfound
  have hin : ∀ {l : CtlId}, w.core.Covers a n l → w.core.InBuffer l .host a :=
    fun hl => ⟨hl.2.1.symm, hl.2.2.1, by have := hl.2.2.2; omega⟩
  have hjcovers := Core.bufferAt_covers hj
  by_cases hne : j = k
  · rw [hj, hne]
  · exact absurd (hin hjcovers) (h.not_inBuffer hcovers.1 hjcovers.1 hne (hin hcovers))

end World

/-- **Maps and views show their buffers.** Take any state that a program can reach, and a map or a
view of a buffer in host memory that is held and whose generation is the current one. Each load
through its pointer is a read of this buffer, each store a write to it, at the place of the window
and within its bounds, and such a store is always admissible. -/
theorem windows_show_buffers {cfg : RuntimeConfig} {plat : RuntimeImpl.Platform} {w : World}
    (hreach : Reach World.perform World.Tidy (World.init cfg plat) w) {o : Obj} (ho : o ∈ w.objs)
    {x : Window} (hx : o.window w.core = some x)
    (hgen : x.gen = (w.core.control x.ctl).record.generation) (hdata : x.data ≠ 0)
    (hhost : (w.core.control x.ctl).record.domain ≠ .device) {i n : Nat} (hpos : 0 < n)
    (hi : i + n ≤ x.len) :
    w.traffic (.load (x.data + i) n)
        = [.read x.ctl (x.offset + i) (w.core.hostBytes (x.data + i) n)] ∧
      ∀ data : List UInt8, data.length = n → w.Tidy (.store (x.data + i) data) ∧
        w.traffic (.store (x.data + i) data) = [.write x.ctl (x.offset + i) data] := by
  obtain ⟨horderly, haimed⟩ := World.aimed_reach hreach
  have halive := World.window_alive horderly.refs ho hx
  obtain ⟨-, hrange, hplace⟩ := haimed o ho x hx
  have hplace := hplace hgen hdata
  have hspace : (w.core.control x.ctl).record.domain.space = .host := by
    rw [MemoryDomain.space_eq, if_neg (by simpa using hhost)]
  have hat : w.core.bufferAt (x.data + i) n = some x.ctl :=
    horderly.bufferAt_eq hpos ⟨halive, hspace, by omega, by omega⟩
  have hoffset : x.data + i - (w.core.control x.ctl).record.backing.base = x.offset + i := by omega
  constructor
  · simp only [World.traffic, hat, hoffset]
  · intro data hlen
    refine ⟨⟨Or.inl ?_, fun op heq => by cases heq⟩, ?_⟩
    · rw [hlen, hat]
      rfl
    · simp only [World.traffic, hlen, hat, hoffset]

/-- The theorem at work: the view of the migrated buffer shows its bytes 1 and 2 at address 8193. -/
theorem windows_show_buffers_moved :
    (runs World.perform (World.init {} {}) copiesMovesLooks).traffic (.load (8193 + 1) 1)
      = [.read 0 (1 + 1) [9]] := by
  have hreach : Reach World.perform World.Tidy (World.init {} {})
      (runs World.perform (World.init {} {}) copiesMovesLooks) := by
    refine reach_runs .start (copiesMovesLooks_discreet.and ?_)
    refine ⟨?_, ?_, ?_, ?_, ?_, ?_, trivial⟩ <;> intro op heq <;> cases heq <;> trivial
  exact (windows_show_buffers hreach (List.mem_of_getElem? (i := 2) rfl) (x := ⟨0, 2, 8193, 1, 2⟩)
    rfl rfl (by decide) (by decide) (i := 1) (n := 1) (by decide) (by decide)).1

end UnifiedBuffer
