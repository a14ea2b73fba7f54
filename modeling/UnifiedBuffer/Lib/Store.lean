import Mathlib.Data.List.Basic
import UnifiedBuffer.Lib.Run

set_option autoImplicit false

/-! # Stores of arrays

A store holds arrays under names. A client creates an array, writes or reads a range of it, asks for
a digest of it, and drops it. `Store.Event` is what the client sees of one of these, data included,
`Store.apply` what it does to the store, and `Store.Allowed` says which events the store admits: a
read must return what is there.

Nothing but a name and a position decides what is read. `Store.read_write` says so of a whole
history: a read returns, at each position, what the last write to this position has put there. -/

namespace Lib

/-- Arrays under names. -/
abbrev Store (K B : Type) : Type := K → Option (List B)

namespace Store

/-- What a client does to a store, with the data that it passes or gets. -/
inductive Event (K B D : Type) where
  | create (k : K) (data : List B)
  /-- the items from `offset` on are overwritten -/
  | write (k : K) (offset : Nat) (data : List B)
  | read (k : K) (offset : Nat) (data : List B)
  | digest (k : K) (value : D)
  | drop (k : K)
  deriving DecidableEq

variable {K B D : Type} [DecidableEq K]

/-- The array with other items from `offset` on. -/
def overwrite (old : List B) (offset : Nat) (data : List B) : List B :=
  old.take offset ++ (data ++ old.drop (offset + data.length))

def apply (s : Store K B) : Event K B D → Store K B
  | .create k data => Function.update s k (some data)
  | .write k offset data => Function.update s k ((s k).map (overwrite · offset data))
  | .drop k => Function.update s k none
  | _ => s

/-- The events that a store admits, for a digest function. -/
def Allowed (sum : List B → D) (s : Store K B) : Event K B D → Prop
  | .create k _ => s k = none
  | .write k offset data => ∃ old, s k = some old ∧ offset + data.length ≤ old.length
  | .read k offset data => ∃ old, s k = some old ∧ data <+: old.drop offset
  | .digest k value => ∃ old, s k = some old ∧ sum old = value
  | .drop k => ∃ old, s k = some old

/-- The event ends the array `k`, begins it, or puts something at position `i` of it. -/
def Event.Touches (k : K) (i : Nat) : Event K B D → Prop
  | .create j _ => j = k
  | .write j offset data => j = k ∧ offset ≤ i ∧ i < offset + data.length
  | .drop j => j = k
  | _ => False

theorem apply_write_self {s : Store K B} {k : K} {old : List B} (h : s k = some old) (offset : Nat)
    (data : List B) :
    s.apply (.write k offset data : Event K B D) k = some (overwrite old offset data) := by
  show Function.update s k ((s k).map (overwrite · offset data)) k = _
  rw [Function.update_self, h, Option.map_some]

section Overwrite

variable {old data : List B} {offset i : Nat}

theorem overwrite_inside (hroom : offset ≤ old.length) (h : offset ≤ i)
    (h' : i < offset + data.length) : (overwrite old offset data)[i]? = data[i - offset]? := by
  have hlen : (old.take offset).length = offset := by
    rw [List.length_take]
    omega
  rw [overwrite, List.getElem?_append_right (hlen.trans_le h), hlen]
  exact List.getElem?_append_left (by omega)

theorem overwrite_outside (hroom : offset ≤ old.length) (h : i < offset ∨ offset + data.length ≤ i) :
    (overwrite old offset data)[i]? = old[i]? := by
  have hlen : (old.take offset).length = offset := by
    rw [List.length_take]
    omega
  rw [overwrite]
  rcases h with hbefore | hbehind
  · rw [List.getElem?_append_left (hlen.symm ▸ hbefore), List.getElem?_take_of_lt hbefore]
  · rw [List.getElem?_append_right (by omega), hlen, List.getElem?_append_right (by omega),
      List.getElem?_drop]
    congr 1
    omega

/-- An array that differs from another in a range at most is the other, overwritten there. -/
theorem eq_overwrite {new : List B} (hroom : offset + data.length ≤ old.length)
    (hin : ∀ i < data.length, new[offset + i]? = data[i]?)
    (hout : ∀ i, i < offset ∨ offset + data.length ≤ i → new[i]? = old[i]?) :
    new = overwrite old offset data := by
  have hoffset : offset ≤ old.length := by omega
  refine List.ext_getElem? fun i => ?_
  by_cases hi : offset ≤ i ∧ i < offset + data.length
  · have hget := hin (i - offset) (by omega)
    rw [Nat.add_sub_cancel' hi.1] at hget
    rw [overwrite_inside hoffset hi.1 hi.2, hget]
  · rw [overwrite_outside hoffset (by omega), hout i (by omega)]

end Overwrite

variable {sum : List B → D} {s : Store K B} {k : K} {i : Nat}

/-- One event that does not touch the position. -/
theorem apply_untouched {e : Event K B D} (hallowed : s.Allowed sum e) (he : ¬ e.Touches k i)
    {old : List B} (hold : s k = some old) :
    ∃ new, s.apply e k = some new ∧ new[i]? = old[i]? := by
  cases e with
  | read | digest => exact ⟨old, hold, rfl⟩
  | create j data | drop j =>
      -- another array begins or ends
      exact ⟨old, (Function.update_of_ne (Ne.symm he) _ _).trans hold, rfl⟩
  | write j offset data =>
      by_cases hj : j = k
      · subst hj
        obtain ⟨found, hfound, hroom⟩ := hallowed
        obtain rfl : found = old := Option.some.inj (hfound.symm.trans hold)
        have hout : i < offset ∨ offset + data.length ≤ i := by
          by_contra hin
          exact he ⟨rfl, by omega, by omega⟩
        exact ⟨_, apply_write_self hold offset data, overwrite_outside (by omega) hout⟩
      · exact ⟨old, (Function.update_of_ne (Ne.symm hj) _ _).trans hold, rfl⟩

/-- A history that does not touch the position. -/
theorem runs_untouched {es : List (Event K B D)} (hes : Along apply (Allowed sum) s es)
    (hno : ∀ e ∈ es, ¬ e.Touches k i) {old : List B} (hold : s k = some old) :
    ∃ new, runs apply s es k = some new ∧ new[i]? = old[i]? := by
  induction es generalizing s old with
  | nil => exact ⟨old, hold, rfl⟩
  | cons e es ih =>
      obtain ⟨new, hnew, hget⟩ := apply_untouched hes.1 (hno e List.mem_cons_self) hold
      obtain ⟨last, hlast, hget'⟩ :=
        ih hes.2 (fun e' he' => hno e' (List.mem_cons_of_mem e he')) hnew
      exact ⟨last, hlast, hget'.trans hget⟩

/-- What is written is read: a read returns at position `i` what the last write that covers the
position has put there. -/
theorem read_write {offset offset' : Nat} {data data' : List B} {es : List (Event K B D)}
    (h : Along apply (Allowed sum) s (.write k offset data :: es ++ [.read k offset' data']))
    (hno : ∀ e ∈ es, ¬ e.Touches k i) (hi : offset ≤ i ∧ i < offset + data.length)
    (hi' : offset' ≤ i ∧ i < offset' + data'.length) :
    data'[i - offset']? = data[i - offset]? := by
  obtain ⟨⟨old, hold, hroom⟩, hrest⟩ := h
  obtain ⟨hes, hread⟩ := Along.append_iff.mp hrest
  obtain ⟨new, hnew, hget⟩ := runs_untouched hes hno (apply_write_self hold offset data)
  obtain ⟨⟨found, hfound, rest, hbegins⟩, -⟩ := hread
  obtain rfl : found = new := Option.some.inj (hfound.symm.trans hnew)
  calc data'[i - offset']? = (data' ++ rest)[i - offset']? :=
        (List.getElem?_append_left (by omega)).symm
    _ = found[i]? := by rw [hbegins, List.getElem?_drop, Nat.add_sub_cancel' hi'.1]
    _ = (overwrite old offset data)[i]? := hget
    _ = data[i - offset]? := overwrite_inside (by omega) hi.1 hi.2

/-! ## Names that are given once -/

/-- The names that an event begins an array under. -/
def Event.created : Event K B D → List K
  | .create k _ => [k]
  | _ => []

/-- A store that keeps a list of the names it has given. -/
def applyOnce (s : Store K B × List K) (e : Event K B D) : Store K B × List K :=
  (s.1.apply e, s.2 ++ e.created)

/-- What a store admits that gives no name twice, not even a name whose array was dropped. -/
def AllowedOnce (sum : List B → D) (s : Store K B × List K) (e : Event K B D) : Prop :=
  s.1.Allowed sum e ∧ ∀ k ∈ e.created, k ∉ s.2

end Store

end Lib
