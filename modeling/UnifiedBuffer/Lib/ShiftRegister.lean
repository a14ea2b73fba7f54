import Mathlib.Logic.Function.Iterate
import Mathlib.Tactic

set_option autoImplicit false

/-! # Shift registers with linear feedback

A register of `w` bits with feedback word `p` is shifted towards its low end; when the bit that
leaves is set, `p` is added. Feeding a message means adding each bit to the low end before the
shift. This is division of polynomials over the field of two elements, with the bits of the
register in reverse order.

The register is the list of the next `w` bits it is going to test: feeding at most `w` bits is
the same as loading all of them and then shifting (`feeds_eq_iterate`). Two facts follow. A
message can be divided a few bits at a time (`iterate_shift_split`), and if the feedback word has
its top bit set then two messages that differ within `w` consecutive bits leave different
registers (`feeds_inj_of_window`). -/

namespace Lib

variable {w : Nat} (p : BitVec w)

def shift (s : BitVec w) : BitVec w := if s.getLsbD 0 then p ^^^ (s >>> 1) else s >>> 1

def feed (s : BitVec w) (b : Bool) : BitVec w := shift p (s ^^^ (BitVec.ofBool b).setWidth w)

def feeds (s : BitVec w) (bits : List Bool) : BitVec w := bits.foldl (feed p) s

/-! ## Linearity -/

theorem getLsbD_shift (s : BitVec w) (i : Nat) :
    (shift p s).getLsbD i = ((s.getLsbD 0 && p.getLsbD i) ^^ s.getLsbD (i + 1)) := by
  unfold shift
  cases s.getLsbD 0 <;> simp [Nat.add_comm 1 i]

theorem shift_xor (a b : BitVec w) : shift p (a ^^^ b) = shift p a ^^^ shift p b := by
  apply BitVec.eq_of_getLsbD_eq
  intro i _
  simp only [getLsbD_shift, BitVec.getLsbD_xor]
  cases a.getLsbD 0 <;> cases b.getLsbD 0 <;> cases p.getLsbD i <;>
    cases a.getLsbD (i + 1) <;> cases b.getLsbD (i + 1) <;> rfl

theorem iterate_shift_xor (n : Nat) (a b : BitVec w) :
    (shift p)^[n] (a ^^^ b) = (shift p)^[n] a ^^^ (shift p)^[n] b := by
  induction n generalizing a b with
  | zero => rfl
  | succ n ih => simp only [Function.iterate_succ, Function.comp_apply, shift_xor, ih]

/-- Bits above the low end only move down. -/
theorem shift_of_low_clear {s : BitVec w} (h : s.getLsbD 0 = false) : shift p s = s >>> 1 := by
  unfold shift
  rw [h]
  rfl

theorem iterate_shift_of_low_clear (n : Nat) (s : BitVec w)
    (h : ∀ i < n, s.getLsbD i = false) : (shift p)^[n] s = s >>> n := by
  induction n with
  | zero => simp
  | succ n ih =>
      have hlow : (s >>> n).getLsbD 0 = false := by simpa using h n (Nat.lt_succ_self n)
      rw [Function.iterate_succ_apply', ih fun i hi => h i (Nat.lt_succ_of_lt hi),
        shift_of_low_clear p hlow, BitVec.shiftRight_add]

/-- `n` shifts: those of the low `n` bits alone, and the other bits moved down. -/
theorem iterate_shift_split (n : Nat) (s : BitVec w) :
    (shift p)^[n] s = (shift p)^[n] ((s.setWidth n).setWidth w) ^^^ (s >>> n) := by
  -- the part of `s` above its low `n` bits
  have hhigh : (shift p)^[n] (s ^^^ (s.setWidth n).setWidth w) = s >>> n := by
    rw [iterate_shift_of_low_clear]
    · apply BitVec.eq_of_getLsbD_eq
      intro i hi
      simp
    · intro i hi
      have hlt : s.getLsbD i = true → i < w := BitVec.lt_of_getLsbD
      simpa [hi] using hlt
  rw [← hhigh, ← iterate_shift_xor]
  congr 1
  rw [BitVec.xor_comm, BitVec.xor_assoc, BitVec.xor_self, BitVec.xor_zero]

/-! ## Loading a message -/

/-- The message in the low bits of a register, first bit lowest. -/
def load (w : Nat) : List Bool → BitVec w
  | [] => 0
  | b :: bits => (BitVec.ofBool b).setWidth w ^^^ (load w bits <<< 1)

theorem getLsbD_load (bits : List Bool) (i : Nat) :
    (load w bits).getLsbD i = (decide (i < w) && bits.getD i false) := by
  induction bits generalizing i with
  | nil => simp [load]
  | cons b bits ih =>
      cases i with
      | zero => simp [load]
      | succ i =>
          have hcons : (b :: bits).getD (i + 1) false = bits.getD i false := rfl
          rw [load, BitVec.getLsbD_xor, BitVec.getLsbD_shiftLeft, Nat.add_sub_cancel, ih, hcons]
          by_cases hi : i + 1 < w
          · simp [hi, Nat.lt_of_succ_lt hi]
          · simp [hi]

theorem load_inj {xs ys : List Bool} (hlen : xs.length = ys.length) (hw : xs.length ≤ w)
    (h : load w xs = load w ys) : xs = ys := by
  apply List.ext_getElem hlen
  intro i hx hy
  have hbit : (load w xs).getLsbD i = (load w ys).getLsbD i := by rw [h]
  rw [getLsbD_load, getLsbD_load] at hbit
  simpa [hx, hy, Nat.lt_of_lt_of_le hx hw] using hbit

/-- Feeding a message that fits in the register is loading it and shifting. -/
theorem feeds_eq_iterate (s : BitVec w) (bits : List Bool) (hw : bits.length ≤ w) :
    feeds p s bits = (shift p)^[bits.length] (s ^^^ load w bits) := by
  induction bits generalizing s with
  | nil => simp [feeds, load]
  | cons b bits ih =>
      rw [List.length_cons] at hw
      -- the rest of the message, loaded one place higher, comes down by the first shift
      have hrest : shift p (load w bits <<< 1) = load w bits := by
        rw [shift_of_low_clear p (by simp)]
        apply BitVec.eq_of_getLsbD_eq
        intro i hi
        rw [BitVec.getLsbD_ushiftRight, BitVec.getLsbD_shiftLeft, Nat.add_sub_cancel_left]
        by_cases hlast : 1 + i < w
        · simp [hlast]
        · have hout : bits[i]? = none := List.getElem?_eq_none (by omega)
          rw [getLsbD_load]
          simp [hlast, hout]
      calc feeds p s (b :: bits) = feeds p (feed p s b) bits := rfl
        _ = (shift p)^[bits.length] (feed p s b ^^^ load w bits) := ih _ (by omega)
        _ = (shift p)^[bits.length] (shift p (s ^^^ load w (b :: bits))) := by
            rw [load, ← BitVec.xor_assoc, shift_xor, hrest, feed]

/-! ## Detecting a burst -/

section Detect
variable {p} (hp : p.msb = true)

include hp

theorem shift_eq_zero {s : BitVec w} (h : shift p s = 0) : s = 0 := by
  have hbits : ∀ i, ((s.getLsbD 0 && p.getLsbD i) ^^ s.getLsbD (i + 1)) = false := by
    intro i
    rw [← getLsbD_shift, h]
    simp
  -- the bit that left is the top bit of the result
  have hlow : s.getLsbD 0 = false := by
    have htop := hbits (w - 1)
    rw [← BitVec.msb_eq_getLsbD_last, hp, BitVec.getLsbD_of_ge s (w - 1 + 1) (by omega)] at htop
    simpa using htop
  apply BitVec.eq_of_getLsbD_eq
  intro i _
  cases i with
  | zero => simpa using hlow
  | succ i => simpa [hlow] using hbits i

theorem shift_injective : Function.Injective (shift p) := by
  intro a b h
  have hzero : shift p (a ^^^ b) = 0 := by rw [shift_xor, h, BitVec.xor_self]; rfl
  exact BitVec.xor_eq_zero_iff.mp (shift_eq_zero hp hzero)

theorem feeds_injective (bits : List Bool) : Function.Injective (fun s => feeds p s bits) := by
  induction bits with
  | nil => exact fun _ _ h => h
  | cons b bits ih =>
      intro s t h
      have hfeed : feed p s b = feed p t b := ih h
      exact (BitVec.xor_left_inj _).mp (shift_injective hp hfeed)

/-- Messages of one length that agree outside a window of `w` bits and leave the same register
are equal. -/
theorem feeds_inj_of_window {s : BitVec w} {xs ys : List Bool} (hlen : xs.length = ys.length)
    {j : Nat} (hwin : ∀ i, ¬ (j ≤ i ∧ i < j + w) → xs[i]? = ys[i]?)
    (h : feeds p s xs = feeds p s ys) : xs = ys := by
  have hpre : xs.take j = ys.take j := by
    apply List.ext_getElem?
    intro i
    by_cases hi : i < j
    · simpa [hi] using hwin i (by omega)
    · simp [hi]
  have hpost : xs.drop (j + w) = ys.drop (j + w) := by
    apply List.ext_getElem?
    intro i
    simpa using hwin (j + w + i) (by omega)
  have hcut : ∀ l : List Bool, l = l.take j ++ ((l.drop j).take w ++ l.drop (j + w)) := by
    intro l
    rw [← List.drop_drop, List.take_append_drop, List.take_append_drop]
  -- the window of each message, fed to the register the common first part leaves
  have hmid : feeds p (feeds p s (xs.take j)) ((xs.drop j).take w) =
      feeds p (feeds p s (xs.take j)) ((ys.drop j).take w) := by
    rw [hcut xs, hcut ys, ← hpre, ← hpost] at h
    simp only [feeds, List.foldl_append] at h
    exact feeds_injective hp _ h
  have hwlen : ((xs.drop j).take w).length = ((ys.drop j).take w).length := by simp [hlen]
  have hwx : ((xs.drop j).take w).length ≤ w := by simp
  generalize feeds p s (xs.take j) = t at hmid
  rw [feeds_eq_iterate p t _ hwx, feeds_eq_iterate p t _ (hwlen ▸ hwx), hwlen] at hmid
  have hload := (shift_injective hp).iterate _ hmid
  have hwindow := load_inj hwlen hwx ((BitVec.xor_right_inj _).mp hload)
  rw [hcut xs, hcut ys, hpre, hwindow, hpost]

end Detect

end Lib
