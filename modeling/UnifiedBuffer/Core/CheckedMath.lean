import Mathlib.Tactic

set_option autoImplicit false

/-! # Checked arithmetic

The overflow-safe helpers of `core/checked_math.hpp`. `size_t` has 64 bits. The out-parameter of
`add_overflow` and `mul_overflow` is the value of an option, which is empty on overflow.

The last section says that the helpers are exact: they compute on words what the numbers ask for,
and refuse only what no word can hold. -/

namespace UnifiedBuffer

def kMaxSizeT : UInt64 := 0xFFFFFFFFFFFFFFFF

/-- `add_overflow`: the sum, or nothing when it overflows. -/
def addOverflow (a b : UInt64) : Option UInt64 :=
  if b > kMaxSizeT - a then none else some (a + b)

/-- `mul_overflow`: the product, or nothing when it overflows. -/
def mulOverflow (a b : UInt64) : Option UInt64 :=
  if a = 0 ∨ b = 0 then some 0
  else if a > kMaxSizeT / b then none
  else some (a * b)

/-- The alignment is a power of two in the sense of the code: `a & (a - 1)` is zero. -/
def isPowerOfTwo (a : UInt64) : Bool := a &&& (a - 1) == 0

/-- `align_up`: the value rounded up to the alignment. -/
def alignUp (value alignment : UInt64) : Option UInt64 :=
  if alignment = 0 then none
  else if ¬ isPowerOfTwo alignment then none
  else if value > kMaxSizeT - (alignment - 1) then none
  else some ((value + (alignment - 1)) &&& ~~~(alignment - 1))

/-- `is_aligned`: is the value a multiple of the alignment, which has to be a power of two. -/
def isAligned (value alignment : UInt64) : Bool :=
  if alignment = 0 then false
  else if ¬ isPowerOfTwo alignment then false
  else value &&& (alignment - 1) == 0

/-- `align_down`: the value rounded down. A zero alignment leaves it, others are not checked. -/
def alignDown (value alignment : UInt64) : UInt64 :=
  if alignment = 0 then value else value &&& ~~~(alignment - 1)

/-- `range_in_bounds`: does `[offset, offset + length)` fit in `[0, total)`. -/
def rangeInBounds (offset length total : UInt64) : Bool :=
  match addOverflow offset length with
  | none => false
  | some last => last ≤ total

/-! ## As numbers -/

theorem toNat_kMaxSizeT_sub (a : UInt64) : (kMaxSizeT - a).toNat = 2 ^ 64 - 1 - a.toNat := by
  have hmax : kMaxSizeT.toNat = 18446744073709551615 := by simp [kMaxSizeT]
  have hlt := a.toNat_lt
  have hle : a ≤ kMaxSizeT := by
    rw [UInt64.le_iff_toNat_le, hmax]
    omega
  rw [UInt64.toNat_sub_of_le _ _ hle, hmax]
  omega

theorem addOverflow_eq_some {a b last : UInt64} (h : addOverflow a b = some last) :
    last.toNat = a.toNat + b.toNat := by
  have hlt := a.toNat_lt
  by_cases hfits : b > kMaxSizeT - a
  · rw [addOverflow, if_pos hfits] at h
    cases h
  · rw [addOverflow, if_neg hfits] at h
    cases h
    rw [gt_iff_lt, UInt64.not_lt, UInt64.le_iff_toNat_le, toNat_kMaxSizeT_sub] at hfits
    rw [UInt64.toNat_add]
    omega

theorem addOverflow_of_lt {a b : UInt64} (h : a.toNat + b.toNat < 2 ^ 64) :
    addOverflow a b = some (a + b) := by
  have hfits : ¬ b > kMaxSizeT - a := by
    rw [gt_iff_lt, UInt64.not_lt, UInt64.le_iff_toNat_le, toNat_kMaxSizeT_sub]
    omega
  rw [addOverflow, if_neg hfits]

/-- The definition as an equation of functions: applied to words, it must not be unfolded, since
that would evaluate the sum. -/
theorem rangeInBounds_def : rangeInBounds = fun offset length total =>
    match addOverflow offset length with
    | none => false
    | some last => decide (last ≤ total) := rfl

/-- A range that `range_in_bounds` accepts ends within the total, also as a number. -/
theorem rangeInBounds_le {offset length total : UInt64}
    (h : rangeInBounds offset length total = true) :
    offset.toNat + length.toNat ≤ total.toNat := by
  rw [rangeInBounds_def] at h
  beta_reduce at h
  cases hsum : addOverflow offset length with
  | none =>
      rw [hsum] at h
      cases h
  | some last =>
      rw [hsum] at h
      have hle : last ≤ total := by simpa using h
      rw [UInt64.le_iff_toNat_le, addOverflow_eq_some hsum] at hle
      exact hle

theorem rangeInBounds_of_le {offset length total : UInt64}
    (h : offset.toNat + length.toNat ≤ total.toNat) : rangeInBounds offset length total = true := by
  have hlt := total.toNat_lt
  have hsum := addOverflow_of_lt (Nat.lt_of_le_of_lt h hlt)
  have hle : offset + length ≤ total := by
    rw [UInt64.le_iff_toNat_le, addOverflow_eq_some hsum]
    exact h
  rw [rangeInBounds_def]
  beta_reduce
  rw [hsum]
  exact decide_eq_true hle

/-- The other form of the same check: with subtractions, so that nothing wraps. -/
theorem not_outside_iff {offset length total : UInt64} :
    ¬ (offset > total ∨ length > total - offset) ↔
      offset.toNat + length.toNat ≤ total.toNat := by
  rw [not_or, UInt64.not_lt, UInt64.not_lt]
  constructor
  · rintro ⟨hoffset, hlength⟩
    rw [UInt64.le_iff_toNat_le, UInt64.toNat_sub_of_le _ _ hoffset] at hlength
    rw [UInt64.le_iff_toNat_le] at hoffset
    omega
  · intro hle
    have hoffset : offset ≤ total := UInt64.le_iff_toNat_le.mpr (by omega)
    refine ⟨hoffset, ?_⟩
    rw [UInt64.le_iff_toNat_le, UInt64.toNat_sub_of_le _ _ hoffset]
    omega

/-! ## Masks

For a power of two `2 ^ k`, the word `2 ^ k - 1` masks the remainder of a division by it. -/

/-- The bits of `m` and the other bits of a word add up to the word. -/
theorem toNat_and_not_add (x m : UInt64) : (x &&& ~~~m).toNat + (x &&& m).toNat = x.toNat := by
  have hdisj : (x.toBitVec &&& ~~~m.toBitVec) &&& (x.toBitVec &&& m.toBitVec) = 0#64 := by
    ext i hi
    simp only [BitVec.getElem_and, BitVec.getElem_not, BitVec.getElem_zero]
    grind
  have hor : (x.toBitVec &&& ~~~m.toBitVec) ||| (x.toBitVec &&& m.toBitVec) = x.toBitVec := by
    ext i hi
    simp only [BitVec.getElem_and, BitVec.getElem_not, BitVec.getElem_or]
    grind
  have hadd := BitVec.toNat_add_of_and_eq_zero hdisj
  rw [BitVec.add_eq_or_of_and_eq_zero _ _ hdisj, hor] at hadd
  rw [← UInt64.toNat_toBitVec, ← UInt64.toNat_toBitVec (x &&& m), ← UInt64.toNat_toBitVec x,
    UInt64.toBitVec_and, UInt64.toBitVec_and, UInt64.toBitVec_not]
  exact hadd.symm

theorem isPowerOfTwo_iff {a : UInt64} (ha : a ≠ 0) :
    isPowerOfTwo a = true ↔ ∃ k, a.toNat = 2 ^ k := by
  have hzero : a.toNat ≠ 0 := fun h => ha (UInt64.toNat_inj.mp h)
  have hpred : (a - 1).toNat = a.toNat - 1 :=
    UInt64.toNat_sub_of_le a 1 (UInt64.le_iff_toNat_le.mpr (Nat.one_le_iff_ne_zero.mpr hzero))
  rw [isPowerOfTwo, beq_iff_eq, ← UInt64.toNat_inj, UInt64.toNat_and, hpred]
  exact Nat.and_sub_one_eq_zero_iff_isPowerOfTwo hzero

section PowerOfTwo

variable {a : UInt64} {k : Nat} (hk : a.toNat = 2 ^ k)

include hk

theorem ne_zero_of_pow : a ≠ 0 := by
  rintro rfl
  exact absurd hk.symm (Nat.two_pow_pos k).ne'

theorem isPowerOfTwo_of_pow : isPowerOfTwo a = true :=
  (isPowerOfTwo_iff (ne_zero_of_pow hk)).mpr ⟨k, hk⟩

theorem toNat_mask : (a - 1).toNat = 2 ^ k - 1 := by
  have hle : (1 : UInt64) ≤ a := by
    rw [UInt64.le_iff_toNat_le, hk]
    exact Nat.one_le_two_pow
  rw [UInt64.toNat_sub_of_le a 1 hle, hk]
  rfl

theorem toNat_and_mask (x : UInt64) : (x &&& (a - 1)).toNat = x.toNat % 2 ^ k := by
  rw [UInt64.toNat_and, toNat_mask hk, Nat.and_two_pow_sub_one_eq_mod]

theorem toNat_and_not_mask (x : UInt64) :
    (x &&& ~~~(a - 1)).toNat = x.toNat / 2 ^ k * 2 ^ k := by
  have hsum := toNat_and_not_add x (a - 1)
  rw [toNat_and_mask hk] at hsum
  have hdiv := Nat.div_add_mod' x.toNat (2 ^ k)
  omega

end PowerOfTwo

/-! ## Rounding up -/

/-- `align_up` answers when the sum of its value and its mask fits, with the multiple below that
sum. -/
theorem alignUp_eq_some {value alignment up : UInt64} (h : alignUp value alignment = some up) :
    ∃ k, alignment.toNat = 2 ^ k ∧ up.toNat = (value.toNat + (2 ^ k - 1)) / 2 ^ k * 2 ^ k := by
  unfold alignUp at h
  split at h
  · cases h
  rename_i hne
  split at h
  · cases h
  rename_i hpow
  split at h
  · cases h
  rename_i hfits
  cases h
  obtain ⟨k, hk⟩ := (isPowerOfTwo_iff hne).mp (not_not.mp hpow)
  rw [gt_iff_lt, UInt64.not_lt, UInt64.le_iff_toNat_le, toNat_kMaxSizeT_sub] at hfits
  have hmask := (alignment - 1).toNat_lt
  refine ⟨k, hk, ?_⟩
  rw [toNat_and_not_mask hk, UInt64.toNat_add, Nat.mod_eq_of_lt (by omega), toNat_mask hk]

/-- The multiple of `d` at or above `v`, computed by division, is the least one. -/
theorem isLeast_multiple (v : Nat) {d : Nat} (hd : 0 < d) :
    IsLeast {m | d ∣ m ∧ v ≤ m} ((v + (d - 1)) / d * d) := by
  have hdiv := Nat.div_add_mod' (v + (d - 1)) d
  have hmod := Nat.mod_lt (v + (d - 1)) hd
  refine ⟨⟨Nat.dvd_mul_left _ _, by omega⟩, ?_⟩
  rintro m ⟨⟨c, rfl⟩, hle⟩
  -- `v + (d - 1) < d * (c + 1)`, so the quotient is at most `c`
  have hlt : (v + (d - 1)) / d < c + 1 := by
    rw [Nat.div_lt_iff_lt_mul hd, Nat.add_mul, Nat.mul_comm c d]
    omega
  rw [Nat.mul_comm d c]
  exact Nat.mul_le_mul_right d (Nat.le_of_lt_succ hlt)

theorem alignUp_isLeast {value alignment up : UInt64} (h : alignUp value alignment = some up) :
    IsLeast {m | alignment.toNat ∣ m ∧ value.toNat ≤ m} up.toNat := by
  obtain ⟨k, hk, hup⟩ := alignUp_eq_some h
  rw [hk, hup]
  exact isLeast_multiple value.toNat (Nat.two_pow_pos k)

/-- Rounding up does not make a value smaller. -/
theorem le_alignUp {value alignment up : UInt64} (h : alignUp value alignment = some up) :
    value ≤ up :=
  UInt64.le_iff_toNat_le.mpr (alignUp_isLeast h).1.2

/-- The rounded value is the next multiple of the alignment. -/
theorem alignUp_spec {value alignment up : UInt64} (h : alignUp value alignment = some up) :
    ∃ k, alignment.toNat = 2 ^ k ∧ 2 ^ k ∣ up.toNat ∧ up.toNat < value.toNat + 2 ^ k := by
  obtain ⟨k, hk, hup⟩ := alignUp_eq_some h
  have hpos := Nat.two_pow_pos k
  have hle := Nat.div_mul_le_self (value.toNat + (2 ^ k - 1)) (2 ^ k)
  exact ⟨k, hk, hup ▸ Nat.dvd_mul_left _ _, by omega⟩

/-- Rounding up stays below every multiple of the alignment that the value stays below. -/
theorem alignUp_le {value alignment up bound : UInt64} (h : alignUp value alignment = some up)
    (hdvd : alignment.toNat ∣ bound.toNat) (hle : value ≤ bound) : up ≤ bound :=
  UInt64.le_iff_toNat_le.mpr ((alignUp_isLeast h).2 ⟨hdvd, UInt64.le_iff_toNat_le.mp hle⟩)

/-- Nothing that a word can hold is refused: a multiple below `2 ^ 64` is at most `2 ^ 64 - 2 ^ k`,
which is where the code draws the line. -/
theorem alignUp_isSome {value alignment : UInt64} {k m : Nat} (hk : alignment.toNat = 2 ^ k)
    (hdvd : 2 ^ k ∣ m) (hle : value.toNat ≤ m) (hlt : m < 2 ^ 64) :
    ∃ up, alignUp value alignment = some up := by
  have hbits : k < 64 := (Nat.pow_lt_pow_iff_right Nat.one_lt_two).mp (hk ▸ alignment.toNat_lt)
  have htop : m + 2 ^ k ≤ 2 ^ 64 := by
    obtain ⟨c, rfl⟩ := hdvd
    have hpow : 2 ^ 64 = 2 ^ k * 2 ^ (64 - k) := by
      rw [← Nat.pow_add, Nat.add_sub_cancel' hbits.le]
    rw [hpow] at hlt ⊢
    have hc : c < 2 ^ (64 - k) := Nat.lt_of_mul_lt_mul_left hlt
    calc 2 ^ k * c + 2 ^ k = 2 ^ k * (c + 1) := by rw [Nat.mul_add, Nat.mul_one]
      _ ≤ 2 ^ k * 2 ^ (64 - k) := Nat.mul_le_mul_left _ hc
  have hfits : ¬ value > kMaxSizeT - (alignment - 1) := by
    rw [gt_iff_lt, UInt64.not_lt, UInt64.le_iff_toNat_le, toNat_kMaxSizeT_sub, toNat_mask hk]
    have hpos := Nat.two_pow_pos k
    omega
  unfold alignUp
  rw [if_neg (ne_zero_of_pow hk), if_neg (not_not.mpr (isPowerOfTwo_of_pow hk)), if_neg hfits]
  exact ⟨_, rfl⟩

/-! ## Exactness -/

theorem addOverflow_eq (a b : UInt64) : addOverflow a b =
    if a.toNat + b.toNat < 2 ^ 64 then some (UInt64.ofNat (a.toNat + b.toNat)) else none := by
  by_cases hlt : a.toNat + b.toNat < 2 ^ 64
  · rw [if_pos hlt, addOverflow_of_lt hlt, UInt64.ofNat_add, UInt64.ofNat_toNat, UInt64.ofNat_toNat]
  · have hfits : b > kMaxSizeT - a := by
      have ha := a.toNat_lt
      rw [gt_iff_lt, UInt64.lt_iff_toNat_lt, toNat_kMaxSizeT_sub]
      omega
    rw [if_neg hlt, addOverflow, if_pos hfits]

theorem mulOverflow_eq (a b : UInt64) : mulOverflow a b =
    if a.toNat * b.toNat < 2 ^ 64 then some (UInt64.ofNat (a.toNat * b.toNat)) else none := by
  unfold mulOverflow
  by_cases hzero : a = 0 ∨ b = 0
  · have hprod : a.toNat * b.toNat = 0 := by
      rcases hzero with rfl | rfl <;> simp
    rw [if_pos hzero, hprod, if_pos (by decide)]
    rfl
  · have hb : 0 < b.toNat := by
      rw [Nat.pos_iff_ne_zero]
      exact fun h => hzero (.inr (UInt64.toNat_inj.mp h))
    have hover : a > kMaxSizeT / b ↔ 2 ^ 64 ≤ a.toNat * b.toNat := by
      have hmax : kMaxSizeT.toNat = 2 ^ 64 - 1 := by decide
      rw [gt_iff_lt, UInt64.lt_iff_toNat_lt, UInt64.toNat_div, hmax, Nat.div_lt_iff_lt_mul hb]
      omega
    rw [if_neg hzero]
    by_cases hlt : a.toNat * b.toNat < 2 ^ 64
    · rw [if_neg (by rw [hover]; omega), if_pos hlt, UInt64.ofNat_mul, UInt64.ofNat_toNat,
        UInt64.ofNat_toNat]
    · rw [if_pos (hover.mpr (by omega)), if_neg hlt]

theorem alignUp_eq_some_iff {value alignment up : UInt64} : alignUp value alignment = some up ↔
    (∃ k, alignment.toNat = 2 ^ k) ∧
      IsLeast {m | alignment.toNat ∣ m ∧ value.toNat ≤ m} up.toNat := by
  constructor
  · intro h
    obtain ⟨k, hk, -⟩ := alignUp_eq_some h
    exact ⟨⟨k, hk⟩, alignUp_isLeast h⟩
  · rintro ⟨⟨k, hk⟩, hleast⟩
    obtain ⟨up', h⟩ := alignUp_isSome hk (hk ▸ hleast.1.1) hleast.1.2 up.toNat_lt
    rw [h, UInt64.toNat_inj.mp ((alignUp_isLeast h).unique hleast)]

theorem alignDown_isGreatest {value alignment : UInt64} {k : Nat} (hk : alignment.toNat = 2 ^ k) :
    IsGreatest {m | alignment.toNat ∣ m ∧ m ≤ value.toNat} (alignDown value alignment).toNat := by
  rw [alignDown, if_neg (ne_zero_of_pow hk), toNat_and_not_mask hk, hk]
  refine ⟨⟨Nat.dvd_mul_left _ _, Nat.div_mul_le_self _ _⟩, ?_⟩
  rintro m ⟨⟨c, rfl⟩, hle⟩
  rw [Nat.mul_comm]
  refine Nat.mul_le_mul_right _ ((Nat.le_div_iff_mul_le (Nat.two_pow_pos k)).mpr ?_)
  rwa [Nat.mul_comm]

theorem isAligned_iff {value alignment : UInt64} {k : Nat} (hk : alignment.toNat = 2 ^ k) :
    isAligned value alignment = true ↔ alignment.toNat ∣ value.toNat := by
  rw [isAligned, if_neg (ne_zero_of_pow hk), if_neg (not_not.mpr (isPowerOfTwo_of_pow hk)),
    beq_iff_eq, ← UInt64.toNat_inj, toNat_and_mask hk, hk, Nat.dvd_iff_mod_eq_zero]
  rfl

theorem rangeInBounds_iff {offset length total : UInt64} :
    rangeInBounds offset length total = true ↔
      offset.toNat + length.toNat ≤ total.toNat :=
  ⟨rangeInBounds_le, rangeInBounds_of_le⟩

/-- The helpers are exact on all words: sums and products come back when they fit and only then;
`align_up` gives the least multiple at or above the value when the alignment is a power of two and
a word holds that multiple, and nothing otherwise; `align_down` gives the greatest multiple at or
below it; `is_aligned` is divisibility; a range is in bounds when its end is, as a number. -/
theorem checked_math_exact :
    (∀ a b : UInt64, addOverflow a b =
      if a.toNat + b.toNat < 2 ^ 64 then some (UInt64.ofNat (a.toNat + b.toNat)) else none) ∧
    (∀ a b : UInt64, mulOverflow a b =
      if a.toNat * b.toNat < 2 ^ 64 then some (UInt64.ofNat (a.toNat * b.toNat)) else none) ∧
    (∀ v a up : UInt64, alignUp v a = some up ↔
      (∃ k, a.toNat = 2 ^ k) ∧ IsLeast {m | a.toNat ∣ m ∧ v.toNat ≤ m} up.toNat) ∧
    (∀ v a : UInt64, (∃ k, a.toNat = 2 ^ k) →
      IsGreatest {m | a.toNat ∣ m ∧ m ≤ v.toNat} (alignDown v a).toNat ∧
      (isAligned v a = true ↔ a.toNat ∣ v.toNat)) ∧
    (∀ o l t : UInt64, rangeInBounds o l t = true ↔ o.toNat + l.toNat ≤ t.toNat) := by
  refine ⟨addOverflow_eq, mulOverflow_eq, fun v a up => alignUp_eq_some_iff, ?_,
    fun o l t => rangeInBounds_iff⟩
  rintro v a ⟨k, hk⟩
  exact ⟨alignDown_isGreatest hk, isAligned_iff hk⟩

theorem checked_math_exact_page : (∃ k, (4096 : UInt64).toNat = 2 ^ k) ∧
    IsGreatest {m | (4096 : UInt64).toNat ∣ m ∧ m ≤ (5000 : UInt64).toNat}
      (alignDown 5000 4096).toNat :=
  ⟨⟨12, rfl⟩, (checked_math_exact.2.2.2.1 5000 4096 ⟨12, rfl⟩).1⟩

end UnifiedBuffer
