import UnifiedBuffer.Core.Integrity
import UnifiedBuffer.Lib.ShiftRegister

set_option autoImplicit false

/-! # What `crc32c` computes

The code works a byte at a time with a table of 256 entries. Its meaning is the long division of
the message, least significant bit of each byte first, by the Castagnoli polynomial in a register
that is inverted before and after (`crc32cBitwise`). Both are shift registers in the sense of
`Lib/ShiftRegister.lean`, and what is known there about bursts holds for `crc32c`
(`Burst.crc32c_ne`). -/

namespace UnifiedBuffer

open Lib

/-! ## The table -/

def table : Vector UInt32 256 := Vector.ofFn (fun i => crcEntry i.val.toUInt32)

theorem crcIndex_lt (crc : UInt32) (b : UInt8) : ((crc ^^^ b.toUInt32) &&& 0xFF).toNat < 256 := by
  rw [UInt32.toNat_and]
  exact Nat.lt_of_le_of_lt Nat.and_le_right (by decide)

def crcIndex (crc : UInt32) (b : UInt8) : Fin 256 :=
  ⟨((crc ^^^ b.toUInt32) &&& 0xFF).toNat, crcIndex_lt crc b⟩

/-- The byte step looks its entry up in the table. -/
theorem crcStep_table (crc : UInt32) (b : UInt8) :
    crcStep crc b = table[crcIndex crc b] ^^^ (crc >>> 8) := by
  rw [Fin.getElem_fin]
  simp only [table, crcIndex, Vector.getElem_ofFn, crcStep, Nat.toUInt32_eq, UInt32.ofNat_toNat]

/-! ## The division, one bit at a time -/

/-- The bits of a byte, least significant first. -/
def byteBits (b : UInt8) : List Bool := (List.range 8).map b.toBitVec.getLsbD

/-- The bits of a message in the order of the division. -/
def bitsOf (data : List UInt8) : List Bool := data.flatMap byteBits

/-- One step of the division: the message bit meets the bit that leaves the register, and the
polynomial is subtracted when the two differ. -/
def divideBit (crc : UInt32) (bit : Bool) : UInt32 :=
  if (crc &&& 1 != 0) != bit then (crc >>> 1) ^^^ 0x82F63B78 else crc >>> 1

/-- CRC-32C by the division. -/
def crc32cBitwise (data : List UInt8) (seed : UInt32) : UInt32 :=
  ~~~((bitsOf data).foldl divideBit (~~~seed))

/-- The feedback word of the register. -/
def castagnoli : BitVec 32 := kCrc32cPoly.toBitVec

theorem low_bit_ne_zero (c : UInt32) : (c &&& 1 ≠ 0) ↔ c.toBitVec.getLsbD 0 = true := by
  have hmod : (c &&& 1).toNat = c.toNat % 2 := by
    rw [UInt32.toNat_and]
    exact Nat.and_one_is_mod c.toNat
  rw [ne_eq, ← UInt32.toNat_inj, hmod, BitVec.getLsbD, UInt32.toNat_toBitVec, Nat.testBit_zero,
    decide_eq_true_iff]
  show ¬ c.toNat % 2 = 0 ↔ _
  omega

theorem crcRound_toBitVec (c : UInt32) :
    (crcRound c).toBitVec = shift castagnoli c.toBitVec := by
  unfold crcRound shift
  by_cases hlow : c.toBitVec.getLsbD 0 = true
  · rw [if_pos ((low_bit_ne_zero c).mpr hlow), if_pos hlow]
    rfl
  · rw [if_neg fun h => hlow ((low_bit_ne_zero c).mp h), if_neg hlow]
    rfl

theorem divideBit_toBitVec (crc : UInt32) (bit : Bool) :
    (divideBit crc bit).toBitVec = feed castagnoli crc.toBitVec bit := by
  have hlow : (crc &&& 1 != 0) = crc.toBitVec.getLsbD 0 := by
    rw [Bool.eq_iff_iff, bne_iff_ne]
    exact low_bit_ne_zero crc
  have hout : (crc.toBitVec ^^^ (BitVec.ofBool bit).setWidth 32) >>> 1 = crc.toBitVec >>> 1 := by
    cases bit <;> simp [BitVec.ushiftRight_xor_distrib]
  unfold divideBit feed shift
  rw [hlow, hout, BitVec.getLsbD_xor]
  cases crc.toBitVec.getLsbD 0 <;> cases bit <;> simp [castagnoli, kCrc32cPoly, BitVec.xor_comm]

theorem crcEntry_toBitVec (c : UInt32) :
    (crcEntry c).toBitVec = (shift castagnoli)^[8] c.toBitVec := by
  simp only [crcEntry, crcRound_toBitVec]
  rfl

theorem load_byteBits (b : UInt8) : load 32 (byteBits b) = b.toBitVec.setWidth 32 := by
  apply BitVec.eq_of_getLsbD_eq
  intro i hi
  rw [getLsbD_load, BitVec.getLsbD_setWidth]
  by_cases hbyte : i < 8
  · simp [byteBits, hbyte, hi]
  · simp [byteBits, hbyte, BitVec.getLsbD_of_ge b.toBitVec i (by omega)]

/-- The byte step divides by the eight bits of the byte. -/
theorem crcStep_toBitVec (crc : UInt32) (b : UInt8) :
    (crcStep crc b).toBitVec = feeds castagnoli crc.toBitVec (byteBits b) := by
  have hhigh : (crc.toBitVec ^^^ b.toBitVec.setWidth 32) >>> 8 = crc.toBitVec >>> 8 := by
    apply BitVec.eq_of_getLsbD_eq
    intro i _
    simp
  have hmask : ((crc ^^^ b.toUInt32) &&& 0xFF).toBitVec =
      ((crc.toBitVec ^^^ b.toBitVec.setWidth 32).setWidth 8).setWidth 32 := by
    apply BitVec.eq_of_toNat_eq
    rw [UInt32.toNat_toBitVec, UInt32.toNat_and, BitVec.toNat_setWidth_of_le (by decide),
      BitVec.toNat_setWidth, BitVec.toNat_xor, UInt32.toNat_xor]
    exact Nat.and_two_pow_sub_one_eq_mod _ 8
  rw [feeds_eq_iterate _ _ _ (by simp [byteBits]), load_byteBits,
    show (byteBits b).length = 8 by simp [byteBits], iterate_shift_split, hhigh, crcStep,
    UInt32.toBitVec_xor, crcEntry_toBitVec, hmask]
  rfl

/-- The loop of `crc32c` feeds the message to the register. -/
theorem foldl_crcStep_toBitVec (data : List UInt8) (crc : UInt32) :
    (data.foldl crcStep crc).toBitVec = feeds castagnoli crc.toBitVec (bitsOf data) := by
  induction data generalizing crc with
  | nil => rfl
  | cons b data ih =>
      have hbits : bitsOf (b :: data) = byteBits b ++ bitsOf data := List.flatMap_cons
      rw [List.foldl_cons, ih, crcStep_toBitVec, hbits, feeds, feeds, feeds, List.foldl_append]

theorem foldl_divideBit_toBitVec (bits : List Bool) (crc : UInt32) :
    (bits.foldl divideBit crc).toBitVec = feeds castagnoli crc.toBitVec bits := by
  induction bits generalizing crc with
  | nil => rfl
  | cons b bits ih => rw [List.foldl_cons, ih, divideBit_toBitVec, feeds, feeds, List.foldl_cons]

/-! ## Composition -/

theorem crc32c_append (a b : List UInt8) (seed : UInt32) :
    crc32c (a ++ b) seed = crc32c b (crc32c a seed) := by
  simp only [crc32c, List.foldl_append, UInt32.not_not]

def BufferId.bytes (id : BufferId) : List UInt8 := wordBytes id.hi ++ wordBytes id.lo.toUInt64

def metaBytes (r : Record) : List UInt8 :=
  r.id.bytes ++ wordBytes r.generation.toUInt64 ++ [r.domain.toByte] ++ wordBytes r.size ++
    wordBytes r.alignment

theorem metaCrcOf_eq (r : Record) : metaCrcOf r = crc32c (metaBytes r) 0 := by
  simp only [metaCrcOf, metaBytes, BufferId.bytes, crc32c_append]

/-- **`crc32c` is CRC-32C.** The loop over the table is the division by the Castagnoli
polynomial, a message may be hashed in parts, and `meta_crc_of` hashes the stable fields of a
record as one message. -/
theorem crc32c_is_division :
    (∀ crc b, crcStep crc b = table[crcIndex crc b] ^^^ (crc >>> 8)) ∧
      (∀ data seed, crc32c data seed = crc32cBitwise data seed) ∧
      (∀ a b seed, crc32c (a ++ b) seed = crc32c b (crc32c a seed)) ∧
      ∀ r, metaCrcOf r = crc32c (metaBytes r) 0 := by
  refine ⟨crcStep_table, ?_, crc32c_append, metaCrcOf_eq⟩
  intro data seed
  rw [crc32c, crc32cBitwise, ← UInt32.toBitVec_inj, UInt32.toBitVec_not, UInt32.toBitVec_not,
    foldl_crcStep_toBitVec, foldl_divideBit_toBitVec]

/-! ## Bursts -/

theorem byteBits_inj {a b : UInt8} (h : byteBits a = byteBits b) : a = b := by
  rw [← UInt8.toBitVec_inj]
  apply BitVec.eq_of_getLsbD_eq
  intro i hi
  have hbit : (byteBits a)[i]? = (byteBits b)[i]? := by rw [h]
  simpa [byteBits, hi] using hbit

theorem bitsOf_inj {a b : List UInt8} (h : bitsOf a = bitsOf b) : a = b := by
  induction a generalizing b with
  | nil =>
      cases b with
      | nil => rfl
      | cons y b => simp [bitsOf, byteBits] at h
  | cons x a ih =>
      cases b with
      | nil => simp [bitsOf, byteBits] at h
      | cons y b =>
          have hsplit := List.append_inj h (by simp [byteBits])
          rw [byteBits_inj hsplit.1, ih hsplit.2]

theorem length_bitsOf (data : List UInt8) : (bitsOf data).length = 8 * data.length := by
  induction data with
  | nil => rfl
  | cons b data ih =>
      have hbits : bitsOf (b :: data) = byteBits b ++ bitsOf data := List.flatMap_cons
      rw [hbits, List.length_append, ih, List.length_cons]
      simp [byteBits]
      omega

/-- The messages have one length and differ, and all bits in which they differ lie in a window of
32 bits. -/
structure Burst (a b : List UInt8) : Prop where
  length : a.length = b.length
  differ : a ≠ b
  window : ∃ j, ∀ i, ¬ (j ≤ i ∧ i < j + 32) → (bitsOf a)[i]? = (bitsOf b)[i]?

theorem bitsOf_append (a b : List UInt8) : bitsOf (a ++ b) = bitsOf a ++ bitsOf b :=
  List.flatMap_append

/-- A burst stays one inside a longer message. -/
theorem Burst.within {a b : List UInt8} (h : Burst a b) (pre post : List UInt8) :
    Burst (pre ++ a ++ post) (pre ++ b ++ post) := by
  obtain ⟨j, hwin⟩ := h.window
  have hbits : (bitsOf a).length = (bitsOf b).length := by
    rw [length_bitsOf, length_bitsOf, h.length]
  refine ⟨by simp [h.length], fun heq => h.differ ?_, (bitsOf pre).length + j, fun i hi => ?_⟩
  · exact List.append_cancel_left (List.append_cancel_right heq)
  · simp only [bitsOf_append, List.append_assoc]
    by_cases hpre : i < (bitsOf pre).length
    · rw [List.getElem?_append_left hpre, List.getElem?_append_left hpre]
    · have hpre' : (bitsOf pre).length ≤ i := Nat.le_of_not_lt hpre
      rw [List.getElem?_append_right hpre', List.getElem?_append_right hpre']
      have hmid := hwin (i - (bitsOf pre).length) (by omega)
      generalize i - (bitsOf pre).length = x at hmid
      by_cases hx : x < (bitsOf a).length
      · rw [List.getElem?_append_left hx, List.getElem?_append_left (hbits ▸ hx)]
        exact hmid
      · have hx' : (bitsOf a).length ≤ x := Nat.le_of_not_lt hx
        rw [List.getElem?_append_right hx', List.getElem?_append_right (hbits ▸ hx'), hbits]

theorem Burst.byte {x y : UInt8} (h : x ≠ y) : Burst [x] [y] := by
  have hnone : ∀ (z : UInt8) (i : Nat), 32 ≤ i → (bitsOf [z])[i]? = none := fun z i hi =>
    List.getElem?_eq_none (by rw [length_bitsOf, List.length_singleton]; omega)
  refine ⟨rfl, fun heq => h (List.head_eq_of_cons_eq heq), 0, fun i hi => ?_⟩
  rw [hnone x i (by omega), hnone y i (by omega)]

/-- `crc32c` detects a burst. -/
theorem Burst.crc32c_ne {a b : List UInt8} (h : Burst a b) (seed : UInt32) :
    crc32c a seed ≠ crc32c b seed := by
  intro heq
  obtain ⟨j, hwin⟩ := h.window
  have hfold := UInt32.not_inj.mp heq
  rw [← UInt32.toBitVec_inj, foldl_crcStep_toBitVec, foldl_crcStep_toBitVec] at hfold
  refine h.differ (bitsOf_inj (feeds_inj_of_window (by decide) ?_ hwin hfold))
  rw [length_bitsOf, length_bitsOf, h.length]

end UnifiedBuffer
