import UnifiedBuffer.Buffer.World

set_option autoImplicit false

/-! # Copies to and from a caller's array

`copy_from(array, o, n)` moves bytes `o` to `o + n` of the array to the beginning of the buffer, and
`copy_to(array, o, n)` moves the beginning of the buffer back to the same place. The offset belongs
to the array in both. The checks do not treat it alike: `copy_to` holds it against the size of the
buffer, `copy_from` does not look at it. So what can be copied in cannot always be copied out again
at the same offset. -/

namespace UnifiedBuffer

open Lib

namespace BufferHandle

variable {h : BufferHandle} {c : Core} {k : CtlId} {env : Env}

theorem ensureValid_read (hk : h.validateAlive c = .ok k) : h.ensureValid c .read = .ok k := by
  rw [ensureValid_live hk]
  exact if_neg fun hw => by cases hw.1

theorem ensureValid_write (hk : h.validateAlive c = .ok k)
    (hrw : (c.control k).record.access ≠ .read) : h.ensureValid c .write = .ok k := by
  rw [ensureValid_live hk]
  exact if_neg fun hw => hrw hw.2

/-! ## The transfer -/

section

variable {dst src : Nat} {len : UInt64} {dstDev srcDev : Bool}

theorem transfer_fst : (transfer c env dst src len dstDev srcDev).1
    = (c.os.copyMemory env dst src len dstDev srcDev).1 := by
  unfold transfer
  generalize c.os.copyMemory env dst src len dstDev srcDev = out
  rcases out with ⟨_ | _, os⟩ <;> rfl

theorem transfer_os : (transfer c env dst src len dstDev srcDev).2.os
    = (c.os.copyMemory env dst src len dstDev srcDev).2 := by
  unfold transfer
  generalize c.os.copyMemory env dst src len dstDev srcDev = out
  rcases out with ⟨_ | _, os⟩ <;> rfl

/-- `len` bytes were moved, nothing else was written, and no control block was touched. -/
structure Moved (c c' : Core) (target : Space) (dst : Nat) (source : Space) (src len : Nat) :
    Prop where
  control : c'.control = c.control
  inside : ∀ i < len, c'.os.bytes target (dst + i) = c.os.bytes source (src + i)
  outside : ∀ s a, ¬ (s = target ∧ dst ≤ a ∧ a < dst + len) → c'.os.bytes s a = c.os.bytes s a

theorem transfer_control :
    (transfer c env dst src len dstDev srcDev).2.control = c.control := by
  unfold transfer
  generalize c.os.copyMemory env dst src len dstDev srcDev = out
  rcases out with ⟨_ | _, os⟩ <;> rfl

theorem transfer_moved (hcopy : env.copy = .ok ()) :
    Moved c (transfer c env dst src len dstDev srcDev).2
      (if dstDev then Space.device else Space.host) dst
      (if srcDev then Space.device else Space.host) src len.toNat where
  control := transfer_control
  inside i hi := by
    rw [transfer_os]
    exact Os.copyMemory_bytes_inside (Os.copyMemory_isOk hcopy) hi
  outside s a hout := by
    rw [transfer_os]
    exact Os.copyMemory_bytes_outside hout

end

/-! ## What is accepted -/

section

variable {p : Nat} {o n : UInt64}

/-- The array is there, `n` bytes from `start` on lie in the buffer, and the backing has `n`
bytes. -/
structure Fits (r : Record) (p : Nat) (start n : UInt64) : Prop where
  array : p ≠ 0
  size : start.toNat + n.toNat ≤ r.size.toNat
  committed : n.toNat ≤ r.committed.toNat

theorem copyFrom_of_fits (hk : h.validateAlive c = .ok k)
    (hrw : (c.control k).record.access ≠ .read) (hfits : Fits (c.control k).record p 0 n) :
    h.copyFrom c env p o n = transfer c env (c.control k).record.backing.base (p + o.toNat) n
      ((c.control k).record.domain = .device) false := by
  have hroom : rangeInBounds 0 n (c.control k).record.committed = true :=
    rangeInBounds_of_le (by simpa using hfits.committed)
  have hsize : ¬ n > (c.control k).record.size :=
    UInt64.not_lt.mpr (UInt64.le_iff_toNat_le.mpr (by simpa using hfits.size))
  unfold copyFrom
  rw [ensureValid_write hk hrw]
  simp only
  rw [if_neg hfits.array, if_neg hsize, if_neg (not_not.mpr hroom)]

theorem copyTo_of_fits (hk : h.validateAlive c = .ok k) (hfits : Fits (c.control k).record p o n) :
    h.copyTo c env p o n = transfer c env (p + o.toNat) (c.control k).record.backing.base n false
      ((c.control k).record.domain = .device) := by
  have hroom : rangeInBounds 0 n (c.control k).record.committed = true :=
    rangeInBounds_of_le (by simpa using hfits.committed)
  unfold copyTo
  rw [ensureValid_read hk]
  simp only
  rw [if_neg hfits.array, if_neg (not_outside_iff.mpr hfits.size), if_neg (not_not.mpr hroom)]

theorem copyFrom_refused (hk : h.validateAlive c = .ok k)
    (hrw : (c.control k).record.access ≠ .read) (hno : ¬ Fits (c.control k).record p 0 n) :
    ∃ e, h.copyFrom c env p o n = (.error e, c) := by
  unfold copyFrom
  rw [ensureValid_write hk hrw]
  simp only
  split
  · exact ⟨_, rfl⟩
  rename_i harray
  split
  · exact ⟨_, rfl⟩
  rename_i hsize
  split
  · exact ⟨_, rfl⟩
  rename_i hroom
  exact absurd ⟨harray, by simpa using UInt64.le_iff_toNat_le.mp (UInt64.not_lt.mp hsize),
    by simpa using rangeInBounds_le (not_not.mp hroom)⟩ hno

theorem copyTo_refused (hk : h.validateAlive c = .ok k)
    (hno : ¬ Fits (c.control k).record p o n) : ∃ e, h.copyTo c env p o n = (.error e, c) := by
  unfold copyTo
  rw [ensureValid_read hk]
  simp only
  split
  · exact ⟨_, rfl⟩
  rename_i harray
  split
  · exact ⟨_, rfl⟩
  rename_i hsize
  split
  · exact ⟨_, rfl⟩
  rename_i hroom
  exact absurd ⟨harray, not_outside_iff.mp hsize,
    by simpa using rangeInBounds_le (not_not.mp hroom)⟩ hno

theorem fits_of_copyTo (hk : h.validateAlive c = .ok k)
    (hok : (h.copyTo c env p o n).1 = .ok ()) : Fits (c.control k).record p o n := by
  by_contra hno
  obtain ⟨e, he⟩ : ∃ e, h.copyTo c env p o n = (.error e, c) := copyTo_refused hk hno
  rw [he] at hok
  cases hok

variable (h c p o n)

/-- `copy_from` accepts the call: it succeeds if the transfer does. -/
def AcceptsFrom : Prop := ∀ env : Env, env.copy = .ok () → (h.copyFrom c env p o n).1 = .ok ()

/-- `copy_to` accepts the call. -/
def AcceptsTo : Prop := ∀ env : Env, env.copy = .ok () → (h.copyTo c env p o n).1 = .ok ()

variable {h c p o n}

theorem acceptsFrom_iff (hk : h.validateAlive c = .ok k)
    (hrw : (c.control k).record.access ≠ .read) :
    h.AcceptsFrom c p o n ↔ Fits (c.control k).record p 0 n := by
  constructor
  · intro haccepts
    by_contra hno
    obtain ⟨e, he⟩ : ∃ e, h.copyFrom c {} p o n = (.error e, c) := copyFrom_refused hk hrw hno
    have hok := haccepts {} rfl
    rw [he] at hok
    cases hok
  · intro hfits env hcopy
    rw [copyFrom_of_fits hk hrw hfits, transfer_fst]
    exact Os.copyMemory_isOk hcopy

theorem acceptsTo_iff (hk : h.validateAlive c = .ok k) :
    h.AcceptsTo c p o n ↔ Fits (c.control k).record p o n := by
  constructor
  · intro haccepts
    exact fits_of_copyTo hk (haccepts {} rfl)
  · intro hfits env hcopy
    rw [copyTo_of_fits hk hfits, transfer_fst]
    exact Os.copyMemory_isOk hcopy

/-- What fits into the buffer from `o` on also fits from its beginning. -/
theorem Fits.from_zero {r : Record} (hfits : Fits r p o n) : Fits r p 0 n :=
  ⟨hfits.array, Nat.le_trans (by simp) hfits.size, hfits.committed⟩

end

/-! ## In and out again -/

section

variable {p q : Nat} {o n : UInt64}

theorem copyFrom_moved (hk : h.validateAlive c = .ok k)
    (hrw : (c.control k).record.access ≠ .read) (hfits : Fits (c.control k).record p 0 n)
    (hcopy : env.copy = .ok ()) :
    Moved c (h.copyFrom c env p o n).2 (c.control k).record.domain.space
      (c.control k).record.backing.base .host (p + o.toNat) n.toNat := by
  rw [copyFrom_of_fits hk hrw hfits, MemoryDomain.space_eq]
  exact transfer_moved hcopy

theorem copyTo_moved (hk : h.validateAlive c = .ok k) (hfits : Fits (c.control k).record p o n)
    (hcopy : env.copy = .ok ()) :
    Moved c (h.copyTo c env p o n).2 .host (p + o.toNat) (c.control k).record.domain.space
      (c.control k).record.backing.base n.toNat := by
  rw [copyTo_of_fits hk hfits, MemoryDomain.space_eq]
  exact transfer_moved hcopy

theorem validateAlive_congr {c' : Core} (hcontrol : c'.control = c.control) :
    h.validateAlive c' = h.validateAlive c := by
  unfold validateAlive
  rw [hcontrol]

/-- For every live buffer that can be written, every array and all offsets and lengths. `copy_from`
and `copy_to` accept the same calls unless the bytes fit into the buffer, but not from the offset
on. Where both accept, copying in and out again delivers the bytes at the same offset of the second
array; besides those, only the first `n` bytes of the buffer are written. -/
theorem copies_dual_iff (hk : h.validateAlive c = .ok k)
    (hrw : (c.control k).record.access ≠ .read) (p : Nat) (o n : UInt64) :
    ((h.AcceptsFrom c p o n ↔ h.AcceptsTo c p o n) ↔
      ¬ (p ≠ 0 ∧ n ≤ (c.control k).record.size ∧ n ≤ (c.control k).record.committed ∧
        (c.control k).record.size.toNat < o.toNat + n.toNat)) ∧
    (h.AcceptsFrom c p o n → ∀ q, h.AcceptsTo c q o n → ∀ env env' : Env,
      env.copy = .ok () → env'.copy = .ok () →
      (h.copyTo (h.copyFrom c env p o n).2 env' q o n).1 = .ok () ∧
      (∀ i < n.toNat,
        (h.copyTo (h.copyFrom c env p o n).2 env' q o n).2.os.bytes .host (q + o.toNat + i)
          = c.os.bytes .host (p + o.toNat + i)) ∧
      ∀ s a, ¬ (s = .host ∧ q + o.toNat ≤ a ∧ a < q + o.toNat + n.toNat) →
        ¬ (s = (c.control k).record.domain.space ∧ (c.control k).record.backing.base ≤ a ∧
          a < (c.control k).record.backing.base + n.toNat) →
        (h.copyTo (h.copyFrom c env p o n).2 env' q o n).2.os.bytes s a = c.os.bytes s a) := by
  rw [acceptsFrom_iff hk hrw, acceptsTo_iff hk]
  constructor
  · constructor
    · rintro hsame ⟨harray, hsize, hcommitted, hlate⟩
      have hfrom : Fits (c.control k).record p 0 n :=
        ⟨harray, by simpa using UInt64.le_iff_toNat_le.mp hsize,
          UInt64.le_iff_toNat_le.mp hcommitted⟩
      exact absurd (hsame.mp hfrom).size (Nat.not_le.mpr hlate)
    · intro hgap
      -- only the size can tell the two apart, and only at a positive offset
      refine ⟨fun hfrom => ⟨hfrom.array, ?_, hfrom.committed⟩, Fits.from_zero⟩
      by_contra hlate
      exact hgap ⟨hfrom.array, UInt64.le_iff_toNat_le.mpr (by simpa using hfrom.size),
        UInt64.le_iff_toNat_le.mpr hfrom.committed, Nat.not_le.mp hlate⟩
  · intro hfrom q hto env env' hcopy hcopy'
    have hin := copyFrom_moved (o := o) hk hrw hfrom hcopy
    generalize (h.copyFrom c env p o n).2 = c₁ at hin ⊢
    -- the block is as it was, so `copy_to` finds the buffer at the same place
    have hk' : h.validateAlive c₁ = .ok k := by rw [validateAlive_congr hin.control, hk]
    have hctl : c₁.control k = c.control k := congrFun hin.control k
    have hto' : h.AcceptsTo c₁ q o n := by
      rw [acceptsTo_iff hk', hctl]
      exact (acceptsTo_iff hk).mp hto
    have hout := copyTo_moved hk' ((acceptsTo_iff hk').mp hto') hcopy'
    rw [hctl] at hout
    refine ⟨hto' env' hcopy', fun i hi => ?_, fun s a harray hbuffer => ?_⟩
    · rw [hout.inside i hi, hin.inside i hi]
    · rw [hout.outside s a harray, hin.outside s a hbuffer]

end

end BufferHandle

/-! ### A buffer of 64 bytes -/

/-- A buffer of 64 bytes in a memory that holds the low byte of each address. -/
def numbered : Core :=
  let c := ((World.init {} {}).next (.allocate (.findsAt 4096) { size := 64 })).core
  { c with os := { c.os with bytes := fun _ a => .ofNat a } }

/-- Twenty bytes go in and out at offset 10. -/
theorem copies_dual_iff_numbered :
    let h := BufferHandle.ofControl numbered 0
    h.validateAlive numbered = .ok 0 ∧
      ∀ i < 20, (h.copyTo (h.copyFrom numbered {} 8192 10 20).2 {} 16384 10 20).2.os.bytes .host
        (16384 + 10 + i) = .ofNat (8192 + 10 + i) := by
  intro h
  have hk : h.validateAlive numbered = .ok 0 := by decide
  have hrw : (numbered.control 0).record.access ≠ .read := by decide
  have hfrom : h.AcceptsFrom numbered 8192 10 20 :=
    (BufferHandle.acceptsFrom_iff hk hrw).mpr ⟨by decide, by decide, by decide⟩
  have hto : h.AcceptsTo numbered 16384 10 20 :=
    (BufferHandle.acceptsTo_iff hk).mpr ⟨by decide, by decide, by decide⟩
  exact ⟨hk, ((BufferHandle.copies_dual_iff hk hrw 8192 10 20).2 hfrom 16384 hto {} {} rfl rfl).2.1⟩

/-- Ten bytes at offset 60 go into the buffer of 64 bytes, but not out of it. -/
theorem copied_in_not_out :
    let h := BufferHandle.ofControl numbered 0
    (h.copyFrom numbered {} 8192 60 10).1 = .ok () ∧ (h.copyTo numbered {} 8192 60 10).1 =
      .error ⟨.boundsError, "copy_to: length exceeds buffer"⟩ := by
  decide

end UnifiedBuffer
