import UnifiedBuffer.Backends.Domain
import UnifiedBuffer.Core.CheckedMath
import UnifiedBuffer.Lib.Word

set_option autoImplicit false

/-! # Operations on a range of an allocation

`zero`, `verify` and `copy_in_domain` of the four backends whose memory is host memory
(`host_backend.cpp`, `shared_memory_backend.cpp`, `file_backend.cpp` and the pinned memory of
`cuda_backend.cpp`). They differ in their messages, in the address they take for the start of the
memory and in what they call a missing backing.

An operation that succeeds makes one access to memory, a `MemAct`; what it may touch is the range
that it was asked for. The bounds checks are exact on all words, and a move that overlaps itself is
a `memmove`. What is not exact is the probe of `verify`: it loads the first byte of the range also
when the range is empty, which at the end of the memory is the byte behind it. -/

namespace UnifiedBuffer

/-! ## Accesses -/

/-- The access of a backend to host memory. -/
inductive MemAct where
  | memset (dst : Nat) (byte : UInt8) (len : Nat)
  | memmove (dst src len : Nat)
  | load (src : Nat)
  deriving DecidableEq, Repr

namespace MemAct

def reads : MemAct → Nat → Prop
  | memset _ _ _, _ => False
  | memmove _ src len, x => src ≤ x ∧ x < src + len
  | load src, x => x = src

def writes : MemAct → Nat → Prop
  | memset dst _ len, x => dst ≤ x ∧ x < dst + len
  | memmove dst _ len, x => dst ≤ x ∧ x < dst + len
  | load _, _ => False

/-- The memory after the access. A `memmove` takes all its bytes before it writes one. -/
def run (os : Os) : MemAct → Os
  | memset dst byte len => os.fill .host dst len fun _ => byte
  | memmove dst src len => os.fill .host dst len fun x => os.bytes .host (src + (x - dst))
  | load _ => os

end MemAct

/-! ## The operations -/

def NativeAllocation.Outside (a : NativeAllocation) (offset len : UInt64) : Prop :=
  offset > a.committed ∨ len > a.committed - offset

instance (a : NativeAllocation) (offset len : UInt64) : Decidable (a.Outside offset len) :=
  inferInstanceAs (Decidable (_ ∨ _))

/-- `zero`, of a backend that takes `start` for the first byte of the memory. -/
def zeroRange (start : NativeAllocation → Nat) (oob : String) (a : NativeAllocation)
    (offset len : UInt64) : Except Error MemAct :=
  if a.Outside offset len then .error ⟨.boundsError, oob⟩
  else .ok (.memset (start a + offset.toNat) 0 len.toNat)

/-- `verify`. The probe loads one byte. -/
def verifyRange (start : NativeAllocation → Nat) (backed : NativeAllocation → Bool)
    (noBacking oob : String) (a : NativeAllocation) (offset len : UInt64) : Except Error MemAct :=
  if backed a = false then .error ⟨.stateInvalid, noBacking⟩
  else if a.Outside offset len then .error ⟨.boundsError, oob⟩
  else .ok (.load (start a + offset.toNat))

/-- `copy_in_domain`. -/
def copyRange (start : NativeAllocation → Nat) (dstOob srcOob : String) (dst : NativeAllocation)
    (dstOff : UInt64) (src : NativeAllocation) (srcOff len : UInt64) : Except Error MemAct :=
  if dst.Outside dstOff len then .error ⟨.boundsError, dstOob⟩
  else if src.Outside srcOff len then .error ⟨.boundsError, srcOob⟩
  else .ok (.memmove (start dst + dstOff.toNat) (start src + srcOff.toNat) len.toNat)

def NativeAllocation.hasPointer (a : NativeAllocation) : Bool := a.pointer ≠ 0

def HostDomain.zero := zeroRange NativeAllocation.base "host zero: out of bounds"

def HostDomain.verify := verifyRange NativeAllocation.base NativeAllocation.present
  "host verify: no backing" "host verify: out of bounds"

def HostDomain.copyInDomain := copyRange NativeAllocation.base
  "host copy_in_domain: dst out of bounds" "host copy_in_domain: src out of bounds"

def SharedMemoryDomain.zero := zeroRange NativeAllocation.hostMap "shared zero: out of bounds"

def SharedMemoryDomain.verify := verifyRange NativeAllocation.hostMap NativeAllocation.hasPointer
  "shared verify: no backing" "shared verify: out of bounds"

def SharedMemoryDomain.copyInDomain := copyRange NativeAllocation.hostMap
  "shared copy: dst oob" "shared copy: src oob"

def FileBackedDomain.zero := zeroRange NativeAllocation.hostMap "file zero: oob"

def FileBackedDomain.verify := verifyRange NativeAllocation.hostMap NativeAllocation.hasPointer
  "file verify: no backing" "file verify: oob"

def FileBackedDomain.copyInDomain := copyRange NativeAllocation.hostMap
  "file copy: dst oob" "file copy: src oob"

def CudaPinnedDomain.zero := zeroRange NativeAllocation.hostMap "pinned zero: out of bounds"

def CudaPinnedDomain.verify := verifyRange NativeAllocation.hostMap NativeAllocation.hasPointer
  "pinned verify: no backing" "pinned verify: out of bounds"

def CudaPinnedDomain.copyInDomain := copyRange NativeAllocation.hostMap
  "pinned copy_in_domain: dst out of bounds" "pinned copy_in_domain: src out of bounds"

/-- The operations of one backend. -/
structure RangeOps where
  zero : NativeAllocation → UInt64 → UInt64 → Except Error MemAct
  verify : NativeAllocation → UInt64 → UInt64 → Except Error MemAct
  copyInDomain : NativeAllocation → UInt64 → NativeAllocation → UInt64 → UInt64 →
    Except Error MemAct

/-- The backends of host memory. Device memory is reached by CUDA calls. -/
def rangeOps : MemoryDomain → Option RangeOps
  | .host => some ⟨HostDomain.zero, HostDomain.verify, HostDomain.copyInDomain⟩
  | .pinnedHost =>
      some ⟨CudaPinnedDomain.zero, CudaPinnedDomain.verify, CudaPinnedDomain.copyInDomain⟩
  | .sharedHost =>
      some ⟨SharedMemoryDomain.zero, SharedMemoryDomain.verify, SharedMemoryDomain.copyInDomain⟩
  | .mmapStorage =>
      some ⟨FileBackedDomain.zero, FileBackedDomain.verify, FileBackedDomain.copyInDomain⟩
  | .device => none

/-! ## What they may touch -/

namespace NativeAllocation

/-- The range lies in the memory, by its end as a number. -/
def InRange (a : NativeAllocation) (offset len : UInt64) : Prop :=
  offset.toNat + len.toNat ≤ a.committed.toNat

instance (a : NativeAllocation) (offset len : UInt64) : Decidable (a.InRange offset len) :=
  Nat.decLe _ _

theorem not_outside_iff_inRange {a : NativeAllocation} {offset len : UInt64} :
    ¬ a.Outside offset len ↔ a.InRange offset len := not_outside_iff

def range (a : NativeAllocation) (offset len : UInt64) (x : Nat) : Prop :=
  a.base + offset.toNat ≤ x ∧ x < a.base + offset.toNat + len.toNat

instance (a : NativeAllocation) (offset len : UInt64) (x : Nat) :
    Decidable (a.range offset len x) :=
  inferInstanceAs (Decidable (_ ∧ _))

end NativeAllocation

/-- The operation succeeds exactly if the range is accepted, and then reads and writes nothing but
the given addresses. -/
structure Exact (res : Except Error MemAct) (accepted : Prop) (readable writable : Nat → Prop) :
    Prop where
  succeeds : (∃ act, res = .ok act) ↔ accepted
  reads : ∀ act, res = .ok act → ∀ x, act.reads x → readable x
  writes : ∀ act, res = .ok act → ∀ x, act.writes x → writable x

theorem Exact.of_error {e : Error} {accepted : Prop} {readable writable : Nat → Prop}
    (h : ¬ accepted) : Exact (.error e) accepted readable writable where
  succeeds := ⟨fun ⟨_, hact⟩ => (nomatch hact), fun hacc => absurd hacc h⟩
  reads := fun _ hact => nomatch hact
  writes := fun _ hact => nomatch hact

theorem Exact.ok_iff {act : MemAct} {accepted : Prop} {readable writable : Nat → Prop}
    (h : accepted) : Exact (.ok act) accepted readable writable ↔
      (∀ x, act.reads x → readable x) ∧ ∀ x, act.writes x → writable x := by
  constructor
  · intro hexact
    exact ⟨hexact.reads act rfl, hexact.writes act rfl⟩
  · rintro ⟨hreads, hwrites⟩
    refine ⟨⟨fun _ => h, fun _ => ⟨act, rfl⟩⟩, ?_, ?_⟩
    · rintro act' ⟨⟩
      exact hreads
    · rintro act' ⟨⟩
      exact hwrites

section

variable (zero verify : NativeAllocation → UInt64 → UInt64 → Except Error MemAct)
  (copyInDomain : NativeAllocation → UInt64 → NativeAllocation → UInt64 → UInt64 →
    Except Error MemAct)

/-- `zero` writes the range and nothing else, and leaves zeros in it. -/
def ZeroExact (a : NativeAllocation) (offset len : UInt64) : Prop :=
  Exact (zero a offset len) (a.InRange offset len) (fun _ => False) (a.range offset len) ∧
    ∀ act, zero a offset len = .ok act → ∀ (os : Os) (x : Nat), a.range offset len x →
      (act.run os).bytes .host x = 0

/-- `verify` reads within the range. -/
def VerifyExact (a : NativeAllocation) (offset len : UInt64) : Prop :=
  Exact (verify a offset len) (a.InRange offset len) (a.range offset len) (fun _ => False)

/-- `copy_in_domain` stays within the two ranges, and leaves in the destination the bytes that the
source held before. -/
def CopyExact (dst : NativeAllocation) (dstOff : UInt64) (src : NativeAllocation)
    (srcOff len : UInt64) : Prop :=
  Exact (copyInDomain dst dstOff src srcOff len)
      (dst.InRange dstOff len ∧ src.InRange srcOff len) (src.range srcOff len)
      (dst.range dstOff len) ∧
    ∀ act, copyInDomain dst dstOff src srcOff len = .ok act → ∀ (os : Os) (i : Nat),
      i < len.toNat → (act.run os).bytes .host (dst.base + dstOff.toNat + i) =
        os.bytes .host (src.base + srcOff.toNat + i)

end

/-! ## Where they are exact -/

section

variable {start : NativeAllocation → Nat} {a dst src : NativeAllocation}
  {offset dstOff srcOff len : UInt64}

open NativeAllocation (not_outside_iff_inRange)

theorem outside_of_not_inRange (h : ¬ a.InRange offset len) : a.Outside offset len :=
  not_not.mp (mt not_outside_iff_inRange.mp h)

theorem toNat_pos_of_ne (h : len ≠ 0) : 0 < len.toNat :=
  Nat.pos_of_ne_zero (mt (Lib.toNat_eq_zero_iff len).mp h)

/-- Bytes from too low a start are not in the range, unless there are none. -/
theorem within_iff {s : Nat} (hle : s ≤ a.base) :
    (∀ x, s + offset.toNat ≤ x ∧ x < s + offset.toNat + len.toNat → a.range offset len x) ↔
      len = 0 ∨ s = a.base := by
  constructor
  · intro h
    by_cases hlen : len = 0
    · exact .inl hlen
    · have hpos := toNat_pos_of_ne hlen
      obtain ⟨hlow, -⟩ := h (s + offset.toNat) ⟨Nat.le_refl _, by omega⟩
      exact .inr (by omega)
  · rintro (rfl | rfl) x ⟨hlow, hhigh⟩
    · exact absurd hhigh (Nat.not_lt.mpr hlow)
    · exact ⟨hlow, hhigh⟩

/-- The probe of `verify` is in the range if the range is not empty. -/
theorem probe_iff {s : Nat} (hle : s ≤ a.base) :
    a.range offset len (s + offset.toNat) ↔ len ≠ 0 ∧ s = a.base := by
  unfold NativeAllocation.range
  constructor
  · rintro ⟨hlow, hhigh⟩
    refine ⟨?_, by omega⟩
    rintro rfl
    exact absurd hhigh (Nat.not_lt.mpr hlow)
  · rintro ⟨hlen, rfl⟩
    have hpos := toNat_pos_of_ne hlen
    exact ⟨Nat.le_refl _, by omega⟩

theorem zeroRange_exact_iff {oob : String} (hstart : start a ≤ a.base) :
    ZeroExact (zeroRange start oob) a offset len ↔
      ¬ a.InRange offset len ∨ len = 0 ∨ start a = a.base := by
  unfold ZeroExact zeroRange
  by_cases hin : a.InRange offset len
  · rw [if_neg (not_outside_iff_inRange.mpr hin), Exact.ok_iff hin, ← within_iff hstart]
    constructor
    · rintro ⟨⟨-, hwrites⟩, -⟩
      exact .inr hwrites
    · intro h
      have hwrites := h.resolve_left (not_not.mpr hin)
      refine ⟨⟨fun x hx => hx.elim, hwrites⟩, ?_⟩
      rintro act ⟨⟩ os x hx
      -- the range has the byte `x`, so it is written from the base on
      rcases (within_iff hstart).mp hwrites with rfl | heq
      · exact absurd hx.2 (Nat.not_lt.mpr hx.1)
      · exact if_pos ⟨rfl, heq ▸ hx⟩
  · rw [if_pos (outside_of_not_inRange hin)]
    exact ⟨fun _ => .inl hin, fun _ => ⟨Exact.of_error hin, fun act hact => nomatch hact⟩⟩

theorem verifyRange_exact_iff {backed : NativeAllocation → Bool} {noBacking oob : String}
    (hstart : start a ≤ a.base) :
    VerifyExact (verifyRange start backed noBacking oob) a offset len ↔
      ¬ a.InRange offset len ∨ len ≠ 0 ∧ backed a = true ∧ start a = a.base := by
  unfold VerifyExact verifyRange
  by_cases hin : a.InRange offset len
  · cases hbacked : backed a with
    | false =>
        -- refused although the range is in bounds
        rw [if_pos rfl]
        constructor
        · intro h
          obtain ⟨act, hact⟩ := h.succeeds.mpr hin
          cases hact
        · rintro (hout | ⟨-, hfalse, -⟩)
          · exact absurd hin hout
          · cases hfalse
    | true =>
        rw [if_neg Bool.noConfusion, if_neg (not_outside_iff_inRange.mpr hin), Exact.ok_iff hin]
        constructor
        · rintro ⟨hreads, -⟩
          obtain ⟨hlen, heq⟩ := (probe_iff hstart).mp (hreads _ rfl)
          exact .inr ⟨hlen, rfl, heq⟩
        · rintro (hout | ⟨hlen, -, heq⟩)
          · exact absurd hin hout
          · refine ⟨?_, fun x hx => hx.elim⟩
            rintro x rfl
            exact (probe_iff hstart).mpr ⟨hlen, heq⟩
  · refine ⟨fun _ => .inl hin, fun _ => ?_⟩
    rw [if_pos (outside_of_not_inRange hin)]
    split
    · exact Exact.of_error hin
    · exact Exact.of_error hin

theorem copyRange_error {dstOob srcOob : String}
    (h : ¬ (dst.InRange dstOff len ∧ src.InRange srcOff len)) :
    ∃ e, copyRange start dstOob srcOob dst dstOff src srcOff len = .error e := by
  unfold copyRange
  by_cases hdst : dst.InRange dstOff len
  · have hsrc : ¬ src.InRange srcOff len := fun hsrc => h ⟨hdst, hsrc⟩
    rw [if_neg (not_outside_iff_inRange.mpr hdst), if_pos (outside_of_not_inRange hsrc)]
    exact ⟨_, rfl⟩
  · rw [if_pos (outside_of_not_inRange hdst)]
    exact ⟨_, rfl⟩

theorem copyRange_exact_iff {dstOob srcOob : String} (hdst : start dst ≤ dst.base)
    (hsrc : start src ≤ src.base) :
    CopyExact (copyRange start dstOob srcOob) dst dstOff src srcOff len ↔
      ¬ (dst.InRange dstOff len ∧ src.InRange srcOff len) ∨ len = 0 ∨
        start dst = dst.base ∧ start src = src.base := by
  unfold CopyExact
  by_cases hin : dst.InRange dstOff len ∧ src.InRange srcOff len
  · rw [copyRange, if_neg (not_outside_iff_inRange.mpr hin.1),
      if_neg (not_outside_iff_inRange.mpr hin.2), Exact.ok_iff hin, or_and_left,
      ← within_iff hdst, ← within_iff hsrc]
    constructor
    · rintro ⟨⟨hreads, hwrites⟩, -⟩
      exact .inr ⟨hwrites, hreads⟩
    · intro h
      obtain ⟨hwrites, hreads⟩ := h.resolve_left (not_not.mpr hin)
      refine ⟨⟨hreads, hwrites⟩, ?_⟩
      rintro act ⟨⟩ os i hi
      have hlen : len ≠ 0 := by
        rintro rfl
        exact absurd hi (Nat.not_lt_zero i)
      have hd := ((within_iff hdst).mp hwrites).resolve_left hlen
      have hs := ((within_iff hsrc).mp hreads).resolve_left hlen
      -- the move reads the old bytes, whether or not the ranges overlap
      rw [MemAct.run, hd, hs]
      refine (if_pos ⟨rfl, by omega, by omega⟩).trans ?_
      rw [Nat.add_sub_cancel_left]
  · obtain ⟨e, he⟩ : ∃ e, copyRange start dstOob srcOob dst dstOff src srcOff len = .error e :=
      copyRange_error hin
    rw [he]
    exact ⟨fun _ => .inl hin, fun _ => ⟨Exact.of_error hin, fun act hact => nomatch hact⟩⟩

end

/-! ## The backends -/

/-- The backend finds the memory: `HostDomain` looks at both pointers, the others at the view
only. -/
def NativeAllocation.Viewed (a : NativeAllocation) (d : MemoryDomain) : Prop :=
  d = .host ∨ a.hostMap ≠ 0

namespace NativeAllocation

variable {a : NativeAllocation}

theorem hostMap_le_base (a : NativeAllocation) : a.hostMap ≤ a.base := by
  unfold base
  split
  · exact Nat.le_refl _
  · rename_i hzero
    rw [not_not.mp hzero]
    exact Nat.zero_le _

/-- Memory that is there is viewed at its base if it has a view. -/
theorem hostMap_eq_base_iff (ha : a.present = true) : a.hostMap = a.base ↔ a.hostMap ≠ 0 := by
  unfold base
  by_cases hmap : a.hostMap = 0
  · have hpointer : a.pointer ≠ 0 := by simpa [present, hmap] using ha
    rw [if_neg (not_not.mpr hmap), hmap]
    exact ⟨fun h => absurd h.symm hpointer, fun h => absurd rfl h⟩
  · rw [if_pos hmap]
    exact ⟨fun _ => hmap, fun _ => rfl⟩

end NativeAllocation

/-- How a backend finds the memory of an allocation. -/
structure Finds (d : MemoryDomain) (start : NativeAllocation → Nat)
    (backed : NativeAllocation → Bool) (a : NativeAllocation) : Prop where
  le : start a ≤ a.base
  eq_iff : start a = a.base ↔ a.Viewed d
  backed_iff : backed a = true ↔ d = .host ∨ a.pointer ≠ 0

theorem finds_host {a : NativeAllocation} (ha : a.present = true) :
    Finds .host NativeAllocation.base NativeAllocation.present a :=
  ⟨Nat.le_refl _, ⟨fun _ => .inl rfl, fun _ => rfl⟩, ⟨fun _ => .inl rfl, fun _ => ha⟩⟩

theorem finds_view {d : MemoryDomain} (hd : d ≠ .host) {a : NativeAllocation}
    (ha : a.present = true) :
    Finds d NativeAllocation.hostMap NativeAllocation.hasPointer a := by
  refine ⟨a.hostMap_le_base, ?_, ?_⟩
  · rw [NativeAllocation.hostMap_eq_base_iff ha, NativeAllocation.Viewed, or_iff_right hd]
  · rw [or_iff_right hd, NativeAllocation.hasPointer, decide_eq_true_iff]

/-- What the backends have in common. -/
theorem rangeOps_shape {d : MemoryDomain} {ops : RangeOps} (hops : rangeOps d = some ops) :
    ∃ start backed zeroOob noBacking verifyOob dstOob srcOob,
      ops = ⟨zeroRange start zeroOob, verifyRange start backed noBacking verifyOob,
        copyRange start dstOob srcOob⟩ ∧
      ∀ a : NativeAllocation, a.present = true → Finds d start backed a := by
  cases d with
  | host =>
      cases hops
      exact ⟨_, _, _, _, _, _, _, rfl, fun a => finds_host⟩
  | device => cases hops
  | _ =>
      cases hops
      exact ⟨_, _, _, _, _, _, _, rfl, fun a => finds_view (by decide)⟩

/-- For every backend of host memory, every allocation with a backing and all offsets and lengths.
`zero` and `copy_in_domain` are exact except that a range that is not empty must be viewed; `verify`
is not exact on any empty range within the memory. -/
theorem range_ops_exact_iff {d : MemoryDomain} {ops : RangeOps} (hops : rangeOps d = some ops)
    {a : NativeAllocation} (ha : a.present = true) (offset len : UInt64) :
    (ZeroExact ops.zero a offset len ↔ ¬ a.InRange offset len ∨ len = 0 ∨ a.Viewed d) ∧
    (VerifyExact ops.verify a offset len ↔
      ¬ a.InRange offset len ∨ len ≠ 0 ∧ (d = .host ∨ a.pointer ≠ 0) ∧ a.Viewed d) ∧
    ∀ src : NativeAllocation, src.present = true → ∀ srcOff,
      (CopyExact ops.copyInDomain a offset src srcOff len ↔
        ¬ (a.InRange offset len ∧ src.InRange srcOff len) ∨ len = 0 ∨
          a.Viewed d ∧ src.Viewed d) := by
  obtain ⟨start, backed, _, _, _, _, _, rfl, hfinds⟩ := rangeOps_shape hops
  have hf := hfinds a ha
  refine ⟨?_, ?_, fun src hsrc srcOff => ?_⟩
  · rw [zeroRange_exact_iff hf.le, hf.eq_iff]
  · rw [verifyRange_exact_iff hf.le, hf.eq_iff, hf.backed_iff]
  · have hfs := hfinds src hsrc
    rw [copyRange_exact_iff hf.le hfs.le, hf.eq_iff, hfs.eq_iff]

/-- The second half of a page of host memory. -/
theorem range_ops_exact_iff_page :
    let page := NativeAllocation.found 4096 4096 64
    page.present = true ∧ page.InRange 2048 2048 ∧ ZeroExact HostDomain.zero page 2048 2048 ∧
      VerifyExact HostDomain.verify page 2048 2048 ∧
      CopyExact HostDomain.copyInDomain page 2048 page 1024 2048 := by
  intro page
  have hexact := range_ops_exact_iff (d := .host) rfl (a := page) rfl 2048 2048
  exact ⟨rfl, by decide, hexact.1.mpr (.inr (.inr (.inl rfl))),
    hexact.2.1.mpr (.inr ⟨by decide, .inl rfl, .inl rfl⟩),
    (hexact.2.2 page rfl 1024).mpr (.inr (.inr ⟨.inl rfl, .inl rfl⟩))⟩

/-- Every backend loads the byte behind a page when it verifies the empty range at its end. -/
theorem verify_reads_behind_page :
    ¬ (NativeAllocation.found 4096 4096 64).range 4096 0 8192 ∧
      ∀ verify ∈ [HostDomain.verify, SharedMemoryDomain.verify, FileBackedDomain.verify,
        CudaPinnedDomain.verify], verify (.found 4096 4096 64) 4096 0 = .ok (.load 8192) := by
  refine ⟨by decide, ?_⟩
  simp only [List.forall_mem_cons]
  exact ⟨rfl, rfl, rfl, rfl, by simp⟩

/-- The fill of the memory model is the access of the backend. -/
theorem Os.zero_of_native {d : MemoryDomain} {ops : RangeOps} (hops : rangeOps d = some ops)
    {a : NativeAllocation} (ha : a.present = true) (hview : a.Viewed d) {len : UInt64}
    {act : MemAct} (hact : ops.zero a 0 len = .ok act) {env : Env}
    (henv : env.zero d a len = .ok ()) (os : Os) :
    os.zero env d a len = (.ok (), act.run os) := by
  have hspace : d.space = .host := by
    cases d with
    | device => cases hops
    | _ => rfl
  obtain ⟨start, backed, zeroOob, _, _, _, _, rfl, hfinds⟩ := rangeOps_shape hops
  have hstart := (hfinds a ha).eq_iff.mpr hview
  simp only [zeroRange] at hact
  split at hact
  · cases hact
  cases hact
  rw [Os.zero, henv, MemAct.run, hstart, hspace]
  rfl

end UnifiedBuffer
