import UnifiedBuffer.Core.Types

set_option autoImplicit false

/-! # Memory domains and the memory behind them

`IDomain` (`backends/domain.hpp`) is an interface, and what its methods answer depends on the
operating system. A backend is therefore split in two: `IDomain` holds the queries whose answer
does not change while the runtime is open, and `Env` holds the answers that the remaining
methods give during one public operation. Every public operation makes at most one call of
`allocate`, `import_handle`, `copy_memory` and `verify`, so one answer of each is enough; the
answers of `allocate` and `zero` may depend on the arguments.

`Os` is the world the backends act on: the bytes in memory, and the calls of `allocate`,
`import_handle` and `free` made so far, latest first. The list of calls is bookkeeping of the
model; the runtime cannot see it. An address stands for a cell of memory: two mappings of one
segment or file are one range of addresses.
-/

namespace UnifiedBuffer

/-- The queries of a backend that have a fixed answer. `capacity` is the field
`total_capacity` of the record that `capacity()` returns. -/
structure IDomain where
  backend : BackendId
  capacity : Except Error UInt64
  preferredAlignment : Except Error UInt64

/-- The answers of the backends during one public operation, and the clock. -/
structure Env where
  allocate : MemoryDomain → UInt64 → UInt64 → Except Error NativeAllocation :=
    fun _ _ _ => .error ⟨.outOfCapacity, ""⟩
  importHandle : MemoryDomain → String → UInt64 → UInt64 → Except Error NativeAllocation :=
    fun _ _ _ _ => .error ⟨.importFailure, ""⟩
  exportHandle : MemoryDomain → NativeAllocation → Except Error String :=
    fun _ _ => .error ⟨.unsupportedCapability, "domain: no external handle"⟩
  free : MemoryDomain → NativeAllocation → Except Error Unit := fun _ _ => .ok ()
  zero : MemoryDomain → NativeAllocation → UInt64 → Except Error Unit := fun _ _ _ => .ok ()
  verify : MemoryDomain → NativeAllocation → UInt64 → Except Error Unit := fun _ _ _ => .ok ()
  map : MemoryDomain → NativeAllocation → AccessMode → Except Error Nat := fun _ a _ => .ok a.base
  copy : Except Error Unit := .ok ()
  /-- the bytes that a failed transfer leaves in its target range -/
  scrap : Nat → UInt8 := fun _ => 0
  now : UInt64 := 0

/-- Memory of the requested size at an address. -/
def NativeAllocation.found (address : Nat) (bytes alignment : UInt64) : NativeAllocation where
  pointer := address
  hostMap := address
  size := bytes
  committed := bytes
  alignment := alignment

/-- Backends that find all memory at one address. -/
def Env.findsAt (address : Nat) : Env where
  allocate := fun _ bytes alignment => .ok (.found address bytes alignment)

/-! ## Memory -/

inductive Space where
  | host
  | device
  deriving DecidableEq, Repr

def MemoryDomain.space : MemoryDomain → Space
  | .device => .device
  | _ => .host

/-- The call of a backend that took or gave memory. `owner` is the ownership of the buffer
the memory was allocated for. -/
inductive BackendCall where
  | allocated (d : MemoryDomain) (owner : Ownership) (a : NativeAllocation)
  | imported (d : MemoryDomain) (a : NativeAllocation)
  | freed (d : MemoryDomain) (a : NativeAllocation)
  deriving DecidableEq, Repr

/-- Memory contents, and the backend calls so far (latest first). -/
structure Os where
  bytes : Space → Nat → UInt8 := fun _ _ => 0
  calls : List BackendCall := []

/-- Overwrite `len` bytes from address `base` on. -/
def Os.fill (os : Os) (sp : Space) (base len : Nat) (f : Nat → UInt8) : Os :=
  { os with
    bytes := fun s a =>
      if s = sp ∧ base ≤ a ∧ a < base + len then f a else os.bytes s a }

theorem Os.fill_bytes_outside (os : Os) (sp s : Space) (base len a : Nat) (f : Nat → UInt8)
    (h : ¬ (s = sp ∧ base ≤ a ∧ a < base + len)) :
    (os.fill sp base len f).bytes s a = os.bytes s a := if_neg h

/-- Tag a new allocation with the number of backend calls before it. -/
def Os.stamp (os : Os) (a : NativeAllocation) : NativeAllocation :=
  { a with tag := .native os.calls.length }

def Os.log (os : Os) (call : BackendCall) : Os := { os with calls := call :: os.calls }

/-- `IDomain::allocate` for a buffer with ownership `owner`. -/
def Os.allocate (os : Os) (env : Env) (d : MemoryDomain) (owner : Ownership)
    (bytes alignment : UInt64) : Except Error NativeAllocation × Os :=
  match env.allocate d bytes alignment with
  | .error e => (.error e, os)
  | .ok a => (.ok (os.stamp a), os.log (.allocated d owner (os.stamp a)))

/-- `IDomain::import_handle`. Memory that is mapped already is mapped once more if the handle is the
one of a segment that is held. -/
def Os.importHandle (os : Os) (env : Env) (d : MemoryDomain) (handle : String)
    (size alignment : UInt64) : Except Error NativeAllocation × Os :=
  match env.importHandle d handle size alignment with
  | .error e => (.error e, os)
  | .ok a => (.ok (os.stamp a), os.log (.imported d (os.stamp a)))

/-- `IDomain::free`. The runtime never looks at the result. -/
def Os.free (os : Os) (d : MemoryDomain) (a : NativeAllocation) : Os := os.log (.freed d a)

/-- What `IDomain::free` leaves in its argument: every backend overwrites the allocation with
`NativeAllocation{}` once it has freed it. -/
def Env.afterFree (env : Env) (d : MemoryDomain) (a : NativeAllocation) : NativeAllocation :=
  match env.free d a with
  | .ok _ => {}
  | .error _ => a

/-- `IDomain::zero` on `[0, len)`. A failed call leaves arbitrary bytes in the range. -/
def Os.zero (os : Os) (env : Env) (d : MemoryDomain) (a : NativeAllocation) (len : UInt64) :
    Except Error Unit × Os :=
  match env.zero d a len with
  | .ok _ => (.ok (), os.fill d.space a.base len.toNat (fun _ => 0))
  | .error e => (.error e, os.fill d.space a.base len.toNat env.scrap)

/-- `copy_memory`. A failed device transfer leaves arbitrary bytes in the target range. -/
def Os.copyMemory (os : Os) (env : Env) (dst src : Nat) (len : UInt64) (dstDev srcDev : Bool) :
    Except Error Unit × Os :=
  let spaceOf := fun dev => if dev then Space.device else Space.host
  if len = 0 then (.ok (), os)
  else
    match env.copy with
    | .ok _ =>
        (.ok (), os.fill (spaceOf dstDev) dst len.toNat
          (fun a => os.bytes (spaceOf srcDev) (src + (a - dst))))
    | .error e => (.error e, os.fill (spaceOf dstDev) dst len.toNat env.scrap)

@[simp] theorem Os.log_calls (os : Os) (call : BackendCall) :
    (os.log call).calls = call :: os.calls := rfl

@[simp] theorem Os.free_calls (os : Os) (d : MemoryDomain) (a : NativeAllocation) :
    (os.free d a).calls = .freed d a :: os.calls := rfl

@[simp] theorem Os.zero_calls (os : Os) (env : Env) (d : MemoryDomain) (a : NativeAllocation)
    (len : UInt64) : (os.zero env d a len).2.calls = os.calls := by
  unfold Os.zero
  cases env.zero d a len <;> rfl

/-! ### Transfers -/

/-- The address space of a domain, as `copy_memory` is told. -/
theorem MemoryDomain.space_eq (d : MemoryDomain) :
    d.space = if decide (d = .device) then Space.device else Space.host := by
  cases d <;> rfl

section

variable {os : Os} {env : Env} {dst src : Nat} {len : UInt64} {dstDev srcDev : Bool}

theorem Os.copyMemory_isOk (hcopy : env.copy = .ok ()) :
    (os.copyMemory env dst src len dstDev srcDev).1 = .ok () := by
  unfold Os.copyMemory
  rw [hcopy]
  simp only
  split <;> rfl

/-- A transfer writes nothing but its target range. -/
theorem Os.copyMemory_bytes_outside {s : Space} {a : Nat}
    (h : ¬ (s = (if dstDev then Space.device else Space.host) ∧ dst ≤ a ∧ a < dst + len.toNat)) :
    (os.copyMemory env dst src len dstDev srcDev).2.bytes s a = os.bytes s a := by
  unfold Os.copyMemory
  simp only
  split
  · rfl
  · split <;> exact Os.fill_bytes_outside _ _ _ _ _ _ _ h

/-- A transfer that succeeds leaves the bytes of the source in its target. -/
theorem Os.copyMemory_bytes_inside
    (hok : (os.copyMemory env dst src len dstDev srcDev).1 = .ok ()) {i : Nat}
    (hi : i < len.toNat) :
    (os.copyMemory env dst src len dstDev srcDev).2.bytes
        (if dstDev then Space.device else Space.host) (dst + i)
      = os.bytes (if srcDev then Space.device else Space.host) (src + i) := by
  have hlen : len ≠ 0 := by
    rintro rfl
    exact absurd hi (Nat.not_lt_zero i)
  unfold Os.copyMemory at hok ⊢
  simp only [if_neg hlen] at hok ⊢
  cases henv : env.copy with
  | error e =>
      rw [henv] at hok
      cases hok
  | ok u =>
      refine (if_pos ⟨rfl, Nat.le_add_right _ _, Nat.add_lt_add_left hi _⟩).trans ?_
      rw [Nat.add_sub_cancel_left]

end

@[simp] theorem Os.copyMemory_calls (os : Os) (env : Env) (dst src : Nat) (len : UInt64)
    (dstDev srcDev : Bool) : (os.copyMemory env dst src len dstDev srcDev).2.calls = os.calls := by
  unfold Os.copyMemory
  simp only
  split
  · rfl
  · cases env.copy <;> rfl

end UnifiedBuffer
