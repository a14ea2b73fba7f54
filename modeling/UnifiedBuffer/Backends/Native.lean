import UnifiedBuffer.Backends.Domain
import UnifiedBuffer.Core.CheckedMath

set_option autoImplicit false

/-! # The native backends

`allocate`, `export_handle` and `import_handle` of the five classes that implement `IDomain`
(`host_backend.cpp`, `cuda_backend.cpp`, `shared_memory_backend.cpp` and `file_backend.cpp`, in
their Windows version). What they ask of the operating system and of CUDA is a parameter,
`NativeCalls`; the rest, that is which requests they turn down and how they describe the memory they
got, is as in the source.

The state of a shared or file-backed allocation holds the name of its segment or the path of its
file. A `NativeAllocation` of the model only says whether it owns such a state, so the names are a
parameter too, by the tag of the allocation. -/

namespace UnifiedBuffer

/-- The answers that the operating system and CUDA give to the backends during one public
operation. A call that returns a null pointer or an invalid handle answers `none` or `false`; a
failed CUDA call answers with the text of its error. -/
structure NativeCalls where
  alignedMalloc : UInt64 → UInt64 → Option Nat := fun _ _ => none
  cudaAvailable : Bool := false
  cudaSetDevice : Bool := false
  activeDevice : Int := 0
  cudaMalloc : UInt64 → Except String Nat := fun _ => .error ""
  cudaHostAlloc : UInt64 → Except String Nat := fun _ => .error ""
  /-- `CreateFileMappingA`, with the low word of the size -/
  createFileMapping : UInt32 → Bool := fun _ => false
  /-- `OpenFileMappingA` -/
  openFileMapping : String → Bool := fun _ => false
  /-- `MapViewOfFile` on the mapping that was just created or opened -/
  mapViewOfFile : UInt64 → Option Nat := fun _ => none
  /-- `CreateFileA` with `CREATE_ALWAYS` -/
  createFile : Bool := false
  setFilePointer : Bool := false
  setEndOfFile : Bool := false
  /-- `CreateFileA` with `OPEN_EXISTING` -/
  openFile : String → Bool := fun _ => false
  /-- `GetFileSizeEx` on the file that was just opened -/
  fileSize : Option UInt64 := none

/-! ## Allocation -/

def givenAlignment (alignment fallback : UInt64) : UInt64 :=
  if alignment ≠ 0 then alignment else fallback

def hostAlignment (alignment : UInt64) : UInt64 := if alignment < 8 then 8 else alignment

def HostDomain.allocate (sys : NativeCalls) (bytes alignment : UInt64) :
    Except Error NativeAllocation :=
  if bytes = 0 then .error ⟨.invalidArgument, "host allocation: zero size"⟩
  else
    let alignment := hostAlignment alignment
    if ¬ isPowerOfTwo alignment then
      .error ⟨.alignmentError, "host allocation: alignment not power-of-two"⟩
    else
      match sys.alignedMalloc bytes alignment with
      | none => .error ⟨.outOfCapacity, "host allocation: _aligned_malloc failed"⟩
      | some p =>
          .ok { pointer := p, hostMap := p, size := bytes, committed := bytes
                alignment := alignment, device := ⟨.hostMalloc, -1⟩, domain := .host
                backend := .hostMalloc }

def CudaPinnedDomain.allocate (sys : NativeCalls) (bytes alignment : UInt64) :
    Except Error NativeAllocation :=
  if sys.cudaAvailable = false then .error ⟨.deviceUnavailable, "no CUDA device"⟩
  else if bytes = 0 then .error ⟨.invalidArgument, "pinned allocation: zero size"⟩
  else
    match sys.cudaHostAlloc bytes with
    | .error e => .error ⟨.outOfCapacity, "cudaHostAlloc: " ++ e⟩
    | .ok p =>
        .ok { pointer := p, hostMap := p, size := bytes, committed := bytes
              alignment := givenAlignment alignment 256, device := ⟨.cuda, 0⟩
              domain := .pinnedHost, backend := .cuda }

def CudaDeviceDomain.allocate (sys : NativeCalls) (bytes alignment : UInt64) :
    Except Error NativeAllocation :=
  if sys.cudaAvailable = false then .error ⟨.deviceUnavailable, "no CUDA device"⟩
  else if bytes = 0 then .error ⟨.invalidArgument, "device allocation: zero size"⟩
  else if alignment > 4096 then .error ⟨.alignmentError, "device allocation: alignment too large"⟩
  else if alignment ≠ 0 ∧ ¬ isPowerOfTwo alignment then
    .error ⟨.alignmentError, "device allocation: alignment not power-of-two"⟩
  else if sys.cudaSetDevice = false then .error ⟨.backendFailure, "cudaSetDevice failed"⟩
  else
    match sys.cudaMalloc bytes with
    | .error e => .error ⟨.outOfCapacity, "cudaMalloc: " ++ e⟩
    | .ok p =>
        .ok { pointer := p, hostMap := 0, size := bytes, committed := bytes
              alignment := givenAlignment alignment 256
              device := ⟨.cuda, sys.activeDevice⟩, domain := .device, backend := .cuda }

/-- `SharedMemoryDomain::allocate`. The size of the mapping is cut to 32 bits. -/
def SharedMemoryDomain.allocate (sys : NativeCalls) (bytes alignment : UInt64) :
    Except Error NativeAllocation :=
  if bytes = 0 then .error ⟨.invalidArgument, "shared alloc: zero size"⟩
  else if sys.createFileMapping bytes.toUInt32 = false then
    .error ⟨.outOfCapacity, "shared alloc: CreateFileMapping failed"⟩
  else
    match sys.mapViewOfFile bytes with
    | none => .error ⟨.mappingFailure, "shared alloc: MapViewOfFile failed"⟩
    | some view =>
        .ok { pointer := view, hostMap := view, size := bytes, committed := bytes
              alignment := givenAlignment alignment 64, domain := .sharedHost
              backend := .winSharedFile, device := ⟨.winSharedFile, -1⟩, state := true }

def FileBackedDomain.allocate (sys : NativeCalls) (bytes alignment : UInt64) :
    Except Error NativeAllocation :=
  if bytes = 0 then .error ⟨.invalidArgument, "file alloc: zero size"⟩
  else if sys.createFile = false then .error ⟨.backendFailure, "file alloc: CreateFile failed"⟩
  else if sys.setFilePointer = false then .error ⟨.backendFailure, "file alloc: seek failed"⟩
  else if sys.setEndOfFile = false then .error ⟨.outOfCapacity, "file alloc: truncate failed"⟩
  else if sys.createFileMapping 0 = false then
    .error ⟨.mappingFailure, "file alloc: CreateFileMapping failed"⟩
  else
    match sys.mapViewOfFile bytes with
    | none => .error ⟨.mappingFailure, "file alloc: MapViewOfFile failed"⟩
    | some view =>
        .ok { pointer := view, hostMap := view, size := bytes, committed := bytes
              alignment := givenAlignment alignment 64, domain := .mmapStorage
              backend := .fileBacked, device := ⟨.fileBacked, -1⟩, state := true }

def NativeCalls.allocate (sys : NativeCalls) : MemoryDomain → UInt64 → UInt64 →
    Except Error NativeAllocation
  | .host => HostDomain.allocate sys
  | .pinnedHost => CudaPinnedDomain.allocate sys
  | .device => CudaDeviceDomain.allocate sys
  | .sharedHost => SharedMemoryDomain.allocate sys
  | .mmapStorage => FileBackedDomain.allocate sys

/-- What the memory of every backend has in common: exactly the bytes asked for, at the alignment
asked for or a larger one, in the domain of the backend; shared and file-backed memory has a
state. -/
structure Granted (d : MemoryDomain) (bytes alignment : UInt64) (a : NativeAllocation) : Prop where
  committed : a.committed = bytes
  alignment : alignment ≤ a.alignment
  domain : a.domain = d
  state : a.state = true ↔ d = .sharedHost ∨ d = .mmapStorage

theorem le_givenAlignment (alignment fallback : UInt64) :
    alignment ≤ givenAlignment alignment fallback := by
  unfold givenAlignment
  split
  · exact UInt64.le_refl _
  · rename_i hzero
    rw [not_not.mp hzero]
    exact UInt64.zero_le

theorem le_hostAlignment (alignment : UInt64) : alignment ≤ hostAlignment alignment := by
  unfold hostAlignment
  split
  · rename_i hsmall
    exact UInt64.le_of_lt hsmall
  · exact UInt64.le_refl _

theorem NativeCalls.granted {sys : NativeCalls} {d : MemoryDomain} {bytes alignment : UInt64}
    {a : NativeAllocation} (h : sys.allocate d bytes alignment = .ok a) :
    Granted d bytes alignment a := by
  -- in every backend only the last branch succeeds
  cases d with
  | host =>
      simp only [allocate, HostDomain.allocate] at h
      repeat' split at h
      all_goals cases h
      exact ⟨rfl, le_hostAlignment _, rfl, by simp⟩
  | pinnedHost =>
      simp only [allocate, CudaPinnedDomain.allocate] at h
      repeat' split at h
      all_goals cases h
      exact ⟨rfl, le_givenAlignment _ _, rfl, by simp⟩
  | device =>
      simp only [allocate, CudaDeviceDomain.allocate] at h
      repeat' split at h
      all_goals cases h
      exact ⟨rfl, le_givenAlignment _ _, rfl, by simp⟩
  | sharedHost =>
      simp only [allocate, SharedMemoryDomain.allocate] at h
      repeat' split at h
      all_goals cases h
      exact ⟨rfl, le_givenAlignment _ _, rfl, by simp⟩
  | mmapStorage =>
      simp only [allocate, FileBackedDomain.allocate] at h
      repeat' split at h
      all_goals cases h
      exact ⟨rfl, le_givenAlignment _ _, rfl, by simp⟩

/-- The allocations of the operation are made by the native backends. -/
def Env.Native (env : Env) : Prop := ∃ sys : NativeCalls, env.allocate = sys.allocate

theorem Env.Native.granted {env : Env} (h : env.Native) {d : MemoryDomain}
    {bytes alignment : UInt64} {a : NativeAllocation}
    (ha : env.allocate d bytes alignment = .ok a) :
    Granted d bytes alignment a := by
  obtain ⟨sys, hsys⟩ := h
  rw [hsys] at ha
  exact sys.granted ha

/-! ## External handles

The handle of a segment is a text: the name of a mapping or the path of a file. A character stands
for a byte here, so `length` is `size()`. -/

/-- What the backends name their segments by: the seed of `make_unique_name`, the directory of the
files, and the values of the counters, by the tag of the allocation they were drawn for. -/
structure SegmentNames where
  seed : UInt64 := 0
  baseDir : String
  counters : AllocTag → UInt64 × UInt64 := fun _ => (0, 0)

/-- The name that `make_unique_name` makes of a seed and of two numbers. -/
def SharedMemoryDomain.uniqueName (seed masked plain : UInt64) : String :=
  "UnifiedBuffer_" ++ toString (seed ^^^ masked) ++ "_" ++ toString plain

def SegmentNames.makeUniqueName (names : SegmentNames) (tag : AllocTag) : String :=
  SharedMemoryDomain.uniqueName names.seed (names.counters tag).1 (names.counters tag).2

def SegmentNames.path (names : SegmentNames) (tag : AllocTag) : String :=
  names.baseDir ++ "\\ubf_" ++ toString (names.counters tag).1 ++ ".bin"

def SharedMemoryDomain.exportHandle (names : SegmentNames) (a : NativeAllocation) :
    Except Error String :=
  if a.state = false then .error ⟨.stateInvalid, "shared export: no state"⟩
  else .ok (names.makeUniqueName a.tag)

def FileBackedDomain.exportHandle (names : SegmentNames) (a : NativeAllocation) :
    Except Error String :=
  if a.state = false then .error ⟨.stateInvalid, "file export: no state"⟩
  else .ok (names.path a.tag)

/-- `domain(d)->export_handle(a)`, for memory that the backend has allocated. -/
def SegmentNames.exportHandle (names : SegmentNames) : MemoryDomain → NativeAllocation →
    Except Error String
  | .sharedHost => SharedMemoryDomain.exportHandle names
  | .mmapStorage => FileBackedDomain.exportHandle names
  | _ => fun _ => .error ⟨.unsupportedCapability, "domain: no external handle"⟩

/-- Memory with a state has a handle. -/
theorem SegmentNames.exportHandle_ok (names : SegmentNames) {d : MemoryDomain}
    (hd : d = .sharedHost ∨ d = .mmapStorage) {a : NativeAllocation} (hstate : a.state = true) :
    ∃ handle, names.exportHandle d a = .ok handle := by
  rcases hd with rfl | rfl
  · exact ⟨names.makeUniqueName a.tag, by
      simp [exportHandle, SharedMemoryDomain.exportHandle, hstate]⟩
  · exact ⟨names.path a.tag, by simp [exportHandle, FileBackedDomain.exportHandle, hstate]⟩

/-- Whether a text has such a character is decided along the text, not over all characters. -/
instance decidableExistsChar (l : List Char) (p : Char → Prop) [DecidablePred p] :
    Decidable (∃ c ∈ l, p c) :=
  List.decidableBEx p l

def SharedMemoryDomain.importHandle (sys : NativeCalls) (name : String) (size alignment : UInt64) :
    Except Error NativeAllocation :=
  if name.toList = [] then .error ⟨.importFailure, "shared import: empty name"⟩
  else if name.toList.length > 512 then .error ⟨.importFailure, "shared import: name too long"⟩
  else if ∃ c ∈ name.toList, c ∈ "\\/".toList then
    .error ⟨.importFailure, "shared import: illegal name"⟩
  else if sys.openFileMapping name = false then
    .error ⟨.importFailure, "shared import: OpenFileMapping failed"⟩
  else
    match sys.mapViewOfFile size with
    | none => .error ⟨.mappingFailure, "shared import: MapViewOfFile failed"⟩
    | some view =>
        .ok { pointer := view, hostMap := view, size := size, committed := size
              alignment := givenAlignment alignment 64, domain := .sharedHost
              backend := .winSharedFile, state := true }

def pathIsBeneath (base path : String) : Bool := base.toList.isPrefixOf path.toList

def FileBackedDomain.importHandle (sys : NativeCalls) (baseDir path : String)
    (size alignment : UInt64) : Except Error NativeAllocation :=
  if path.toList = [] then .error ⟨.importFailure, "file import: empty path"⟩
  else if path.toList.length > 1024 then .error ⟨.importFailure, "file import: path too long"⟩
  else if "\\..\\".toList <:+: path.toList ∨ "..".toList <:+: path.toList then
    .error ⟨.importFailure, "file import: traversal rejected"⟩
  else if pathIsBeneath baseDir path = false then
    .error ⟨.importFailure, "file import: outside base dir"⟩
  else if sys.openFile path = false then .error ⟨.importFailure, "file import: open failed"⟩
  else
    match sys.fileSize with
    | none => .error ⟨.importFailure, "file import: stat failed"⟩
    | some fs =>
        if fs < size then .error ⟨.importFailure, "file import: file too small"⟩
        else if sys.createFileMapping 0 = false then
          .error ⟨.mappingFailure, "file import: mapping failed"⟩
        else
          match sys.mapViewOfFile size with
          | none => .error ⟨.mappingFailure, "file import: map view failed"⟩
          | some view =>
              .ok { pointer := view, hostMap := view, size := size, committed := size
                    alignment := givenAlignment alignment 64, domain := .mmapStorage
                    backend := .fileBacked, state := true }

def NativeCalls.importHandle (sys : NativeCalls) (baseDir : String) : MemoryDomain → String →
    UInt64 → UInt64 → Except Error NativeAllocation
  | .sharedHost => SharedMemoryDomain.importHandle sys
  | .mmapStorage => FileBackedDomain.importHandle sys baseDir
  | _ => fun _ _ _ => .error ⟨.unsupportedCapability, "domain: cannot import handle"⟩

/-! ### Handles that an import accepts -/

theorem toList_toString (n : UInt64) : (toString n).toList = Nat.toDigits 10 n.toNat := by
  show (toString n.toNat).toList = _
  simp

theorem isDigit_of_mem_toString {n : UInt64} {c : Char} (h : c ∈ (toString n).toList) :
    c.isDigit = true := by
  rw [toList_toString] at h
  exact Nat.isDigit_of_mem_toDigits (by decide) (by decide) h

theorem length_toString_le (n : UInt64) : (toString n).toList.length ≤ 20 := by
  rw [toList_toString]
  refine Nat.toDigits_length 10 n.toNat 20 (by decide) ?_
  exact Nat.lt_of_lt_of_le n.toNat_lt (by decide)

/-- A pair of equal characters does not span the seam of two texts if the second one starts with
another character. -/
theorem pair_infix_append {c : Char} {l₁ l₂ : List Char} (h : [c, c] <:+: l₁ ++ l₂)
    (hhead : l₂.head? ≠ some c) : [c, c] <:+: l₁ ∨ [c, c] <:+: l₂ := by
  induction l₁ with
  | nil => exact Or.inr h
  | cons x xs ih =>
      rcases List.infix_cons_iff.mp h with hfirst | hrest
      · obtain ⟨rfl, hsecond⟩ := List.cons_prefix_cons.mp hfirst
        cases xs with
        | nil =>
            obtain ⟨t, ht⟩ := hsecond
            exact absurd (congrArg List.head? ht).symm hhead
        | cons y ys =>
            obtain ⟨rfl, -⟩ := List.cons_prefix_cons.mp hsecond
            exact Or.inl ⟨[], ys, rfl⟩
      · exact (ih hrest).imp_left (List.infix_cons ·)

namespace SegmentNames

/-- The directory of the files contains no `..`, and the paths of its files are short enough. -/
structure Clean (names : SegmentNames) : Prop where
  noTraversal : ¬ "..".toList <:+: names.baseDir.toList
  short : ∀ tag, (names.path tag).toList.length ≤ 1024

/-- The names of mappings pass the checks of `SharedMemoryDomain::import_handle`. -/
theorem makeUniqueName_legal (names : SegmentNames) (tag : AllocTag) :
    (names.makeUniqueName tag).toList ≠ [] ∧ (names.makeUniqueName tag).toList.length ≤ 512 ∧
      ¬ ∃ c ∈ (names.makeUniqueName tag).toList, c ∈ "\\/".toList := by
  unfold makeUniqueName SharedMemoryDomain.uniqueName
  have hfirst := length_toString_le (names.seed ^^^ (names.counters tag).1)
  have hsecond := length_toString_le (names.counters tag).2
  simp only [String.toList_append]
  refine ⟨by simp, ?_, ?_⟩
  · have hstem : "UnifiedBuffer_".toList.length = 14 := by decide
    have hsep : "_".toList.length = 1 := by decide
    simp only [List.length_append, hstem, hsep]
    omega
  · -- neither the fixed parts nor the digits have a separator
    rintro ⟨c, hc, hsep⟩
    have hdigit : c.isDigit = false := by
      have hall : ∀ x ∈ "\\/".toList, x.isDigit = false := by simp
      exact hall c hsep
    have hnot : ∀ {n : UInt64}, c ∉ (toString n).toList := fun hmem => by
      rw [isDigit_of_mem_toString hmem] at hdigit
      cases hdigit
    have hfixed : ∀ x ∈ "\\/".toList, x ∉ "UnifiedBuffer_".toList ∧ x ∉ "_".toList := by simp
    simp only [List.mem_append, hnot, or_false, (hfixed c hsep).1, (hfixed c hsep).2] at hc

/-- The paths of files pass the checks of `FileBackedDomain::import_handle`. -/
theorem Clean.path_legal {names : SegmentNames} (h : names.Clean) (tag : AllocTag) :
    (names.path tag).toList ≠ [] ∧ pathIsBeneath names.baseDir (names.path tag) = true ∧
      ¬ ("\\..\\".toList <:+: (names.path tag).toList ∨
        "..".toList <:+: (names.path tag).toList) := by
  have hpath : (names.path tag).toList = names.baseDir.toList
      ++ ("\\ubf_".toList ++ (toString (names.counters tag).1).toList ++ ".bin".toList) := by
    simp only [path, String.toList_append, List.append_assoc]
  -- the name of the file has one dot
  have hdots : ¬ "..".toList <:+:
      "\\ubf_".toList ++ (toString (names.counters tag).1).toList ++ ".bin".toList := by
    intro hinfix
    have hle := hinfix.sublist.count_le '.'
    have hnone : (toString (names.counters tag).1).toList.count '.' = 0 := by
      refine List.count_eq_zero.mpr (fun hmem => ?_)
      exact absurd (isDigit_of_mem_toString hmem) (by decide)
    have hpair : "..".toList.count '.' = 2 := by decide
    have hstem : "\\ubf_".toList.count '.' = 0 := by decide
    have hext : ".bin".toList.count '.' = 1 := by decide
    rw [List.count_append, List.count_append, hnone, hpair, hstem, hext] at hle
    exact absurd hle (by decide)
  have hclear : ¬ "..".toList <:+: (names.path tag).toList := by
    intro hinfix
    rw [hpath] at hinfix
    have hhead : ("\\ubf_".toList ++ (toString (names.counters tag).1).toList
        ++ ".bin".toList).head? ≠ some '.' := by
      simp
    rcases pair_infix_append (c := '.') hinfix hhead with hbase | hname
    · exact h.noTraversal hbase
    · exact hdots hname
  refine ⟨?_, ?_, ?_⟩
  · rw [hpath]
    simp
  · rw [pathIsBeneath, hpath]
    exact List.isPrefixOf_iff_prefix.mpr (List.prefix_append _ _)
  · rintro (hsegment | hpair)
    · have hinner : "..".toList <:+: "\\..\\".toList := by decide
      exact hclear (hinner.trans hsegment)
    · exact hclear hpair

end SegmentNames

/-! ### Opening a segment again -/

/-- The operating system opens the segment behind `handle`, an object of `object` bytes with the
contents `content`, for a process with the memory `os`: the handle is found, and every part of the
object can be mapped. -/
structure NativeCalls.Opens (sys : NativeCalls) (os : Os) (d : MemoryDomain) (handle : String)
    (object : UInt64) (content : Nat → UInt8) : Prop where
  mapping : d = .sharedHost → sys.openFileMapping handle = true
  file : d = .mmapStorage → sys.openFile handle = true ∧ sys.createFileMapping 0 = true ∧
    ∃ fs, sys.fileSize = some fs ∧ object ≤ fs
  view : ∀ size, size ≤ object → ∃ address, sys.mapViewOfFile size = some address ∧
    ∀ x < size.toNat, os.bytes .host (address + x) = content x

structure NativeAllocation.Maps (a : NativeAllocation) (os : Os) (size : UInt64)
    (content : Nat → UInt8) : Prop where
  committed : a.committed = size
  bytes : ∀ x < size.toNat, os.bytes .host (a.base + x) = content x

theorem NativeAllocation.base_of_view {a : NativeAllocation} {address : Nat}
    (hpointer : a.pointer = address) (hmap : a.hostMap = address) : a.base = address := by
  unfold NativeAllocation.base
  split
  · exact hmap
  · exact hpointer

/-- A handle that `export_handle` returns is one that `import_handle` accepts. -/
theorem importHandle_of_exportHandle {names : SegmentNames} (hclean : names.Clean)
    {d : MemoryDomain} {a : NativeAllocation} {handle : String}
    (hexport : names.exportHandle d a = .ok handle) {sys : NativeCalls} {os : Os} {object : UInt64}
    {content : Nat → UInt8} (hopens : sys.Opens os d handle object content) {size : UInt64}
    (hsize : size ≤ object) (alignment : UInt64) :
    ∃ b, sys.importHandle names.baseDir d handle size alignment = .ok b ∧
      b.Maps os size content := by
  obtain ⟨address, hview, hbytes⟩ := hopens.view size hsize
  have hmaps : ∀ {b : NativeAllocation}, b.committed = size → b.pointer = address →
      b.hostMap = address → b.Maps os size content := by
    intro b hcommitted hpointer hmap
    refine ⟨hcommitted, fun x hx => ?_⟩
    rw [NativeAllocation.base_of_view hpointer hmap]
    exact hbytes x hx
  cases d with
  | sharedHost =>
      simp only [SegmentNames.exportHandle, SharedMemoryDomain.exportHandle] at hexport
      split at hexport
      · cases hexport
      cases hexport
      obtain ⟨hne, hlen, hlegal⟩ := names.makeUniqueName_legal a.tag
      -- the checks on the name pass for every name that the runtime makes
      simp only [NativeCalls.importHandle, SharedMemoryDomain.importHandle, hne, if_false,
        Nat.not_lt.mpr hlen, hlegal, hopens.mapping rfl, Bool.true_eq_false, hview]
      exact ⟨_, rfl, hmaps rfl rfl rfl⟩
  | mmapStorage =>
      simp only [SegmentNames.exportHandle, FileBackedDomain.exportHandle] at hexport
      split at hexport
      · cases hexport
      cases hexport
      obtain ⟨hne, hbeneath, hlegal⟩ := hclean.path_legal a.tag
      obtain ⟨hopen, hmapping, fs, hfs, hroom⟩ := hopens.file rfl
      have hlarge : ¬ fs < size := UInt64.not_lt.mpr (UInt64.le_trans hsize hroom)
      simp only [NativeCalls.importHandle, FileBackedDomain.importHandle, hne, if_false,
        Nat.not_lt.mpr (hclean.short a.tag), hlegal, hbeneath, hopen, hmapping, hfs,
        hlarge, Bool.true_eq_false, hview]
      exact ⟨_, rfl, hmaps rfl rfl rfl⟩
  | _ => cases hexport

/-- The answers of the operation are those of the native backends, with segments named by
`names`. -/
structure Env.Backed (env : Env) (names : SegmentNames) : Prop where
  calls : ∃ sys : NativeCalls, env.allocate = sys.allocate ∧
    env.importHandle = sys.importHandle names.baseDir
  exportHandle : env.exportHandle = names.exportHandle

theorem Env.Backed.native {env : Env} {names : SegmentNames} (h : env.Backed names) :
    env.Native := by
  obtain ⟨sys, hallocate, -⟩ := h.calls
  exact ⟨sys, hallocate⟩

/-- The answers of the native backends. -/
def NativeCalls.env (sys : NativeCalls) (names : SegmentNames) : Env where
  allocate := sys.allocate
  importHandle := sys.importHandle names.baseDir
  exportHandle := names.exportHandle

theorem NativeCalls.env_backed (sys : NativeCalls) (names : SegmentNames) :
    (sys.env names).Backed names := ⟨⟨sys, rfl, rfl⟩, rfl⟩

/-- An opened segment is memory of the backend's domain. -/
theorem NativeCalls.importHandle_domain {sys : NativeCalls} {baseDir : String} {d : MemoryDomain}
    {handle : String} {size alignment : UInt64} {a : NativeAllocation}
    (h : sys.importHandle baseDir d handle size alignment = .ok a) : a.domain = d := by
  cases d with
  | sharedHost =>
      simp only [importHandle, SharedMemoryDomain.importHandle] at h
      repeat' split at h
      all_goals cases h
      rfl
  | mmapStorage =>
      simp only [importHandle, FileBackedDomain.importHandle] at h
      repeat' split at h
      all_goals cases h
      rfl
  | _ => cases h

end UnifiedBuffer
