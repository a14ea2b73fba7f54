import UnifiedBuffer.Lib.Fields
import UnifiedBuffer.Safety.Recycling

set_option autoImplicit false

/-! # What a segment gives access to

An import opens a segment by its handle, and two things bound what the importer gets: the directory
that the path of a file must lie in, and the size of the section behind a shared mapping. Neither
bound is the documented one. The directory is compared as a text, so a sibling whose name starts
with the name of the directory passes; and the size of a section is cut to its low word, so from
4 GiB on it is smaller than the memory that is described. -/

namespace UnifiedBuffer

open Lib

/-! ## Files -/

/-- The directory of the domain: the one given, or else what `GetTempPathA` answers. -/
def FileBackedDomain.baseDir (given tempPath : String) : String :=
  if given.toList = [] then (if tempPath.toList = [] then "." else tempPath) else given

def isSeparator (c : Char) : Bool := c == '\\' || c == '/'

/-- The components of a path. -/
def components (path : String) : List (List Char) := fields isSeparator path.toList

/-- The path is beneath the directory, by components and without `..`. -/
structure Confined (base path : String) : Prop where
  beneath : components base <+: components path
  further : (components base).length < (components path).length
  noTraversal : "..".toList ∉ components path

namespace FileBackedDomain

/-- `import_handle` gets past its checks to opening the file: if the file cannot be opened, this is
the error. -/
def OpensFile (base path : String) : Prop :=
  ∀ (sys : NativeCalls) (size alignment : UInt64), sys.openFile path = false →
    importHandle sys base path size alignment = .error ⟨.importFailure, "file import: open failed"⟩

theorem opensFile_iff {base path : String} : OpensFile base path ↔
    path.toList ≠ [] ∧ path.toList.length ≤ 1024 ∧ ¬ "..".toList <:+: path.toList ∧
      base.toList <+: path.toList := by
  constructor
  · intro h
    -- whichever check turns the path down, its message is not the one of a failed open
    have hres := h {} 0 0 rfl
    unfold importHandle at hres
    split at hres
    · simp at hres
    rename_i hne
    split at hres
    · simp at hres
    rename_i hlong
    split at hres
    · simp at hres
    rename_i hdots
    split at hres
    · simp at hres
    rename_i hbeneath
    refine ⟨hne, Nat.le_of_not_lt hlong, fun hin => hdots (.inr hin), ?_⟩
    simpa [pathIsBeneath] using hbeneath
  · rintro ⟨hne, hlong, hdots, hprefix⟩ sys size alignment hopen
    have hsegment : ¬ "\\..\\".toList <:+: path.toList := by
      have hinner : "..".toList <:+: "\\..\\".toList := by decide
      exact fun hin => hdots (hinner.trans hin)
    have hbeneath : pathIsBeneath base path = true := List.isPrefixOf_iff_prefix.mpr hprefix
    unfold importHandle
    rw [if_neg hne, if_neg (Nat.not_lt.mpr hlong), if_neg (not_or.mpr ⟨hsegment, hdots⟩), hbeneath,
      if_neg Bool.noConfusion, if_pos hopen]

theorem baseDir_ne_nil (given tempPath : String) : (baseDir given tempPath).toList ≠ [] := by
  unfold baseDir
  split
  · split
    · decide
    · assumption
  · assumption

/-- A path that `import_handle` opens is beneath the directory if and only if the directory ends at
the end of a component of the path, and something other than separators follows it. -/
theorem opened_confined_iff (given tempPath path : String)
    (hopens : OpensFile (baseDir given tempPath) path) :
    Confined (baseDir given tempPath) path ↔
      ((∃ c ∈ (baseDir given tempPath).toList.getLast?, isSeparator c = true) ∨
        ∃ c ∈ (path.toList.drop (baseDir given tempPath).toList.length).head?,
          isSeparator c = true) ∧
      ∃ c ∈ path.toList.drop (baseDir given tempPath).toList.length, isSeparator c = false := by
  have hbase := baseDir_ne_nil given tempPath
  generalize baseDir given tempPath = base at *
  obtain ⟨-, -, hdots, rest, hpath⟩ := opensFile_iff.mp hopens
  have hdrop : path.toList.drop base.toList.length = rest := by
    rw [← hpath, List.drop_left]
  rw [hdrop]
  -- both sides are about the seam between the directory and the rest
  constructor
  · intro h
    have hseam : Seam isSeparator base.toList rest := by
      rw [← fields_prefix_iff, hpath]
      exact h.beneath
    have hmore : ∃ c ∈ rest, isSeparator c = false := by
      rw [← fields_length_lt_iff hseam, hpath]
      exact h.further
    have hrest : rest ≠ [] := List.ne_nil_of_mem hmore.choose_spec.1
    exact ⟨(seam_iff hbase hrest).mp hseam, hmore⟩
  · rintro ⟨hends, hmore⟩
    have hrest : rest ≠ [] := List.ne_nil_of_mem hmore.choose_spec.1
    have hseam := (seam_iff hbase hrest).mpr hends
    refine ⟨?_, ?_, fun hmem => hdots (infix_of_mem_fields hmem)⟩
    · rw [components, components, ← hpath]
      exact fields_prefix_iff.mpr hseam
    · rw [components, components, ← hpath]
      exact (fields_length_lt_iff hseam).mpr hmore

/-- A file of the directory is opened, and is beneath it. -/
theorem opened_confined_iff_file :
    OpensFile (baseDir "C:\\data" "") "C:\\data\\x" ∧
      Confined (baseDir "C:\\data" "") "C:\\data\\x" := by
  have hopens : OpensFile (baseDir "C:\\data" "") "C:\\data\\x" :=
    opensFile_iff.mpr (by decide)
  refine ⟨hopens, (opened_confined_iff "C:\\data" "" "C:\\data\\x" hopens).mpr ?_⟩
  -- a separator follows the directory, and then a name
  exact ⟨.inr ⟨'\\', by decide, rfl⟩, 'x', by decide, rfl⟩

/-- A file of another directory whose name starts with the name of the directory is opened. -/
theorem sibling_opened : OpensFile (baseDir "C:\\data" "") "C:\\database\\x" ∧
    ¬ components (baseDir "C:\\data" "") <+: components "C:\\database\\x" :=
  ⟨opensFile_iff.mpr (by decide), by decide⟩

end FileBackedDomain

/-! ## Sections -/

/-- The size of a section, from the two words passed to `CreateFileMappingA`. -/
def sectionBytes (words : UInt32 × UInt32) : Nat := words.1.toNat * 2 ^ 32 + words.2.toNat

/-- The operating system as the backend relies on it: the section that is created or opened has
`size` bytes, and a view can be mapped if it lies within the section. -/
structure NativeCalls.HasSection (sys : NativeCalls) (size : Nat) : Prop where
  created : ∀ low, sys.createFileMapping low = true
  opened : ∀ name, sys.openFileMapping name = true
  views : ∀ n : UInt64, (∃ address, sys.mapViewOfFile n = some address) ↔ n.toNat ≤ size

namespace SharedMemoryDomain

/-- The words that `allocate` passes to `CreateFileMappingA` for the size, high word first. -/
def sizeWords (bytes : UInt64) : UInt32 × UInt32 := (0, bytes.toUInt32)

/-- The allocation fails with this call of `CreateFileMappingA` and with no other. -/
theorem allocate_creates_iff {bytes : UInt64} (hne : bytes ≠ 0) {low : UInt32} :
    (∀ (sys : NativeCalls) (alignment : UInt64), sys.createFileMapping low = false →
      allocate sys bytes alignment =
        .error ⟨.outOfCapacity, "shared alloc: CreateFileMapping failed"⟩) ↔
      low = (sizeWords bytes).2 := by
  constructor
  · intro h
    by_contra hother
    have hres := h { createFileMapping := fun word => word != low } 0 (by simp)
    have hcreated : ((sizeWords bytes).2 != low) = true := by simpa using Ne.symm hother
    simp only [allocate, hne, if_false] at hres
    rw [if_neg (by simpa [sizeWords] using hcreated)] at hres
    simp at hres
  · rintro rfl sys alignment hfails
    have hlow : sys.createFileMapping bytes.toUInt32 = false := hfails
    rw [allocate, if_neg hne, if_pos hlow]

theorem sectionBytes_sizeWords (bytes : UInt64) :
    sectionBytes (sizeWords bytes) = bytes.toNat % 2 ^ 32 := by
  simp [sectionBytes, sizeWords]

theorem sectionBytes_eq_iff {bytes : UInt64} :
    sectionBytes (sizeWords bytes) = bytes.toNat ↔ bytes.toNat < 2 ^ 32 := by
  rw [sectionBytes_sizeWords]
  exact Nat.mod_eq_iff_lt (by decide)

/-- The section holds all its memory if and only if it has exactly the size of the memory. -/
theorem le_sectionBytes_iff {bytes : UInt64} :
    bytes.toNat ≤ sectionBytes (sizeWords bytes) ↔ bytes.toNat < 2 ^ 32 := by
  rw [← sectionBytes_eq_iff, sectionBytes_sizeWords]
  have hle := Nat.mod_le bytes.toNat (2 ^ 32)
  omega

theorem allocate_isOk_iff {sys : NativeCalls} {bytes : UInt64} (hne : bytes ≠ 0)
    (hsys : sys.HasSection (sectionBytes (sizeWords bytes))) (alignment : UInt64) :
    (∃ a, allocate sys bytes alignment = .ok a) ↔ bytes.toNat < 2 ^ 32 := by
  rw [← le_sectionBytes_iff, ← hsys.views bytes, allocate, if_neg hne,
    if_neg (by rw [hsys.created]; decide)]
  cases hview : sys.mapViewOfFile bytes with
  | none => simp
  | some address => simp

end SharedMemoryDomain

/-- The class size of a request is below `2 ^ 32` if the next multiple of the alignment still is. -/
theorem RuntimeImpl.ValidSize.classSize_lt_iff {size alignment classSize : UInt64}
    (h : ValidSize size alignment classSize) :
    classSize.toNat < 2 ^ 32 ↔ size.toNat + alignment.toNat ≤ 2 ^ 32 := by
  obtain ⟨k, hk, hdvd, hlt⟩ := alignUp_spec h.up
  have hbits : k ≤ 12 := by
    have hle : 2 ^ k ≤ 2 ^ 12 := hk ▸ h.aligned
    exact (Nat.pow_le_pow_iff_right Nat.one_lt_two).mp hle
  have hwhole : 2 ^ k ∣ 2 ^ 32 := Nat.pow_dvd_pow 2 (by omega)
  have hle := (alignUp_isLeast h.up).1.2
  constructor
  · intro hsmall
    -- multiples of the alignment below `2 ^ 32` leave room for one more
    have hmod : classSize.toNat ≡ 2 ^ 32 [MOD 2 ^ k] :=
      (Nat.modEq_zero_iff_dvd.mpr hdvd).trans (Nat.modEq_zero_iff_dvd.mpr hwhole).symm
    have hroom := hmod.add_le_of_lt hsmall
    omega
  · intro hroom
    omega

namespace SharedMemoryDomain

/-- The names that `import_handle` does not turn down. -/
def LegalName (name : String) : Prop :=
  name.toList ≠ [] ∧ name.toList.length ≤ 512 ∧ ¬ ∃ c ∈ name.toList, c ∈ "\\/".toList

theorem importHandle_isOk {sys : NativeCalls} {size : Nat} (hsys : sys.HasSection size)
    {name : String} (hname : LegalName name) {n : UInt64} (hn : n.toNat ≤ size)
    (alignment : UInt64) : ∃ a, importHandle sys name n alignment = .ok a := by
  obtain ⟨hne, hlen, hlegal⟩ := hname
  obtain ⟨address, hview⟩ := (hsys.views n).mpr hn
  rw [importHandle, if_neg hne, if_neg (Nat.not_lt.mpr hlen), if_neg hlegal,
    if_neg (by rw [hsys.opened]; decide), hview]
  exact ⟨_, rfl⟩

/-- For every request that is accepted: the section has the size of the memory, and holds every view
up to that size, if and only if the next multiple of the alignment is at most 4 GiB. Only then does
an operating system with such sections map the memory, and every import of a part of it succeeds. -/
theorem section_exact_iff {rt : RuntimeImpl} {req : AllocationRequest}
    {alignment classSize : UInt64} (hvalid : rt.validateRequest req = .ok (alignment, classSize)) :
    (∀ low, (∀ (sys : NativeCalls) (alignment : UInt64), sys.createFileMapping low = false →
      allocate sys classSize alignment =
        .error ⟨.outOfCapacity, "shared alloc: CreateFileMapping failed"⟩) ↔
      low = (sizeWords classSize).2) ∧
    ((sectionBytes (sizeWords classSize) = classSize.toNat ∧
      ∀ n : UInt64, n ≤ classSize → n.toNat ≤ sectionBytes (sizeWords classSize)) ↔
      req.size.toNat + alignment.toNat ≤ 2 ^ 32) ∧
    ∀ sys : NativeCalls, sys.HasSection (sectionBytes (sizeWords classSize)) →
      ((∃ a, allocate sys classSize alignment = .ok a) ↔
        req.size.toNat + alignment.toNat ≤ 2 ^ 32) ∧
      (req.size.toNat + alignment.toNat ≤ 2 ^ 32 → ∀ name, LegalName name →
        ∀ n : UInt64, n ≤ classSize → ∃ a, importHandle sys name n alignment = .ok a) := by
  have hsize := RuntimeImpl.validateRequest_ok hvalid
  have hne := hsize.classSize_ne_zero
  rw [← hsize.classSize_lt_iff]
  have hviews : classSize.toNat < 2 ^ 32 →
      ∀ n : UInt64, n ≤ classSize → n.toNat ≤ sectionBytes (sizeWords classSize) := by
    intro hsmall n hn
    rw [sectionBytes_eq_iff.mpr hsmall]
    exact UInt64.le_iff_toNat_le.mp hn
  refine ⟨fun low => allocate_creates_iff hne, ?_, fun sys hsys => ⟨?_, ?_⟩⟩
  · exact ⟨fun h => sectionBytes_eq_iff.mp h.1,
      fun hsmall => ⟨sectionBytes_eq_iff.mpr hsmall, hviews hsmall⟩⟩
  · exact allocate_isOk_iff hne hsys alignment
  · intro hsmall name hname n hn
    exact importHandle_isOk hsys hname (hviews hsmall n hn) alignment

theorem section_exact_iff_page :
    (RuntimeImpl.init {} {}).validateRequest { size := 4096, domain := .sharedHost, ns := 0 }
      = .ok (4096, 4096) ∧ sectionBytes (sizeWords 4096) = 4096 := by
  have hvalid : (RuntimeImpl.init {} {}).validateRequest
      { size := 4096, domain := .sharedHost, ns := 0 } = .ok (4096, 4096) := by decide
  exact ⟨hvalid, ((section_exact_iff hvalid).2.1.mpr (by decide)).1⟩

/-- The section for 4 GiB and a page has the size of a page. -/
theorem section_of_4GiB_and_page :
    (RuntimeImpl.init {} {}).validateRequest
      { size := 4294971392, domain := .sharedHost, ns := 0 } = .ok (4096, 4294971392) ∧
    sectionBytes (sizeWords 4294971392) = 4096 := by
  decide

end SharedMemoryDomain

end UnifiedBuffer
