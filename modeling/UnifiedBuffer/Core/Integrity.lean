import UnifiedBuffer.Core.Types

set_option autoImplicit false

/-! # CRC-32C and the metadata checksum

`core/integrity.cpp`, and `meta_crc_of` of `export.cpp`, which hashes the stable fields of a
record as they lie in memory (little endian). -/

namespace UnifiedBuffer

def kCrc32cPoly : UInt32 := 0x82F63B78

/-- One round of the table construction. -/
def crcRound (c : UInt32) : UInt32 :=
  if c &&& 1 ≠ 0 then kCrc32cPoly ^^^ (c >>> 1) else c >>> 1

/-- The table entry of a byte: eight rounds. -/
def crcEntry (b : UInt32) : UInt32 :=
  crcRound (crcRound (crcRound (crcRound (crcRound (crcRound (crcRound (crcRound b)))))))

def crcStep (crc : UInt32) (b : UInt8) : UInt32 :=
  crcEntry ((crc ^^^ b.toUInt32) &&& 0xFF) ^^^ (crc >>> 8)

def crc32c (data : List UInt8) (seed : UInt32) : UInt32 :=
  ~~~(data.foldl crcStep (~~~seed))

/-- The eight bytes of a word, least significant first. -/
def wordBytes (w : UInt64) : List UInt8 :=
  (List.range 8).map (fun i => (w >>> (8 * i.toUInt64)).toUInt8)

/-- The byte of an enumerator. -/
def MemoryDomain.toByte : MemoryDomain → UInt8
  | .host => 0
  | .pinnedHost => 1
  | .device => 2
  | .sharedHost => 3
  | .mmapStorage => 4

def metaCrcOf (r : Record) : UInt32 :=
  let crc := crc32c (wordBytes r.id.hi ++ wordBytes r.id.lo.toUInt64) 0
  let crc := crc32c (wordBytes r.generation.toUInt64) crc
  let crc := crc32c [r.domain.toByte] crc
  let crc := crc32c (wordBytes r.size) crc
  crc32c (wordBytes r.alignment) crc

/-- `crc32c_self_test`: the check value of the string `123456789`. -/
example : crc32c [0x31, 0x32, 0x33, 0x34, 0x35, 0x36, 0x37, 0x38, 0x39] 0 = 0xE3069283 := by
  decide +kernel

end UnifiedBuffer
