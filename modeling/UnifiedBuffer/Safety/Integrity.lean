import UnifiedBuffer.Core.Checksum
import UnifiedBuffer.Safety.Lifecycle
import UnifiedBuffer.Safety.RoundTrip

set_option autoImplicit false

/-! # Checksums of buffers

`checksum` hashes the contents of a buffer and tells contents apart that differ in a burst.
`verify` recomputes the hash of a record and compares it with the one that is stored there. Only a
migration stores one; a buffer that was never migrated has the stored value zero, which stands for
"not hashed", and so has a migrated one whose hash happens to be zero. -/

namespace UnifiedBuffer

open Lib

/-! ## The contents -/

/-- The handle is valid in `c`, and its buffer can be read by the host and contains `data`. -/
def BufferHandle.Reads (h : BufferHandle) (c : Core) (data : List UInt8) : Prop :=
  ∃ k, h.validateAlive c = .ok k ∧ (c.control k).record.domain ≠ .device ∧
    (c.control k).record.backing.base ≠ 0 ∧
    data = (List.range (c.control k).record.size.toNat).map
      (fun i => c.os.bytes .host ((c.control k).record.backing.base + i))

theorem BufferHandle.Reads.checksum {h : BufferHandle} {c : Core} {data : List UInt8}
    (hr : h.Reads c data) : (h.checksum c).1 = .ok (crc32c data 0) := by
  obtain ⟨k, hk, hdev, hbase, rfl⟩ := hr
  unfold BufferHandle.checksum
  rw [hk]
  simp only [if_neg hdev, if_neg hbase]

/-- **`crc32c` detects every short burst.** Two messages of one length that differ, and only within
32 consecutive bits, have different checksums for every seed, and so have two buffers with these
contents. -/
theorem crc32c_detects_bursts {a b : List UInt8} (hburst : Burst a b) :
    (∀ seed, crc32c a seed ≠ crc32c b seed) ∧
      ∀ (h h' : BufferHandle) (c c' : Core), h.Reads c a → h'.Reads c' b →
        ∃ x y, (h.checksum c).1 = .ok x ∧ (h'.checksum c').1 = .ok y ∧ x ≠ y :=
  ⟨hburst.crc32c_ne, fun _ _ _ _ hr hr' =>
    ⟨_, _, hr.checksum, hr'.checksum, hburst.crc32c_ne 0⟩⟩

/-- Three bytes of zeros at address 4096. -/
def threeBytes : World :=
  (World.init {} {}).next (.allocate (.findsAt 4096) { size := 3 })

/-- The same bytes, one of them overwritten. -/
def threeBytesHit : Core :=
  { threeBytes.core with
    os := { bytes := fun _ a => if a = 4097 then 8 else 0, calls := threeBytes.core.os.calls } }

/-- The theorem at work: the checksum tells that a bit of the second byte was set. -/
theorem crc32c_detects_bursts_threeBytes :
    Burst [0, 0, 0] [0, 8, 0] ∧ crc32c [0, 0, 0] 0 ≠ crc32c [0, 8, 0] 0 ∧
      ∃ x y, ((threeBytes.handle 0).checksum threeBytes.core).1 = .ok x ∧
        ((threeBytes.handle 0).checksum threeBytesHit).1 = .ok y ∧ x ≠ y := by
  have hburst : Burst [0, 0, 0] [0, 8, 0] := (Burst.byte (by decide)).within [0] [0]
  have hdetects := crc32c_detects_bursts hburst
  refine ⟨hburst, hdetects.1 0, hdetects.2 _ _ _ _ ?_ ?_⟩
  · exact ⟨0, by decide, by decide, by decide, by decide⟩
  · exact ⟨0, by decide, by decide, by decide, by decide⟩

/-! ## The stored hash -/

/-- The stored hash is zero until the first migration, and then the hash of the record; the
recorded length lies within the backing. -/
structure Record.Hashed (r : Record) : Prop where
  crc : (r.generation = 1 ∧ r.metaCrc = 0) ∨ (1 < r.generation ∧ r.metaCrc = metaCrcOf r)
  committed_le : r.committed ≤ r.backing.committed

theorem Record.Same.hashed {r r' : Record} (hs : r.Same r') (h : r.Hashed) : r'.Hashed := by
  have hcrc : metaCrcOf r' = metaCrcOf r := by
    rw [hs]
    rfl
  refine ⟨?_, ?_⟩
  · rw [hcrc, hs]
    exact h.crc
  · rw [hs]
    exact h.committed_le

theorem RuntimeImpl.rebind_hashed (rt : RuntimeImpl) (tdom : IDomain) (target : MemoryDomain)
    {r : Record} (a : NativeAllocation) (hgen : 1 ≤ r.generation) :
    (rt.rebind tdom target r a).Hashed :=
  ⟨Or.inr ⟨Nat.lt_succ_of_le hgen, rfl⟩, UInt64.le_refl _⟩

/-- Every live buffer is hashed as far as the code sees to it, and as long as the runtime is open
its domain is enabled. -/
structure Core.Hashed (c : Core) : Prop where
  blocks : ∀ k, c.Alive k → (c.control k).record.Hashed
  enabled : c.rt.closed = false → ∀ k, c.Alive k →
    (c.rt.domain (c.control k).record.domain).isSome

namespace World

variable {w : World} {op : Op} {base : List BufferId}

theorem hashed_next (hinv : w.RefInv base) (h : w.core.Hashed) (op : Op) :
    (w.next op).core.Hashed := by
  refine ⟨fun k hk => ?_, served_next hinv h.enabled op⟩
  cases (fates hinv op).blocks k hk with
  | kept alive same => exact same.hashed (h.blocks k alive)
  | moved _ valid _ _ _ same =>
      have hold := (h.blocks k (hinv.alive (handle_alive hinv valid).1)).crc
      refine same.hashed (RuntimeImpl.rebind_hashed _ _ _ _ ?_)
      rcases hold with ⟨hone, -⟩ | ⟨hmore, -⟩
      · exact Nat.le_of_eq hone.symm
      · exact Nat.le_of_lt hmore
  | fresh _ _ _ _ _ _ same | reused _ _ _ _ _ same =>
      exact same.hashed ⟨Or.inl ⟨rfl, rfl⟩, UInt64.le_refl _⟩
  | wrapped _ _ made same =>
      obtain ⟨-, -, dom, id, rfl⟩ := made
      exact same.hashed ⟨Or.inl ⟨rfl, rfl⟩, UInt64.le_refl _⟩
  | opened _ _ made same =>
      obtain ⟨-, id, a, -, hroom, rfl⟩ := made
      exact same.hashed ⟨Or.inl ⟨rfl, rfl⟩, hroom⟩

theorem hashed_reach {ok : World → Op → Prop} {cfg : RuntimeConfig} {plat : RuntimeImpl.Platform}
    (hreach : Reach World.next ok (World.init cfg plat) w) : w.core.Hashed := by
  refine hreach.invariant_of (I := fun w => w.core.Hashed) (K := fun w => w.RefInv [])
    (fun _ h => refInv_reach h) ?_ (fun v op hinv h _ => hashed_next hinv h op)
  exact ⟨fun k hk => absurd hk.1 (Nat.not_lt_zero k), served_init cfg plat⟩

end World

/-! ## Damaged records -/

/-- One of the fields is overwritten, with bytes that differ within 32 bits. -/
inductive Record.Damaged (r : Record) : Record → Prop
  | id {id : BufferId} (burst : Burst r.id.bytes id.bytes) : r.Damaged { r with id := id }
  | domain {d : MemoryDomain} (burst : Burst [r.domain.toByte] [d.toByte]) :
      r.Damaged { r with domain := d }
  | size {n : UInt64} (burst : Burst (wordBytes r.size) (wordBytes n)) :
      r.Damaged { r with size := n }
  | alignment {n : UInt64} (burst : Burst (wordBytes r.alignment) (wordBytes n)) :
      r.Damaged { r with alignment := n }

/-- The other fields are as before. -/
theorem Record.Damaged.rest {r r' : Record} (h : r.Damaged r') :
    r' = { r with id := r'.id, domain := r'.domain, size := r'.size,
                  alignment := r'.alignment } := by
  cases h <;> rfl

theorem Record.Damaged.metaCrcOf_ne {r r' : Record} (h : r.Damaged r') :
    metaCrcOf r' ≠ metaCrcOf r := by
  have hburst : Burst (metaBytes r) (metaBytes r') := by
    unfold metaBytes
    cases h with
    | id burst =>
        simpa using burst.within [] (wordBytes r.generation.toUInt64 ++ [r.domain.toByte] ++
          wordBytes r.size ++ wordBytes r.alignment)
    | domain burst =>
        simpa using burst.within (r.id.bytes ++ wordBytes r.generation.toUInt64)
          (wordBytes r.size ++ wordBytes r.alignment)
    | size burst => exact burst.within _ _
    | alignment burst =>
        simpa using burst.within (r.id.bytes ++ wordBytes r.generation.toUInt64 ++
          [r.domain.toByte] ++ wordBytes r.size) []
  rw [metaCrcOf_eq, metaCrcOf_eq]
  exact (hburst.crc32c_ne 0).symm

/-- When the comparison of `verify` finds the damage. -/
theorem Record.Hashed.mismatch_iff {r r' : Record} (h : r.Hashed) (hdamaged : r.Damaged r') :
    (r.metaCrc ≠ 0 ∧ metaCrcOf r' ≠ r.metaCrc) ↔ 1 < r.generation ∧ metaCrcOf r ≠ 0 := by
  rcases h.crc with ⟨hone, hzero⟩ | ⟨hmore, hcrc⟩
  · rw [hone, hzero]
    exact ⟨fun hm => absurd rfl hm.1, fun hm => absurd hm.1 (Nat.lt_irrefl 1)⟩
  · rw [hcrc]
    exact ⟨fun hm => ⟨hmore, hm.1⟩, fun hm => ⟨hm.2, hdamaged.metaCrcOf_ne⟩⟩

namespace BufferHandle

variable {h : BufferHandle} {c : Core} (env : Env) {k : CtlId}

theorem validateAlive_eq (hvalid : h.valid = true) (hctl : h.ctl = some k)
    (hlive : (c.control k).finalized = false) (hgen : h.gen = (c.control k).record.generation)
    (hstate : (c.control k).record.state ∈ Use.liveStates) : h.validateAlive c = .ok k := by
  have hgood : ¬ ((c.control k).record.state = .released ∨
      (c.control k).record.state = .quarantined ∨ (c.control k).record.state = .invalid) := by
    rintro (hs | hs | hs) <;> rw [hs] at hstate <;> exact absurd hstate (by decide)
  exact validateAlive_ok_iff.mpr ⟨hvalid, hctl, hlive, hgen, hgood⟩

theorem verify_enabled (hk : h.validateAlive c = .ok k)
    (hstate : (c.control k).record.state ∈ Use.liveStates)
    (hdom : (c.rt.domain (c.control k).record.domain).isSome)
    (hcheck : env.verify (c.control k).record.domain (c.control k).record.backing
      (c.control k).record.committed = .ok ()) :
    (h.verify c env).1 =
      if (c.control k).record.metaCrc ≠ 0 ∧
          metaCrcOf (c.control k).record ≠ (c.control k).record.metaCrc then
        .error ⟨.integrityFailure, "verify: metadata checksum mismatch"⟩
      else .ok () := by
  have hreleased : (c.control k).record.state ≠ .released := by
    intro hs
    rw [hs] at hstate
    exact absurd hstate (by decide)
  obtain ⟨dom, hdom⟩ := Option.isSome_iff_exists.mp hdom
  have hcount : ∀ f, (c.count f).rt.domain (c.control k).record.domain = some dom := fun _ => hdom
  unfold verify
  rw [hk]
  simp only [hcount, if_neg hreleased, hcheck]
  split <;> rfl

theorem verify_disabled (hk : h.validateAlive c = .ok k)
    (hdom : c.rt.domain (c.control k).record.domain = none) :
    (h.verify c env).1 = .error ⟨.unsupportedDomain, "verify: domain disabled"⟩ := by
  have hcount : ∀ f, (c.count f).rt.domain (c.control k).record.domain = none := fun _ => hdom
  unfold verify
  rw [hk]
  simp only [hcount]

end BufferHandle

/-- The backends accept every range within an allocation. -/
def Env.AcceptsInBounds (env : Env) : Prop :=
  ∀ d a len, len ≤ a.committed → env.verify d a len = .ok ()

/-- Something overwrites the record of a buffer. -/
def World.overwrite (w : World) (k : CtlId) (r : Record) : World :=
  { w with core := w.core.modifyRecord k (fun _ => r) }

theorem World.overwrite_control (w : World) {k : CtlId} (hk : w.core.Alive k) (r : Record) :
    (w.overwrite k r).core.control k = { w.core.control k with record := r } :=
  w.core.control_modify _ hk.1

/-- **What `verify` detects.** On an open runtime whose backends accept ranges in bounds, `verify`
succeeds on every live buffer. After a short burst in the identity, the domain, the size or the
alignment of its record, `verify` reports an integrity failure exactly if the buffer was migrated
before, its hash was not zero, and the domain that the record names now is enabled. -/
theorem verify_detects_damage {cfg : RuntimeConfig} {plat : RuntimeImpl.Platform} {w : World}
    (hreach : Reach World.next (fun _ _ => True) (World.init cfg plat) w)
    (hopen : w.core.rt.closed = false) {i : Nat} {k : CtlId}
    (hvalid : (w.handle i).valid = true) (hctl : (w.handle i).ctl = some k)
    (halive : w.core.Alive k) {r : Record} (hr : r = (w.core.control k).record)
    (hgen : (w.handle i).gen = r.generation) {env : Env} (henv : env.AcceptsInBounds) :
    (w.step (.verify env i)).1 = .ok .done ∧
      ∀ r', r.Damaged r' →
        ((∃ e, ((w.overwrite k r').step (.verify env i)).1 = .error e ∧
          e.code = .integrityFailure) ↔
        1 < r.generation ∧ metaCrcOf r ≠ 0 ∧ (w.core.rt.domain r'.domain).isSome) := by
  obtain ⟨horder, hinv⟩ := World.inOrder_reach hreach
  have hhashed := World.hashed_reach hreach
  have hblock : r.Hashed := hr ▸ hhashed.blocks k halive
  have hstate : r.state ∈ Use.liveStates := hr ▸ (horder.alive k halive).known
  have hcheck : ∀ d, env.verify d r.backing r.committed = .ok () :=
    fun d => henv d _ _ hblock.committed_le
  subst hr
  refine ⟨?_, fun r' hdamaged => ?_⟩
  · have hk := BufferHandle.validateAlive_eq hvalid hctl halive.2 hgen hstate
    have hverify := BufferHandle.verify_enabled env hk hstate (hhashed.enabled hopen k halive)
      (hcheck _)
    have hquiet : ¬ ((w.core.control k).record.metaCrc ≠ 0 ∧
        metaCrcOf (w.core.control k).record ≠ (w.core.control k).record.metaCrc) := by
      rintro ⟨hne, hdiff⟩
      rcases hblock.crc with ⟨-, hzero⟩ | ⟨-, hcrc⟩
      · exact hne hzero
      · exact hdiff hcrc.symm
    rw [if_neg hquiet] at hverify
    show ((w.handle i).verify w.core env).1.map _ = _
    rw [hverify]
    rfl
  · have hrest := hdamaged.rest
    have hcontrol := w.overwrite_control halive r'
    -- nothing that makes the handle valid is overwritten
    have hgen' : r'.generation = (w.core.control k).record.generation := by rw [hrest]
    have hstate' : r'.state ∈ Use.liveStates := by rw [hrest]; exact hstate
    have hcheck' : env.verify r'.domain r'.backing r'.committed = .ok () := by
      rw [hrest]
      exact hcheck _
    have hk : (w.handle i).validateAlive (w.overwrite k r').core = .ok k := by
      refine BufferHandle.validateAlive_eq hvalid hctl ?_ ?_ ?_ <;> rw [hcontrol]
      · exact halive.2
      · exact hgen.trans hgen'.symm
      · exact hstate'
    have hstep : ((w.overwrite k r').step (.verify env i)).1
        = ((w.handle i).verify (w.overwrite k r').core env).1.map (fun _ => .done) := rfl
    rw [hstep]
    by_cases hdom : (w.core.rt.domain r'.domain).isSome
    · have hverify := BufferHandle.verify_enabled env hk (by rw [hcontrol]; exact hstate')
        (by rw [hcontrol]; exact hdom) (by rw [hcontrol]; exact hcheck')
      have hcrc : r'.metaCrc = (w.core.control k).record.metaCrc := by rw [hrest]
      rw [hcontrol] at hverify
      simp only [hcrc, hblock.mismatch_iff hdamaged] at hverify
      rw [hverify]
      by_cases hcond : 1 < (w.core.control k).record.generation ∧
          metaCrcOf (w.core.control k).record ≠ 0
      · rw [if_pos hcond]
        exact ⟨fun _ => ⟨hcond.1, hcond.2, hdom⟩, fun _ => ⟨_, rfl, rfl⟩⟩
      · rw [if_neg hcond]
        exact ⟨fun ⟨e, he, _⟩ => (by cases he), fun hc => absurd ⟨hc.1, hc.2.1⟩ hcond⟩
    · have hverify := BufferHandle.verify_disabled env hk
        (by rw [hcontrol]; exact Option.not_isSome_iff_eq_none.mp hdom)
      rw [hverify]
      constructor
      · rintro ⟨e, he, hcode⟩
        cases he
        cases hcode
      · exact fun hcond => absurd hcond.2.2 hdom

/-- A page that moved to shared memory; the handle of the second position is the current one. -/
def hashedPage : World :=
  runs World.next (World.init {} {})
    [.allocate (.findsAt 4096) { size := 4096 }, .migrate (.findsAt 8192) 0 .sharedHost]

theorem burst_page_size : Burst (wordBytes 4096) (wordBytes 8192) :=
  (Burst.byte (x := 16) (y := 32) (by decide)).within [0] [0, 0, 0, 0, 0, 0]

/-- The theorem at work: the page verifies, and a flip in its size is reported. -/
theorem verify_detects_damage_hashedPage :
    (hashedPage.step (.verify {} 1)).1 = .ok .done ∧
      ∃ e, ((hashedPage.overwrite 0
          { (hashedPage.core.control 0).record with size := 8192 }).step (.verify {} 1)).1 = .error e ∧
        e.code = .integrityFailure := by
  have hreach : Reach World.next (fun _ _ => True) (World.init {} {}) hashedPage :=
    reach_runs .start ⟨trivial, trivial, trivial⟩
  have hbackends : Env.AcceptsInBounds {} := fun _ _ _ _ => rfl
  have hdetects := verify_detects_damage hreach (by decide) (i := 1) (k := 0) (by decide)
    (by decide) ⟨by decide, by decide⟩ rfl (by decide) hbackends
  refine ⟨hdetects.1, (hdetects.2 _ (.size burst_page_size)).mpr ⟨by decide, ?_, by decide⟩⟩
  decide +kernel

def unmovedPage : World := (World.init {} {}).next (.allocate (.findsAt 4096) { size := 4096 })

/-- A page that was never moved has no hash: a flip in its size goes unnoticed. On the moved page, a
flip that makes its domain a disabled one is reported, but as an unsupported domain. -/
theorem verify_misses_damage :
    (unmovedPage.core.control 0).record.Damaged
        { (unmovedPage.core.control 0).record with size := 8192 } ∧
      ((unmovedPage.overwrite 0
        { (unmovedPage.core.control 0).record with size := 8192 }).step (.verify {} 0)).1 = .ok .done ∧
      (hashedPage.core.control 0).record.Damaged
        { (hashedPage.core.control 0).record with domain := .device } ∧
      ((hashedPage.overwrite 0
        { (hashedPage.core.control 0).record with domain := .device }).step (.verify {} 1)).1
          = .error ⟨.unsupportedDomain, "verify: domain disabled"⟩ := by
  refine ⟨.size burst_page_size, by decide +kernel, .domain (.byte (by decide)), by decide +kernel⟩

end UnifiedBuffer
