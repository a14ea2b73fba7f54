import UnifiedBuffer.Core.Checksum
import UnifiedBuffer.Lib.Store
import UnifiedBuffer.Safety.Contents

set_option autoImplicit false

/-! # Buffers as a store of arrays

Seen by a program, the runtime is a store: a buffer is an array of bytes that is there from its
creation to the release of its last reference, and its contents are what the program has put there.
Domains, backings, migrations, the pool and the order in which memory is given out do not show.

A program reaches the bytes on two ways. It calls `copy_from`, `copy_to` and `checksum`, or it
loads and stores by itself, in its own arrays and in buffers through the pointers of maps and views
(`Action`). `World.traffic` is what one action means to the store, and `Orderly.follows` says that
the runtime does to its buffers what the store does to its arrays. -/

namespace UnifiedBuffer

open Lib

/-! ## Programs -/

/-- What a program does: it calls the library, or accesses host memory by itself. -/
inductive Action where
  | call (op : Op)
  | load (a n : Nat)
  | store (a : Nat) (data : List UInt8)

/-- The bytes of host memory from `a` on are overwritten. -/
def Os.poke (os : Os) (a : Nat) (data : List UInt8) : Os :=
  os.fill .host a data.length (fun x => data.getD (x - a) 0)

theorem Os.poke_outside {os : Os} {a : Nat} {data : List UInt8} {s : Space} {x : Nat}
    (h : ¬ (s = .host ∧ a ≤ x ∧ x < a + data.length)) : (os.poke a data).bytes s x = os.bytes s x :=
  Os.fill_bytes_outside _ _ _ _ _ _ _ h

theorem Os.poke_inside {os : Os} {a : Nat} {data : List UInt8} {i : Nat} (h : i < data.length) :
    (os.poke a data).bytes .host (a + i) = data.getD i 0 := by
  refine (if_pos ⟨rfl, Nat.le_add_right _ _, Nat.add_lt_add_left h _⟩).trans ?_
  rw [Nat.add_sub_cancel_left]

namespace Core

/-- Bytes of host memory. -/
def hostBytes (c : Core) (a n : Nat) : List UInt8 :=
  (List.range n).map fun i => c.os.bytes .host (a + i)

instance decidableAlive (c : Core) (k : CtlId) : Decidable (c.Alive k) :=
  inferInstanceAs (Decidable (_ ∧ _))

/-- The contents of a buffer. -/
def contents (c : Core) (k : CtlId) : List UInt8 :=
  (List.range (c.control k).record.size.toNat).map (c.content k)

/-- The store that the buffers make up. -/
def store (c : Core) : Store CtlId UInt8 :=
  fun k => if c.Alive k then some (c.contents k) else none

/-- The address is that of a byte of the buffer. -/
def InBuffer (c : Core) (k : CtlId) (s : Space) (a : Nat) : Prop :=
  s = (c.control k).record.domain.space ∧ (c.control k).record.backing.base ≤ a ∧
    a < (c.control k).record.backing.base + (c.control k).record.size.toNat

/-- The `n` bytes from `a` on are bytes of the buffer. -/
def Covers (c : Core) (a n : Nat) (k : CtlId) : Prop :=
  c.Alive k ∧ (c.control k).record.domain.space = .host ∧
    (c.control k).record.backing.base ≤ a ∧
    a + n ≤ (c.control k).record.backing.base + (c.control k).record.size.toNat

instance decidableCovers (c : Core) (a n : Nat) (k : CtlId) : Decidable (c.Covers a n k) :=
  inferInstanceAs (Decidable (_ ∧ _ ∧ _ ∧ _))

/-- The buffer that has these bytes. -/
def bufferAt (c : Core) (a n : Nat) : Option CtlId :=
  (List.range c.ctls.length).find? (fun k => decide (c.Covers a n k))

end Core

namespace World

/-- The state after an action of the program. -/
def perform (w : World) : Action → World
  | .call op => w.next op
  | .load _ _ => w
  | .store a data => { w with core := { w.core with os := w.core.os.poke a data } }

/-- The buffer that an operation creates. -/
def created (w : World) (op : Op) : List (Store.Event CtlId UInt8 UInt32) :=
  if (w.next op).core.Alive w.core.ctls.length then
    [.create w.core.ctls.length ((w.next op).core.contents w.core.ctls.length)]
  else []

/-- The buffer whose last reference an operation releases. -/
def ended (w : World) (op : Op) : List (Store.Event CtlId UInt8 UInt32) :=
  match w.released op with
  | none => []
  | some k => if (w.core.control k).refs = 1 then [.drop k] else []

/-- What a public operation means to the store. A transfer to a buffer that fails on its way leaves
bytes there, and so is a write as well. -/
def exchanged (w : World) (op : Op) : List (Store.Event CtlId UInt8 UInt32) :=
  match op with
  | .copyFrom env i src srcOffset len =>
      match (w.handle i).ensureValid w.core .write with
      | .error _ => []
      | .ok k =>
          match (w.handle i).copyFrom w.core env src srcOffset len with
          | (.ok _, _) => [.write k 0 (w.core.hostBytes (src + srcOffset.toNat) len.toNat)]
          | (.error _, c) =>
              if src = 0 ∨ len > (w.core.control k).record.size then []
              else [.write k 0 ((c.contents k).take len.toNat)]
  | .copyTo env i dst dstOffset len =>
      match (w.handle i).ensureValid w.core .read,
          (w.handle i).copyTo w.core env dst dstOffset len with
      | .ok k, (.ok _, c) => [.read k 0 (c.hostBytes (dst + dstOffset.toNat) len.toNat)]
      | _, _ => []
  | .checksum i =>
      match (w.handle i).validateAlive w.core, ((w.handle i).checksum w.core).1 with
      | .ok k, .ok crc => [.digest k crc]
      | _, _ => []
  | op => w.created op ++ w.ended op

/-- What an action means to the store. -/
def traffic (w : World) : Action → List (Store.Event CtlId UInt8 UInt32)
  | .call op => w.exchanged op
  | .load a n =>
      match w.core.bufferAt a n with
      | some k => [.read k (a - (w.core.control k).record.backing.base) (w.core.hostBytes a n)]
      | none => []
  | .store a data =>
      match w.core.bufferAt a data.length with
      | some k => [.write k (a - (w.core.control k).record.backing.base) data]
      | none => []

/-- What is expected of the program and of the backends: no segment is imported that the runtime
holds, `copy_to` has a target outside of all buffers, and a store goes to one buffer or touches
none. -/
def Discreet (w : World) : Action → Prop
  | .call op => w.Trusted op ∧ w.OpensOthers op ∧ ∀ k, w.core.Alive k → ∀ s a, op.Fills s a →
      ¬ (w.core.control k).record.filed.Has s a
  | .load _ _ => True
  | .store a data => (w.core.bufferAt a data.length).isSome ∨
      ∀ k, w.core.Alive k → ∀ i < data.length, ¬ w.core.InBuffer k .host (a + i)

end World

/-! ## The store of a state -/

namespace Core

variable {c c' : Core} {k : CtlId}

theorem store_alive (h : c.Alive k) : c.store k = some (c.contents k) := if_pos h

theorem store_dead (h : ¬ c.Alive k) : c.store k = none := if_neg h

@[simp] theorem length_contents (c : Core) (k : CtlId) :
    (c.contents k).length = (c.control k).record.size.toNat := by
  rw [contents, List.length_map, List.length_range]

theorem contents_get {i : Nat} (h : i < (c.control k).record.size.toNat) :
    (c.contents k)[i]? = some (c.content k i) := by
  rw [contents, List.getElem?_map, List.getElem?_range h]
  rfl

theorem contents_get_ge {i : Nat} (h : (c.control k).record.size.toNat ≤ i) :
    (c.contents k)[i]? = none := by
  rw [List.getElem?_eq_none_iff, length_contents]
  exact h

/-- Contents that agree byte by byte. -/
theorem contents_congr (hsize : (c'.control k).record.size = (c.control k).record.size)
    (h : ∀ i < (c.control k).record.size.toNat, c'.content k i = c.content k i) :
    c'.contents k = c.contents k := by
  unfold contents
  rw [hsize]
  exact List.map_congr_left fun i hi => h i (List.mem_range.mp hi)

theorem SameContents.contents_eq (h : c.SameContents c' k) : c'.contents k = c.contents k :=
  contents_congr h.size h.bytes

/-- Only a range of the buffer has changed. -/
theorem contents_overwrite {offset : Nat} {data : List UInt8}
    (hsize : (c'.control k).record.size = (c.control k).record.size)
    (hroom : offset + data.length ≤ (c.control k).record.size.toNat)
    (hin : ∀ i < data.length, data[i]? = some (c'.content k (offset + i)))
    (hout : ∀ i, i < offset ∨ offset + data.length ≤ i → c'.content k i = c.content k i) :
    c'.contents k = Store.overwrite (c.contents k) offset data := by
  refine Store.eq_overwrite (by rwa [length_contents]) (fun i hi => ?_) (fun i hi => ?_)
  · rw [contents_get (by rw [hsize]; omega), hin i hi]
  · by_cases hlt : i < (c.control k).record.size.toNat
    · rw [contents_get hlt, contents_get (by rwa [hsize]), hout i hi]
    · rw [contents_get_ge (c := c') (by rw [hsize]; omega), contents_get_ge (by omega)]

/-- Only the bytes in memory have changed, and none of the buffer. -/
theorem store_congr (hctls : c'.ctls = c.ctls)
    (h : c.Alive k → ∀ i < (c.control k).record.size.toNat, c'.content k i = c.content k i) :
    c'.store k = c.store k := by
  have hcontrol := control_congr hctls k
  have halive : c'.Alive k ↔ c.Alive k := by
    unfold Alive
    rw [hcontrol, hctls]
  by_cases hk : c.Alive k
  · rw [store_alive hk, store_alive (halive.mpr hk), contents_congr (by rw [hcontrol]) (h hk)]
  · rw [store_dead hk, store_dead (mt halive.mp hk)]

theorem bufferAt_covers {a n : Nat} (h : c.bufferAt a n = some k) : c.Covers a n k :=
  of_decide_eq_true (List.find?_some (p := fun k => decide (c.Covers a n k)) h)

theorem hostBytes_get {a n i : Nat} (h : i < n) :
    (c.hostBytes a n)[i]? = some (c.os.bytes .host (a + i)) := by
  rw [hostBytes, List.getElem?_map, List.getElem?_range h]
  rfl

@[simp] theorem length_hostBytes (c : Core) (a n : Nat) : (c.hostBytes a n).length = n := by
  rw [hostBytes, List.length_map, List.length_range]

end Core

/-! ## One action -/

namespace World

variable {w : World} {op : Op} {k : CtlId}

/-- What is alive after an operation was alive before it, or is new. -/
theorem alive_before (hinv : w.RefInv []) (hk : (w.next op).core.Alive k) :
    w.core.Alive k ∨ k = w.core.ctls.length ∧ w.released op = none := by
  cases (fates hinv op).blocks k hk with
  | kept alive => exact .inl alive
  | moved _ valid => exact .inl (hinv.alive (handle_alive hinv valid).1)
  | fresh hop new | reused hop new | wrapped hop new | opened hop new =>
      subst hop
      exact .inr ⟨new, rfl⟩

theorem not_alive_new (w : World) : ¬ w.core.Alive w.core.ctls.length :=
  fun h => Nat.lt_irrefl _ h.1

/-- A buffer that is spared is in the store what it was. -/
theorem Orderly.store_spared (h : w.Orderly) (hop : w.Sane op)
    (hspares : w.core.Alive k → w.Spares k op) (hold : k ≠ w.core.ctls.length) :
    (w.next op).core.store k = w.core.store k := by
  by_cases hk : w.core.Alive k
  · have hsame := h.sameContents hop hk (hspares hk)
    rw [Core.store_alive hk, Core.store_alive hsame.alive, hsame.contents_eq]
  · rw [Core.store_dead hk, Core.store_dead]
    intro hk'
    rcases alive_before h.refs hk' with halive | ⟨hnew, -⟩
    · exact hk halive
    · exact hold hnew

/-- The store follows the events, and admits them. -/
def Follows (w w' : World) (es : List (Store.Event CtlId UInt8 UInt32)) : Prop :=
  w'.core.store = runs Store.apply w.core.store es ∧
    Along Store.apply (Store.Allowed (crc32c · 0)) w.core.store es

/-- An operation that spares all buffers creates one or none. -/
theorem Orderly.follows_created (h : w.Orderly) (hop : w.Sane op)
    (hspares : ∀ k, w.core.Alive k → w.Spares k op) : w.Follows (w.next op) (w.created op) := by
  have hnone := Core.store_dead w.not_alive_new
  unfold created
  split
  · rename_i hnew
    refine ⟨funext fun k => ?_, hnone, trivial⟩
    show _ = Function.update w.core.store w.core.ctls.length _ k
    by_cases hk : k = w.core.ctls.length
    · subst hk
      rw [Function.update_self, Core.store_alive hnew]
    · rw [Function.update_of_ne hk, h.store_spared hop (hspares k) hk]
  · rename_i hnew
    refine ⟨funext fun k => ?_, trivial⟩
    show _ = w.core.store k
    by_cases hk : k = w.core.ctls.length
    · subst hk
      rw [hnone, Core.store_dead hnew]
    · exact h.store_spared hop (hspares k) hk

theorem released_releases (h : w.released op = some k) : ∃ env, op.releases = some env := by
  cases op with
  | moveAssign env | release env | destroy env => exact ⟨env, rfl⟩
  | _ => cases h

/-- A release creates nothing. -/
theorem not_alive_of_released (hinv : w.RefInv []) (hrel : w.released op = some k) :
    ¬ (w.next op).core.Alive w.core.ctls.length := by
  intro halive
  rcases alive_before hinv halive with hold | ⟨-, hnone⟩
  · exact w.not_alive_new hold
  · rw [hrel] at hnone
    cases hnone

/-- The release of a last reference drops the buffer. -/
theorem Orderly.follows_drop (h : w.Orderly) (hop : w.Sane op) (hrel : w.released op = some k)
    (hlast : (w.core.control k).refs = 1) : w.Follows (w.next op) [.drop k] := by
  have hk := h.refs.alive (released_pins hrel)
  obtain ⟨env, henv⟩ := released_releases hrel
  refine ⟨funext fun j => ?_, ⟨_, Core.store_alive hk⟩, trivial⟩
  show _ = Function.update w.core.store k none j
  by_cases hj : j = k
  · subst hj
    rw [Function.update_self, Core.store_dead]
    obtain ⟨c, -, hc, hnext⟩ := h.refs.release_last henv hrel hlast
    rw [hnext]
    rintro ⟨-, hfirst⟩
    rw [Core.finalize_finalized env hc.1 hc.2] at hfirst
    cases hfirst
  · rw [Function.update_of_ne hj]
    by_cases hnew : j = w.core.ctls.length
    · rw [hnew, Core.store_dead w.not_alive_new,
        Core.store_dead (not_alive_of_released h.refs hrel)]
    · refine h.store_spared hop (fun _ => ?_) hnew
      refine ⟨fun _ _ _ _ _ heq => ?_, fun s a hfills => ?_, fun hrel' => ?_⟩
      · subst heq
        cases hrel
      · cases op with
        | copyTo => cases hrel
        | _ => exact hfills.elim
      · exact absurd (Option.some.inj (hrel'.symm.trans hrel)) hj

/-- The operations that do not access contents. -/
theorem Orderly.follows_other (h : w.Orderly) (hop : w.Sane op)
    (hfrom : ∀ env i src srcOffset len, op ≠ .copyFrom env i src srcOffset len)
    (hfills : ∀ s a, ¬ op.Fills s a) :
    w.Follows (w.next op) (w.created op ++ w.ended op) := by
  have hspares : ∀ k, (w.released op = some k → (w.core.control k).refs ≠ 1) → w.Spares k op :=
    fun k hrel => ⟨fun env i src srcOffset len heq => absurd heq (hfrom env i src srcOffset len),
      fun s a hf => absurd hf (hfills s a), hrel⟩
  cases hrel : w.released op with
  | none =>
      have hended : w.ended op = [] := by
        unfold ended
        rw [hrel]
      rw [hended, List.append_nil]
      refine h.follows_created hop fun k _ => hspares k fun hsome => ?_
      rw [hrel] at hsome
      cases hsome
  | some k =>
      by_cases hlast : (w.core.control k).refs = 1
      · have hcreated : w.created op = [] := if_neg (not_alive_of_released h.refs hrel)
        have hended : w.ended op = [.drop k] := by
          unfold ended
          rw [hrel]
          exact if_pos hlast
        rw [hcreated, hended]
        exact h.follows_drop hop hrel hlast
      · have hended : w.ended op = [] := by
          unfold ended
          rw [hrel]
          exact if_neg hlast
        rw [hended, List.append_nil]
        refine h.follows_created hop fun j _ => hspares j fun hsome => ?_
        obtain rfl : k = j := Option.some.inj (hrel.symm.trans hsome)
        exact hlast

/-! ### Transfers -/

/-- An operation that spares all buffers and creates none. -/
theorem Orderly.store_same (h : w.Orderly) (hop : w.Sane op)
    (hctls : (w.next op).core.ctls.length = w.core.ctls.length)
    (hspares : w.core.Alive k → w.Spares k op) : (w.next op).core.store k = w.core.store k := by
  by_cases hk : k = w.core.ctls.length
  · subst hk
    rw [Core.store_dead w.not_alive_new, Core.store_dead]
    exact fun halive => absurd halive.1 (hctls.symm ▸ Nat.lt_irrefl _)
  · exact h.store_spared hop hspares hk

theorem transfer_ctls {c : Core} {env : Env} {dst src : Nat} {len : UInt64} {dstDev srcDev : Bool} :
    (BufferHandle.transfer c env dst src len dstDev srcDev).2.ctls = c.ctls := by
  unfold BufferHandle.transfer
  generalize c.os.copyMemory env dst src len dstDev srcDev = out
  rcases out with ⟨_ | _, os⟩ <;> rfl

theorem copyTo_ctls {h : BufferHandle} {c : Core} {env : Env} {dst : Nat} {dstOffset len : UInt64} :
    (h.copyTo c env dst dstOffset len).2.ctls = c.ctls := by
  unfold BufferHandle.copyTo
  split
  · rfl
  simp only
  split
  · rfl
  split
  · rfl
  split
  · rfl
  · exact transfer_ctls

/-- `ensure_valid` for writing. -/
theorem ensureValid_write_ok {h : BufferHandle} {c : Core} (hk : h.ensureValid c .write = .ok k) :
    h.validateAlive c = .ok k ∧ (c.control k).record.access ≠ .read := by
  have hvalid := ensureValid_ok hk
  refine ⟨hvalid, fun hread => ?_⟩
  rw [BufferHandle.ensureValid_live hvalid, if_pos ⟨rfl, hread⟩] at hk
  cases hk

/-- `copy_from` rejects what does not fit, and changes nothing then. -/
theorem copyFrom_of_not_fits {h : BufferHandle} {c : Core} (env : Env) {src : Nat}
    (srcOffset : UInt64) {len : UInt64} (hk : h.ensureValid c .write = .ok k)
    (hfits : ¬ BufferHandle.Fits (c.control k).record src 0 len) :
    ∃ e, h.copyFrom c env src srcOffset len = (.error e, c) := by
  unfold BufferHandle.copyFrom
  rw [hk]
  simp only
  split
  · exact ⟨_, rfl⟩
  rename_i hsrc
  split
  · exact ⟨_, rfl⟩
  rename_i hsize
  split
  · exact ⟨_, rfl⟩
  rename_i hroom
  exact absurd ⟨hsrc, by simpa using UInt64.le_iff_toNat_le.mp (UInt64.not_lt.mp hsize),
    by simpa using rangeInBounds_le (not_not.mp hroom)⟩ hfits

/-- What a transfer returns, and what it leaves. -/
theorem transfer_spec {c : Core} {env : Env} {dst src : Nat} {len : UInt64} {dstDev srcDev : Bool}
    {out : Except Error Unit} {c' : Core}
    (hout : BufferHandle.transfer c env dst src len dstDev srcDev = (out, c')) :
    c'.control = c.control ∧ c'.os = (c.os.copyMemory env dst src len dstDev srcDev).2 ∧
      out = (c.os.copyMemory env dst src len dstDev srcDev).1 := by
  obtain ⟨rfl, rfl⟩ := Prod.ext_iff.mp hout
  exact ⟨BufferHandle.transfer_control, BufferHandle.transfer_os, BufferHandle.transfer_fst⟩

/-- What a transfer to a buffer does to its bytes: it delivers those of the source, if it succeeds,
and touches none behind them. -/
theorem transfer_content {c : Core} {env : Env} {src : Nat} {len : UInt64} {out : Except Error Unit}
    {c' : Core} (hout : BufferHandle.transfer c env (c.control k).record.backing.base src len
      ((c.control k).record.domain = .device) false = (out, c')) :
    (c'.control k).record = (c.control k).record ∧
      (∀ i, len.toNat ≤ i → c'.content k i = c.content k i) ∧
      (out = .ok () → ∀ i < len.toNat, c'.content k i = c.os.bytes .host (src + i)) := by
  obtain ⟨hcontrol, hos, hfst⟩ := transfer_spec hout
  have hrecord : (c'.control k).record = (c.control k).record :=
    congrArg (fun f => (f k).record) hcontrol
  refine ⟨hrecord, fun i hi => ?_, fun hok i hi => ?_⟩ <;> unfold Core.content <;>
    rw [hrecord, show c'.os = _ from hos]
  · refine Os.copyMemory_bytes_outside fun hin => ?_
    omega
  · rw [MemoryDomain.space_eq]
    exact Os.copyMemory_bytes_inside (hfst.symm.trans hok) hi

/-- A write to the buffer `k`. -/
theorem follows_write {w' : World} {offset : Nat} {data : List UInt8} (hk : w.core.Alive k)
    (hk' : w'.core.Alive k)
    (hroom : offset + data.length ≤ (w.core.control k).record.size.toNat)
    (hcontents : w'.core.contents k = Store.overwrite (w.core.contents k) offset data)
    (hother : ∀ j, j ≠ k → w'.core.store j = w.core.store j) :
    w.Follows w' [.write k offset data] := by
  refine ⟨funext fun j => ?_, ⟨_, Core.store_alive hk, by rwa [Core.length_contents]⟩, trivial⟩
  show _ = w.core.store.apply (.write k offset data : Store.Event CtlId UInt8 UInt32) j
  by_cases hj : j = k
  · subst hj
    rw [Store.apply_write_self (Core.store_alive hk), Core.store_alive hk', hcontents]
  · rw [hother j hj]
    exact (Function.update_of_ne hj _ _).symm

/-- `copy_from` into the buffer `k`, when it gets as far as the transfer. -/
theorem Orderly.copyFrom_write (h : w.Orderly) {env : Env} {i src : Nat} {srcOffset len : UInt64}
    (hop : w.Sane (.copyFrom env i src srcOffset len))
    (hvalid : (w.handle i).ensureValid w.core .write = .ok k)
    (hfits : BufferHandle.Fits (w.core.control k).record src 0 len) (data : List UInt8)
    (hlen : data.length = len.toNat)
    (hdata : ∀ j < len.toNat, data[j]?
      = some ((w.next (.copyFrom env i src srcOffset len)).core.content k j)) :
    w.Follows (w.next (.copyFrom env i src srcOffset len)) [.write k 0 data] := by
  obtain ⟨hk, hrw⟩ := ensureValid_write_ok hvalid
  have halive := h.refs.alive (handle_alive h.refs hk).1
  have hcore : (w.next (.copyFrom env i src srcOffset len)).core = (BufferHandle.transfer w.core env
      (w.core.control k).record.backing.base (src + srcOffset.toNat) len
      ((w.core.control k).record.domain = .device) false).2 := by
    rw [← BufferHandle.copyFrom_of_fits hk hrw hfits]
    rfl
  have hctls : (w.next (.copyFrom env i src srcOffset len)).core.ctls = w.core.ctls := by
    rw [hcore, transfer_ctls]
  obtain ⟨hrecord, hbehind, -⟩ := transfer_content (Prod.eta (BufferHandle.transfer w.core env
      (w.core.control k).record.backing.base (src + srcOffset.toNat) len
      ((w.core.control k).record.domain = .device) false)).symm
  rw [← hcore] at hrecord hbehind
  have hroom : 0 + data.length ≤ (w.core.control k).record.size.toNat := by
    have hsize := hfits.size
    simp only [UInt64.toNat_zero] at hsize
    omega
  refine follows_write halive (alive_next h.refs halive fun hrel => by cases hrel) hroom ?_ ?_
  · refine Core.contents_overwrite (by rw [hrecord]) hroom (fun j hj => ?_) (fun j hj => ?_)
    · rw [Nat.zero_add]
      exact hdata j (hlen ▸ hj)
    · exact hbehind j (by omega)
  · intro j hj
    refine h.store_same hop (by rw [hctls]) fun _ =>
      ⟨?_, fun _ _ hf => hf.elim, fun hrel => by cases hrel⟩
    intro _ _ _ _ _ heq
    cases heq
    rw [(BufferHandle.validateAlive_ok_iff.mp hk).ctl]
    exact fun hsame => hj (Option.some.inj hsame).symm

theorem Orderly.follows_copyFrom (h : w.Orderly) {env : Env} {i src : Nat} {srcOffset len : UInt64}
    (hop : w.Sane (.copyFrom env i src srcOffset len)) :
    w.Follows (w.next (.copyFrom env i src srcOffset len))
      (w.exchanged (.copyFrom env i src srcOffset len)) := by
  have hnext : (w.next (.copyFrom env i src srcOffset len)).core
      = ((w.handle i).copyFrom w.core env src srcOffset len).2 := rfl
  have hrejected : (w.next (.copyFrom env i src srcOffset len)).core = w.core →
      w.Follows (w.next (.copyFrom env i src srcOffset len)) [] :=
    fun hcore => ⟨congrArg Core.store hcore, trivial⟩
  unfold exchanged
  simp only
  cases hvalid : (w.handle i).ensureValid w.core .write with
  | error e =>
      refine hrejected ?_
      rw [hnext, BufferHandle.copyFrom, hvalid]
  | ok k =>
      obtain ⟨hk, hrw⟩ := ensureValid_write_ok hvalid
      have hsound := handle_sound h.refs h.geometric hk
      simp only
      by_cases hfits : BufferHandle.Fits (w.core.control k).record src 0 len
      · have hwrite := h.copyFrom_write hop hvalid hfits
        have hsize : len.toNat ≤ (w.core.control k).record.size.toNat := by simpa using hfits.size
        have heq : (w.handle i).copyFrom w.core env src srcOffset len
            = BufferHandle.transfer w.core env (w.core.control k).record.backing.base
              (src + srcOffset.toNat) len ((w.core.control k).record.domain = .device) false :=
          BufferHandle.copyFrom_of_fits hk hrw hfits
        generalize (w.handle i).copyFrom w.core env src srcOffset len = out at hnext heq ⊢
        obtain ⟨res, c⟩ := out
        obtain ⟨hrecord, -, hinside⟩ := transfer_content heq.symm
        cases res with
        | ok u =>
            refine hwrite _ (Core.length_hostBytes _ _ _) fun j hj => ?_
            rw [Core.hostBytes_get hj, hnext, hinside rfl j hj]
        | error e =>
            have hno : ¬ (src = 0 ∨ len > (w.core.control k).record.size) := by
              rintro (hzero | hlarge)
              · exact hfits.array hzero
              · exact absurd (UInt64.lt_iff_toNat_lt.mp hlarge) (Nat.not_lt.mpr hsize)
            simp only [if_neg hno]
            have hlen : (List.take len.toNat (c.contents k)).length = len.toNat := by
              rw [List.length_take, Core.length_contents, hrecord]
              omega
            refine hwrite _ hlen fun j hj => ?_
            rw [List.getElem?_take_of_lt hj, Core.contents_get (by rw [hrecord]; omega), hnext]
      · obtain ⟨e, hout⟩ := copyFrom_of_not_fits env srcOffset hvalid hfits
        rw [hout] at hnext ⊢
        have hno : src = 0 ∨ len > (w.core.control k).record.size := by
          by_contra hboth
          obtain ⟨hsrc, hsize⟩ := not_or.mp hboth
          have hsize := UInt64.not_lt.mp hsize
          exact hfits ⟨hsrc, by simpa using UInt64.le_iff_toNat_le.mp hsize,
            UInt64.le_iff_toNat_le.mp (UInt64.le_trans hsize hsound.size_le)⟩
        simp only [if_pos hno]
        exact hrejected hnext

/-- A read of what is there. -/
theorem follows_read {w' : World} {offset : Nat} {data : List UInt8} (hk : w.core.Alive k)
    (hroom : offset + data.length ≤ (w.core.control k).record.size.toNat)
    (hdata : ∀ i < data.length, data[i]? = some (w.core.content k (offset + i)))
    (hstore : w'.core.store = w.core.store) : w.Follows w' [.read k offset data] := by
  refine ⟨hstore, ⟨_, Core.store_alive hk, ?_⟩, trivial⟩
  have htake : data = ((w.core.contents k).drop offset).take data.length := by
    refine List.ext_getElem? fun i => ?_
    by_cases hi : i < data.length
    · rw [List.getElem?_take_of_lt hi, List.getElem?_drop, Core.contents_get (by omega), hdata i hi]
    · rw [List.getElem?_eq_none (by omega), List.getElem?_take_eq_none (by omega)]
  rw [htake]
  exact List.take_prefix _ _

theorem Orderly.follows_copyTo (h : w.Orderly) {env : Env} {i dst : Nat} {dstOffset len : UInt64}
    (hop : w.Sane (.copyTo env i dst dstOffset len))
    (hfills : ∀ k, w.core.Alive k → ∀ s a, (Op.copyTo env i dst dstOffset len).Fills s a →
      ¬ (w.core.control k).record.filed.Has s a) :
    w.Follows (w.next (.copyTo env i dst dstOffset len))
      (w.exchanged (.copyTo env i dst dstOffset len)) := by
  have hnext : (w.next (.copyTo env i dst dstOffset len)).core
      = ((w.handle i).copyTo w.core env dst dstOffset len).2 := rfl
  have hstore : (w.next (.copyTo env i dst dstOffset len)).core.store = w.core.store :=
    funext fun k => h.store_same hop (by rw [hnext, copyTo_ctls]) fun hk =>
      ⟨fun _ _ _ _ _ heq => (by cases heq), hfills k hk, fun hrel => by cases hrel⟩
  unfold exchanged
  simp only
  split
  · rename_i k _ c hvalid hout
    have hk := ensureValid_ok hvalid
    have hok : ((w.handle i).copyTo w.core env dst dstOffset len).1 = .ok () := by rw [hout]
    have hfits := BufferHandle.fits_of_copyTo hk hok
    have hsize := hfits.from_zero.size
    simp only [UInt64.toNat_zero, Nat.zero_add] at hsize
    refine follows_read (h.refs.alive (handle_alive h.refs hk).1) ?_ (fun j hj => ?_) hstore
    · rw [Core.length_hostBytes]
      omega
    · rw [Core.length_hostBytes] at hj
      have heq : (w.handle i).copyTo w.core env dst dstOffset len
          = BufferHandle.transfer w.core env (dst + dstOffset.toNat)
            (w.core.control k).record.backing.base len false
            ((w.core.control k).record.domain = .device) := BufferHandle.copyTo_of_fits hk hfits
      obtain ⟨-, hos, hfst⟩ := transfer_spec (heq.symm.trans hout)
      rw [Core.hostBytes_get hj, Nat.zero_add, show c.os = _ from hos, Core.content,
        MemoryDomain.space_eq]
      exact congrArg some (Os.copyMemory_bytes_inside hfst.symm hj)
  · exact ⟨hstore, trivial⟩

theorem Orderly.follows_checksum (h : w.Orderly) {i : Nat} (hop : w.Sane (.checksum i)) :
    w.Follows (w.next (.checksum i)) (w.exchanged (.checksum i)) := by
  have hstore : (w.next (.checksum i)).core.store = w.core.store :=
    funext fun k => h.store_same hop
      (congrArg List.length (checksum_noted (h := w.handle i) (c := w.core)).ctls) fun _ =>
      ⟨fun _ _ _ _ _ heq => (by cases heq), fun _ _ hf => hf.elim, fun hrel => by cases hrel⟩
  unfold exchanged
  simp only
  split
  · rename_i k crc hk hcrc
    refine ⟨hstore, ⟨_, Core.store_alive (h.refs.alive (handle_alive h.refs hk).1), ?_⟩, trivial⟩
    unfold BufferHandle.checksum at hcrc
    rw [hk] at hcrc
    simp only at hcrc
    split at hcrc
    · cases hcrc
    rename_i hdevice
    split at hcrc
    · cases hcrc
    · have hspace : (w.core.control k).record.domain.space = .host := by
        rw [MemoryDomain.space_eq, if_neg (by simpa using hdevice)]
      rw [← Except.ok.inj hcrc, Core.contents]
      unfold Core.content
      rw [hspace]
  · exact ⟨hstore, trivial⟩

/-! ### Loads and stores of the program -/

theorem perform_store_content (w : World) (a : Nat) (data : List UInt8) (k : CtlId) (i : Nat) :
    (w.perform (.store a data)).core.content k i = (w.core.os.poke a data).bytes
      (w.core.control k).record.domain.space ((w.core.control k).record.backing.base + i) := rfl

/-- A byte in the backing of one buffer is not a byte of another. -/
theorem Orderly.not_inBuffer (h : w.Orderly) {j : CtlId} (hk : w.core.Alive k) (hj : w.core.Alive j)
    (hne : j ≠ k) {s : Space} {a : Nat} (hin : w.core.InBuffer k s a) : ¬ w.core.InBuffer j s a := by
  have hhas : ∀ {l : CtlId}, w.core.Alive l → w.core.InBuffer l s a →
      (w.core.control l).record.filed.Has s a := by
    intro l hl hinl
    obtain ⟨hspace, hle, hlt⟩ := hinl
    have hbyte := (h.geometric.blocks l hl).has
      (i := a - (w.core.control l).record.backing.base) (by omega)
    rwa [Nat.add_sub_cancel' hle, ← hspace] at hbyte
  exact fun hinj => (Core.clear_blocks h.disjoint hk hj hne).not_has (hhas hk hin) (hhas hj hinj)

theorem Orderly.follows_store (h : w.Orderly) {a : Nat} {data : List UInt8}
    (hact : w.Discreet (.store a data)) :
    w.Follows (w.perform (.store a data)) (w.traffic (.store a data)) := by
  -- bytes that are not overwritten
  have hkept : ∀ j, (w.core.Alive j → ∀ i < data.length, ¬ w.core.InBuffer j .host (a + i)) →
      (w.perform (.store a data)).core.store j = w.core.store j := by
    intro j hout
    refine Core.store_congr rfl fun hj i hi => ?_
    rw [perform_store_content]
    refine Os.poke_outside fun hin => ?_
    obtain ⟨hspace, hle, hlt⟩ := hin
    refine hout hj ((w.core.control j).record.backing.base + i - a) (by omega) ?_
    exact ⟨hspace.symm, by omega, by omega⟩
  unfold traffic
  simp only
  split
  · rename_i k hat
    obtain ⟨hk, hspace, hle, hend⟩ := Core.bufferAt_covers hat
    refine follows_write hk hk (by omega) ?_ (fun j hj => hkept j ?_)
    · refine Core.contents_overwrite rfl (by omega) (fun i hi => ?_) (fun i hi => ?_)
      · have haddr : (w.core.control k).record.backing.base
            + (a - (w.core.control k).record.backing.base + i) = a + i := by omega
        rw [perform_store_content, haddr, hspace, Os.poke_inside hi, List.getD_eq_getElem?_getD,
          List.getElem?_eq_getElem hi, Option.getD_some]
      · rw [perform_store_content]
        exact Os.poke_outside fun hin => by omega
    · intro hjalive i hi
      exact h.not_inBuffer hk hjalive hj ⟨hspace.symm, by omega, by omega⟩
  · rename_i hat
    rcases hact with hsome | hclear
    · rw [hat] at hsome
      cases hsome
    · exact ⟨funext fun j => hkept j (hclear j), trivial⟩

theorem follows_load (w : World) (a n : Nat) : w.Follows w (w.traffic (.load a n)) := by
  unfold traffic
  simp only
  split
  · rename_i k hat
    obtain ⟨hk, hspace, hle, hend⟩ := Core.bufferAt_covers hat
    refine follows_read hk (by rw [Core.length_hostBytes]; omega) (fun i hi => ?_) rfl
    rw [Core.length_hostBytes] at hi
    have haddr : (w.core.control k).record.backing.base
        + (a - (w.core.control k).record.backing.base + i) = a + i := by omega
    rw [Core.hostBytes_get hi, Core.content, haddr, hspace]
  · exact ⟨rfl, trivial⟩

/-- One action of a program. -/
theorem Orderly.follows (h : w.Orderly) {act : Action} (hact : w.Discreet act) :
    w.Follows (w.perform act) (w.traffic act) := by
  cases act with
  | load a n => exact follows_load w a n
  | store a data => exact h.follows_store hact
  | call op =>
      obtain ⟨htrusted, hothers, hfills⟩ := hact
      have hop := htrusted.sane hothers
      show w.Follows (w.next op) (w.exchanged op)
      cases op with
      | copyFrom => exact h.follows_copyFrom hop
      | copyTo => exact h.follows_copyTo hop hfills
      | checksum => exact h.follows_checksum hop
      | _ => exact h.follows_other hop (fun _ _ _ _ _ heq => by cases heq) (fun _ _ hf => hf)

theorem Orderly.perform (h : w.Orderly) {act : Action} (hact : w.Discreet act) :
    (w.perform act).Orderly := by
  cases act with
  | call op => exact h.next (hact.1.sane hact.2.1)
  | load a n => exact h
  | store a data =>
      -- no invariant but that of the contents looks at bytes
      exact ⟨h.refs.same (Core.sameRefs_of_quiet (.refl _) rfl), h.geometric.same rfl rfl, h.disjoint⟩

/-- The actions of a program, one after the other. -/
theorem Orderly.follows_runs (h : w.Orderly) {acts : List Action}
    (hacts : Along World.perform World.Discreet w acts) :
    w.Follows (runs World.perform w acts) (Lib.history World.perform World.traffic w acts) :=
  follows_history (fun w => w.core.store) (I := World.Orderly) (fun _ _ h hact => h.perform hact)
    (fun _ _ h hact => h.follows hact) h hacts

theorem store_init (cfg : RuntimeConfig) (plat : RuntimeImpl.Platform) :
    (World.init cfg plat).core.store = fun _ => none :=
  funext fun k => Core.store_dead fun hk => Nat.not_lt_zero k hk.1

end World

/-! ## Programs see a store -/

/-- **The buffers of a runtime are a store of arrays.** Take any program that starts with an open
runtime: operations on any number of handles, maps and views, with any failures, and loads and
stores of its own. What it sees is a history of a store that admits every event, and the buffers
hold what this store holds in the end: each is there from its creation to the release of its last
reference, every `copy_to`, `checksum` and load returns what the history has made of it, and
nothing else (a migration, a rejected call, the fate of another buffer) has an effect. -/
theorem buffers_refine_store {cfg : RuntimeConfig} {plat : RuntimeImpl.Platform}
    {acts : List Action}
    (hacts : Along World.perform World.Discreet (World.init cfg plat) acts) :
    (runs World.perform (World.init cfg plat) acts).core.store = runs Store.apply (fun _ => none)
        (history World.perform World.traffic (World.init cfg plat) acts) ∧
      Along Store.apply (Store.Allowed (crc32c · 0)) (fun _ => none)
        (history World.perform World.traffic (World.init cfg plat) acts) := by
  rw [← World.store_init cfg plat]
  exact (World.Orderly.init cfg plat).follows_runs hacts

/-- **Reads return the last write.** Whatever a program reads at position `i` of a buffer, by
`copy_to` or by a load, is what the last write to this position has put there, by `copy_from` or by
a store, whatever has happened to the buffer and to others in between. -/
theorem reads_last_write {cfg : RuntimeConfig} {plat : RuntimeImpl.Platform} {acts : List Action}
    (hacts : Along World.perform World.Discreet (World.init cfg plat) acts)
    {before between after : List (Store.Event CtlId UInt8 UInt32)} {k : CtlId}
    {offset offset' : Nat} {data data' : List UInt8}
    (hsplit : history World.perform World.traffic (World.init cfg plat) acts
      = before ++ (.write k offset data :: between ++ [.read k offset' data']) ++ after)
    {i : Nat} (hlast : ∀ e ∈ between, ¬ e.Touches k i)
    (hi : offset ≤ i ∧ i < offset + data.length) (hi' : offset' ≤ i ∧ i < offset' + data'.length) :
    data'[i - offset']? = data[i - offset]? := by
  have hallowed := ((World.Orderly.init cfg plat).follows_runs hacts).2
  rw [hsplit, List.append_assoc] at hallowed
  have hrest := (Along.append_iff.mp hallowed).2
  exact Store.read_write (Along.append_iff.mp hrest).1 hlast hi hi'

/-- A program copies three bytes of its own into a buffer, moves the buffer to shared memory, and
reads two of the bytes there through a view. -/
def copiesMovesLooks : List Action :=
  [.call (.allocate (.servesAt 4096) { size := 4 }), .store 100 [7, 8, 9],
    .call (.copyFrom {} 0 100 0 3), .call (.migrate (.servesAt 8192) 0 .sharedHost),
    .call (.view 1 1 2 .read), .load 8193 2]

theorem copiesMovesLooks_discreet :
    Along World.perform World.Discreet (World.init {} {}) copiesMovesLooks := by
  refine ⟨⟨⟨Env.servesAt_faithful _, Env.servesAt_separate (by decide)⟩, trivial,
      fun _ _ _ _ hf => hf.elim⟩,
    Or.inr ?_, ⟨⟨trivial, trivial⟩, trivial, fun _ _ _ _ hf => hf.elim⟩,
    ⟨⟨Env.servesAt_faithful _, Env.servesAt_separate (by decide)⟩, trivial,
      fun _ _ _ _ hf => hf.elim⟩,
    ⟨⟨trivial, trivial⟩, trivial, fun _ _ _ _ hf => hf.elim⟩, trivial, trivial⟩
  -- the three bytes lie far below the buffer
  rintro k hk i hi ⟨-, hle, -⟩
  obtain rfl : k = 0 := Nat.lt_one_iff.mp hk.1
  have hi : i < 3 := hi
  have hle : 4096 ≤ 100 + i := hle
  omega

/-- The theorem at work: the byte 8 that went in at position 1 comes out there. -/
theorem reads_last_write_copiesMovesLooks :
    history World.perform World.traffic (World.init {} {}) copiesMovesLooks
      = [.create 0 [0, 0, 0, 0]] ++ (.write 0 0 [7, 8, 9] :: [] ++ [.read 0 1 [8, 9]]) ++ [] ∧
      ([8, 9] : List UInt8)[1 - 1]? = ([7, 8, 9] : List UInt8)[1 - 0]? := by
  have hsplit : history World.perform World.traffic (World.init {} {}) copiesMovesLooks
      = [.create 0 [0, 0, 0, 0]] ++ (.write 0 0 [7, 8, 9] :: [] ++ [.read 0 1 [8, 9]]) ++ [] := by
    decide
  exact ⟨hsplit, reads_last_write copiesMovesLooks_discreet hsplit (by simp) (by decide) (by decide)⟩

/-- The store in the end. -/
theorem buffers_refine_store_copiesMovesLooks :
    (runs World.perform (World.init {} {}) copiesMovesLooks).core.store = runs Store.apply
      (fun _ => none) (history World.perform World.traffic (World.init {} {}) copiesMovesLooks) ∧
      (runs World.perform (World.init {} {}) copiesMovesLooks).core.store 0
        = some [7, 8, 9, 0] :=
  ⟨(buffers_refine_store copiesMovesLooks_discreet).1, by decide⟩

end UnifiedBuffer
