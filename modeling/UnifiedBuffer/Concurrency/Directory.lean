import UnifiedBuffer.Concurrency.Machine

set_option autoImplicit false

/-! # Files of several processes

`FileBackedDomain::allocate` names its files by a static counter of the process and opens them with
`CREATE_ALWAYS`, which empties a file that exists. The counter keeps the files of one process apart.
Another process, or the same program started again, counts from zero and meets them.

Within one process it is the pool that reuses a file. `Machine.Undisturbed` excludes both, and then
files survive (`files_survive`). -/

namespace UnifiedBuffer

open Lib

namespace Machine

variable {base : String} {m : Machine} {e : Event} {path : String}

/-! ## The numbers of files -/

theorem call_drawn {p r : Nat} {proc : Process} {rt : Runtime} {op : Op}
    (hrt : m.runtimeAt p r = some (proc, rt)) (sys : NativeCalls) (hasks : (rt.asksFile op).isSome) :
    ∃ proc', (m.next base (.call p r sys op)).processes[p]? = some proc' ∧
      proc'.drawn = proc.drawn + 1 := by
  have hlt : p < m.processes.length := (List.getElem?_eq_some_iff.mp (runtimeAt_some hrt).1).1
  simp only [next, hrt]
  refine ⟨_, List.getElem?_set_self hlt, ?_⟩
  show (if _ then _ else _) = _
  rw [served, rt.asksFile_mapEnv, if_pos hasks]

/-- A file after an event is one from before, with other bytes at most, or it is new. -/
theorem file_next {f : DataFile} (hf : (m.next base e).files.find? path = some f) :
    (∃ g, m.files.find? path = some g ∧ g.creator = f.creator ∧
      g.bytes.length = f.bytes.length) ∨
    ∃ proc proc' sys bytes, m.processes[f.creator]? = some proc ∧
      (m.next base e).processes[f.creator]? = some proc' ∧ proc'.drawn = proc.drawn + 1 ∧
      path = proc.nextPath base ∧ f.bytes.length = (sized sys bytes).length := by
  cases fileStep base m e path with
  | kept keeps file =>
      rw [file] at hf
      obtain ⟨g, hg, rfl⟩ := Option.map_eq_some_iff.mp hf
      exact Or.inl ⟨g, hg, (keeps.creator g).symm, (keeps.length g).symm⟩
  | @created p r proc rt sys op bytes g hop runtime asks _ name keeps file =>
      subst hop
      cases hf.symm.trans file
      obtain ⟨hproc, -⟩ := runtimeAt_some runtime
      obtain ⟨proc', hproc', hdrawn⟩ := call_drawn runtime sys (Option.isSome_of_eq_some asks)
      rw [keeps.creator, keeps.length]
      exact Or.inr ⟨proc, proc', sys, bytes, hproc, hproc', hdrawn, name, rfl⟩
  | removed _ _ file =>
      rw [file] at hf
      cases hf

/-- Every file bears a number that its creator has drawn. -/
def Numbered (base : String) (m : Machine) : Prop :=
  ∀ path f, m.files.find? path = some f → ∃ proc n, m.processes[f.creator]? = some proc ∧
    n < proc.drawn ∧ path = FileBackedDomain.path base (UInt64.ofNat n)

theorem numbered_next (h : m.Numbered base) (e : Event) : (m.next base e).Numbered base := by
  intro path f hf
  rcases file_next hf with ⟨g, hg, hcreator, -⟩ | ⟨proc, proc', -, -, -, hproc', hdrawn, rfl, -⟩
  · obtain ⟨proc, n, hproc, hn, hpath⟩ := h path g hg
    obtain ⟨proc', hproc', hle⟩ := drawn_next base e hproc
    exact ⟨proc', n, hcreator ▸ hproc', Nat.lt_of_lt_of_le hn hle, hpath⟩
  · exact ⟨proc', proc.drawn, hproc', by omega, rfl⟩

theorem numbered_reach {ok : Machine → Event → Prop}
    (hreach : Reach (Machine.next base) ok {} m) : m.Numbered base :=
  hreach.invariant (fun _ _ hf => by cases hf) (fun _ e h _ => numbered_next h e)

end Machine

theorem FileBackedDomain.path_inj {base : String} {a b : UInt64}
    (h : FileBackedDomain.path base a = FileBackedDomain.path base b) : a = b := by
  have hlist := congrArg String.toList h
  simp only [FileBackedDomain.path, String.toList_append, List.append_assoc,
    List.append_cancel_left_eq, List.append_cancel_right_eq, toList_toString] at hlist
  -- the digits of a number determine it
  have hnum := congrArg (fun digits => Nat.ofDigitChars 10 digits 0) hlist
  simp only [Nat.ofDigitChars_ten_toDigits] at hnum
  exact UInt64.toNat_inj.mp hnum

theorem FileBackedDomain.allocate_made {sys : NativeCalls} {bytes alignment : UInt64}
    {a : NativeAllocation} (h : FileBackedDomain.allocate sys bytes alignment = .ok a) :
    sys.createFile = true ∧ a.committed = bytes ∧
      (Machine.sized sys bytes).length = bytes.toNat := by
  unfold FileBackedDomain.allocate at h
  repeat (split at h; cases h)
  rename_i hcreate hpointer hend _ _ view _
  cases h
  simp [Machine.sized, hcreate, hpointer, hend]

theorem FileBackedDomain.importHandle_found {sys : NativeCalls} {base path : String}
    {size alignment : UInt64} {a : NativeAllocation}
    (h : FileBackedDomain.importHandle sys base path size alignment = .ok a) :
    a.committed = size ∧ ∃ fs, sys.fileSize = some fs ∧ size ≤ fs := by
  unfold FileBackedDomain.importHandle at h
  repeat (split at h; cases h)
  rename_i fs hfs hroom _ _ _ _
  cases h
  exact ⟨rfl, fs, hfs, UInt64.not_lt.mp hroom⟩

namespace Machine

variable {base : String} {m : Machine} {e : Event} {path : String}

/-- The counter keeps a process away from its own files, as long as it does not overflow. -/
theorem Numbered.foreign (h : m.Numbered base) {p : Nat} {proc : Process}
    (hproc : m.processes[p]? = some proc) (hdrawn : proc.drawn < 2 ^ 64) {f : DataFile}
    (hf : m.files.find? (proc.nextPath base) = some f) : f.creator ≠ p := by
  rintro rfl
  obtain ⟨proc', n, hproc', hn, hpath⟩ := h _ _ hf
  obtain rfl : proc = proc' := Option.some.inj (hproc.symm.trans hproc')
  have hsame := congrArg UInt64.toNat (FileBackedDomain.path_inj hpath)
  rw [Process.fileCounter, UInt64.toNat_ofNat_of_lt' hdrawn,
    UInt64.toNat_ofNat_of_lt' (Nat.lt_trans hn hdrawn)] at hsame
  omega

/-! ## Histories without a clash -/

/-- A process creates a file only under a number that no file of another process bears, and its
counter does not overflow. No file that a descriptor names is taken from a pool, or wiped on its
way to one. -/
def Undisturbed (base : String) (m : Machine) : Event → Prop
  | .call p r _ op => ∀ proc rt, m.runtimeAt p r = some (proc, rt) →
      ((rt.asksFile op).isSome → proc.drawn < 2 ^ 64 ∧
        ∀ f, m.files.find? (proc.nextPath base) = some f → f.creator = p) ∧
      ∀ a ∈ rt.world.recycled op, ∀ path ∈ m.described, rt.pathOf a ≠ some path
  | _ => True

/-- The path that an event creates, and empties if it exists. -/
def creates (base : String) (m : Machine) : Event → Option String
  | .call p r sys op =>
      match m.runtimeAt p r with
      | none => none
      | some (proc, rt) =>
          if (rt.asksFile op).isSome ∧ sys.createFile = true then some (proc.nextPath base) else none
  | _ => none

/-- The event neither writes to the file, by `copy_from` or through a view, nor deletes it. -/
def Spares (m : Machine) (path : String) : Event → Prop
  | .call p r _ (.copyFrom _ i _ _ _) => ∀ proc rt, m.runtimeAt p r = some (proc, rt) →
      ∀ k, (rt.world.handle i).ctl = some k →
        rt.pathOf (rt.world.core.control k).record.backing ≠ some path
  | .write _ _ x _ _ => x ≠ path
  | .remove x => x ≠ path
  | _ => True

/-- The next file of an undisturbed process is new. -/
theorem Numbered.unused (h : m.Numbered base) {p r : Nat} {sys : NativeCalls} {op : Op}
    (hok : m.Undisturbed base (.call p r sys op)) {proc : Process} {rt : Runtime}
    (hrt : m.runtimeAt p r = some (proc, rt)) (hasks : (rt.asksFile op).isSome) :
    m.files.find? (proc.nextPath base) = none := by
  obtain ⟨hdrawn, hown⟩ := (hok proc rt hrt).1 hasks
  cases hf : m.files.find? (proc.nextPath base) with
  | none => rfl
  | some f => exact absurd (hown f hf) (h.foreign (runtimeAt_some hrt).1 hdrawn hf)

theorem Numbered.creates_unused (h : m.Numbered base) (hok : m.Undisturbed base e)
    (hcreates : m.creates base e = some path) : m.files.find? path = none := by
  cases e with
  | call p r sys op =>
      unfold creates at hcreates
      cases hrt : m.runtimeAt p r with
      | none => simp only [hrt] at hcreates; cases hcreates
      | some found =>
          simp only [hrt] at hcreates
          split at hcreates
          · rename_i hcreate
            cases hcreates
            exact h.unused hok hrt hcreate.1
          · cases hcreates
  | _ => cases hcreates

/-- An undisturbed event keeps the length of a file that is open or not deleted, and its bytes
unless it writes to the file. -/
theorem Numbered.kept (h : m.Numbered base) (hok : m.Undisturbed base e)
    (hremove : e = .remove path → m.Opened path) {f : DataFile}
    (hf : m.files.find? path = some f) :
    ∃ g, (m.next base e).files.find? path = some g ∧ g.bytes.length = f.bytes.length ∧
      (¬ m.Writes base path e → g = f) := by
  cases fileStep base m e path with
  | @kept g keeps file same =>
      refine ⟨g f, by rw [file, hf]; rfl, keeps.length f, fun hwrites => ?_⟩
      rw [same hwrites]
      rfl
  | created hop runtime asks _ name =>
      subst hop name
      rw [h.unused hok runtime (Option.isSome_of_eq_some asks)] at hf
      cases hf
  | removed hop closed => exact absurd (hremove hop) closed

/-- An undisturbed event that spares a file of a descriptor does not write to it. -/
theorem Numbered.not_writes (h : m.Numbered base) (hsound : ∀ rt, m.Runs rt → rt.Sound)
    (hok : m.Undisturbed base e) (hspares : m.Spares path e) (hdescribed : path ∈ m.described)
    {f : DataFile} (hf : m.files.find? path = some f) : ¬ m.Writes base path e := by
  intro hwrites
  cases e with
  | call p r sys op =>
      obtain ⟨proc, rt, hrt, y, hy, hwrite, hpath⟩ := hwrites
      have hrtsound := Sound.runtimeAt hsound hrt
      obtain ⟨x, hto, htarget⟩ := World.accesses_target hy hwrite
      rw [hto.backing] at hpath
      -- what was held before is not recycled
      have hrecycled : x ∈ rt.world.core.stock.held →
          x.2 ∉ rt.world.recycled (m.served base rt sys op) := by
        intro hheld hmem
        rw [hrtsound.pathOf_after hheld] at hpath
        rw [served, World.recycled_mapEnv] at hmem
        exact (hok proc rt hrt).2 x.2 hmem path hdescribed hpath
      cases htarget with
      | fresh asked new =>
          -- a new file is not the one that is there
          rw [new, Runtime.pathOf_stamp, Runtime.opens] at hpath
          split at hpath
          · rename_i hasks
            cases hpath
            rw [served, rt.asksFile_mapEnv] at hasks
            rw [h.unused hok hrt hasks] at hf
            cases hf
          · cases op <;> first | cases hpath | cases asked
      | @copied env i src srcOffset len k hop valid filed =>
          have halive := hrtsound.refs.alive (World.handle_alive hrtsound.refs valid).1
          rw [filed, hrtsound.pathOf_after (Core.held_of_alive halive)] at hpath
          cases op with
          | copyFrom env₀ i₀ src₀ offset₀ len₀ =>
              cases hop
              exact hspares proc rt hrt k (BufferHandle.validateAlive_ok_iff.mp valid).ctl hpath
          | _ => cases hop
      | @released k hrel _ filed wiped =>
          have halive := hrtsound.refs.alive (World.released_pins hrel)
          obtain ⟨z, hz, hzto⟩ := wiped
          refine hrecycled (filed ▸ Core.held_of_alive halive) ?_
          rw [← hzto.backing]
          exact World.mem_recycled hz
      | taken hop admission offer filed =>
          obtain ⟨key, hkey, hperm, -⟩ := RuntimeImpl.poolOffer_perm offer
          have hslot := Core.held_of_slot (hperm.mem_iff.mpr List.mem_cons_self)
          rw [filedSlot, hkey, ← filed] at hslot
          refine hrecycled hslot ?_
          rw [hop, filed]
          simp only [World.recycled, admission, offer, Option.map_some, Option.toList_some,
            List.mem_singleton]
  | write => exact hspares hwrites
  | _ => exact hwrites

theorem described_next (h : path ∈ m.described) (e : Event) : path ∈ (m.next base e).described := by
  cases e with
  | start => exact h
  | call p r sys op =>
      simp only [next]
      split
      · exact h
      · exact List.mem_append_left _ h
  | _ =>
      simp only [next]
      repeat' split
      all_goals exact h

/-- The file of a descriptor stays as it is in every undisturbed history that spares it. -/
theorem Numbered.spared_runs (h : m.Numbered base) (hsound : ∀ rt, m.Runs rt → rt.Sound)
    (hdescribed : path ∈ m.described) {f : DataFile} (hf : m.files.find? path = some f)
    {es : List Event}
    (hes : Along (Machine.next base) (fun m e => m.Undisturbed base e ∧ m.Spares path e) m es) :
    (runs (Machine.next base) m es).Numbered base ∧
      (runs (Machine.next base) m es).files.find? path = some f := by
  have hall := (hes.mono fun _ _ h => h.1).invariant (hes.mono fun _ _ h => h.2)
    (I := fun m => (∀ rt, m.Runs rt → rt.Sound) ∧ path ∈ m.described ∧ m.Numbered base ∧
      m.files.find? path = some f) ⟨hsound, hdescribed, h, hf⟩ ?_
  · exact hall.2.2
  rintro m e ⟨hsound, hdescribed, h, hf⟩ hok hspares
  refine ⟨sound_next hsound e, described_next hdescribed e, numbered_next h e, ?_⟩
  obtain ⟨g, hg, -, hsame⟩ := h.kept hok (fun hop => absurd rfl (hop ▸ hspares)) hf
  rw [hg, hsame (h.not_writes hsound hok hspares hdescribed hf)]

/-! ## Files that are open -/

/-- What the runtimes have open lies within its file. -/
def Covers (m : Machine) : Prop :=
  ∀ rt, m.Runs rt → ∀ x ∈ rt.world.core.backings, ∀ path, rt.pathOf x.2 = some path →
    ∃ f, m.files.find? path = some f ∧ x.2.committed.toNat ≤ f.bytes.length

theorem Runtime.asksFile_of_asks {rt : Runtime} {op : Op} {d : MemoryDomain}
    {bytes alignment : UInt64} (hasked : rt.world.asks op = some (d, bytes, alignment))
    (h : (rt.asksFile op).isSome) : d = .mmapStorage ∧ rt.asksFile op = some bytes := by
  unfold asksFile at h ⊢
  rw [hasked] at h ⊢
  cases d with
  | mmapStorage =>
      by_cases hbytes : bytes = 0
      · simp only [hbytes, if_true] at h
        cases h
      · exact ⟨rfl, if_neg hbytes⟩
  | _ => cases h

/-- Memory that a call has got from the file backend lies in the file that was created for it. -/
theorem covers_allocated {p r : Nat} {proc : Process} {rt : Runtime} {sys : NativeCalls} {op : Op}
    (hrt : m.runtimeAt p r = some (proc, rt)) {d : MemoryDomain} {bytes alignment : UInt64}
    (hasked : rt.world.asks op = some (d, bytes, alignment)) (hasks : (rt.asksFile op).isSome)
    {env : Env} {a : NativeAllocation}
    (hanswer : (m.backends base rt sys env).allocate d bytes alignment = .ok a) :
    ∃ f, (m.next base (.call p r sys op)).files.find? (proc.nextPath base) = some f ∧
      a.committed.toNat ≤ f.bytes.length := by
  obtain ⟨rfl, hbytes⟩ := Runtime.asksFile_of_asks hasked hasks
  obtain ⟨hcreate, hcommitted, hsized⟩ := FileBackedDomain.allocate_made hanswer
  obtain ⟨g, hg, hfile, -⟩ :=
    (rt.after (proc.nextPath base) (m.served base rt sys op)).stores_keep
      (m.withNew p (proc.nextPath base) sys (rt.asksFile op))
      (rt.world.accesses (m.served base rt sys op)) (proc.nextPath base)
  have hnew : (m.withNew p (proc.nextPath base) sys (rt.asksFile op)).find? (proc.nextPath base)
      = some ⟨p, sized sys bytes⟩ := by
    rw [hbytes, withNew, if_pos hcreate]
    exact AssocMap.find?_insert_self ..
  rw [← call_files hrt, hnew] at hfile
  refine ⟨_, hfile, ?_⟩
  rw [hg.length, hcommitted]
  exact Nat.le_of_eq hsized.symm

theorem covers_next (h : m.Covers) (hnumbered : m.Numbered base)
    (hsound : ∀ rt, m.Runs rt → rt.Sound) (hok : m.Undisturbed base e) :
    (m.next base e).Covers := by
  intro rt' hrt' x hx path hpath
  have hsound' := sound_next hsound e rt' hrt'
  -- the file of what was open before is kept
  have hold : ∀ rt, m.Runs rt → x ∈ rt.world.core.backings → rt.pathOf x.2 = some path →
      ∃ f, (m.next base e).files.find? path = some f ∧ x.2.committed.toNat ≤ f.bytes.length := by
    intro rt hrt hx hpath
    obtain ⟨f, hf, hle⟩ := h rt hrt x hx path hpath
    obtain ⟨proc, hproc, hmem⟩ := hrt
    obtain ⟨g, hg, hlength, -⟩ :=
      hnumbered.kept hok (fun _ => ⟨proc, hproc, rt, hmem, x, hx, hpath⟩) hf
    exact ⟨g, hg, hlength ▸ hle⟩
  cases runtimeStep hrt' with
  | old mem => exact hold rt' mem hx hpath
  | built new =>
      subst new
      exact absurd (hsound'.refs.mem_backings.mp hx) (Multiset.notMem_zero x)
  | @called p r proc rt sys op hop runtime new =>
      subst hop new
      have hrtsound := Sound.runtimeAt hsound runtime
      cases hrtsound.refs.origin (hsound'.refs.mem_backings.mp hx) with
      | held mem =>
          rw [hrtsound.pathOf_after mem] at hpath
          obtain ⟨-, rt₀, hrt₀, rfl⟩ := runtimeAt_some runtime
          exact hold rt₀ hrt₀ ((hsound rt₀ hrt₀).refs.mem_backings.mpr mem) hpath
      | lent tag =>
          rw [Runtime.pathOf, tag] at hpath
          cases hpath
      | allocated hop asked answer new =>
          obtain ⟨env₀, rfl, himports⟩ := Op.mapEnv_allocates hop
          rw [new, Runtime.pathOf_stamp, Runtime.opens, served, Op.importsFile_mapEnv, himports,
            rt.asksFile_mapEnv] at hpath
          rw [served, World.asks_mapEnv] at asked
          split at hpath
          · rename_i hasks
            cases hpath
            have hcovers := covers_allocated runtime asked hasks answer
            rw [new]
            exact hcovers
          · cases hpath
      | @opened env desc ns label a hop domain answer new =>
          cases op with
          | importBuffer env₀ desc₀ ns₀ label₀ =>
              cases hop
              rw [new, Runtime.pathOf_stamp] at hpath
              have hhandle : (if desc.domain = .mmapStorage then some desc.handle else none)
                  = some path := hpath
              split at hhandle
              · rename_i hd
                cases hhandle
                -- an import compares the size that it is given with that of the file
                obtain ⟨hcommitted, fs, hfs, hsize⟩ :=
                  FileBackedDomain.importHandle_found ((if_pos hd).symm.trans answer)
                obtain ⟨f, hf, rfl⟩ := Option.map_eq_some_iff.mp hfs
                obtain ⟨g, hg, hlength, -⟩ := hnumbered.kept hok (fun hop => by cases hop) hf
                refine ⟨g, hg, ?_⟩
                have hle := UInt64.le_iff_toNat_le.mp hsize
                rw [UInt64.toNat_ofNat'] at hle
                rw [hlength, new]
                show a.committed.toNat ≤ _
                rw [hcommitted]
                exact Nat.le_trans hle (Nat.mod_le _ _)
              · cases hhandle
          | _ => cases hop

theorem covers_reach (hreach : Reach (Machine.next base) (Machine.Undisturbed base) {} m) :
    m.Covers := by
  refine hreach.invariant_of (I := Covers)
    (K := fun m => m.Numbered base ∧ ∀ rt, m.Runs rt → rt.Sound)
    (fun _ h => ⟨numbered_reach h, sound_reach h⟩) ?_
    (fun _ _ hknown h hok => covers_next h hknown.1 hknown.2 hok)
  rintro rt ⟨_, hproc, _⟩
  cases hproc

theorem Covers.opened (h : m.Covers) (hopen : m.Opened path) :
    ∃ f, m.files.find? path = some f := by
  obtain ⟨proc, hproc, rt, hrt, x, hx, hpath⟩ := hopen
  obtain ⟨f, hf, -⟩ := h rt ⟨proc, hproc, hrt⟩ x hx path hpath
  exact ⟨f, hf⟩

/-- No file is longer than a size can say. -/
def Short (m : Machine) : Prop := ∀ path f, m.files.find? path = some f → f.bytes.length < 2 ^ 64

theorem short_next (h : m.Short) (e : Event) : (m.next base e).Short := by
  intro path f hf
  rcases file_next hf with ⟨g, hg, -, hlength⟩ | ⟨-, -, sys, bytes, -, -, -, -, hlength⟩
  · exact hlength ▸ h path g hg
  · rw [hlength]
    unfold sized
    split
    · rw [List.length_replicate]
      exact bytes.toNat_lt
    · decide

theorem short_reach {ok : Machine → Event → Prop}
    (hreach : Reach (Machine.next base) ok {} m) : m.Short :=
  hreach.invariant (fun _ _ hf => by cases hf) (fun _ e h _ => short_next h e)

/-! ## Opening a file again -/

/-- The operating system opens the file and maps its bytes into the memory `os`. -/
structure Shows (sys : NativeCalls) (os : Os) (path : String) (f : DataFile) : Prop where
  opens : sys.openFile path = true
  mapping : sys.createFileMapping 0 = true
  view : ∀ size : UInt64, size.toNat ≤ f.bytes.length → ∃ address,
    sys.mapViewOfFile size = some address ∧
      ∀ x < size.toNat, os.bytes .host (address + x) = f.bytes.getD x 0

/-- A directory whose files can be imported: it contains no `..` and its name is not too long. -/
structure CleanBase (base : String) : Prop where
  noTraversal : ¬ "..".toList <:+: base.toList
  short : base.toList.length ≤ 990

theorem CleanBase.names (h : CleanBase base) (counter : UInt64) :
    SegmentNames.Clean { baseDir := base, counters := fun _ => (counter, 0) } := by
  refine ⟨h.noTraversal, fun tag => ?_⟩
  have hdigits := length_toString_le counter
  have hbase := h.short
  have hstem : "\\ubf_".toList.length = 5 := by decide
  have hext : ".bin".toList.length = 4 := by decide
  simp only [SegmentNames.path, String.toList_append, List.length_append, hstem, hext]
  omega

/-- A file that is there is opened again with its bytes. -/
theorem Numbered.reopened (h : m.Numbered base) (hshort : m.Short) (hclean : CleanBase base)
    {path : String} {f : DataFile} (hf : m.files.find? path = some f) {size : UInt64}
    (hsize : size.toNat ≤ f.bytes.length) {sys : NativeCalls} {os : Os}
    (hshows : Shows sys os path f) (alignment : UInt64) :
    ∃ b, FileBackedDomain.importHandle (m.answers sys path) base path size alignment = .ok b ∧
      b.Maps os size (fun x => f.bytes.getD x 0) := by
  obtain ⟨-, n, -, -, rfl⟩ := h path f hf
  have hlength : (UInt64.ofNat f.bytes.length).toNat = f.bytes.length :=
    UInt64.toNat_ofNat_of_lt' (hshort _ f hf)
  have hopens : (m.answers sys (FileBackedDomain.path base (UInt64.ofNat n))).Opens os .mmapStorage
      (FileBackedDomain.path base (UInt64.ofNat n)) (UInt64.ofNat f.bytes.length)
      (fun x => f.bytes.getD x 0) := by
    refine ⟨fun hd => (by cases hd), fun _ => ⟨?_, hshows.mapping, _, ?_, UInt64.le_refl _⟩, ?_⟩
    · simp only [answers, hshows.opens, hf, Option.isSome_some, Bool.and_self]
    · simp only [answers, hf, Option.map_some]
    · exact fun size hle => hshows.view size (hlength ▸ UInt64.le_iff_toNat_le.mp hle)
  have hfits : size ≤ UInt64.ofNat f.bytes.length := by
    rw [UInt64.le_iff_toNat_le, hlength]
    exact hsize
  exact importHandle_of_exportHandle (a := { state := true }) (hclean.names (UInt64.ofNat n)) rfl
    hopens hfits alignment

/-- The file is open, or a descriptor names it and it was not deleted. -/
def InUse (m : Machine) (path : String) : Prop :=
  m.Opened path ∨ path ∈ m.described ∧ (m.files.find? path).isSome

end Machine

/-- An operating system that grants everything. -/
def willingCalls : NativeCalls where
  createFile := true
  setFilePointer := true
  setEndOfFile := true
  createFileMapping := fun _ => true
  openFile := fun _ => true
  mapViewOfFile := fun _ => some 4096

/-- A buffer of four bytes in a file. -/
def fileRequest : AllocationRequest where
  domain := .mmapStorage
  size := 4
  alignment := 4
  flags := { exportable := true }

/-- A process allocates the buffer, writes its first byte and exports it. -/
def exportedFile (cfg : RuntimeConfig) : Machine :=
  runs (Machine.next "C:") {}
    [.start, .construct 0 cfg {}, .call 0 0 willingCalls (.allocate {} fileRequest),
      .write 0 0 "C:\\ubf_0.bin" 0 7, .call 0 0 willingCalls (.exportBuffer {} 0)]

/-- It releases the buffer and ends, and the program is started again. -/
def restart : List Machine.Event :=
  [.call 0 0 willingCalls (.release {} 0), .stop 0, .start, .construct 1 {} {}]

/-- In one process it is the pool: the released file goes to the next allocation, which wipes it. -/
example :
    let m := exportedFile { pool := { minClassSize := 4 } }
    let request : AllocationRequest := { fileRequest with zeroing := some .always }
    (runs (Machine.next "C:") m [.call 0 0 willingCalls (.release {} 0),
      .call 0 0 willingCalls (.allocate {} request)]).files.find? "C:\\ubf_0.bin"
        = some ⟨0, [0, 0, 0, 0]⟩ := by
  decide

end UnifiedBuffer
