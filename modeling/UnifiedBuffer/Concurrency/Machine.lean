import UnifiedBuffer.Backends.Native
import UnifiedBuffer.Lib.AssocMap
import UnifiedBuffer.Safety.Contents
import UnifiedBuffer.Safety.Ownership

set_option autoImplicit false

/-! # Processes, their runtimes and a directory

`Machine` is a directory together with the processes that have been started so far. A process that is
started again is a new one. Each has its runtimes, which are `World`s: all of `Op` can be called, and
the file backend works on the directory. So a file that is released may go to a pool, stay open
there and be handed to the next allocation.

`Machine.fileStep` and `Machine.runtimeStep` say what an event does to a file and to the
runtimes. -/

namespace UnifiedBuffer

open Lib

/-! ## The directory -/

/-- A file, with the process that created it. The creator is only there for the statements. -/
structure DataFile where
  creator : Nat
  bytes : List UInt8
  deriving DecidableEq, Repr

/-- A runtime. `paths` has the path in the state of each file-backed allocation, by the number of
the call that returned it. -/
structure Machine.Runtime where
  world : World
  paths : Nat → Option String := fun _ => none

/-- A process. `drawn` is how often `file_counter()` was called. -/
structure Machine.Process where
  drawn : Nat := 0
  running : Bool := true
  runtimes : List Machine.Runtime := []

structure Machine where
  processes : List Machine.Process := []
  files : AssocMap String DataFile := .empty
  /-- the paths in the export descriptors that were handed out -/
  described : List String := []

/-- The path that `FileBackedDomain::allocate` makes of a value of the counter. -/
def FileBackedDomain.path (baseDir : String) (counter : UInt64) : String :=
  baseDir ++ "\\ubf_" ++ toString counter ++ ".bin"

/-- The file that an import names. -/
def Op.importsFile : Op → Option String
  | .importBuffer _ desc _ _ => if desc.domain = .mmapStorage then some desc.handle else none
  | _ => none

namespace Machine

/-- `file_counter()`: the next value of the counter. -/
def Process.fileCounter (p : Process) : UInt64 := UInt64.ofNat p.drawn

def Process.nextPath (p : Process) (base : String) : String :=
  FileBackedDomain.path base p.fileCounter

namespace Runtime

variable (rt : Runtime)

def pathOf (a : NativeAllocation) : Option String := a.tag.serial.bind rt.paths

/-- A buffer or a slot of the runtime has the file open. -/
def Opened (path : String) : Prop := ∃ x ∈ rt.world.core.backings, rt.pathOf x.2 = some path

instance (path : String) : Decidable (rt.Opened path) := List.decidableBEx _ _

/-- The size of the file that an operation asks the backend for. -/
def asksFile (op : Op) : Option UInt64 :=
  match rt.world.asks op with
  | some (.mmapStorage, bytes, _) => if bytes = 0 then none else some bytes
  | _ => none

/-- The file that an operation opens, if a new one gets the path `next`. -/
def opens (next : String) (op : Op) : Option String :=
  if (rt.asksFile op).isSome then some next else op.importsFile

def after (next : String) (op : Op) : Runtime where
  world := rt.world.next op
  paths := fun n => if n = rt.world.core.os.calls.length then rt.opens next op else rt.paths n

end Runtime

/-- What happens on the machine. The answers of the operating system are parameters. -/
inductive Event where
  | start
  /-- process `p` constructs a runtime -/
  | construct (p : Nat) (cfg : RuntimeConfig) (plat : RuntimeImpl.Platform)
  /-- process `p` calls its `r`-th runtime -/
  | call (p r : Nat) (sys : NativeCalls) (op : Op)
  /-- process `p` writes a byte to memory of its `r`-th runtime, through a view of the file -/
  | write (p r : Nat) (path : String) (offset : Nat) (byte : UInt8)
  | stop (p : Nat)
  | remove (path : String)

/-- The file after `SetFilePointerEx` and `SetEndOfFile`. -/
def sized (sys : NativeCalls) (bytes : UInt64) : List UInt8 :=
  if sys.setFilePointer && sys.setEndOfFile then List.replicate bytes.toNat 0 else []

/-- The operating system opens what is in the directory, unless it refuses. -/
def answers (m : Machine) (sys : NativeCalls) (path : String) : NativeCalls :=
  { sys with
    openFile := fun x => sys.openFile x && (m.files.find? x).isSome
    fileSize := (m.files.find? path).map (fun f => UInt64.ofNat f.bytes.length) }

/-- The backends of a runtime: the file backend works on the directory. -/
def backends (m : Machine) (base : String) (rt : Runtime) (sys : NativeCalls) (env : Env) : Env :=
  { env with
    allocate := fun d bytes alignment =>
      if d = .mmapStorage then FileBackedDomain.allocate sys bytes alignment
      else env.allocate d bytes alignment
    importHandle := fun d handle size alignment =>
      if d = .mmapStorage then
        FileBackedDomain.importHandle (m.answers sys handle) base handle size alignment
      else env.importHandle d handle size alignment
    exportHandle := fun d a =>
      if d = .mmapStorage then
        match rt.pathOf a with
        | some path => .ok path
        | none => .error ⟨.stateInvalid, "file export: no state"⟩
      else env.exportHandle d a }

/-- The operation on these backends. -/
def served (m : Machine) (base : String) (rt : Runtime) (sys : NativeCalls) (op : Op) : Op :=
  op.mapEnv (m.backends base rt sys)

/-- The memory of a runtime: a view of a file shows what the file holds. -/
def mapped (m : Machine) (rt : Runtime) (s : Space) (a : Nat) : UInt8 :=
  let shown := rt.world.core.backings.findSome? fun x =>
    if s = .host ∧ x.2.base ≤ a ∧ a < x.2.base + x.2.committed.toNat then
      (rt.pathOf x.2).bind fun path =>
        (m.files.find? path).bind fun f => f.bytes[a - x.2.base]?
    else none
  shown.getD (rt.world.core.os.bytes s a)

/-- A runtime of a process, with the files as they are now. -/
def runtimeAt (m : Machine) (p r : Nat) : Option (Process × Runtime) :=
  (m.processes[p]?).bind fun proc => (proc.runtimes[r]?).map fun rt =>
    (proc, { rt with world := rt.world.withBytes (m.mapped rt) })

def modifyFile (files : AssocMap String DataFile) (path : String) (f : DataFile → DataFile) :
    AssocMap String DataFile :=
  match files.find? path with
  | none => files
  | some file => files.insert path (f file)

/-- The file with the bytes that an access has left in memory. -/
def DataFile.filled (os : Os) (y : Access) (f : DataFile) : DataFile :=
  { f with bytes := f.bytes.mapIdx fun i b =>
      if y.offset ≤ i ∧ i < y.offset + y.len then os.bytes y.space (y.backing.base + i) else b }

/-- What an access writes to a view goes to the file. -/
def Runtime.store (rt : Runtime) (files : AssocMap String DataFile) (y : Access) :
    AssocMap String DataFile :=
  if y.write then
    match rt.pathOf y.backing with
    | none => files
    | some path => modifyFile files path (DataFile.filled rt.world.core.os y)
  else files

/-- The files after `FileBackedDomain::allocate` in process `p`, if an operation calls it. A file
stays when a later call fails. -/
def withNew (m : Machine) (p : Nat) (next : String) (sys : NativeCalls) :
    Option UInt64 → AssocMap String DataFile
  | none => m.files
  | some bytes => if sys.createFile then m.files.insert next ⟨p, sized sys bytes⟩ else m.files

/-- The path in the descriptor that an operation returns. -/
def describes : Except Error Reply → List String
  | .ok (.descriptor d) => if d.domain = .mmapStorage then [d.handle] else []
  | _ => []

/-- An operation on a runtime. The counter is drawn before the file is created. -/
def call (m : Machine) (base : String) (p r : Nat) (proc : Process) (rt : Runtime)
    (sys : NativeCalls) (op : Op) : Machine :=
  let next := proc.nextPath base
  let after := rt.after next op
  { processes := m.processes.set p
      { proc with
        drawn := if (rt.asksFile op).isSome then proc.drawn + 1 else proc.drawn
        runtimes := proc.runtimes.set r after }
    files := (rt.world.accesses op).foldl after.store (m.withNew p next sys (rt.asksFile op))
    described := m.described ++ describes (rt.world.step op).1 }

/-- A runtime of any process has the file open. -/
def Opened (m : Machine) (path : String) : Prop :=
  ∃ proc ∈ m.processes, ∃ rt ∈ proc.runtimes, rt.Opened path

instance (m : Machine) (path : String) : Decidable (m.Opened path) := List.decidableBEx _ _

def next (base : String) (m : Machine) : Event → Machine
  | .start => { m with processes := m.processes ++ [{}] }
  | .construct p cfg plat =>
      match m.processes[p]? with
      | none => m
      | some proc =>
          if proc.running then
            let proc := { proc with runtimes := proc.runtimes ++ [{ world := .init cfg plat }] }
            { m with processes := m.processes.set p proc }
          else m
  | .call p r sys op =>
      match m.runtimeAt p r with
      | none => m
      | some (proc, rt) => m.call base p r proc rt sys (m.served base rt sys op)
  | .write p r path offset byte =>
      match m.runtimeAt p r with
      | none => m
      | some (_, rt) =>
          if ∃ x ∈ rt.world.core.backings, rt.pathOf x.2 = some path ∧ offset < x.2.committed.toNat
          then
            { m with
              files := modifyFile m.files path fun f => { f with bytes := f.bytes.set offset byte } }
          else m
  | .stop p =>
      match m.processes[p]? with
      | none => m
      | some proc =>
          { m with processes := m.processes.set p { proc with running := false, runtimes := [] } }
  -- a file that is open is not shared for deletion
  | .remove path => if m.Opened path then m else { m with files := m.files.erase path }

end Machine

/-! ## The backings of a runtime -/

namespace World

variable {w : World} {op : Op} {base : List BufferId} {x : Backing}

theorem RefInv.mem_backings (h : w.RefInv base) : x ∈ w.core.backings ↔ x ∈ w.core.stock.held := by
  rw [← h.backings_held, Multiset.mem_coe]

/-- Where a backing that is held after an operation comes from. -/
inductive Origin (w : World) (op : Op) (x : Backing) : Prop
  | held (mem : x ∈ w.core.stock.held)
  | lent {ownership : ExternalOwnership} (tag : x.2.tag = .external ownership)
  | allocated {env : Env} {bytes alignment : UInt64} {a : NativeAllocation}
      (hop : (∃ req, op = .allocate env req) ∨ ∃ i target, op = .migrate env i target)
      (asked : w.asks op = some (x.1, bytes, alignment))
      (answer : env.allocate x.1 bytes alignment = .ok a) (new : x.2 = w.core.os.stamp a)
  | opened {env : Env} {desc : ExportDescriptor} {ns : NamespaceId} {label : String}
      {a : NativeAllocation} (hop : op = .importBuffer env desc ns label)
      (domain : x.1 = desc.domain) (answer : env.opened desc = .ok a)
      (new : x.2 = w.core.os.stamp a)

theorem Fate.origin {k : CtlId} {r : Record} (h : w.Fate op k r) : w.Origin op r.filed := by
  cases h with
  | kept alive same =>
      rw [same]
      exact .held (Core.held_of_alive alive)
  | moved hop valid admission backend _ same =>
      rw [same]
      refine .allocated (Or.inr ⟨_, _, hop⟩) ?_ backend rfl
      rw [hop]
      simp only [asks, valid, admission]
      rfl
  | fresh hop _ admission backend offer _ same =>
      rw [same]
      refine .allocated (Or.inl ⟨_, hop⟩) ?_ backend rfl
      rw [hop]
      simp only [asks, admission, offer]
      rfl
  | reused _ _ _ offer _ same =>
      obtain ⟨key, hkey, hperm, -⟩ := RuntimeImpl.poolOffer_perm offer
      have hslot := Core.held_of_slot (hperm.mem_iff.mpr List.mem_cons_self)
      rw [filedSlot, hkey] at hslot
      rw [same]
      exact .held hslot
  | wrapped _ _ made same =>
      obtain ⟨-, -, dom, id, rfl⟩ := made
      rw [same]
      exact .lent rfl
  | opened hop _ made same =>
      obtain ⟨-, id, a, hopen, -, rfl⟩ := made
      rw [same]
      exact .opened hop rfl hopen rfl

theorem RefInv.origin (hinv : w.RefInv base) (hx : x ∈ (w.next op).core.stock.held) :
    w.Origin op x := by
  have hfates := fates hinv op
  rcases Core.mem_held hx with ⟨k, hk, rfl⟩ | ⟨e, he, rfl⟩
  · exact (hfates.blocks k hk).origin
  · cases hfates.slots e he with
    | stayed mem => exact .held (Core.held_of_slot mem)
    | entered _ _ _ alive _ _ slot =>
        rw [slot]
        exact .held (Core.held_of_alive alive)

/-- The backings that an operation takes from the pool, or wipes on their way to it. -/
def recycled (w : World) : Op → List NativeAllocation
  | .allocate _ req =>
      match w.core.rt.admits req with
      | none => []
      | some (alignment, classSize, _) =>
          ((w.core.rt.poolOffer req alignment classSize).map fun offer => offer.1.backing).toList
  | op => (w.releasedAccesses (w.released op)).map Access.backing

theorem mem_recycled {y : Access} (hy : y ∈ w.releasedAccesses (w.released op)) :
    y.backing ∈ w.recycled op := by
  cases op with
  | allocate => cases hy
  | _ => exact List.mem_map_of_mem hy

theorem asks_mapEnv (w : World) (f : Env → Env) (op : Op) : w.asks (op.mapEnv f) = w.asks op := by
  cases op <;> rfl

theorem recycled_mapEnv (w : World) (f : Env → Env) (op : Op) :
    w.recycled (op.mapEnv f) = w.recycled op := by
  cases op <;> rfl

end World

theorem Op.importsFile_mapEnv (f : Env → Env) (op : Op) :
    (op.mapEnv f).importsFile = op.importsFile := by
  cases op <;> rfl

theorem Op.mapEnv_allocates {f : Env → Env} {op : Op} {env : Env}
    (h : (∃ req, op.mapEnv f = .allocate env req) ∨
      ∃ i target, op.mapEnv f = .migrate env i target) :
    ∃ env₀, env = f env₀ ∧ op.importsFile = none := by
  rcases h with ⟨req, h⟩ | ⟨i, target, h⟩
  all_goals
    cases op <;> cases h
    exact ⟨_, rfl, rfl⟩

namespace Machine

/-- What is known of every runtime of the machine. -/
structure Runtime.Sound (rt : Runtime) : Prop where
  refs : rt.world.RefInv []
  custody : Custody rt.world.core.stock.held rt.world.core.stock.calls

namespace Runtime

variable {rt : Runtime} {op : Op} {next : String} {x : Backing}

theorem Sound.after (h : rt.Sound) (next : String) (op : Op) : (rt.after next op).Sound :=
  ⟨h.refs.next op, World.custody_next h.refs h.custody op⟩

theorem Sound.withBytes (h : rt.Sound) (b : Space → Nat → UInt8) :
    Sound { rt with world := rt.world.withBytes b } :=
  ⟨h.refs.same ⟨rfl, rfl, rfl, rfl, le_rfl, rfl, rfl⟩, h.custody⟩

/-- What was held before has the same path as before. -/
theorem Sound.pathOf_after (h : rt.Sound) (hx : x ∈ rt.world.core.stock.held) :
    (rt.after next op).pathOf x.2 = rt.pathOf x.2 := by
  unfold pathOf
  cases hserial : x.2.tag.serial with
  | none => rfl
  | some n =>
      have hout := h.custody.inHand x hx (Option.isSome_of_eq_some hserial)
      obtain ⟨n', hlt, htag⟩ := h.custody.orderly.serial_lt hout
      rw [htag] at hserial
      cases hserial
      exact if_neg (Nat.ne_of_lt hlt)

/-- What is new has the path that was opened. -/
theorem pathOf_stamp (rt : Runtime) (next : String) (op : Op) (a : NativeAllocation) :
    (rt.after next op).pathOf (rt.world.core.os.stamp a) = rt.opens next op :=
  if_pos rfl

end Runtime

/-! ## What an event does to the files -/

/-- A change that leaves the creator and the length of a file as they are. -/
structure Keeps (h : DataFile → DataFile) : Prop where
  creator : ∀ f, (h f).creator = f.creator
  length : ∀ f, (h f).bytes.length = f.bytes.length

theorem Keeps.refl : Keeps id := ⟨fun _ => rfl, fun _ => rfl⟩

theorem Keeps.comp {g h : DataFile → DataFile} (hg : Keeps g) (hh : Keeps h) : Keeps (g ∘ h) :=
  ⟨fun f => (hg.creator (h f)).trans (hh.creator f), fun f => (hg.length (h f)).trans (hh.length f)⟩

theorem modifyFile_find (files : AssocMap String DataFile) (x path : String)
    (h : DataFile → DataFile) : (modifyFile files x h).find? path
      = if x = path then (files.find? path).map h else files.find? path := by
  unfold modifyFile
  split
  · rename_i hnone
    split
    · rename_i hpath
      rw [← hpath, hnone]
      rfl
    · rfl
  · rename_i f hsome
    rw [AssocMap.find?_insert]
    split
    · rename_i hpath
      rw [← hpath, hsome]
      rfl
    · rfl

theorem modifyFile_keeps (files : AssocMap String DataFile) (x path : String)
    {h : DataFile → DataFile} (hkeeps : Keeps h) :
    ∃ g, Keeps g ∧ (modifyFile files x h).find? path = (files.find? path).map g ∧
      (x ≠ path → g = id) := by
  rw [modifyFile_find]
  by_cases hpath : x = path
  · exact ⟨h, hkeeps, if_pos hpath, fun hne => absurd hpath hne⟩
  · exact ⟨id, .refl, (if_neg hpath).trans Option.map_id'.symm, fun _ => rfl⟩

theorem Runtime.store_keeps (rt : Runtime) (files : AssocMap String DataFile) (y : Access)
    (path : String) :
    ∃ g, Keeps g ∧ (rt.store files y).find? path = (files.find? path).map g ∧
      ((y.write = true → rt.pathOf y.backing ≠ some path) → g = id) := by
  have hsame : ∃ g, Keeps g ∧ files.find? path = (files.find? path).map g ∧
      ((y.write = true → rt.pathOf y.backing ≠ some path) → g = id) :=
    ⟨id, .refl, Option.map_id'.symm, fun _ => rfl⟩
  unfold store
  split
  · rename_i hwrite
    split
    · exact hsame
    · rename_i x hx
      have hfilled : Keeps (DataFile.filled rt.world.core.os y) :=
        ⟨fun _ => rfl, fun _ => List.length_mapIdx⟩
      obtain ⟨g, hg, hfile, hid⟩ := modifyFile_keeps files x path hfilled
      exact ⟨g, hg, hfile, fun hne => hid fun hpath => hne hwrite (hpath ▸ hx)⟩
  · exact hsame

/-- All accesses of an operation together. -/
theorem Runtime.stores_keep (rt : Runtime) (files : AssocMap String DataFile) (ys : List Access)
    (path : String) :
    ∃ g, Keeps g ∧ (ys.foldl rt.store files).find? path = (files.find? path).map g ∧
      ((∀ y ∈ ys, y.write = true → rt.pathOf y.backing ≠ some path) → g = id) := by
  induction ys generalizing files with
  | nil => exact ⟨id, .refl, Option.map_id'.symm, fun _ => rfl⟩
  | cons y ys ih =>
      obtain ⟨g, hg, hfile, hid⟩ := rt.store_keeps files y path
      obtain ⟨g', hg', hfile', hid'⟩ := ih (rt.store files y)
      refine ⟨g' ∘ g, hg'.comp hg, ?_, fun hnone => ?_⟩
      · rw [List.foldl_cons, hfile', hfile, Option.map_map]
      · rw [hid (hnone y List.mem_cons_self),
          hid' fun z hz => hnone z (List.mem_cons_of_mem y hz)]
        rfl

variable {base : String} {m : Machine} {e : Event} {path : String}

/-- The event writes to the file, through a view. -/
def Writes (base : String) (m : Machine) (path : String) : Event → Prop
  | .call p r sys op => ∃ proc rt, m.runtimeAt p r = some (proc, rt) ∧
      ∃ y ∈ rt.world.accesses (m.served base rt sys op), y.write = true ∧
        (rt.after (proc.nextPath base) (m.served base rt sys op)).pathOf y.backing = some path
  | .write _ _ x _ _ => x = path
  | _ => False

/-- What becomes of the file at a path. -/
inductive FileStep (base : String) (m : Machine) (e : Event) (path : String) : Prop
  | kept {g : DataFile → DataFile} (keeps : Keeps g)
      (file : (m.next base e).files.find? path = (m.files.find? path).map g)
      (same : ¬ m.Writes base path e → g = id)
  | created {p r : Nat} {proc : Process} {rt : Runtime} {sys : NativeCalls} {op : Op}
      {bytes : UInt64} {g : DataFile → DataFile} (hop : e = .call p r sys op)
      (runtime : m.runtimeAt p r = some (proc, rt)) (asks : rt.asksFile op = some bytes)
      (create : sys.createFile = true) (name : path = proc.nextPath base) (keeps : Keeps g)
      (file : (m.next base e).files.find? path = some (g ⟨p, sized sys bytes⟩))
  | removed (hop : e = .remove path) (closed : ¬ m.Opened path)
      (file : (m.next base e).files.find? path = none)

theorem FileStep.same (h : (m.next base e).files = m.files) : FileStep base m e path :=
  .kept .refl (by rw [h]; exact Option.map_id'.symm) (fun _ => rfl)

theorem Runtime.asksFile_mapEnv (rt : Runtime) (f : Env → Env) (op : Op) :
    rt.asksFile (op.mapEnv f) = rt.asksFile op := by
  unfold asksFile
  rw [World.asks_mapEnv]

theorem withNew_find (m : Machine) (p : Nat) (next : String) (sys : NativeCalls)
    (asked : Option UInt64) (path : String) :
    (m.withNew p next sys asked).find? path = m.files.find? path ∨
      ∃ bytes, asked = some bytes ∧ sys.createFile = true ∧ path = next ∧
        (m.withNew p next sys asked).find? path = some ⟨p, sized sys bytes⟩ := by
  cases asked with
  | none => exact Or.inl rfl
  | some bytes =>
      unfold withNew
      simp only
      split
      · rename_i hcreate
        by_cases hpath : next = path
        · subst hpath
          exact Or.inr ⟨bytes, rfl, hcreate, rfl, AssocMap.find?_insert_self ..⟩
        · exact Or.inl (AssocMap.find?_insert_ne _ _ hpath)
      · exact Or.inl rfl

theorem call_files {p r : Nat} {proc : Process} {rt : Runtime}
    (hrt : m.runtimeAt p r = some (proc, rt)) (sys : NativeCalls) (op : Op) :
    (m.next base (.call p r sys op)).files
      = (rt.world.accesses (m.served base rt sys op)).foldl
        (rt.after (proc.nextPath base) (m.served base rt sys op)).store
        (m.withNew p (proc.nextPath base) sys (rt.asksFile op)) := by
  rw [← rt.asksFile_mapEnv (m.backends base rt sys) op]
  simp only [next, hrt]
  rfl

theorem fileStep (base : String) (m : Machine) (e : Event) (path : String) :
    FileStep base m e path := by
  cases e with
  | start => exact .same rfl
  | construct p cfg plat | stop p =>
      refine .same ?_
      simp only [next]
      repeat' split
      all_goals rfl
  | call p r sys op =>
      cases hrt : m.runtimeAt p r with
      | none => exact .same (by simp only [next, hrt])
      | some found =>
          obtain ⟨proc, rt⟩ := found
          obtain ⟨g, hg, hfile, hid⟩ :=
            (rt.after (proc.nextPath base) (m.served base rt sys op)).stores_keep
              (m.withNew p (proc.nextPath base) sys (rt.asksFile op))
              (rt.world.accesses (m.served base rt sys op)) path
          rw [← call_files hrt] at hfile
          rcases m.withNew_find p (proc.nextPath base) sys (rt.asksFile op) path with
            hsame | ⟨bytes, hasks, hcreate, hpath, hnew⟩
          · rw [hsame] at hfile
            refine .kept hg hfile fun hwrites => hid fun y hy hwrite hfound => hwrites ?_
            exact ⟨proc, rt, hrt, y, hy, hwrite, hfound⟩
          · rw [hnew] at hfile
            exact .created rfl hrt hasks hcreate hpath hg hfile
  | write p r x offset byte =>
      have hkeeps : Keeps fun f => { f with bytes := f.bytes.set offset byte } :=
        ⟨fun _ => rfl, fun _ => List.length_set⟩
      obtain ⟨g, hg, hfile, hid⟩ := modifyFile_keeps m.files x path hkeeps
      cases hrt : m.runtimeAt p r with
      | none => exact .same (by simp only [next, hrt])
      | some found =>
          obtain ⟨proc, rt⟩ := found
          by_cases hview : ∃ y ∈ rt.world.core.backings, rt.pathOf y.2 = some x ∧
              offset < y.2.committed.toNat
          · refine .kept hg ?_ hid
            simp only [next, hrt]
            rw [if_pos hview]
            exact hfile
          · refine .same ?_
            simp only [next, hrt]
            rw [if_neg hview]
  | remove x =>
      by_cases hopen : m.Opened x
      · exact .same (by simp only [next, if_pos hopen])
      · have hfiles : (m.next base (.remove x)).files = m.files.erase x := by
          simp only [next, if_neg hopen]
        by_cases hpath : x = path
        · subst hpath
          refine .removed rfl hopen ?_
          rw [hfiles, AssocMap.find?_erase, if_pos rfl]
        · refine .kept .refl ?_ (fun _ => rfl)
          rw [hfiles, AssocMap.find?_erase, if_neg hpath]
          exact Option.map_id'.symm

/-! ## Processes and runtimes -/

def Runs (m : Machine) (rt : Runtime) : Prop := ∃ proc ∈ m.processes, rt ∈ proc.runtimes

theorem runtimeAt_some {p r : Nat} {proc : Process} {rt : Runtime}
    (h : m.runtimeAt p r = some (proc, rt)) : m.processes[p]? = some proc ∧
      ∃ rt₀, m.Runs rt₀ ∧ rt = { rt₀ with world := rt₀.world.withBytes (m.mapped rt₀) } := by
  obtain ⟨proc', hproc, hfound⟩ := Option.bind_eq_some_iff.mp h
  obtain ⟨rt₀, hrt, heq⟩ := Option.map_eq_some_iff.mp hfound
  cases heq
  exact ⟨hproc, rt₀, ⟨proc, List.mem_of_getElem? hproc, List.mem_of_getElem? hrt⟩, rfl⟩

/-- A process draws more and more numbers. -/
theorem drawn_next (base : String) (e : Event) {i : Nat} {proc : Process}
    (h : m.processes[i]? = some proc) :
    ∃ proc', (m.next base e).processes[i]? = some proc' ∧ proc.drawn ≤ proc'.drawn := by
  have hlt : i < m.processes.length := (List.getElem?_eq_some_iff.mp h).1
  -- the processes change only at one position, and there the counter does not fall
  have hset : ∀ {p : Nat} {q : Process} (q' : Process), m.processes[p]? = some q →
      q.drawn ≤ q'.drawn →
      ∃ proc', (m.processes.set p q')[i]? = some proc' ∧ proc.drawn ≤ proc'.drawn := by
    intro p q q' hq hle
    by_cases hip : p = i
    · subst hip
      obtain rfl : proc = q := Option.some.inj (h.symm.trans hq)
      exact ⟨q', List.getElem?_set_self hlt, hle⟩
    · exact ⟨proc, (List.getElem?_set_ne hip).trans h, Nat.le_refl _⟩
  have hsame : ∃ proc', m.processes[i]? = some proc' ∧ proc.drawn ≤ proc'.drawn :=
    ⟨proc, h, Nat.le_refl _⟩
  cases e with
  | start => exact ⟨proc, (List.getElem?_append_left hlt).trans h, Nat.le_refl _⟩
  | call p r sys op =>
      simp only [next]
      split
      · exact hsame
      · rename_i q rt hrt
        refine hset _ (runtimeAt_some hrt).1 ?_
        show q.drawn ≤ if _ then _ else _
        split
        · exact Nat.le_succ _
        · exact Nat.le_refl _
  | construct p cfg plat =>
      simp only [next]
      split
      · exact hsame
      · rename_i q hq
        split
        · exact hset _ hq (Nat.le_refl _)
        · exact hsame
  | stop p =>
      simp only [next]
      split
      · exact hsame
      · rename_i q hq
        exact hset _ hq (Nat.le_refl _)
  | write | remove =>
      simp only [next]
      repeat' split
      all_goals exact hsame

/-- Where a runtime of the machine comes from. -/
inductive RuntimeStep (base : String) (m : Machine) (e : Event) (rt' : Runtime) : Prop
  | old (mem : m.Runs rt')
  | built {cfg : RuntimeConfig} {plat : RuntimeImpl.Platform} (new : rt' = { world := .init cfg plat })
  | called {p r : Nat} {proc : Process} {rt : Runtime} {sys : NativeCalls} {op : Op}
      (hop : e = .call p r sys op) (runtime : m.runtimeAt p r = some (proc, rt))
      (new : rt' = rt.after (proc.nextPath base) (m.served base rt sys op))

theorem runtimeStep {rt' : Runtime} (hrt : (m.next base e).Runs rt') : RuntimeStep base m e rt' := by
  obtain ⟨proc', hproc', hmem⟩ := hrt
  -- only the process that the event is about may have another list
  have hset : ∀ {p : Nat} {q q' : Process}, m.processes[p]? = some q → proc' ∈ m.processes.set p q' →
      (∀ rt ∈ q'.runtimes, rt ∈ q.runtimes ∨ RuntimeStep base m e rt) →
      RuntimeStep base m e rt' := by
    intro p q q' hq hin hnew
    rcases List.mem_or_eq_of_mem_set hin with hold | rfl
    · exact .old ⟨proc', hold, hmem⟩
    · rcases hnew rt' hmem with hold | hnew
      · exact .old ⟨q, List.mem_of_getElem? hq, hold⟩
      · exact hnew
  cases e with
  | start =>
      rcases List.mem_append.mp hproc' with hold | hnew
      · exact .old ⟨proc', hold, hmem⟩
      · rw [List.mem_singleton.mp hnew] at hmem
        cases hmem
  | construct p cfg plat =>
      simp only [next] at hproc'
      split at hproc'
      · exact .old ⟨proc', hproc', hmem⟩
      · rename_i q hq
        split at hproc'
        · refine hset hq hproc' fun rt hrt => ?_
          rcases List.mem_append.mp hrt with hold | hnew
          · exact Or.inl hold
          · exact Or.inr (.built (List.mem_singleton.mp hnew))
        · exact .old ⟨proc', hproc', hmem⟩
  | call p r sys op =>
      simp only [next] at hproc'
      split at hproc'
      · exact .old ⟨proc', hproc', hmem⟩
      · rename_i q rt hrt
        refine hset (runtimeAt_some hrt).1 hproc' fun rt'' hin => ?_
        rcases List.mem_or_eq_of_mem_set hin with hold | rfl
        · exact Or.inl hold
        · exact Or.inr (.called rfl hrt rfl)
  | stop p =>
      simp only [next] at hproc'
      split at hproc'
      · exact .old ⟨proc', hproc', hmem⟩
      · rename_i q hq
        exact hset hq hproc' fun rt hrt => by cases hrt
  | write | remove =>
      simp only [next] at hproc'
      repeat' split at hproc'
      all_goals exact .old ⟨proc', hproc', hmem⟩

theorem sound_next (h : ∀ rt, m.Runs rt → rt.Sound) (e : Event) :
    ∀ rt, (m.next base e).Runs rt → rt.Sound := by
  intro rt' hrt'
  cases runtimeStep hrt' with
  | old mem => exact h rt' mem
  | @built cfg plat new =>
      subst new
      exact ⟨World.refInv_init cfg plat, custody_init cfg plat⟩
  | called _ runtime new =>
      obtain ⟨-, rt₀, hrt₀, rfl⟩ := runtimeAt_some runtime
      rw [new]
      exact ((h rt₀ hrt₀).withBytes _).after _ _

theorem sound_reach {ok : Machine → Event → Prop} (hreach : Reach (Machine.next base) ok {} m) :
    ∀ rt, m.Runs rt → rt.Sound :=
  hreach.invariant (I := fun m => ∀ rt, m.Runs rt → rt.Sound)
    (fun _ ⟨_, hproc, _⟩ => by cases hproc) (fun _ e h _ => sound_next h e)

theorem Sound.runtimeAt (h : ∀ rt, m.Runs rt → rt.Sound) {p r : Nat} {proc : Process} {rt : Runtime}
    (hrt : m.runtimeAt p r = some (proc, rt)) : rt.Sound := by
  obtain ⟨-, rt₀, hrt₀, rfl⟩ := runtimeAt_some hrt
  exact (h rt₀ hrt₀).withBytes _

end Machine

end UnifiedBuffer
