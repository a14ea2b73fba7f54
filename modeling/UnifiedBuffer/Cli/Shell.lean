import UnifiedBuffer.Lib.Text
import UnifiedBuffer.Runtime.Info
import UnifiedBuffer.Safety.Store

set_option autoImplicit false

/-! # The interactive shell

`cli/main.cpp`: a program with one runtime and a table of handles that reads commands. `Shell` is
its state. The table maps the low word of an identity to the position of the handle in the world;
temporary objects are objects of the world as well, and are destroyed at the end of their scope.

What the operating system answers during a command is a parameter (`Answers`). A line that is
printed is a `Line`, with the values that it shows. -/

namespace UnifiedBuffer

open Lib

namespace Cli

inductive Line where
  | greeting
  | help
  | info (activeBuffers : Nat)
  | backends (infos : List BackendInfo)
  | devices (infos : List DeviceInfo)
  | domains (infos : List DomainInfo)
  | stats (json closed : Bool) (t : Telemetry)
  | pools (t : Telemetry)
  | usage (text : String)
  | allocFailed (message : String)
  | allocated (idlo : Nat) (size : UInt64) (domain : MemoryDomain)
  | noHandle (idlo : Nat)
  | freed (idlo : Nat)
  | inspected (idlo : Nat) (gen : BufferGeneration) (domain : MemoryDomain)
      (size alignment : UInt64) (state : BufferState) (valid : Bool)
  | verified (idlo : Nat) (verdict : String)
  | migrateFailed (message : String)
  | migrated (idlo : Nat) (target : MemoryDomain) (newGen : BufferGeneration)
  | selftestFailed (message : String)
  | selftest (pass : Bool) (checksum : UInt32)
  | benchmark
  | unknown (cmd : String)
  | bye

/-- What the machine answers during one command: the backends, operation by operation, and the
devices. -/
structure Answers where
  envs : Nat → Env := fun _ => {}
  devices : List DeviceInfo := []
  deviceFree : UInt64 := 0

/-- The program. `trace` is what it has done to the world so far; nothing reads it. -/
structure Shell where
  world : World
  handles : AssocMap Nat Nat := .empty
  printed : List Line := []
  trace : List Action := []

def split (line : String) : List String := (words isSpace [] line.toList).map String.ofList

/-- `std::strtoull(tok.c_str(), nullptr, 10)`. -/
def numberOf (tok : String) : UInt64 := strtoull tok.toList

namespace Shell

/-- The program before the first command: `Runtime rt;` and an empty table. -/
def init (plat : RuntimeImpl.Platform) : Shell where
  world := World.init {} plat

def perform (s : Shell) (act : Action) : Shell :=
  { s with world := s.world.perform act, trace := s.trace ++ [act] }

/-- Call an operation of the runtime and look at its result. -/
def call (s : Shell) (op : Op) : Except Error Reply × Shell :=
  ((s.world.step op).1, s.perform (.call op))

def print (s : Shell) (line : Line) : Shell := { s with printed := s.printed ++ [line] }

/-- The end of a scope: its objects are destroyed. -/
def leave (s : Shell) (env : Env) (objs : List Nat) : Shell :=
  objs.foldl (fun s i => s.perform (.call (.destroy env i))) s

/-- `BufferHandle h = std::move(r)`, with the position of `h`. -/
def moveTo (s : Shell) (r : Nat) : Nat × Shell :=
  (s.world.objs.length, s.perform (.call (.move r)))

/-- `handles[idlo] = std::move(h)`. An entry that is not there is constructed first. -/
def assign (s : Shell) (env : Env) (idlo h : Nat) : Shell :=
  match s.handles.find? idlo with
  | some p => s.perform (.call (.moveAssign env p h))
  | none =>
      let p := s.world.objs.length
      let s := s.perform (.call (.construct (.handle {})))
      { s with handles := s.handles.insert idlo p }.perform (.call (.moveAssign env p h))

/-! ## Commands -/

def allocDomain : Option String → MemoryDomain
  | some "host" => .host
  | some "pinned" => .pinnedHost
  | some "device" => .device
  | some "shared" => .sharedHost
  | some "file" => .mmapStorage
  | _ => .host

/-- The domain that `migrate` takes a word for: there is none for pinned memory, and every word
that it does not know means shared memory. -/
def migrateDomain : String → MemoryDomain
  | "device" => .device
  | "host" => .host
  | "file" => .mmapStorage
  | _ => .sharedHost

def allocRequest (toks : List String) (size : String) (devices : List DeviceInfo) :
    AllocationRequest :=
  let domain := allocDomain toks[2]?
  let device : DeviceId :=
    match domain, devices with
    | .device, d :: _ => { index := d.index }
    | _, _ => {}
  { size := numberOf size
    domain := domain
    device := device
    -- the flag may stand anywhere, also in the place of the domain
    flags := { pooled := !toks.contains "--nopool" } }

/-- `alloc <size> [domain] [--nopool]`. -/
def alloc (s : Shell) (toks : List String) (ans : Answers) : Shell :=
  match toks[1]? with
  | none => s.print (.usage "usage: alloc <size> [domain]")
  | some size =>
      let req := allocRequest toks size ans.devices
      match s.call (.allocate (ans.envs 0) req) with
      | (.error e, s) => s.print (.allocFailed e.message)
      | (.ok (.object r), s) =>
          let (h, s) := s.moveTo r
          let idlo := (s.world.handle h).id.lo
          let s := s.assign (ans.envs 1) idlo h
          (s.print (.allocated idlo req.size req.domain)).leave (ans.envs 2) [h, r]
      | (.ok _, s) => s

/-- A command on the buffer with an identity: `usage` if the identity is missing, and a message if
the table does not have it. -/
def onHandle (s : Shell) (toks : List String) (usage : String) (f : Nat → Nat → Shell) : Shell :=
  match toks[1]? with
  | none => s.print (.usage usage)
  | some tok =>
      let idlo := (numberOf tok).toNat
      match s.handles.find? idlo with
      | none => s.print (.noHandle idlo)
      | some p => f idlo p

/-- `free <idlo>`. -/
def free (s : Shell) (toks : List String) (ans : Answers) : Shell :=
  s.onHandle toks "usage: free <idlo>" fun idlo p =>
    let s := s.perform (.call (.release (ans.envs 0) p))
    let s := s.perform (.call (.destroy (ans.envs 1) p))
    { s with handles := s.handles.erase idlo }.print (.freed idlo)

/-- `inspect <idlo>`. -/
def inspect (s : Shell) (toks : List String) : Shell :=
  s.onHandle toks "usage: inspect <idlo>" fun _ p =>
    let h := s.world.handle p
    s.print <|
      match h.ctl with
      | none => .inspected h.id.lo h.gen .host 0 0 .invalid h.valid
      | some k =>
          let r := (s.world.core.control k).record
          .inspected h.id.lo h.gen r.domain r.size r.alignment r.state h.valid

/-- `verify <idlo>`. -/
def verify (s : Shell) (toks : List String) (ans : Answers) : Shell :=
  s.onHandle toks "usage: verify <idlo>" fun idlo p =>
    match s.call (.verify (ans.envs 0) p) with
    | (.ok _, s) => s.print (.verified idlo "PASS")
    | (.error e, s) => s.print (.verified idlo e.message)

/-- `migrate <idlo> <domain>`. -/
def migrate (s : Shell) (toks : List String) (ans : Answers) : Shell :=
  match toks[2]? with
  | none => s.print (.usage "usage: migrate <idlo> <domain>")
  | some d =>
      s.onHandle toks "usage: migrate <idlo> <domain>" fun idlo p =>
        let target := migrateDomain d
        match s.call (.migrate (ans.envs 0) p target) with
        | (.error e, s) => s.print (.migrateFailed e.message)
        | (.ok (.object m), s) =>
            let (h2, s) := s.moveTo m
            let s := s.assign (ans.envs 1) idlo h2
            let newGen := (s.world.handle ((s.handles.find? idlo).getD 0)).gen
            (s.print (.migrated idlo target newGen)).leave (ans.envs 2) [h2, m]
        | (.ok _, s) => s

def unpooledRequest (size : UInt64) : AllocationRequest :=
  { size := size, domain := .host, flags := { pooled := false } }

def selftestBytes : List UInt8 := (List.range (1 <<< 20)).map fun i => UInt8.ofNat (i * 7 + 1)

/-- The self-test maps its buffer, fills it, and releases the map. The position of the map is
returned, if there is one. -/
def fill (s : Shell) (ans : Answers) (h : Nat) : List Nat × Shell :=
  match s.call (.map (ans.envs 1) h .readWrite) with
  | (.ok (.object m), s) =>
      let data :=
        match s.world.objs[m]? with
        | some (.map x) => x.data
        | _ => 0
      let s := s.perform (.store data selftestBytes)
      ([m], s.perform (.call (.release (ans.envs 2) m)))
  | (_, s) => ([], s)

/-- The self-test checks the buffer, releases it, and looks at the statistics. -/
def check (s : Shell) (ans : Answers) (h : Nat) : Shell :=
  let (c, s) := s.call (.checksum h)
  let (v, s) := s.call (.verify (ans.envs 3) h)
  let s := s.perform (.call (.release (ans.envs 4) h))
  let t := s.world.core.rt.telemetry
  let check := t.activeBuffers = 0 ∧ t.hostBytes = 0
  let checksum :=
    match c with
    | .ok (.checksum crc) => crc
    | _ => 0
  s.print (.selftest (c.isOk && v.isOk && decide check) checksum)

def selftest (s : Shell) (ans : Answers) : Shell :=
  match s.call (.allocate (ans.envs 0) (unpooledRequest 1048576)) with
  | (.error e, s) => s.print (.selftestFailed e.message)
  | (.ok (.object r), s) =>
      let (h, s) := s.moveTo r
      let (m, s) := s.fill ans h
      (s.check ans h).leave (ans.envs 5) (m ++ [h, r])
  | (.ok _, s) => s

/-- The loop of `benchmark`, for so many rounds at most: it stops when an allocation fails. -/
def benchmarkLoop (ans : Answers) : Nat → Shell → Shell
  | 0, s => s
  | n + 1, s =>
      match s.call (.allocate (ans.envs (2 * n)) (unpooledRequest 4096)) with
      | (.ok (.object r), s) =>
          let (h, s) := s.moveTo r
          -- `sink ^= *h.host_data()`
          let s := match (s.world.handle h).ctl with
            | some k => s.perform (.load (s.world.core.control k).record.backing.base 1)
            | none => s
          let s := s.perform (.call (.release (ans.envs (2 * n + 1)) h))
          benchmarkLoop ans n (s.leave (ans.envs (2 * n + 1)) [h, r])
      | (_, s) => s

def benchmark (s : Shell) (ans : Answers) : Shell :=
  (benchmarkLoop ans 200000 s).print .benchmark

/-! ## The loop -/

inductive Verb where
  | help | info | backends | devices | domains | stats | pools | alloc | free | inspect | verify
  | migrate | selftest | benchmark | quit
  deriving DecidableEq, Repr

def verb : String → Option Verb
  | "help" => some .help
  | "info" => some .info
  | "backends" => some .backends
  | "devices" => some .devices
  | "domains" => some .domains
  | "stats" => some .stats
  | "pools" => some .pools
  | "alloc" => some .alloc
  | "free" => some .free
  | "inspect" => some .inspect
  | "verify" => some .verify
  | "migrate" => some .migrate
  | "selftest" => some .selftest
  | "benchmark" => some .benchmark
  | "quit" => some .quit
  | "exit" => some .quit
  | _ => none

def run (s : Shell) (toks : List String) (ans : Answers) : Verb → Shell
  | .help => s.print .help
  | .info => s.print (.info s.world.core.rt.telemetry.activeBuffers)
  | .backends => s.print (.backends s.world.core.rt.backendsInfo)
  | .devices => s.print (.devices ans.devices)
  | .domains => s.print (.domains (s.world.core.rt.domainsInfo ans.deviceFree))
  | .stats =>
      s.print (.stats (toks[1]? = some "--json") s.world.core.rt.closed s.world.core.rt.telemetry)
  | .pools => s.print (.pools s.world.core.rt.telemetry)
  | .alloc => s.alloc toks ans
  | .free => s.free toks ans
  | .inspect => s.inspect toks
  | .verify => s.verify toks ans
  | .migrate => s.migrate toks ans
  | .selftest => s.selftest ans
  | .benchmark => s.benchmark ans
  | .quit => s

/-- `handle_cmd`: whether the program goes on, and its state. -/
def handleCmd (s : Shell) (toks : List String) (ans : Answers) : Bool × Shell :=
  match toks with
  | [] => (false, s)
  | cmd :: _ =>
      match verb cmd with
      | none => (true, s.print (.unknown cmd))
      | some .quit => (false, s)
      | some v => (true, s.run toks ans v)

/-- The loop of the interactive mode. It ends with the input, at `quit`, and at an empty line. -/
def interact (s : Shell) : List (String × Answers) → Shell
  | [] => s
  | (line, ans) :: lines =>
      match s.handleCmd (split line) ans with
      | (true, s) => s.interact lines
      | (false, s) => s.print .bye

/-- `main`, up to the end of its scope. -/
def main (plat : RuntimeImpl.Platform) (args : List String) (ans : Answers)
    (lines : List (String × Answers)) : Shell :=
  let s := init plat
  match args with
  | [] => (s.print .greeting).interact lines
  | "--json" :: "stats" :: _ =>
      s.print (.stats true s.world.core.rt.closed s.world.core.rt.telemetry)
  | toks => (s.handleCmd toks ans).2

/-- The end of `main`: the handles are destroyed, in some order, and then the runtime. -/
def exit (s : Shell) (env : Env) (order : List Nat) : Shell :=
  (s.leave env order).perform (.call (.shutdown env))

end Shell

end Cli

end UnifiedBuffer
