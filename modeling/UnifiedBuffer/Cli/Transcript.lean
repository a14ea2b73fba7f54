import UnifiedBuffer.Cli.Selftest
import UnifiedBuffer.Lib.Store

set_option autoImplicit false

/-! # The transcript of a session

Of the lines that the shell prints, two kinds concern its table: `allocated id=…` and `freed id=…`.
Read as events of a store of names, they are a history that the store admits, and one that gives no
name twice; the names that are left in the end are the entries of the table (`Shell.Chronicle`).
What the user sees is therefore enough to know which buffers there are, and a number that was
printed can be typed in again to reach its buffer. -/

namespace UnifiedBuffer

open Lib

/-! ## Names -/

namespace World

variable {w : World} {op : Op} {lo : Nat}

/-- The buffers of an earlier state are still there, alive or not, with their identities. -/
structure Before (w w' : World) : Prop where
  length : w.core.ctls.length ≤ w'.core.ctls.length
  id : ∀ k < w.core.ctls.length, (w'.core.control k).record.id = (w.core.control k).record.id

theorem Before.refl (w : World) : w.Before w := ⟨le_rfl, fun _ _ => rfl⟩

theorem Before.trans {w' w'' : World} (h : w.Before w') (h' : w'.Before w'') : w.Before w'' :=
  ⟨h.length.trans h'.length,
    fun k hk => (h'.id k (hk.trans_le h.length)).trans (h.id k hk)⟩

theorem before_next (hinv : w.RefInv []) (op : Op) : w.Before (w.next op) :=
  have hages := hinv.ages op
  ⟨hages.length, fun k hk => (hages.same k hk).id⟩

/-- What one action keeps. -/
theorem before_perform (hinv : w.RefInv []) (act : Action) :
    w.Before (w.perform act) ∧ (w.perform act).RefInv [] := by
  cases act with
  | call op => exact ⟨before_next hinv op, hinv.next op⟩
  | load a n => exact ⟨.refl w, hinv⟩
  | store a data =>
      exact ⟨⟨le_rfl, fun _ _ => rfl⟩, hinv.same ⟨rfl, rfl, rfl, rfl, le_rfl, rfl, rfl⟩⟩

/-- What the program keeps, whatever it does. -/
theorem before_runs (hinv : w.RefInv []) (acts : List Action) :
    w.Before (runs World.perform w acts) := by
  induction acts generalizing w with
  | nil => exact .refl w
  | cons act acts ih =>
      obtain ⟨hbefore, hinv'⟩ := before_perform hinv act
      exact hbefore.trans (ih hinv')

/-- A buffer of the runtime has the number, or had it. -/
def Names (w : World) (lo : Nat) : Prop :=
  ∃ k < w.core.ctls.length, (w.core.control k).record.id.lo = lo

theorem Names.mono {w' : World} (h : w.Names lo) (hbefore : w.Before w') : w'.Names lo := by
  obtain ⟨k, hk, hlo⟩ := h
  exact ⟨k, hk.trans_le hbefore.length, by rw [hbefore.id k hk, hlo]⟩

/-- A new buffer has a new number. -/
theorem not_names_new (hinv : w.RefInv []) {k : CtlId} (hk : w.core.ctls.length ≤ k)
    (hnext : k < (w.next op).core.ctls.length) :
    ¬ w.Names ((w.next op).core.control k).record.id.lo := by
  rintro ⟨j, hj, hlo⟩
  have hbefore := before_next hinv op
  rw [← hbefore.id j hj] at hlo
  obtain rfl := (hinv.next op).lo_inj (hj.trans_le hbefore.length) hnext hlo
  exact Nat.not_lt.mpr hk hj

theorem Tended.names {table : Nat → Option Nat} {temps : List Nat} (h : w.Tended table temps)
    {p : Nat} (hlo : table lo = some p) : w.Names lo := by
  obtain ⟨x, k, -, hcurrent, hid⟩ := h.entries lo p hlo
  exact ⟨k, hcurrent.bound, by rw [← hcurrent.id, hid]⟩

end World

namespace Cli

/-- What a line says about the buffers. -/
def Line.events : Line → List (Store.Event Nat Unit Unit)
  | .allocated idlo _ _ => [.create idlo []]
  | .freed idlo => [.drop idlo]
  | _ => []

namespace Shell

variable {good : Env → Prop} {plat : RuntimeImpl.Platform} {s t : Shell} {ans : Answers} {lo : Nat}

/-! ## Work that the user does not see -/

/-- The table stays, and nothing is printed. -/
structure Works (s t : Shell) : Prop where
  handles : t.handles = s.handles
  printed : t.printed = s.printed
  trace : s.trace <+: t.trace

theorem works_perform (s : Shell) (act : Action) : s.Works (s.perform act) :=
  ⟨rfl, rfl, s.trace_perform act⟩

theorem Works.perform (h : s.Works t) (act : Action) : s.Works (t.perform act) :=
  ⟨h.handles, h.printed, h.trace.trans (t.trace_perform act)⟩

theorem Works.leave (h : s.Works t) (env : Env) (is : List Nat) : s.Works (t.leave env is) :=
  ⟨(t.leave_handles env is).trans h.handles, (t.printed_leave env is).trans h.printed,
    h.trace.trans (t.trace_leave env is)⟩

theorem Works.fill (h : s.Works t) (i : Nat) : s.Works (t.fill ans i).2 := by
  have hmap := h.perform (.call (.map (ans.envs 1) i .readWrite))
  unfold Shell.fill
  simp only [Shell.call]
  rcases t.world.gives_map (ans.envs 1) i .readWrite with ⟨e, he, -⟩ | ⟨m, hok, -⟩
  · rw [he]
    exact hmap
  · rw [hok]
    exact (hmap.perform _).perform _

/-- The rounds of a benchmark. -/
theorem Works.benchmarkLoop (n : Nat) (h : s.Works t) :
    s.Works (Shell.benchmarkLoop ans n t) := by
  induction n generalizing t with
  | zero => exact h
  | succ n ih =>
      have hfirst := h.perform (.call (.allocate (ans.envs (2 * n)) (unpooledRequest 4096)))
      unfold Shell.benchmarkLoop
      simp only [Shell.call]
      generalize (t.world.step (.allocate (ans.envs (2 * n)) (unpooledRequest 4096))).1 = res
      split
      · rename_i heq
        cases heq
        refine ih (Works.leave (Works.perform ?_ _) _ _)
        split
        · exact (hfirst.perform _).perform _
        · exact hfirst.perform _
      · rename_i heq
        cases heq
        exact hfirst

/-! ## Commands and their output -/

/-- What the output of a command tells about the table. -/
inductive Output (s t : Shell) : Prop
  | silent {lines : List Line} (printed : t.printed = s.printed ++ lines)
      (events : lines.flatMap Line.events = []) (table : t.handles = s.handles)
  | born {lo p : Nat} {size : UInt64} {d : MemoryDomain}
      (printed : t.printed = s.printed ++ [.allocated lo size d])
      (table : t.handles = s.handles.insert lo p) (new : ¬ s.world.Names lo)
  | gone {lo p : Nat} (printed : t.printed = s.printed ++ [.freed lo])
      (table : t.handles = s.handles.erase lo) (entry : s.handles.find? lo = some p)

/-- What a command does, as far as the user sees it. -/
structure Told (s t : Shell) : Prop where
  trace : s.trace <+: t.trace
  output : s.Output t

/-- Work, a line that says nothing about the buffers, and work. -/
theorem Works.told (h : s.Works t) {line : Line} (hline : line.events = []) {u : Shell}
    (hu : (t.print line).Works u) : s.Told u :=
  ⟨h.trace.trans hu.trace, .silent (hu.printed.trans (congrArg (· ++ [line]) h.printed))
    (by rw [List.flatMap_singleton, hline]) (hu.handles.trans h.handles)⟩

theorem works_rfl (s : Shell) : s.Works s := ⟨rfl, rfl, List.prefix_rfl⟩

theorem told_print (s : Shell) {line : Line} (hline : line.events = []) : s.Told (s.print line) :=
  s.works_rfl.told hline (works_rfl _)

theorem told_onHandle {f : Nat → Nat → Shell}
    (hf : ∀ lo p, s.handles.find? lo = some p → s.Told (f lo p)) (toks : List String)
    (usage : String) : s.Told (s.onHandle toks usage f) := by
  unfold Shell.onHandle
  cases toks[1]? with
  | none => exact s.told_print rfl
  | some tok =>
      simp only
      cases hlo : s.handles.find? (numberOf tok).toNat with
      | none => exact s.told_print rfl
      | some p => exact hf _ p hlo

theorem told_free (toks : List String) : s.Told (s.free toks ans) := by
  refine told_onHandle (fun lo p hlo => ⟨?_, .gone rfl rfl hlo⟩) toks _
  exact (s.trace_perform (.call (.release (ans.envs 0) p))).trans (trace_perform _ _)

theorem told_inspect (toks : List String) : s.Told (s.inspect toks) := by
  refine told_onHandle (fun lo p _ => s.told_print ?_) toks _
  split <;> rfl

theorem told_verify (toks : List String) : s.Told (s.verify toks ans) := by
  refine told_onHandle (fun lo p _ => ?_) toks _
  have hcall := s.works_perform (.call (.verify (ans.envs 0) p))
  simp only [Shell.call]
  cases (s.world.step (.verify (ans.envs 0) p)).1 with
  | error e => exact hcall.told rfl (works_rfl _)
  | ok reply => exact hcall.told rfl (works_rfl _)

/-- An assignment to an entry that is there leaves the table as it is. -/
theorem Works.reassign (h : s.Works t) {p : Nat} (hlo : s.handles.find? lo = some p) (env : Env)
    (i : Nat) : s.Works (t.assign env lo i) := by
  unfold Shell.assign
  rw [h.handles, hlo]
  exact h.perform _

theorem told_migrate (h : s.Kept good plat) (hans : ans.All good) (toks : List String) :
    s.Told (s.migrate toks ans) := by
  unfold Shell.migrate
  cases toks[2]? with
  | none => exact s.told_print rfl
  | some d =>
      refine told_onHandle (fun lo p hlo => ?_) toks _
      have hcall := s.works_perform (.call (.migrate (ans.envs 0) p (migrateDomain d)))
      simp only [Shell.call]
      rcases h.migration hlo (hans 0) (migrateDomain d) with ⟨e, he, -⟩ | ⟨x, k, hok, -⟩
      · rw [he]
        exact hcall.told rfl (works_rfl _)
      · rw [hok]
        have hmoved := (hcall.perform (.call (.move s.world.objs.length))).reassign hlo
          (ans.envs 1) (s.world.next (.migrate (ans.envs 0) p (migrateDomain d))).objs.length
        exact hmoved.told rfl ((works_rfl _).leave _ _)

theorem Works.check (h : s.Works t) (i : Nat) (env : Env) (is : List Nat) :
    s.Told ((t.check ans i).leave env is) := by
  have hchecked := ((h.perform (.call (.checksum i))).perform
    (.call (.verify (ans.envs 3) i))).perform (.call (.release (ans.envs 4) i))
  exact hchecked.told rfl ((works_rfl _).leave env is)

theorem told_selftest (ans : Answers) : s.Told (s.selftest ans) := by
  have hcall := s.works_perform (.call (.allocate (ans.envs 0) (unpooledRequest 1048576)))
  unfold Shell.selftest
  simp only [Shell.call]
  generalize (s.world.step (.allocate (ans.envs 0) (unpooledRequest 1048576))).1 = res
  split
  · rename_i heq
    cases heq
    exact hcall.told rfl (works_rfl _)
  · rename_i heq
    cases heq
    exact ((hcall.perform _).fill _).check _ _ _
  · rename_i heq
    cases heq
    exact ⟨hcall.trace, .silent (hcall.printed.trans (List.append_nil _).symm) rfl hcall.handles⟩

theorem told_benchmark (ans : Answers) : s.Told (s.benchmark ans) :=
  (s.works_rfl.benchmarkLoop 200000).told rfl (works_rfl _)

/-- An entry that is not there is made. -/
theorem assign_new (env : Env) (i : Nat) (hlo : s.handles.find? lo = none) :
    (s.assign env lo i).handles = s.handles.insert lo s.world.objs.length ∧
      (s.assign env lo i).printed = s.printed ∧ s.trace <+: (s.assign env lo i).trace := by
  unfold Shell.assign
  rw [hlo]
  exact ⟨rfl, rfl, (s.trace_perform (.call (.construct (.handle {})))).trans (trace_perform _ _)⟩

theorem Works.assign (h : s.Works t) (hlo : s.handles.find? lo = none) (hnew : ¬ s.world.Names lo)
    (env : Env) (i : Nat) {size : UInt64} {d : MemoryDomain} {u : Shell}
    (hu : ((t.assign env lo i).print (.allocated lo size d)).Works u) : s.Told u := by
  obtain ⟨hhandles, hprinted, htrace⟩ := assign_new env i (h.handles ▸ hlo)
  have hline : u.printed = s.printed ++ [.allocated lo size d] :=
    hu.printed.trans (congrArg (· ++ [_]) (hprinted.trans h.printed))
  have htable : u.handles = s.handles.insert lo t.world.objs.length :=
    hu.handles.trans (hhandles.trans (congrArg (AssocMap.insert · lo _) h.handles))
  exact ⟨(h.trace.trans htrace).trans hu.trace, .born hline htable hnew⟩

/-- A new buffer is filed under its number, which is new. -/
theorem told_alloc (h : s.Kept good plat) (hans : ans.All good) (toks : List String) :
    s.Told (s.alloc toks ans) := by
  unfold Shell.alloc
  cases toks[1]? with
  | none => exact s.told_print rfl
  | some size =>
      have hinv := h.tended.refs
      have hcall := s.works_perform
        (.call (.allocate (ans.envs 0) (allocRequest toks size ans.devices)))
      simp only [Shell.call]
      rcases Session.allocate h (hans 0) (allocRequest toks size ans.devices) rfl with
        ⟨e, he, -⟩ | ⟨x, k, hok, hs, hx, hcurrent⟩
      · rw [he]
        exact hcall.told rfl (works_rfl _)
      · rw [hok]
        obtain ⟨hctl, -⟩ := World.allocate_new hinv (by rw [hok]; rfl)
        rw [World.handle_eq hx, hcurrent.ctl] at hctl
        cases hctl
        obtain ⟨-, hget, -⟩ := hs.moveTo List.mem_cons_self hx hcurrent
        have hnew := World.not_names_new hinv le_rfl hcurrent.bound
        rw [← hcurrent.id] at hnew
        have hfree : s.handles.find? x.id.lo = none :=
          Option.eq_none_iff_forall_ne_some.mpr fun p hp => hnew (h.tended.names hp)
        rw [← World.handle_eq hget] at hnew hfree
        exact (hcall.perform (.call (.move _))).assign hfree hnew _ _ ((works_rfl _).leave _ _)

theorem Told.before (h : s.Told t) (hs : s.Kept good plat) (ht : t.Kept good plat) :
    s.world.Before t.world := by
  obtain ⟨rest, hrest⟩ := h.trace
  have hruns : t.world = runs World.perform s.world rest := by
    rw [ht.ran.world, hs.ran.world, ← hrest, runs, runs, runs, List.foldl_append]
  rw [hruns]
  exact World.before_runs hs.tended.refs rest

/-! ## The chronicle -/

/-- The names that are left, and those that were ever given, as the output tells. -/
def told (s : Shell) : Store Nat Unit × List Nat :=
  runs Store.applyOnce (fun _ => none, []) (s.printed.flatMap Line.events)

/-- What the output says of the table. -/
structure Chronicle (s : Shell) : Prop where
  /-- the lines are a history that the store of names admits, and no name is given twice -/
  allowed : Along Store.applyOnce (Store.AllowedOnce fun _ => ()) (fun _ => none, [])
    (s.printed.flatMap Line.events)
  table : ∀ lo, s.told.1 lo = none ↔ s.handles.find? lo = none
  named : ∀ lo ∈ s.told.2, s.world.Names lo

/-- One more event. -/
theorem Chronicle.event (h : s.Chronicle) {e : Store.Event Nat Unit Unit}
    (he : Store.AllowedOnce (fun _ => ()) s.told e)
    (hevents : t.printed.flatMap Line.events = s.printed.flatMap Line.events ++ [e])
    (htable : ∀ lo, s.told.1.apply e lo = none ↔ t.handles.find? lo = none)
    (hnamed : ∀ lo ∈ s.told.2 ++ e.created, t.world.Names lo) : t.Chronicle := by
  have htold : t.told = Store.applyOnce s.told e := by
    rw [told, hevents, runs, List.foldl_append]
    rfl
  refine ⟨?_, ?_, ?_⟩
  · rw [hevents]
    exact h.allowed.append ⟨he, trivial⟩
  · rw [htold]
    exact htable
  · rw [htold]
    exact hnamed

/-- One command. -/
theorem Chronicle.next (h : s.Chronicle) (hs : s.Kept good plat) (ht : t.Kept good plat)
    (htold : s.Told t) : t.Chronicle := by
  have hnames : ∀ lo ∈ s.told.2, t.world.Names lo := fun lo hlo =>
    (h.named lo hlo).mono (htold.before hs ht)
  cases htold.output with
  | silent printed events table =>
      have hevents : t.printed.flatMap Line.events = s.printed.flatMap Line.events := by
        rw [printed, List.flatMap_append, events, List.append_nil]
      have hsame : t.told = s.told := by rw [told, told, hevents]
      refine ⟨by rw [hevents]; exact h.allowed, fun lo => ?_, fun lo hlo => ?_⟩
      · rw [hsame, table]
        exact h.table lo
      · rw [hsame] at hlo
        exact hnames lo hlo
  | @born lo p size d printed table new =>
      have hfree : s.handles.find? lo = none :=
        Option.eq_none_iff_forall_ne_some.mpr fun p hp => new (hs.tended.names hp)
      refine h.event (e := .create lo []) ⟨(h.table lo).mpr hfree, ?_⟩ ?_ (fun lo' => ?_) ?_
      · intro k hk hgiven
        cases List.mem_singleton.mp hk
        exact new (h.named lo hgiven)
      · rw [printed, List.flatMap_append]
        rfl
      · rw [Store.apply, table, AssocMap.find?_insert_eq_update]
        by_cases heq : lo' = lo
        · rw [heq, Function.update_self, Function.update_self]
          exact iff_of_false (Option.some_ne_none _) (Option.some_ne_none _)
        · rw [Function.update_of_ne heq, Function.update_of_ne heq]
          exact h.table lo'
      · intro lo' hlo'
        rcases List.mem_append.mp hlo' with hold | hlast
        · exact hnames lo' hold
        · cases List.mem_singleton.mp hlast
          exact ht.tended.names (p := p) (by rw [table, AssocMap.find?_insert_self])
  | @gone lo p printed table entry =>
      have hheld : s.told.1 lo ≠ none := fun hnone => by
        rw [(h.table lo).mp hnone] at entry
        cases entry
      refine h.event (e := .drop lo) ⟨Option.ne_none_iff_exists'.mp hheld, ?_⟩ ?_ (fun lo' => ?_) ?_
      · intro k hk
        cases hk
      · rw [printed, List.flatMap_append]
        rfl
      · rw [Store.apply, table, AssocMap.find?_erase_eq_update]
        by_cases heq : lo' = lo
        · rw [heq, Function.update_self, Function.update_self]
          exact iff_of_true rfl rfl
        · rw [Function.update_of_ne heq, Function.update_of_ne heq]
          exact h.table lo'
      · intro lo' hlo'
        exact hnames lo' (by simpa [Store.Event.created] using hlo')

/-! ## Sessions -/

theorem told_run (h : s.Kept good plat) (hans : ans.All good) (toks : List String) (v : Verb) :
    s.Told (s.run toks ans v) := by
  cases v with
  | alloc => exact told_alloc h hans toks
  | free => exact told_free toks
  | inspect => exact told_inspect toks
  | verify => exact told_verify toks
  | migrate => exact told_migrate h hans toks
  | selftest => exact told_selftest ans
  | benchmark => exact told_benchmark ans
  | quit => exact ⟨List.prefix_rfl, .silent (List.append_nil _).symm rfl rfl⟩
  | _ => exact s.told_print rfl

theorem Chronicle.print (h : s.Chronicle) (hs : s.Kept good plat) {line : Line}
    (hline : line.events = []) : (s.print line).Chronicle :=
  h.next hs (hs.print line) (s.told_print hline)

theorem Chronicle.handleCmd (h : s.Chronicle) (hs : s.Kept good plat) (hans : ans.All good)
    (toks : List String) : (s.handleCmd toks ans).2.Chronicle := by
  unfold Shell.handleCmd
  cases toks with
  | nil => exact h
  | cons cmd rest =>
      simp only
      split
      · exact h.print hs rfl
      · exact h
      · exact h.next hs (hs.run hans _ _) (told_run hs hans _ _)

theorem Chronicle.interact (h : s.Chronicle) (hs : s.Kept good plat)
    {lines : List (String × Answers)} (hlines : ∀ e ∈ lines, e.2.All good) :
    (s.interact lines).Chronicle := by
  induction lines generalizing s with
  | nil => exact h
  | cons e lines ih =>
      obtain ⟨line, ans⟩ := e
      have hans : ans.All good := hlines (line, ans) List.mem_cons_self
      have hnext := h.handleCmd hs hans (split line)
      have hkept := hs.handleCmd hans (split line)
      unfold Shell.interact
      generalize s.handleCmd (split line) ans = out at hnext hkept
      obtain ⟨goes, u⟩ := out
      cases goes with
      | true => exact ih hnext hkept fun e he => hlines e (List.mem_cons_of_mem _ he)
      | false => exact hnext.print hkept rfl

theorem chronicle_init (plat : RuntimeImpl.Platform) : (Shell.init plat).Chronicle where
  allowed := trivial
  table := fun _ => iff_of_true rfl rfl
  named := fun _ hlo => by cases hlo

theorem chronicle_main (plat : RuntimeImpl.Platform) (args : List String) (ans : Answers)
    (lines : List (String × Answers)) : (Shell.main plat args ans lines).Chronicle := by
  have hinit := Shell.chronicle_init plat
  have hkept : (Shell.init plat).Kept (fun _ => True) plat := Shell.kept_init _ plat
  unfold Shell.main
  simp only
  split
  · exact (hinit.print hkept rfl).interact (hkept.print _) fun _ _ _ => trivial
  · exact hinit.print hkept rfl
  · exact hinit.handleCmd hkept (fun _ => trivial) _

end Shell

/-- **The transcript tells the table.** Whatever is typed and whatever the machine answers, the lines
`allocated` and `freed` are the history of a store that gives each number once, and the numbers that
are left in it are those of the table. -/
theorem transcript_tells_table (plat : RuntimeImpl.Platform) (args : List String) (ans : Answers)
    (lines : List (String × Answers)) :
    Along Store.applyOnce (Store.AllowedOnce fun _ => ()) (fun _ => none, [])
        ((Shell.main plat args ans lines).printed.flatMap Line.events) ∧
      ∀ lo, (Shell.main plat args ans lines).told.1 lo = none ↔
        (Shell.main plat args ans lines).handles.find? lo = none :=
  have h := Shell.chronicle_main plat args ans lines
  ⟨h.allowed, h.table⟩

/-! ## Numbers that are typed in -/

/-- What is typed to free a buffer. -/
theorem split_free (n : Nat) : split ("free " ++ toString n) = ["free", toString n] := by
  have hfree : IsWord isSpace "free".toList := ⟨by decide, by simp [isSpace]⟩
  have hwords : words isSpace [] (join ' ' ["free".toList, (toString n).toList])
      = ["free".toList, (toString n).toList] := by
    refine words_join rfl ?_
    rintro w (_ | ⟨_, _ | ⟨_, hw⟩⟩)
    · exact hfree
    · exact isWord_toString n
    · cases hw
  have htext : ("free " ++ toString n).toList = join ' ' ["free".toList, (toString n).toList] := by
    rw [String.toList_append]
    rfl
  rw [split, htext, hwords, List.map_cons, List.map_singleton, String.ofList_toList,
    String.ofList_toList]

theorem numberOf_toString {n : Nat} (h : n < 2 ^ 64) : (numberOf (toString n)).toNat = n := by
  rw [numberOf, strtoull_toString h, UInt64.toNat_ofNat', Nat.mod_eq_of_lt h]

/-- A buffer is alive if the table has its number. -/
theorem Shell.Kept.alive_iff {good : Env → Prop} {plat : RuntimeImpl.Platform} {s : Shell}
    (h : s.Kept good plat) (k : CtlId) :
    s.world.core.Alive k ↔ k < s.world.core.ctls.length ∧
      ∃ p, s.handles.find? (s.world.core.control k).record.id.lo = some p := by
  constructor
  · intro hk
    obtain ⟨p, x, hp, -⟩ := h.tended.entry hk
    exact ⟨hk.1, p, hp⟩
  · rintro ⟨hk, p, hp⟩
    obtain ⟨x, j, hx, hcurrent, hid⟩ := h.tended.entries _ p hp
    rw [hcurrent.id] at hid
    obtain rfl := h.tended.refs.lo_inj hcurrent.bound hk hid
    exact h.tended.refs.alive (World.pins_pos hx hcurrent.pin)

/-- With its entry, a buffer goes, and no other one does. -/
theorem Shell.Kept.alive_erase {good : Env → Prop} {plat : RuntimeImpl.Platform} {s t : Shell}
    (hs : s.Kept good plat) (ht : t.Kept good plat) (hbefore : s.world.Before t.world) {lo : Nat}
    (htable : t.handles = s.handles.erase lo) {k : CtlId} (hk : k < s.world.core.ctls.length)
    (hlo : (s.world.core.control k).record.id.lo = lo) (j : CtlId) :
    t.world.core.Alive j ↔ s.world.core.Alive j ∧ j ≠ k := by
  rw [hs.alive_iff, ht.alive_iff, htable]
  constructor
  · rintro ⟨hj, p, hp⟩
    rw [AssocMap.find?_erase] at hp
    split at hp
    · cases hp
    · rename_i hne
      -- the entry is an old one, so the buffer is an old one
      obtain ⟨i, hi, hid⟩ := hs.tended.names hp
      rw [← hbefore.id i hi] at hid
      obtain rfl := ht.tended.refs.lo_inj (hi.trans_le hbefore.length) hj hid
      rw [hbefore.id i hi] at hp hne
      refine ⟨⟨hi, p, hp⟩, ?_⟩
      rintro rfl
      exact hne hlo.symm
  · rintro ⟨⟨hj, p, hp⟩, hne⟩
    refine ⟨hj.trans_le hbefore.length, p, ?_⟩
    rw [hbefore.id j hj, AssocMap.find?_erase, if_neg, hp]
    intro heq
    exact hne (hs.tended.refs.lo_inj hj hk (heq.symm.trans hlo.symm))

/-- The command on the buffer with a number. -/
theorem Shell.free_eq {s : Shell} {lo p : Nat} (hlo : s.handles.find? lo = some p)
    (hbound : lo < 2 ^ 64) (now : Answers) :
    s.handleCmd (split ("free " ++ toString lo)) now
      = (true, s.free ["free", toString lo] now) ∧
    (s.free ["free", toString lo] now).printed = s.printed ++ [.freed lo] ∧
    (s.free ["free", toString lo] now).handles = s.handles.erase lo := by
  have hfree : (s.free ["free", toString lo] now)
      = { (s.perform (.call (.release (now.envs 0) p))).perform (.call (.destroy (now.envs 1) p)) with
          handles := s.handles.erase lo }.print (.freed lo) := by
    show s.onHandle ["free", toString lo] _ _ = _
    unfold Shell.onHandle
    simp only [List.getElem?_cons_succ, List.getElem?_cons_zero, numberOf_toString hbound, hlo]
    rfl
  rw [split_free, hfree]
  refine ⟨?_, rfl, rfl⟩
  rw [← hfree]
  rfl

/-- **A printed number frees its buffer.** In every session, a number that the output has as
allocated can be typed after `free`: the buffer with this number ends, and no other one. -/
theorem typed_number_frees (plat : RuntimeImpl.Platform) (args : List String) (ans : Answers)
    (lines : List (String × Answers)) {s : Shell} (hs : s = Shell.main plat args ans lines) {lo : Nat}
    (hlo : s.told.1 lo ≠ none) (hbound : lo < 2 ^ 64) (now : Answers) :
    ∃ t k, s.handleCmd (split ("free " ++ toString lo)) now = (true, t) ∧
      t.printed = s.printed ++ [.freed lo] ∧ (s.world.core.control k).record.id.lo = lo ∧
      s.world.core.Alive k ∧ ∀ j, t.world.core.Alive j ↔ s.world.core.Alive j ∧ j ≠ k := by
  have hkept : s.Kept (fun _ => True) plat :=
    hs ▸ Shell.kept_main plat args (fun _ => trivial) fun _ _ _ => trivial
  have hchronicle : s.Chronicle := hs ▸ Shell.chronicle_main plat args ans lines
  obtain ⟨p, hp⟩ := Option.ne_none_iff_exists'.mp fun hnone => hlo ((hchronicle.table lo).mpr hnone)
  obtain ⟨heq, hprinted, hhandles⟩ := Shell.free_eq hp hbound now
  obtain ⟨k, hk, hid⟩ := hkept.tended.names hp
  have hnow : now.All fun _ => True := fun _ => trivial
  have hafter := hkept.free hnow ["free", toString lo]
  have htold : s.Told (s.free ["free", toString lo] now) := Shell.told_free _
  exact ⟨_, k, heq, hprinted, hid, (hkept.alive_iff k).mpr ⟨hk, p, hid ▸ hp⟩,
    hkept.alive_erase hafter (htold.before hkept hafter) hhandles hk hid⟩

/-- A session that asks for two pages. -/
def twoPages : Shell :=
  Shell.main {} [] {} [("alloc 4096", { envs := fun _ => .findsAt 4096 }),
    ("alloc 4096 host --nopool", { envs := fun _ => .findsAt 8192 })]

/-- The theorem at work: the second page is freed by its number, and the first one stays. -/
theorem typed_number_frees_twoPages :
    twoPages.told.1 2 ≠ none ∧
      ∃ t k, twoPages.handleCmd (split ("free " ++ toString 2)) {} = (true, t) ∧
        t.printed = twoPages.printed ++ [.freed 2] ∧
        (twoPages.world.core.control k).record.id.lo = 2 ∧ twoPages.world.core.Alive k ∧
        ∀ j, t.world.core.Alive j ↔ twoPages.world.core.Alive j ∧ j ≠ k :=
  have hgiven : twoPages.told.1 2 ≠ none := by decide +kernel
  ⟨hgiven, typed_number_frees {} [] {} _ rfl hgiven (by decide) {}⟩

end Cli

end UnifiedBuffer
