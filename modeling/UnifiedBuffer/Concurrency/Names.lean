import Mathlib.Data.List.Perm.Subperm
import UnifiedBuffer.Backends.Native
import UnifiedBuffer.Lib.ListAt
import UnifiedBuffer.Lib.Run

set_option autoImplicit false

/-! # Names of shared memory

Memory of the shared backend is a section of the kernel, and the section has a name. If a section
of the name exists, `CreateFileMappingA` does not fail but returns a handle to it, with the size and
the contents that it has, and `SharedMemoryDomain::allocate` does not ask which of the two has
happened. So two buffers are two pieces of memory only if `make_unique_name` never makes a name
twice, not even in another process.

The name is made of a seed, read from the clock once in each process, and of two numbers of a
counter of the process, of which one is combined with the seed. The numbers are drawn one after the
other, and the threads of a process take turns in between. -/

namespace UnifiedBuffer

open Lib

/-- A name determines the two numbers that it shows. -/
theorem SharedMemoryDomain.uniqueName_inj {s s' u u' v v' : UInt64}
    (h : uniqueName s u v = uniqueName s' u' v') : s ^^^ u = s' ^^^ u' ∧ v = v' := by
  have hlist := congrArg String.toList h
  simp only [uniqueName, String.toList_append, List.append_assoc,
    List.append_cancel_left_eq] at hlist
  have hsep : "_".toList = ['_'] := by decide
  have hnot : ∀ n : UInt64, '_' ∉ (toString n).toList := fun n hmem =>
    absurd (isDigit_of_mem_toString hmem) (by decide)
  rw [hsep, List.singleton_append, List.singleton_append,
    List.append_cons_inj_of_notMem (hnot _) (hnot _)] at hlist
  have hnum : ∀ {a b : UInt64}, (toString a).toList = (toString b).toList → a = b := by
    intro a b hab
    rw [toList_toString, toList_toString] at hab
    have hvalue := congrArg (fun digits => Nat.ofDigitChars 10 digits 0) hab
    simp only [Nat.ofDigitChars_ten_toDigits] at hvalue
    exact UInt64.toNat_inj.mp hvalue
  exact ⟨hnum hlist.1, hnum hlist.2.2⟩

namespace Naming

open SharedMemoryDomain (uniqueName)

/-! ## The processes -/

/-- A process. `drawn` is how often `unique_counter()` was called. -/
structure Process where
  seed : UInt64
  drawn : Nat := 0
  deriving DecidableEq, Repr

/-- A call of `make_unique_name` that has drawn one of its numbers. -/
structure Call where
  owner : Nat
  first : UInt64
  deriving DecidableEq, Repr

/-- A name that was made, with the process that made it and the numbers in it: the one that is
combined with the seed and the other one. -/
structure Name where
  text : String
  owner : Nat
  masked : UInt64
  plain : UInt64
  deriving DecidableEq, Repr

/-- The processes, the calls that are under way in them and the names so far. -/
structure Machine where
  processes : List Process
  calls : List Call := []
  names : List Name := []
  deriving DecidableEq, Repr

inductive Event where
  /-- `make_unique_name` is called in process `p` and draws its first number -/
  | enter (p : Nat)
  /-- the `c`-th of the calls draws its second number and returns -/
  | leave (c : Nat)
  deriving DecidableEq, Repr

/-- `unique_counter()`: the next value of the counter. -/
def Process.uniqueCounter (proc : Process) : UInt64 := UInt64.ofNat proc.drawn

/-- `make_unique_name`, from the numbers in the order in which they were drawn. The compiler decides
which operand is evaluated first. -/
def makeName (swapped : Bool) (owner : Nat) (seed first second : UInt64) : Name :=
  if swapped then ⟨uniqueName seed second first, owner, second, first⟩
  else ⟨uniqueName seed first second, owner, first, second⟩

namespace Machine

/-- The processes with the given seeds, before any of them has done anything. -/
def init (seeds : List UInt64) : Machine where
  processes := seeds.map fun seed => { seed := seed }

def draw (m : Machine) (p : Nat) (proc : Process) : List Process :=
  m.processes.set p { proc with drawn := proc.drawn + 1 }

def next (swapped : Bool) (m : Machine) : Event → Machine
  | .enter p =>
      match m.processes[p]? with
      | none => m
      | some proc =>
          { m with
            processes := m.draw p proc
            calls := m.calls ++ [⟨p, proc.uniqueCounter⟩] }
  | .leave c =>
      match m.calls[c]? with
      | none => m
      | some call =>
          match m.processes[call.owner]? with
          | none => m
          | some proc =>
              { processes := m.draw call.owner proc
                calls := m.calls.eraseIdx c
                names := m.names ++
                  [makeName swapped call.owner proc.seed call.first proc.uniqueCounter] }

/-- No process draws more than `2 ^ k` numbers. -/
def Within (swapped : Bool) (k : Nat) (m : Machine) (e : Event) : Prop :=
  ∀ proc ∈ (m.next swapped e).processes, proc.drawn ≤ 2 ^ k

end Machine

/-! ## The numbers -/

/-- The numbers in a name, with the process that has drawn them. -/
def Name.numbers (name : Name) : List (Nat × Nat) :=
  [(name.owner, name.masked.toNat), (name.owner, name.plain.toNat)]

def Call.number (call : Call) : Nat × Nat := (call.owner, call.first.toNat)

/-- The name is the one that its process makes of its numbers. -/
def Name.Signed (seeds : List UInt64) (name : Name) : Prop :=
  ∃ seed, seeds[name.owner]? = some seed ∧ name.text = uniqueName seed name.masked name.plain

theorem makeName_signed (swapped : Bool) {seeds : List UInt64} {p : Nat} {seed : UInt64}
    (h : seeds[p]? = some seed) (first second : UInt64) :
    (makeName swapped p seed first second).Signed seeds := by
  cases swapped <;> exact ⟨seed, h, rfl⟩

theorem makeName_numbers (swapped : Bool) (p : Nat) (seed first second : UInt64) :
    (makeName swapped p seed first second).numbers.Perm [(p, second.toNat), (p, first.toNat)] := by
  cases swapped with
  | false => exact List.Perm.swap _ _ _
  | true => exact List.Perm.refl _

namespace Machine

variable {swapped : Bool} {m : Machine} {e : Event} {seeds : List UInt64} {k : Nat}

/-- The numbers that are used up. -/
def numbers (m : Machine) : List (Nat × Nat) :=
  m.names.flatMap Name.numbers ++ m.calls.map Call.number

def draws (m : Machine) : List Nat := m.processes.map Process.drawn

/-- An event that draws a number. -/
inductive Drawing (swapped : Bool) (m : Machine) (e : Event) : Prop
  | idle (same : m.next swapped e = m)
  | drawn {p : Nat} {proc : Process} (found : m.processes[p]? = some proc)
      (processes : (m.next swapped e).processes = m.draw p proc)
      (numbers : (m.next swapped e).numbers.Perm ((p, proc.uniqueCounter.toNat) :: m.numbers))
      (names : ∀ name ∈ (m.next swapped e).names, name ∈ m.names ∨
        ∃ first, name = makeName swapped p proc.seed first proc.uniqueCounter)

theorem drawing (swapped : Bool) (m : Machine) (e : Event) : Drawing swapped m e := by
  cases e with
  | enter p =>
      cases hproc : m.processes[p]? with
      | none => exact .idle (by simp only [next, hproc])
      | some proc =>
          have hnext : m.next swapped (.enter p) = { m with
              processes := m.draw p proc, calls := m.calls ++ [⟨p, proc.uniqueCounter⟩] } := by
            simp only [next, hproc]
          refine .drawn hproc (by rw [hnext]) ?_ (fun name hname => Or.inl (by rwa [hnext] at hname))
          rw [hnext, numbers, List.map_append, ← List.append_assoc]
          exact List.perm_append_comm
  | leave c =>
      cases hcall : m.calls[c]? with
      | none => exact .idle (by simp only [next, hcall])
      | some call =>
          cases hproc : m.processes[call.owner]? with
          | none => exact .idle (by simp only [next, hcall, hproc])
          | some proc =>
              have hnext : m.next swapped (.leave c) = {
                  processes := m.draw call.owner proc
                  calls := m.calls.eraseIdx c
                  names := m.names ++
                    [makeName swapped call.owner proc.seed call.first proc.uniqueCounter] } := by
                simp only [next, hcall, hproc]
              refine .drawn hproc (by rw [hnext]) ?_ (fun name hname => ?_)
              · -- the first number goes from the call to the name
                obtain ⟨hlt, hget⟩ := List.getElem?_eq_some_iff.mp hcall
                have hcalls := (List.getElem_cons_eraseIdx_perm hlt).map Call.number
                rw [hget] at hcalls
                have hnew := makeName_numbers swapped call.owner proc.seed call.first
                  proc.uniqueCounter
                rw [hnext, numbers, numbers, List.flatMap_append, List.flatMap_singleton]
                refine ((hnew.append_left _).append_right _).trans ?_
                rw [List.append_assoc]
                exact List.perm_middle.trans ((hcalls.append_left _).cons _)
              · rw [hnext] at hname
                rcases List.mem_append.mp hname with hold | hnew
                · exact Or.inl hold
                · exact Or.inr ⟨call.first, List.mem_singleton.mp hnew⟩

/-! ## Seeds that keep names apart -/

/-- The seeds differ above the last `k` bits. -/
def Apart (k : Nat) (seeds : List UInt64) : Prop :=
  seeds.Pairwise fun s s' => s.toNat / 2 ^ k ≠ s'.toNat / 2 ^ k

instance decidableApart (k : Nat) (seeds : List UInt64) : Decidable (Apart k seeds) :=
  inferInstanceAs (Decidable (seeds.Pairwise fun s s' => s.toNat / 2 ^ k ≠ s'.toNat / 2 ^ k))

/-- Numbers below `2 ^ k` leave the upper bits of the seed. -/
theorem xor_div {s u : UInt64} (hu : u.toNat < 2 ^ k) :
    (s ^^^ u).toNat / 2 ^ k = s.toNat / 2 ^ k := by
  rw [UInt64.toNat_xor, Nat.xor_div_two_pow, Nat.div_eq_of_lt hu, Nat.xor_zero]

theorem Apart.eq_of_xor (hapart : Apart k seeds) {i j : Nat} {s s' u u' : UInt64}
    (hi : seeds[i]? = some s) (hj : seeds[j]? = some s') (hu : u.toNat < 2 ^ k)
    (hu' : u'.toNat < 2 ^ k) (h : s ^^^ u = s' ^^^ u') : i = j := by
  have hsame : s.toNat / 2 ^ k = s'.toNat / 2 ^ k := by
    rw [← xor_div hu, h, xor_div hu']
  obtain ⟨hlti, rfl⟩ := List.getElem?_eq_some_iff.mp hi
  obtain ⟨hltj, rfl⟩ := List.getElem?_eq_some_iff.mp hj
  have hpairs := List.pairwise_iff_getElem.mp hapart
  rcases Nat.lt_trichotomy i j with hlt | heq | hgt
  · exact absurd hsame (hpairs i j hlti hltj hlt)
  · exact heq
  · exact absurd hsame.symm (hpairs j i hltj hlti hgt)

/-- What holds while no process draws more than `2 ^ k` numbers. -/
structure Inv (seeds : List UInt64) (k : Nat) (m : Machine) : Prop where
  kept : m.processes.map Process.seed = seeds
  few : ∀ d ∈ m.draws, d ≤ 2 ^ k
  /-- no number is used twice -/
  once : m.numbers.Nodup
  drawn : ∀ x ∈ m.numbers, ∃ d, m.draws[x.1]? = some d ∧ x.2 < d
  signed : ∀ name ∈ m.names, name.Signed seeds

theorem few_init (seeds : List UInt64) (k : Nat) :
    ∀ proc ∈ (init seeds).processes, proc.drawn ≤ 2 ^ k := by
  intro proc hproc
  obtain ⟨seed, -, rfl⟩ := List.mem_map.mp hproc
  exact Nat.zero_le _

theorem inv_init (seeds : List UInt64) (k : Nat) : Inv seeds k (init seeds) where
  kept := by
    rw [init, List.map_map]
    exact List.map_id' seeds
  few := by
    intro d hd
    obtain ⟨proc, hproc, rfl⟩ := List.mem_map.mp hd
    exact few_init seeds k proc hproc
  once := List.nodup_nil
  drawn := by
    intro x hx
    cases hx
  signed := by
    intro name hname
    cases hname

theorem Inv.next (h : Inv seeds k m) (hk : k ≤ 64) (hwithin : m.Within swapped k e) :
    Inv seeds k (m.next swapped e) := by
  cases drawing swapped m e with
  | idle same =>
      rw [same]
      exact h
  | @drawn p proc found processes numbers names =>
      have hdraws : (m.next swapped e).draws = m.draws.set p (proc.drawn + 1) := by
        rw [draws, processes, draw, List.map_set, draws]
      have hp : m.draws[p]? = some proc.drawn := by
        rw [draws, List.getElem?_map, found, Option.map_some]
      have hset : (m.draws.set p (proc.drawn + 1))[p]? = some (proc.drawn + 1) :=
        List.getElem?_set_self (List.getElem?_eq_some_iff.mp hp).1
      have hfew : ∀ d ∈ (m.next swapped e).draws, d ≤ 2 ^ k := by
        intro d hd
        obtain ⟨proc', hproc', rfl⟩ := List.mem_map.mp hd
        exact hwithin proc' hproc'
      -- the counter does not wrap, so the number is above all that were drawn before
      have hvalue : proc.uniqueCounter.toNat = proc.drawn := by
        have hnow := hfew (proc.drawn + 1) (by rw [hdraws]; exact List.mem_of_getElem? hset)
        have hpow : 2 ^ k ≤ 2 ^ 64 := Nat.pow_le_pow_right (by decide) hk
        exact UInt64.toNat_ofNat_of_lt' (Nat.lt_of_lt_of_le (Nat.lt_of_succ_le hnow) hpow)
      rw [hvalue] at numbers
      refine ⟨?_, hfew, ?_, fun x hx => ?_, fun name hname => ?_⟩
      · rw [processes, ← h.kept]
        exact map_set_same Process.seed found rfl
      · refine numbers.nodup_iff.mpr (List.nodup_cons.mpr ⟨fun hmem => ?_, h.once⟩)
        obtain ⟨d, hd, hlt⟩ := h.drawn _ hmem
        rw [hp] at hd
        cases hd
        exact Nat.lt_irrefl _ hlt
      · rw [hdraws]
        rcases List.mem_cons.mp (numbers.mem_iff.mp hx) with rfl | hold
        · exact ⟨proc.drawn + 1, hset, Nat.lt_succ_self _⟩
        · obtain ⟨d, hd, hlt⟩ := h.drawn x hold
          by_cases hpx : p = x.1
          · subst hpx
            rw [hp] at hd
            cases hd
            exact ⟨proc.drawn + 1, hset, Nat.lt_succ_of_lt hlt⟩
          · exact ⟨d, (List.getElem?_set_ne hpx).trans hd, hlt⟩
      · rcases names name hname with hold | ⟨first, rfl⟩
        · exact h.signed name hold
        · refine makeName_signed swapped ?_ _ _
          rw [← h.kept, List.getElem?_map, found, Option.map_some]

/-- Names with the same text would have a number in common. -/
theorem Inv.nodup_texts (h : Inv seeds k m) (hapart : Apart k seeds) :
    (m.names.map Name.text).Nodup := by
  have hlt : ∀ name ∈ m.names, ∀ x ∈ name.numbers, x.2 < 2 ^ k := by
    intro name hname x hx
    obtain ⟨d, hd, hlt⟩ := h.drawn x (List.mem_append_left _ (List.mem_flatMap_of_mem hname hx))
    exact Nat.lt_of_lt_of_le hlt (h.few d (List.mem_of_getElem? hd))
  have hdisjoint := (List.nodup_flatMap.mp (List.nodup_append.mp h.once).1).2
  refine List.pairwise_map.mpr (hdisjoint.imp_of_mem fun {a b} ha hb hab htext => ?_)
  obtain ⟨s, hs, hsigned⟩ := h.signed a ha
  obtain ⟨s', hs', hsigned'⟩ := h.signed b hb
  rw [hsigned, hsigned'] at htext
  obtain ⟨hmasked, hplain⟩ := SharedMemoryDomain.uniqueName_inj htext
  -- the upper bits of the seed tell the process, and in one process a number is drawn once
  have howner : a.owner = b.owner := hapart.eq_of_xor hs hs'
    (hlt a ha _ List.mem_cons_self) (hlt b hb _ List.mem_cons_self) hmasked
  refine hab (List.mem_cons_of_mem _ List.mem_cons_self : (a.owner, a.plain.toNat) ∈ a.numbers) ?_
  rw [howner, hplain]
  exact List.mem_cons_of_mem _ List.mem_cons_self

/-! ## Names that meet

Two seeds that differ in the last `k` bits only make the same name, if the threads of the processes
take turns in the right way. -/

/-- The process after `n` calls that have all drawn their first number. -/
def begun (m : Machine) (p n : Nat) (seed : UInt64) : Machine :=
  { m with
    processes := m.processes.set p { seed := seed, drawn := n }
    calls := m.calls ++ (List.range n).map fun i => ⟨p, UInt64.ofNat i⟩ }

theorem next_begun (swapped : Bool) {p : Nat} (seed : UInt64) (hp : p < m.processes.length)
    (n : Nat) : (m.begun p n seed).next swapped (.enter p) = m.begun p (n + 1) seed := by
  have hproc : (m.begun p n seed).processes[p]? = some { seed := seed, drawn := n } :=
    List.getElem?_set_self hp
  simp only [next, hproc]
  simp only [begun, draw, List.set_set, List.range_succ, List.map_append, List.append_assoc,
    List.map_singleton, Process.uniqueCounter]

theorem within_set {p n : Nat} {seed : UInt64} (hfew : ∀ proc ∈ m.processes, proc.drawn ≤ 2 ^ k)
    (hn : n ≤ 2 ^ k) :
    ∀ proc ∈ m.processes.set p { seed := seed, drawn := n }, proc.drawn ≤ 2 ^ k := by
  intro proc hproc
  rcases List.mem_or_eq_of_mem_set hproc with hold | rfl
  · exact hfew proc hold
  · exact hn

theorem runs_begun (swapped : Bool) {p : Nat} {seed : UInt64}
    (hp : m.processes[p]? = some { seed := seed })
    (hfew : ∀ proc ∈ m.processes, proc.drawn ≤ 2 ^ k) {n : Nat} (hn : n ≤ 2 ^ k) :
    runs (next swapped) m (List.replicate n (.enter p)) = m.begun p n seed ∧
      Along (next swapped) (Within swapped k) m (List.replicate n (.enter p)) := by
  obtain ⟨hlt, hget⟩ := List.getElem?_eq_some_iff.mp hp
  induction n with
  | zero =>
      refine ⟨?_, trivial⟩
      show m = m.begun p 0 seed
      rw [begun, ← hget, List.set_getElem_self]
      simp
  | succ n ih =>
      obtain ⟨hruns, halong⟩ := ih (by omega)
      have hnext := next_begun swapped seed hlt n
      rw [List.replicate_succ', Along.append_iff, hruns]
      refine ⟨?_, halong, ?_, trivial⟩
      · rw [runs, List.foldl_concat]
        exact (congrArg (next swapped · (.enter p)) hruns).trans hnext
      · rw [Within, hnext]
        exact within_set hfew hn

/-- `y` calls begin, and the one that has drawn `x` draws `y`. -/
def drafts (p n x y : Nat) : List Event := List.replicate y (.enter p) ++ [.leave (n + x)]

theorem runs_drafts (swapped : Bool) {p x y : Nat} {seed : UInt64}
    (hp : m.processes[p]? = some { seed := seed })
    (hfew : ∀ proc ∈ m.processes, proc.drawn ≤ 2 ^ k) (hx : x < y) (hy : y < 2 ^ k) :
    Along (next swapped) (Within swapped k) m (drafts p m.calls.length x y) ∧
      (runs (next swapped) m (drafts p m.calls.length x y)).names
        = m.names ++ [makeName swapped p seed (UInt64.ofNat x) (UInt64.ofNat y)] ∧
      (runs (next swapped) m (drafts p m.calls.length x y)).processes
        = m.processes.set p { seed := seed, drawn := y + 1 } := by
  obtain ⟨hruns, halong⟩ := runs_begun swapped hp hfew hy.le
  have hlt := (List.getElem?_eq_some_iff.mp hp).1
  have hcall : (m.begun p y seed).calls[m.calls.length + x]? = some ⟨p, UInt64.ofNat x⟩ := by
    rw [begun, List.getElem?_append_right (Nat.le_add_right _ _), Nat.add_sub_cancel_left,
      List.getElem?_map, List.getElem?_range hx, Option.map_some]
  have hproc : (m.begun p y seed).processes[p]? = some { seed := seed, drawn := y } :=
    List.getElem?_set_self hlt
  have hlast : runs (next swapped) m (drafts p m.calls.length x y)
      = (m.begun p y seed).next swapped (.leave (m.calls.length + x)) := by
    rw [drafts, runs, List.foldl_concat]
    exact congrArg (next swapped · _) hruns
  have hprocesses : ((m.begun p y seed).next swapped (.leave (m.calls.length + x))).processes
      = m.processes.set p { seed := seed, drawn := y + 1 } := by
    simp only [next, hcall, hproc]
    simp only [draw, begun, List.set_set]
  refine ⟨?_, ?_, hlast ▸ hprocesses⟩
  · rw [drafts, Along.append_iff, hruns]
    refine ⟨halong, ?_, trivial⟩
    rw [Within, hprocesses]
    exact within_set hfew hy
  · rw [hlast]
    simp only [next, hcall, hproc]
    rfl

/-- Numbers for two processes, each drawn in this order, whose difference is `d` where they are
combined with the seeds. -/
theorem exists_meeting (swapped : Bool) {d : Nat} (hk : 2 ≤ k) (hd : d < 2 ^ k) :
    ∃ x y x' y', x < y ∧ y < 2 ^ k ∧ x' < y' ∧ y' < 2 ^ k ∧
      if swapped then x = x' ∧ y ^^^ y' = d else y = y' ∧ x ^^^ x' = d := by
  have hfour : 2 ^ 2 ≤ 2 ^ k := Nat.pow_le_pow_right (by decide) hk
  have hone : d ^^^ 1 < 2 ^ k := Nat.xor_lt_two_pow hd (by omega)
  cases swapped with
  | false =>
      by_cases hlast : d + 1 < 2 ^ k
      · exact ⟨0, d + 1, d, d + 1, by omega, hlast, by omega, hlast, rfl, Nat.zero_xor d⟩
      · -- the largest difference needs two other numbers
        have hne : d ^^^ 1 ≠ d := by
          intro heq
          have hzero := congrArg (d ^^^ ·) heq
          simp only [← Nat.xor_assoc, Nat.xor_self, Nat.zero_xor] at hzero
          cases hzero
        refine ⟨1, d, d ^^^ 1, d, by omega, hd, by omega, hd, rfl, ?_⟩
        rw [Nat.xor_comm d 1, ← Nat.xor_assoc, Nat.xor_self, Nat.zero_xor]
  | true =>
      by_cases hd1 : d = 1
      · exact ⟨0, 2, 0, 3, by omega, by omega, by omega, by omega, rfl, hd1.symm⟩
      · have hpos : 0 < d ^^^ 1 := by
          refine Nat.pos_of_ne_zero fun hzero => hd1 ?_
          have hback := congrArg (· ^^^ 1) hzero
          simpa only [Nat.xor_assoc, Nat.xor_self, Nat.xor_zero, Nat.zero_xor] using hback
        refine ⟨0, 1, 0, d ^^^ 1, by omega, by omega, hpos, hone, rfl, ?_⟩
        rw [Nat.xor_comm d 1, ← Nat.xor_assoc, Nat.xor_self, Nat.zero_xor]

theorem xor_eq_of_difference {s s' : UInt64} {x x' : Nat} (hx : x < 2 ^ 64) (hx' : x' < 2 ^ 64)
    (h : x ^^^ x' = s.toNat ^^^ s'.toNat) : s ^^^ UInt64.ofNat x = s' ^^^ UInt64.ofNat x' := by
  apply UInt64.toNat_inj.mp
  rw [UInt64.toNat_xor, UInt64.toNat_xor, UInt64.toNat_ofNat_of_lt' hx,
    UInt64.toNat_ofNat_of_lt' hx']
  calc s.toNat ^^^ x = s.toNat ^^^ ((x ^^^ x') ^^^ x') := by
        rw [Nat.xor_assoc x, Nat.xor_self, Nat.xor_zero]
    _ = (s.toNat ^^^ s.toNat) ^^^ (s'.toNat ^^^ x') := by
        rw [h, Nat.xor_assoc, Nat.xor_assoc]
    _ = s'.toNat ^^^ x' := by rw [Nat.xor_self, Nat.zero_xor]

/-- Two seeds with the same upper bits: two calls make the same name. -/
theorem exists_collision (swapped : Bool) (hk : 2 ≤ k) (hk' : k ≤ 64) {s s' : UInt64}
    (h : s.toNat / 2 ^ k = s'.toNat / 2 ^ k) (p p' : Nat) :
    ∃ x y x' y', x < y ∧ y < 2 ^ k ∧ x' < y' ∧ y' < 2 ^ k ∧
      (makeName swapped p s (UInt64.ofNat x) (UInt64.ofNat y)).text
        = (makeName swapped p' s' (UInt64.ofNat x') (UInt64.ofNat y')).text := by
  have hpow : 2 ^ k ≤ 2 ^ 64 := Nat.pow_le_pow_right (by decide) hk'
  have hd : s.toNat ^^^ s'.toNat < 2 ^ k := by
    refine Nat.lt_of_div_eq_zero (Nat.two_pow_pos k) ?_
    rw [Nat.xor_div_two_pow, h, Nat.xor_self]
  obtain ⟨x, y, x', y', hx, hy, hx', hy', hmeet⟩ := exists_meeting swapped hk hd
  refine ⟨x, y, x', y', hx, hy, hx', hy', ?_⟩
  cases swapped
  all_goals
    obtain ⟨rfl, hdiff⟩ := hmeet
    show uniqueName s _ _ = uniqueName s' _ _
    rw [uniqueName, uniqueName, xor_eq_of_difference (by omega) (by omega) hdiff]

theorem apart_of_nodup {seeds : List UInt64} (hk : 2 ≤ k) (hk' : k ≤ 64)
    (h : ∀ es, Along (next swapped) (Within swapped k) (init seeds) es →
      ((runs (next swapped) (init seeds) es).names.map Name.text).Nodup) : Apart k seeds := by
  refine List.pairwise_iff_getElem.mpr fun i j hi hj hij hsame => ?_
  obtain ⟨x, y, x', y', hx, hy, hx', hy', hname⟩ := exists_collision swapped hk hk' hsame i j
  have hinit : ∀ {q : Nat} (hq : q < seeds.length),
      (init seeds).processes[q]? = some { seed := seeds[q] } := by
    intro q hq
    rw [init, List.getElem?_map, List.getElem?_eq_getElem hq, Option.map_some]
  -- one process makes the name, and then the other one
  obtain ⟨halong, hnames, hprocesses⟩ :=
    runs_drafts swapped (hinit hi) (few_init seeds k) hx hy
  generalize hes : drafts i (init seeds).calls.length x y = es at halong hnames hprocesses
  have hother : (runs (next swapped) (init seeds) es).processes[j]?
      = some { seed := seeds[j] } := by
    rw [hprocesses, List.getElem?_set_ne hij.ne]
    exact hinit hj
  have hfew : ∀ proc ∈ (runs (next swapped) (init seeds) es).processes, proc.drawn ≤ 2 ^ k := by
    rw [hprocesses]
    exact within_set (few_init seeds k) hy
  obtain ⟨halong', hnames', -⟩ := runs_drafts swapped hother hfew hx' hy'
  have hnodup := h _ (halong.append halong')
  rw [runs, List.foldl_append, ← runs, ← runs, hnames', hnames] at hnodup
  simp [init, hname] at hnodup

end Machine

open UnifiedBuffer.Naming.Machine

/-- Take any processes, and let every process draw at most `2 ^ k` numbers. No name is made twice,
in any order of the steps of their threads, exactly if the seeds of the processes differ above their
last `k` bits. That they are different is not enough. -/
theorem names_apart_iff (swapped : Bool) {k : Nat} (hk : 2 ≤ k) (hk' : k ≤ 64)
    (seeds : List UInt64) :
    (∀ es, Along (next swapped) (Within swapped k) (init seeds) es →
      ((runs (next swapped) (init seeds) es).names.map Name.text).Nodup) ↔ Apart k seeds := by
  refine ⟨apart_of_nodup hk hk', fun hapart es hes => ?_⟩
  have hinv : Inv seeds k (runs (next swapped) (init seeds) es) :=
    hes.invariant (Along.of_mem (fun _ _ _ => trivial) _ : Along _ (fun _ _ => True) _ _)
      (inv_init seeds k) (fun _ _ h hwithin _ => h.next hk' hwithin)
  exact hinv.nodup_texts hapart

/-- The theorem at work: four numbers for each process are too many for the seeds 1000 and 1003. -/
theorem names_apart_iff_four :
    (∀ es, Along (next false) (Within false 2) (init [1000, 1004]) es →
      ((runs (next false) (init [1000, 1004]) es).names.map Name.text).Nodup) ∧
    ¬ ∀ es, Along (next false) (Within false 2) (init [1000, 1003]) es →
      ((runs (next false) (init [1000, 1003]) es).names.map Name.text).Nodup := by
  refine ⟨(names_apart_iff false (by decide) (by decide) _).mpr (by decide), fun h => ?_⟩
  exact absurd ((names_apart_iff false (by decide) (by decide) _).mp h) (by decide)

end Naming

end UnifiedBuffer
