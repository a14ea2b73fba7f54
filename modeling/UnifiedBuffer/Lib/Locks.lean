import Mathlib.Tactic
import Mathlib.Logic.Hydra
import UnifiedBuffer.Lib.ListAt
import UnifiedBuffer.Lib.Run

set_option autoImplicit false

/-! # Threads with mutexes

A program locks and unlocks mutexes and acts on shared data. Threads run programs in any
interleaving. If every program takes its mutexes in increasing order of one ranking
(`Ordered`), no set of threads waits for itself (`not_deadlocked`), and threads that run on until
none can end with all programs done (`eventually_done`).

Programs are written in a monad of continuations, `Code`. `Fits` is the rule set that shows a
program ordered. -/

namespace Lib

/-! ## Programs -/

/-- How a mutex is held. -/
inductive Mode where
  | shared
  | exclusive
  deriving DecidableEq, Repr

/-- The rest of a program, over mutexes `M` and data `D`. -/
inductive Prog (M D : Type) where
  | done
  | lock (m : M) (mode : Mode) (k : Prog M D)
  | unlock (m : M) (mode : Mode) (k : Prog M D)
  /-- One step on the data, which the rest may depend on. `pre` is what the program expects of the
  data; it has no effect on the step. -/
  | act (pre : D → Prop) (f : D → D) (k : D → Prog M D)
  /-- A branch on something that the data does not say. -/
  | choose (k : Bool → Prog M D)

/-- A piece of a program that returns a value. -/
def Code (M D α : Type) : Type := (α → Prog M D) → Prog M D

namespace Code

variable {M D α β : Type}

instance : Monad (Code M D) where
  pure a := fun k => k a
  bind c f := fun k => c (fun a => f a k)

/-- A step that returns the data before it. -/
def act (f : D → D) : Code M D D := fun k => .act (fun _ => True) f k

/-- A step of which something is expected. -/
def expect (pre : D → Prop) (f : D → D) : Code M D D := fun k => .act pre f k

def choose : Code M D Bool := fun k => .choose k

def locked (m : M) (mode : Mode) (c : Code M D α) : Code M D α := fun k =>
  .lock m mode (c fun a => .unlock m mode (k a))

def prog (c : Code M D α) : Prog M D := c fun _ => .done

end Code

/-! ## Runs of threads -/

structure Thread (M D : Type) where
  held : List (M × Mode) := []
  prog : Prog M D

structure Threads (M D : Type) where
  data : D
  threads : List (Thread M D) := []

namespace Threads

variable {M D : Type} [DecidableEq M]

def Free (s : Threads M D) (m : M) : Mode → Prop
  | .shared => ∀ t ∈ s.threads, (m, .exclusive) ∉ t.held
  | .exclusive => ∀ t ∈ s.threads, ∀ x ∈ t.held, x.1 ≠ m

instance (s : Threads M D) (m : M) : ∀ mode, Decidable (s.Free m mode)
  | .shared => inferInstanceAs (Decidable (∀ t ∈ s.threads, (m, .exclusive) ∉ t.held))
  | .exclusive => inferInstanceAs (Decidable (∀ t ∈ s.threads, ∀ x ∈ t.held, x.1 ≠ m))

inductive Act (M D : Type) where
  /-- A new thread. -/
  | start (p : Prog M D)
  /-- A step of a thread, with the branch it takes if it has to choose. -/
  | step (i : Nat) (b : Bool)

/-- A step of a thread. A thread that waits for a mutex does not move. -/
def advance (s : Threads M D) (t : Thread M D) (b : Bool) : D × Thread M D :=
  match t.prog with
  | .done => (s.data, t)
  | .lock m mode k => if s.Free m mode then (s.data, ⟨(m, mode) :: t.held, k⟩) else (s.data, t)
  | .unlock m mode k => (s.data, ⟨t.held.erase (m, mode), k⟩)
  | .act _ f k => (f s.data, ⟨t.held, k s.data⟩)
  | .choose k => (s.data, ⟨t.held, k b⟩)

def next (s : Threads M D) : Act M D → Threads M D
  | .start p => { s with threads := s.threads ++ [{ prog := p }] }
  | .step i b =>
      match s.threads[i]? with
      | some t => ⟨(s.advance t b).1, s.threads.set i (s.advance t b).2⟩
      | none => s

def Wants (s : Threads M D) (i : Nat) (m : M) : Prop :=
  ∃ t mode k, s.threads[i]? = some t ∧ t.prog = .lock m mode k

def Has (s : Threads M D) (i : Nat) (m : M) : Prop :=
  ∃ t, s.threads[i]? = some t ∧ ∃ mode, (m, mode) ∈ t.held

/-- Some threads wait for each other: each of them is about to lock a mutex that one of them has. -/
def Deadlocked (s : Threads M D) : Prop :=
  ∃ S : Set Nat, S.Nonempty ∧ ∀ i ∈ S, ∃ m, s.Wants i m ∧ ∃ j ∈ S, s.Has j m

def Enabled (s : Threads M D) (i : Nat) : Prop :=
  ∃ t, s.threads[i]? = some t ∧
    match t.prog with
    | .done => False
    | .lock m mode _ => s.Free m mode
    | .unlock .. | .act .. | .choose .. => True

/-- The data is as the program of the thread that moves expects it. -/
def Expected (s : Threads M D) : Act M D → Prop
  | .start _ => True
  | .step i _ => ∀ t, s.threads[i]? = some t →
      match t.prog with
      | .act pre _ _ => pre s.data
      | .done | .lock .. | .unlock .. | .choose .. => True

def Done (s : Threads M D) : Prop := ∀ t ∈ s.threads, t.prog = .done

end Threads

/-! ## Order -/

section Order

variable {M D : Type} [DecidableEq M] (rank : M → Nat)

/-- The program locks in increasing order of the ranking, given what the thread holds, unlocks only
what it has locked, and ends with nothing locked. -/
def Ordered : List (M × Mode) → Prog M D → Prop
  | held, .done => held = []
  | held, .lock m mode k => (∀ x ∈ held, rank x.1 < rank m) ∧ Ordered ((m, mode) :: held) k
  | held, .unlock m mode k => (m, mode) ∈ held ∧ Ordered (held.erase (m, mode)) k
  | held, .act pre _ k => ∀ d, pre d → Ordered held (k d)
  | held, .choose k => ∀ b, Ordered held (k b)

def Threads.AllOrdered (s : Threads M D) : Prop := ∀ t ∈ s.threads, Ordered rank t.held t.prog

variable {rank} {s : Threads M D}

namespace Threads

/-- What a thread does next is ordered. -/
theorem AllOrdered.advance {t : Thread M D} (h : Ordered rank t.held t.prog)
    (hpre : match t.prog with
      | .act pre _ _ => pre s.data
      | .done | .lock .. | .unlock .. | .choose .. => True) (b : Bool) :
    Ordered rank (s.advance t b).2.held (s.advance t b).2.prog := by
  obtain ⟨held, prog⟩ := t
  cases prog with
  | done => exact h
  | lock m mode k =>
      simp only [Threads.advance]
      split
      · exact h.2
      · exact h
  | unlock m mode k => exact h.2
  | act pre f k => exact h _ hpre
  | choose k => exact h b

theorem AllOrdered.next (h : s.AllOrdered rank) {a : Act M D}
    (hstart : ∀ p, a = .start p → Ordered rank [] p) (hexp : s.Expected a) :
    (s.next a).AllOrdered rank := by
  cases a with
  | start p =>
      intro t ht
      rcases List.mem_append.mp ht with hold | hnew
      · exact h t hold
      · rw [List.mem_singleton.mp hnew]
        exact hstart p rfl
  | step i b =>
      simp only [Threads.next]
      split
      · rename_i t ht
        intro t' ht'
        rcases List.mem_or_eq_of_mem_set ht' with hold | rfl
        · exact h t' hold
        · exact AllOrdered.advance (h t (List.mem_of_getElem? ht)) (hexp t ht) b
      · exact h

/-- Whoever wants a mutex has only mutexes of lower rank. -/
theorem AllOrdered.lt (h : s.AllOrdered rank) {i : Nat} {m m' : M} (hwants : s.Wants i m)
    (hhas : s.Has i m') : rank m' < rank m := by
  obtain ⟨t, mode, k, hi, hprog⟩ := hwants
  obtain ⟨t', hi', mode', hmem⟩ := hhas
  cases hi.symm.trans hi'
  have hord := h t (List.mem_of_getElem? hi)
  rw [hprog] at hord
  exact hord.1 _ hmem

/-- The rank of the mutex that a thread is about to lock. -/
def wanted (rank : M → Nat) (t : Thread M D) : Nat :=
  match t.prog with
  | .lock m _ _ => rank m
  | .done | .unlock .. | .act .. | .choose .. => 0

omit [DecidableEq M] in
theorem Wants.le {i : Nat} {m : M} (h : s.Wants i m) :
    rank m ≤ (s.threads.map (wanted rank)).sum := by
  obtain ⟨t, mode, k, hi, hprog⟩ := h
  have hrank : wanted rank t = rank m := by simp [wanted, hprog]
  rw [← hrank]
  exact List.le_sum_of_mem (List.mem_map_of_mem (List.mem_of_getElem? hi))

/-- The chain of who waits for whom goes up in rank and never ends, but the threads are finitely
many. -/
theorem AllOrdered.not_deadlocked (h : s.AllOrdered rank) : ¬ s.Deadlocked := by
  rintro ⟨S, ⟨i₀, hi₀⟩, hwait⟩
  have hchain : ∀ n, ∃ i ∈ S, ∃ m, s.Wants i m ∧ n ≤ rank m := by
    intro n
    induction n with
    | zero =>
        obtain ⟨m, hm, -⟩ := hwait i₀ hi₀
        exact ⟨i₀, hi₀, m, hm, Nat.zero_le _⟩
    | succ n ih =>
        obtain ⟨i, hi, m, hwants, hle⟩ := ih
        obtain ⟨m', hwants', j, hj, hhas⟩ := hwait i hi
        obtain ⟨m'', hwants'', -⟩ := hwait j hj
        obtain rfl : m = m' := by
          obtain ⟨t, mode, k, ht, hprog⟩ := hwants
          obtain ⟨t', mode', k', ht', hprog'⟩ := hwants'
          cases ht.symm.trans ht'
          cases hprog.symm.trans hprog'
          rfl
        exact ⟨j, hj, m'', hwants'', Nat.lt_of_le_of_lt hle (h.lt hwants'' hhas)⟩
  obtain ⟨i, -, m, hwants, hle⟩ := hchain ((s.threads.map (wanted rank)).sum + 1)
  have hmax : rank m ≤ (s.threads.map (wanted rank)).sum := Wants.le hwants
  exact absurd hmax (Nat.not_le.mpr hle)

omit [DecidableEq M] in
/-- A mutex that is not free is somebody's. -/
theorem exists_has {m : M} {mode : Mode} (h : ¬ s.Free m mode) : ∃ j, s.Has j m := by
  cases mode with
  | shared =>
      simp only [Free, not_forall, not_not] at h
      obtain ⟨t, ht, hheld⟩ := h
      obtain ⟨j, hj⟩ := List.mem_iff_getElem?.mp ht
      exact ⟨j, t, hj, _, hheld⟩
  | exclusive =>
      simp only [Free, not_forall, not_not] at h
      obtain ⟨t, ht, x, hx, rfl⟩ := h
      obtain ⟨j, hj⟩ := List.mem_iff_getElem?.mp ht
      exact ⟨j, t, hj, x.2, hx⟩

/-- As long as a program is not done, some thread can move. -/
theorem AllOrdered.exists_enabled (h : s.AllOrdered rank) (hnot : ¬ s.Done) :
    ∃ i, s.Enabled i := by
  by_contra hnone
  push Not at hnone
  refine h.not_deadlocked ⟨{i | ∃ t, s.threads[i]? = some t ∧ t.prog ≠ .done}, ?_, ?_⟩
  · simp only [Done, not_forall] at hnot
    obtain ⟨t, ht, hprog⟩ := hnot
    obtain ⟨i, hi⟩ := List.mem_iff_getElem?.mp ht
    exact ⟨i, t, hi, hprog⟩
  · rintro i ⟨t, hi, hprog⟩
    have hstuck := hnone i
    cases hp : t.prog with
    | done => exact absurd hp hprog
    | unlock m mode k => exact absurd ⟨t, hi, by rw [hp]; trivial⟩ hstuck
    | act pre f k => exact absurd ⟨t, hi, by rw [hp]; trivial⟩ hstuck
    | choose k => exact absurd ⟨t, hi, by rw [hp]; trivial⟩ hstuck
    | lock m mode k =>
        have hbusy : ¬ s.Free m mode := fun hfree => hstuck ⟨t, hi, by rw [hp]; exact hfree⟩
        obtain ⟨j, hj⟩ := exists_has hbusy
        refine ⟨m, ⟨t, mode, k, hi, hp⟩, j, ?_, hj⟩
        -- a thread that has a mutex is not done
        obtain ⟨t', hj', mode', hheld⟩ := hj
        refine ⟨t', hj', fun hdone => ?_⟩
        have hord := h t' (List.mem_of_getElem? hj')
        rw [hdone] at hord
        rw [show t'.held = [] from hord] at hheld
        cases hheld

end Threads

end Order

/-! ## Termination -/

section Termination

variable {M D : Type}

/-- The first program is what is left of the second one after a step. -/
inductive Prog.Next : Prog M D → Prog M D → Prop
  | lock (m : M) (mode : Mode) (k : Prog M D) : Next k (.lock m mode k)
  | unlock (m : M) (mode : Mode) (k : Prog M D) : Next k (.unlock m mode k)
  | act (pre : D → Prop) (f : D → D) (k : D → Prog M D) (d : D) : Next (k d) (.act pre f k)
  | choose (k : Bool → Prog M D) (b : Bool) : Next (k b) (.choose k)

theorem Prog.next_wf : WellFounded (Prog.Next (M := M) (D := D)) := by
  refine ⟨fun p => ?_⟩
  induction p with
  | done => exact ⟨_, fun _ h => by cases h⟩
  | lock m mode k ih => exact ⟨_, fun _ h => by cases h; exact ih⟩
  | unlock m mode k ih => exact ⟨_, fun _ h => by cases h; exact ih⟩
  | act pre f k ih => exact ⟨_, fun _ h => by cases h; exact ih _⟩
  | choose k ih => exact ⟨_, fun _ h => by cases h; exact ih _⟩

variable [DecidableEq M]

namespace Threads

def progs (s : Threads M D) : Multiset (Prog M D) := (s.threads.map fun t => {t.prog}).sum

/-- A step takes one of the programs further. -/
theorem Enabled.cutExpand {s : Threads M D} {i : Nat} (h : s.Enabled i) (b : Bool) :
    Relation.CutExpand Prog.Next (s.next (.step i b)).progs s.progs := by
  obtain ⟨t, hi, hcan⟩ := h
  have hnext : Prog.Next (s.advance t b).2.prog t.prog := by
    obtain ⟨held, prog⟩ := t
    cases prog with
    | done => exact hcan.elim
    | lock m mode k =>
        have hfree : s.Free m mode := hcan
        simp only [advance, hfree, if_true]
        exact .lock m mode k
    | unlock m mode k => exact .unlock m mode k
    | act pre f k => exact .act pre f k _
    | choose k => exact .choose k b
  refine ⟨{(s.advance t b).2.prog}, t.prog, ?_, ?_⟩
  · intro p hp
    rw [Multiset.mem_singleton.mp hp]
    exact hnext
  · simp only [progs, next, hi]
    exact sum_map_set (fun t => ({t.prog} : Multiset (Prog M D))) hi _

/-- Threads that run on, in any order, as long as one of them can, are done in the end. -/
theorem AllOrdered.eventually_done {rank : M → Nat} (run : Nat → Threads M D)
    (sched : Nat → Nat × Bool) (h : (run 0).AllOrdered rank)
    (hrun : ∀ n, run (n + 1) = (run n).next (.step (sched n).1 (sched n).2))
    (hexp : ∀ n, (run n).Expected (.step (sched n).1 (sched n).2))
    (hon : ∀ n, (∃ i, (run n).Enabled i) → (run n).Enabled (sched n).1) :
    ∃ n, (run n).Done := by
  have hall : ∀ n, (run n).AllOrdered rank := by
    intro n
    induction n with
    | zero => exact h
    | succ n ih =>
        rw [hrun]
        exact ih.next (fun _ h => by cases h) (hexp n)
  by_contra hnever
  push Not at hnever
  have hdown : ∀ n, Relation.CutExpand Prog.Next (run (n + 1)).progs (run n).progs := by
    intro n
    rw [hrun]
    exact (hon n ((hall n).exists_enabled (hnever n))).cutExpand _
  obtain ⟨_, ⟨n, rfl⟩, hmin⟩ := (Prog.next_wf (M := M) (D := D)).cutExpand.has_min
    (Set.range fun n => (run n).progs) ⟨_, 0, rfl⟩
  exact hmin _ ⟨n + 1, rfl⟩ (hdown n)

end Threads

end Termination

/-! ## Special runs -/

/-- A program that runs alone takes the data from `d` to `d'`. -/
inductive Prog.Ends {M D : Type} : Prog M D → D → D → Prop
  | done (d : D) : Ends .done d d
  | lock {m : M} {mode : Mode} {k : Prog M D} {d d' : D} :
      Ends k d d' → Ends (.lock m mode k) d d'
  | unlock {m : M} {mode : Mode} {k : Prog M D} {d d' : D} :
      Ends k d d' → Ends (.unlock m mode k) d d'
  | act {pre : D → Prop} {f : D → D} {k : D → Prog M D} {d d' : D} :
      Ends (k d) (f d) d' → Ends (.act pre f k) d d'
  | choose {k : Bool → Prog M D} {d d' : D} (b : Bool) :
      Ends (k b) d d' → Ends (.choose k) d d'

section Special

variable {M D : Type} [DecidableEq M]

namespace Threads

/-- A run of a single thread to its end. -/
theorem ends_of_runs {p : Prog M D} {held held' : List (M × Mode)} {d d' : D} {bs : List Bool}
    (h : runs next ⟨d, [⟨held, p⟩]⟩ (bs.map (.step 0)) = ⟨d', [⟨held', .done⟩]⟩) :
    p.Ends d d' := by
  induction bs generalizing p held d with
  | nil =>
      cases h
      exact .done _
  | cons b bs ih =>
      have hnext : next ⟨d, [⟨held, p⟩]⟩ (.step 0 b)
          = ⟨(advance ⟨d, [⟨held, p⟩]⟩ ⟨held, p⟩ b).1,
            [(advance ⟨d, [⟨held, p⟩]⟩ ⟨held, p⟩ b).2]⟩ := rfl
      have hrest : runs next (next ⟨d, [⟨held, p⟩]⟩ (.step 0 b)) (bs.map (.step 0)) = _ := h
      rw [hnext] at hrest
      cases p with
      | done => exact ih hrest
      | lock m mode k =>
          simp only [advance] at hrest
          split at hrest
          · exact .lock (ih hrest)
          · exact ih hrest
      | unlock m mode k => exact .unlock (ih hrest)
      | act pre f k => exact .act (ih hrest)
      | choose k => exact .choose b (ih hrest)

/-- A thread that is about to lock a mutex that it has itself never moves again. -/
theorem stuck {s : Threads M D} {i : Nat} {t : Thread M D} {m : M} {mode : Mode} {k : Prog M D}
    (hi : s.threads[i]? = some t) (hprog : t.prog = .lock m .exclusive k)
    (hheld : (m, mode) ∈ t.held) (as : List (Act M D)) :
    (runs next s as).threads[i]? = some t := by
  induction as generalizing s with
  | nil => exact hi
  | cons a as ih =>
      refine ih ?_
      cases a with
      | start p =>
          obtain ⟨hlt, -⟩ := List.getElem?_eq_some_iff.mp hi
          exact (List.getElem?_append_left hlt).trans hi
      | step j b =>
          simp only [next]
          split
          · rename_i t' hj
            by_cases hij : j = i
            · subst hij
              cases hi.symm.trans hj
              have hbusy : ¬ s.Free m .exclusive := fun hfree =>
                hfree t (List.mem_of_getElem? hi) _ hheld rfl
              have hstill : (s.advance t b).2 = t := by simp [advance, hprog, hbusy]
              show (s.threads.set j (s.advance t b).2)[j]? = some t
              rw [hstill]
              simp [(List.getElem?_eq_some_iff.mp hi).1]
            · exact (List.getElem?_set_ne hij).trans hi
          · exact hi

end Threads

end Special

/-! ## Rules for programs -/

namespace Code

variable {M D α β : Type} [DecidableEq M] {rank : M → Nat} {r : Nat}

/-- The code can be run by a thread that has only mutexes of rank below `r`: it locks in increasing
order, unlocks all that it has locked, and returns values that satisfy `Q`. -/
def Fits (rank : M → Nat) (r : Nat) (Q : α → Prop) (c : Code M D α) : Prop :=
  ∀ held : List (M × Mode), (∀ x ∈ held, rank x.1 < r) →
    ∀ k, (∀ a, Q a → Ordered rank held (k a)) → Ordered rank held (c k)

namespace Fits

theorem pure {Q : α → Prop} {a : α} (h : Q a) : Fits rank r Q (pure a : Code M D α) :=
  fun _ _ _ hk => hk a h

theorem bind {P : α → Prop} {Q : β → Prop} {c : Code M D α} {f : α → Code M D β}
    (hc : Fits rank r P c) (hf : ∀ a, P a → Fits rank r Q (f a)) : Fits rank r Q (c >>= f) :=
  fun held hheld k hk => hc held hheld _ fun a ha => hf a ha held hheld k hk

/-- Code with nothing said about its value goes before any other code. -/
theorem seq {Q : β → Prop} {c : Code M D α} {f : α → Code M D β}
    (hc : Fits rank r (fun _ => True) c) (hf : ∀ a, Fits rank r Q (f a)) :
    Fits rank r Q (c >>= f) :=
  bind hc fun a _ => hf a

theorem act (f : D → D) : Fits rank r (fun _ => True) (act f : Code M D D) :=
  fun _ _ _ hk d _ => hk d trivial

theorem expect (pre : D → Prop) (f : D → D) : Fits rank r pre (expect pre f : Code M D D) :=
  fun _ _ _ hk d hd => hk d hd

theorem choose : Fits rank r (fun _ => True) (choose : Code M D Bool) :=
  fun _ _ _ hk b => hk b trivial

theorem ite {Q : α → Prop} {p : Prop} [Decidable p] {c c' : Code M D α}
    (hc : p → Fits rank r Q c) (hc' : ¬ p → Fits rank r Q c') :
    Fits rank r Q (if p then c else c') := by
  split
  · exact hc ‹_›
  · exact hc' ‹_›

/-- Two branches that both fit, whatever the test says. -/
theorem branch {Q : α → Prop} {p : Prop} [Decidable p] {c c' : Code M D α}
    (hc : Fits rank r Q c) (hc' : Fits rank r Q c') : Fits rank r Q (if p then c else c') :=
  ite (fun _ => hc) fun _ => hc'

theorem locked {Q : α → Prop} {m : M} {c : Code M D α} (hr : r ≤ rank m)
    (hc : Fits rank (rank m + 1) Q c) (mode : Mode) : Fits rank r Q (locked m mode c) := by
  intro held hheld k hk
  refine ⟨fun x hx => Nat.lt_of_lt_of_le (hheld x hx) hr, hc _ ?_ _ fun a ha => ⟨?_, ?_⟩⟩
  · intro x hx
    rcases List.mem_cons.mp hx with rfl | hold
    · exact Nat.lt_succ_self _
    · exact Nat.lt_succ_of_lt (Nat.lt_of_lt_of_le (hheld x hold) hr)
  · exact List.mem_cons_self
  · rw [List.erase_cons_head]
    exact hk a ha

theorem ordered {Q : α → Prop} {c : Code M D α} (h : Fits rank r Q c) :
    Ordered rank [] c.prog :=
  h [] (by simp) _ fun _ _ => rfl

end Fits

end Code

end Lib
