import Mathlib.Tactic

set_option autoImplicit false

/-! # Runs of a state machine

A machine is a function `step : S → A → S`. `Reach step ok s₀ s` says that a run from `s₀` leads
to `s` in which every step satisfies `ok`, a condition on the action and on the state before it.
-/

namespace Lib

variable {S A : Type}

/-- The states reached from `s₀` by steps that satisfy `ok`. -/
inductive Reach (step : S → A → S) (ok : S → A → Prop) (s₀ : S) : S → Prop
  | start : Reach step ok s₀ s₀
  | next {s : S} (a : A) : Reach step ok s₀ s → ok s a → Reach step ok s₀ (step s a)

namespace Reach

variable {step : S → A → S} {ok ok' : S → A → Prop} {s₀ s : S}

/-- The invariant rule. -/
theorem invariant {I : S → Prop} (h : Reach step ok s₀ s) (h₀ : I s₀)
    (hstep : ∀ s a, I s → ok s a → I (step s a)) : I s := by
  induction h with
  | start => exact h₀
  | next a _ hok ih => exact hstep _ a ih hok

/-- The invariant rule on top of a fact that is known of every reachable state. -/
theorem invariant_of {I K : S → Prop} (h : Reach step ok s₀ s)
    (hK : ∀ s, Reach step ok s₀ s → K s) (h₀ : I s₀)
    (hstep : ∀ s a, K s → I s → ok s a → I (step s a)) : I s := by
  induction h with
  | start => exact h₀
  | next a hs hok ih => exact hstep _ a (hK _ hs) ih hok

/-- A weaker condition on the steps reaches more states. -/
theorem mono (h : Reach step ok s₀ s) (himp : ∀ s a, ok s a → ok' s a) :
    Reach step ok' s₀ s := by
  induction h with
  | start => exact .start
  | next a _ hok ih => exact .next a ih (himp _ a hok)

end Reach

/-- The state after a list of actions. -/
def runs (step : S → A → S) (s : S) (as : List A) : S := as.foldl step s

/-! ## Lists of actions

`Along step ok s as` says that every action of `as` satisfies `ok` in the state it is taken in. A
machine `step` is described by another one, `tstep`, if each of its actions does what a list of
actions of the other one does. -/

/-- The condition `ok` along a list of actions. -/
def Along (step : S → A → S) (ok : S → A → Prop) : S → List A → Prop
  | _, [] => True
  | s, a :: as => ok s a ∧ Along step ok (step s a) as

namespace Along

variable {step : S → A → S} {ok ok' : S → A → Prop}

instance decidable [∀ s a, Decidable (ok s a)] : ∀ s as, Decidable (Along step ok s as)
  | _, [] => isTrue trivial
  | s, a :: as =>
      have : Decidable (Along step ok (step s a) as) := decidable (step s a) as
      inferInstanceAs (Decidable (ok s a ∧ Along step ok (step s a) as))

theorem of_mem {as : List A} (h : ∀ a ∈ as, ∀ s, ok s a) (s : S) : Along step ok s as := by
  induction as generalizing s with
  | nil => trivial
  | cons a as ih =>
      exact ⟨h a List.mem_cons_self s, ih (fun b hb => h b (List.mem_cons_of_mem a hb)) _⟩

theorem and {s : S} {as : List A} (h : Along step ok s as) (h' : Along step ok' s as) :
    Along step (fun s a => ok s a ∧ ok' s a) s as := by
  induction as generalizing s with
  | nil => trivial
  | cons a as ih => exact ⟨⟨h.1, h'.1⟩, ih h.2 h'.2⟩

theorem mono (hmono : ∀ s a, ok s a → ok' s a) {s : S} {as : List A} (h : Along step ok s as) :
    Along step ok' s as := by
  induction as generalizing s with
  | nil => trivial
  | cons a as ih => exact ⟨hmono s a h.1, ih h.2⟩

theorem congr (h : ∀ s a, ok s a ↔ ok' s a) (s : S) (as : List A) :
    Along step ok s as ↔ Along step ok' s as :=
  ⟨mono fun s a => (h s a).mp, mono fun s a => (h s a).mpr⟩

theorem append {s : S} {as bs : List A} (h : Along step ok s as)
    (h' : Along step ok (runs step s as) bs) : Along step ok s (as ++ bs) := by
  induction as generalizing s with
  | nil => exact h'
  | cons a as ih => exact ⟨h.1, ih h.2 h'⟩

theorem append_iff {s : S} {as bs : List A} :
    Along step ok s (as ++ bs) ↔ Along step ok s as ∧ Along step ok (runs step s as) bs := by
  refine ⟨fun h => ?_, fun h => h.1.append h.2⟩
  induction as generalizing s with
  | nil => exact ⟨trivial, h⟩
  | cons a as ih =>
      obtain ⟨has, hbs⟩ := ih h.2
      exact ⟨⟨h.1, has⟩, hbs⟩

/-- The beginning of a run. -/
theorem initial {s : S} {as bs : List A} (h : Along step ok s bs) (hbegins : as <+: bs) :
    Along step ok s as := by
  obtain ⟨rest, rfl⟩ := hbegins
  exact (append_iff.mp h).1

/-- The invariant rule for a list of actions. -/
theorem invariant {I : S → Prop} {s : S} {as : List A} (hcan : Along step ok s as)
    (hgood : Along step ok' s as) (h : I s)
    (hstep : ∀ s a, I s → ok s a → ok' s a → I (step s a)) : I (runs step s as) := by
  induction as generalizing s with
  | nil => exact h
  | cons a as ih => exact ih hcan.2 hgood.2 (hstep s a h hcan.1 hgood.1)

end Along

/-- A list of actions whose steps all satisfy the condition is a run. -/
theorem reach_runs {step : S → A → S} {ok : S → A → Prop} {s₀ s : S} (h : Reach step ok s₀ s)
    {as : List A} (hok : Along step ok s as) : Reach step ok s₀ (runs step s as) := by
  induction as generalizing s with
  | nil => exact h
  | cons a as ih => exact ih (.next a h hok.1) hok.2

/-! ## Histories

What the actions of a run report, each in the state it is taken in: `history` collects lists, and
`tally` counts the actions with a property. -/

/-- The reports of all actions of a run, in order. -/
def history {B : Type} (step : S → A → S) (report : S → A → List B) : S → List A → List B
  | _, [] => []
  | s, a :: as => report s a ++ history step report (step s a) as

/-- If every action enters what it reports into a register, the register holds the history. -/
theorem foldl_history {B R : Type} {step : S → A → S} {report : S → A → List B} {I : S → Prop}
    (register : S → R) (enter : R → B → R) (hI : ∀ s a, I s → I (step s a))
    (hstep : ∀ s a, I s → register (step s a) = (report s a).foldl enter (register s))
    {s : S} (h : I s) (as : List A) :
    register (runs step s as) = (history step report s as).foldl enter (register s) := by
  induction as generalizing s with
  | nil => rfl
  | cons a as ih =>
      rw [history, List.foldl_append, ← hstep s a h]
      exact ih (hI s a h)

/-- A machine whose actions do what they report to another machine, which may take the reported
actions, drives it along a whole run. -/
theorem follows_history {T B : Type} {step : S → A → S} {ok : S → A → Prop} {tstep : T → B → T}
    {can : T → B → Prop} {report : S → A → List B} {I : S → Prop} (abs : S → T)
    (hI : ∀ s a, I s → ok s a → I (step s a))
    (hsim : ∀ s a, I s → ok s a → abs (step s a) = runs tstep (abs s) (report s a) ∧
      Along tstep can (abs s) (report s a))
    {s : S} (h : I s) {as : List A} (has : Along step ok s as) :
    abs (runs step s as) = runs tstep (abs s) (history step report s as) ∧
      Along tstep can (abs s) (history step report s as) := by
  induction as generalizing s with
  | nil => exact ⟨rfl, trivial⟩
  | cons a as ih =>
      obtain ⟨hstep, hcan⟩ := hsim s a h has.1
      obtain ⟨hrest, hcan'⟩ := ih (hI s a h has.1) has.2
      rw [hstep] at hrest hcan'
      refine ⟨hrest.trans ?_, hcan.append hcan'⟩
      rw [history, runs, runs, runs, List.foldl_append]

section Tally

variable {step : S → A → S} {ok p q : S → A → Prop} [∀ s a, Decidable (p s a)]
  [∀ s a, Decidable (q s a)]

/-- The number of actions of a run that have the property `p`. -/
def tally (step : S → A → S) (p : S → A → Prop) [∀ s a, Decidable (p s a)] : S → List A → Nat
  | _, [] => 0
  | s, a :: as => (if p s a then 1 else 0) + tally step p (step s a) as

/-- A counter that every action with the property raises by one holds their number. -/
theorem tally_counter {I : S → Prop} (counter : S → Nat) (hI : ∀ s a, I s → I (step s a))
    (hstep : ∀ s a, I s → ok s a → counter (step s a) = counter s + if p s a then 1 else 0)
    {s : S} (h : I s) {as : List A} (hok : Along step ok s as) :
    counter (runs step s as) = counter s + tally step p s as := by
  induction as generalizing s with
  | nil => rfl
  | cons a as ih =>
      have hrest : counter (runs step (step s a) as)
          = counter (step s a) + tally step p (step s a) as := ih (hI s a h) hok.2
      rw [tally, ← Nat.add_assoc, ← hstep s a h hok.1]
      exact hrest

theorem tally_le_tally (hpq : ∀ s a, p s a → q s a) (s : S) (as : List A) :
    tally step p s as ≤ tally step q s as := by
  induction as generalizing s with
  | nil => exact Nat.le_refl 0
  | cons a as ih =>
      refine Nat.add_le_add ?_ (ih _)
      by_cases hp : p s a
      · rw [if_pos hp, if_pos (hpq s a hp)]
      · rw [if_neg hp]
        exact Nat.zero_le _

/-- Two properties, one of which implies the other, are counted alike exactly if no action of the
run has only one of them. -/
theorem tally_eq_iff (hpq : ∀ s a, p s a → q s a) (s : S) (as : List A) :
    tally step p s as = tally step q s as ↔ Along step (fun s a => q s a → p s a) s as := by
  induction as generalizing s with
  | nil => exact iff_of_true rfl trivial
  | cons a as ih =>
      have hle : tally step p (step s a) as ≤ tally step q (step s a) as := tally_le_tally hpq _ _
      rw [tally, tally, Along, ← ih]
      by_cases hp : p s a
      · rw [if_pos hp, if_pos (hpq s a hp), Nat.add_right_inj]
        exact ⟨fun h => ⟨fun _ => hp, h⟩, And.right⟩
      · by_cases hq : q s a
        · rw [if_neg hp, if_pos hq]
          exact ⟨fun h => by omega, fun h => absurd (h.1 hq) hp⟩
        · rw [if_neg hp, if_neg hq, Nat.add_right_inj]
          exact ⟨fun h => ⟨fun hq' => absurd hq' hq, h⟩, And.right⟩

end Tally

/-- The invariant rule through another machine that describes the first one. `K` is known of all
reachable states, `can` is what the description guarantees of the actions, and `good` what follows
from the invariant and the condition on the run. -/
theorem Reach.invariant_acts {T B : Type} {step : S → A → S} {ok : S → A → Prop} {s₀ s : S}
    {tstep : T → B → T} {can good : T → B → Prop} {I : T → Prop} {K : S → Prop}
    (h : Reach step ok s₀ s) (abs : S → T) (acts : S → A → List B)
    (hK : ∀ s, Reach step ok s₀ s → K s)
    (hsim : ∀ s a, K s → abs (step s a) = runs tstep (abs s) (acts s a) ∧
      Along tstep can (abs s) (acts s a))
    (hgood : ∀ s a, K s → I (abs s) → ok s a → Along tstep good (abs s) (acts s a))
    (h₀ : I (abs s₀))
    (hstep : ∀ t b, I t → can t b → good t b → I (tstep t b)) : I (abs s) := by
  refine h.invariant_of (I := fun s => I (abs s)) hK h₀ (fun s a hKs hI hok => ?_)
  obtain ⟨heq, hcan⟩ := hsim s a hKs
  rw [heq]
  exact hcan.invariant (hgood s a hKs hI hok) hI hstep

/-! ## Machines that answer

A machine `step : S → A → R × S` returns an answer for each action. A transition relation describes
it if each of its steps is one of the relation; the relation may leave open what the machine
decides. -/

section Dialogue

variable {R T : Type}

/-- A run of a transition relation, with its actions and answers. -/
inductive Path (step : T → A → R → T → Prop) : T → List (A × R) → T → Prop
  | nil (t : T) : Path step t [] t
  | cons {t u v : T} {a : A} {r : R} {l : List (A × R)} (first : step t a r u)
      (rest : Path step u l v) : Path step t ((a, r) :: l) v

/-- The actions of a run, with the answers of the machine. -/
def dialogue (step : S → A → R × S) : S → List A → List (A × R)
  | _, [] => []
  | s, a :: as => (a, (step s a).1) :: dialogue step (step s a).2 as

/-- The simulation rule: what the machine answers is a run of the relation. -/
theorem path_dialogue {step : S → A → R × S} {tstep : T → A → R → T → Prop} {I : S → Prop}
    (abs : S → T) (hI : ∀ s a, I s → I (step s a).2)
    (hstep : ∀ s a, I s → tstep (abs s) a (step s a).1 (abs (step s a).2)) {s : S} (h : I s)
    (as : List A) :
    Path tstep (abs s) (dialogue step s as) (abs (runs (fun s a => (step s a).2) s as)) := by
  induction as generalizing s with
  | nil => exact .nil _
  | cons a as ih => exact .cons (hstep s a h) (ih (hI s a h))

/-- What each step adds to, a run adds to. -/
theorem Path.grows {K : Type} {step : T → A → R → T → Prop} {key : T → List K}
    (hgrows : ∀ t a r u, step t a r u → key t <+: key u) {l : List (A × R)} {t v : T}
    (h : Path step t l v) : key t <+: key v := by
  induction h with
  | nil t => exact List.prefix_refl _
  | cons first _ ih => exact (hgrows _ _ _ _ first).trans ih

/-- Two runs in lockstep. Each step adds to a list of keys, and two steps from one state that are
related and have got the same keys lead to one state. Then so do runs. -/
theorem Path.lockstep {K : Type} {step : T → A → R → T → Prop} (key : T → List K)
    {Q V : A × R → A × R → Prop} (hgrows : ∀ t a r u, step t a r u → key t <+: key u)
    (hstep : ∀ {t a r u a' r' u'}, step t a r u → step t a' r' u' → Q (a, r) (a', r') →
      (key u).length = (key u').length ∧ (key u = key u' → u = u' ∧ V (a, r) (a', r')))
    {l l' : List (A × R)} (hQ : List.Forall₂ Q l l') {t v v' : T} (h : Path step t l v)
    (h' : Path step t l' v') (hkey : key v = key v') : v = v' ∧ List.Forall₂ V l l' := by
  induction hQ generalizing t with
  | nil =>
      cases h
      cases h'
      exact ⟨rfl, .nil⟩
  | cons hq _ ih =>
      cases h with
      | cons first rest =>
          cases h' with
          | cons first' rest' =>
              obtain ⟨hlen, hsame⟩ := hstep first first' hq
              have hbegins := rest'.grows hgrows
              rw [← hkey] at hbegins
              have heq := List.prefix_of_prefix_length_le (rest.grows hgrows) hbegins hlen.le
              obtain ⟨rfl, hv⟩ := hsame (heq.eq_of_length hlen)
              obtain ⟨hend, hvs⟩ := ih rest rest'
              exact ⟨hend, .cons hv hvs⟩

end Dialogue

end Lib
