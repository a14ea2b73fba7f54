import Mathlib.Logic.Function.Iterate

set_option autoImplicit false

/-! # While loops

The meaning of a loop that may not end: `While cond body s t` says that
`while (cond(s)) s = body(s);` started in `s` ends, in the state `t`. A loop has at most one such
state, and it is reached after finitely many turns. A definition by recursion on a number of rounds
models the loop if it gives this state. -/

namespace Lib

universe u

variable {σ : Type u}

/-- The loop ends: its condition fails at once, or it does after one turn and the rest. -/
inductive While (cond : σ → Prop) (body : σ → σ) : σ → σ → Prop
  | done {s : σ} (h : ¬ cond s) : While cond body s s
  | turn {s t : σ} (h : cond s) (rest : While cond body (body s) t) : While cond body s t

namespace While

variable {cond : σ → Prop} {body : σ → σ} {s t t' : σ}

theorem unique (h : While cond body s t) (h' : While cond body s t') : t = t' := by
  induction h with
  | done hc =>
      cases h' with
      | done _ => rfl
      | turn hc' _ => exact absurd hc' hc
  | turn hc _ ih =>
      cases h' with
      | done hc' => exact absurd hc hc'
      | turn _ rest' => exact ih rest'

/-- The last state is an iterate of the body, the first one at which the condition fails. -/
theorem turns (h : While cond body s t) :
    ∃ k, t = body^[k] s ∧ (∀ j, j < k → cond (body^[j] s)) ∧ ¬ cond (body^[k] s) := by
  induction h with
  | done hc => exact ⟨0, rfl, fun j hj => absurd hj (Nat.not_lt_zero j), hc⟩
  | @turn s t hc rest ih =>
      obtain ⟨k, ht, hbefore, hend⟩ := ih
      refine ⟨k + 1, ht, ?_, hend⟩
      intro j hj
      cases j with
      | zero => exact hc
      | succ j => exact hbefore j (Nat.lt_of_succ_lt_succ hj)

end While

end Lib
