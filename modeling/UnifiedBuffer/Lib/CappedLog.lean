import Mathlib.Data.List.DropRight
import Mathlib.Tactic

set_option autoImplicit false

/-! # Logs with a bounded number of entries

A log that drops its oldest entry before it appends a new one. The test on the length comes before
the insertion, so a log that drops entries only above `cap` of them holds up to `cap + 1`: after any
sequence of entries it is the last `cap + 1` of them. -/

namespace Lib

variable {α : Type}

/-- Append to a log, dropping the oldest entry if there are more than `cap`. -/
def pushCapped (cap : Nat) (log : List α) (entry : α) : List α :=
  (if log.length > cap then log.tail else log) ++ [entry]

theorem length_rtake (l : List α) (n : Nat) : (l.rtake n).length = min n l.length := by
  rw [List.rtake, List.length_drop]
  omega

/-- With one entry more than allowed, the oldest one is dropped. -/
theorem trim_rtake (l : List α) (cap : Nat) :
    (if (l.rtake (cap + 1)).length > cap then (l.rtake (cap + 1)).tail else l.rtake (cap + 1))
      = l.rtake cap := by
  rw [length_rtake]
  by_cases hlong : cap < l.length
  · rw [if_pos (by omega), List.rtake, List.rtake, List.tail_drop,
      show l.length - (cap + 1) + 1 = l.length - cap by omega]
  · rw [if_neg (by omega), List.rtake, List.rtake,
      show l.length - (cap + 1) = l.length - cap by omega]

/-- The log after a sequence of entries is the end of the sequence. -/
theorem foldl_pushCapped (cap : Nat) (entries : List α) :
    entries.foldl (pushCapped cap) [] = entries.rtake (cap + 1) := by
  induction entries using List.reverseRecOn with
  | nil => exact (List.rtake_nil (cap + 1)).symm
  | append_singleton entries entry ih =>
      rw [List.foldl_concat, ih, List.rtake_concat_succ, pushCapped, trim_rtake]

/-- One entry more makes a difference exactly for a sequence that is long enough. -/
theorem rtake_succ_eq_iff (l : List α) (n : Nat) : l.rtake (n + 1) = l.rtake n ↔ l.length ≤ n := by
  constructor
  · intro h
    have hlen := congrArg List.length h
    rw [length_rtake, length_rtake] at hlen
    omega
  · intro h
    rw [List.rtake, List.rtake, show l.length - (n + 1) = l.length - n by omega]

end Lib
