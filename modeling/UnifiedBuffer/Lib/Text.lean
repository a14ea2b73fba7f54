import Mathlib.Tactic

set_option autoImplicit false

/-! # Reading words and numbers

`words` is the loop that extracts one word after the other from an input stream: blanks are skipped,
and a word ends at the next blank or at the end. `strtoull` is the function of the C library, for
base ten. Both read back what was written in the usual way (`words_join`, `strtoull_toString`). -/

namespace Lib

/-! ## Words -/

section Words

variable {α : Type} (blank : α → Bool)

/-- The words of an input, `word` being what was read of the current one. -/
def words (word : List α) : List α → List (List α)
  | [] => if word.isEmpty then [] else [word]
  | c :: cs =>
      if blank c then
        if word.isEmpty then words [] cs else word :: words [] cs
      else words (word ++ [c]) cs

/-- What can be typed as a word. -/
structure IsWord (w : List α) : Prop where
  nonempty : w ≠ []
  plain : ∀ c ∈ w, blank c = false

variable {blank}

/-- The characters of a word are collected. -/
theorem words_append {w : List α} (hw : ∀ c ∈ w, blank c = false) (word cs : List α) :
    words blank word (w ++ cs) = words blank (word ++ w) cs := by
  induction w generalizing word with
  | nil => rw [List.nil_append, List.append_nil]
  | cons c w ih =>
      have hrest := ih (fun x hx => hw x (List.mem_cons_of_mem c hx)) (word ++ [c])
      rw [List.cons_append, words, if_neg (by rw [hw c List.mem_cons_self]; decide), hrest,
        List.append_assoc]
      rfl

/-- Words that are written one after the other, with one blank in between. -/
def join (b : α) : List (List α) → List α
  | [] => []
  | [w] => w
  | w :: ws => w ++ b :: join b ws

/-- What is written as words is read as these words. -/
theorem words_join {b : α} (hb : blank b = true) {ws : List (List α)}
    (hws : ∀ w ∈ ws, IsWord blank w) : words blank [] (join b ws) = ws := by
  induction ws with
  | nil => rfl
  | cons w ws ih =>
      obtain ⟨hne, hplain⟩ := hws w List.mem_cons_self
      have hempty : w.isEmpty = false := by simp [hne]
      cases ws with
      | nil =>
          have hread := words_append hplain [] []
          rw [List.append_nil, List.nil_append] at hread
          rw [join, hread, words, hempty]
          rfl
      | cons w' ws =>
          have hrest := ih (fun x hx => hws x (List.mem_cons_of_mem w hx))
          rw [join, words_append hplain, List.nil_append, words, if_pos hb, hempty, hrest]
          · rfl
          · intro heq
            cases heq

end Words

/-! ## Numbers -/

/-- The blanks of the standard locale. -/
def isSpace (c : Char) : Bool := c ∈ [' ', '\t', '\n', '\x0b', '\x0c', '\r']

/-- The value of the digits at the beginning of a text, after digits with value `value`. -/
def leadingNumber (value : Nat) : List Char → Nat
  | [] => value
  | c :: cs => if c.isDigit then leadingNumber (value * 10 + (c.toNat - '0'.toNat)) cs else value

/-- The sign of a number, and what follows it. -/
def readSign : List Char → Bool × List Char
  | '-' :: rest => (true, rest)
  | '+' :: rest => (false, rest)
  | rest => (false, rest)

/-- `std::strtoull(text, nullptr, 10)`: blanks, a sign, digits. A text without digits stands for
zero, a number that is too large for the largest one, and a sign makes the negative modulo
`2 ^ 64`. -/
def strtoull (text : List Char) : UInt64 :=
  let (negative, digits) := readSign (text.dropWhile isSpace)
  let value := leadingNumber 0 digits
  if 2 ^ 64 ≤ value then UInt64.ofNat (2 ^ 64 - 1)
  else if negative then -UInt64.ofNat value
  else UInt64.ofNat value

theorem leadingNumber_digits {cs : List Char} (h : ∀ c ∈ cs, c.isDigit = true) (value : Nat) :
    leadingNumber value cs = Nat.ofDigitChars 10 cs value := by
  induction cs generalizing value with
  | nil => rfl
  | cons c cs ih =>
      rw [leadingNumber, if_pos (h c List.mem_cons_self),
        ih (fun x hx => h x (List.mem_cons_of_mem c hx)), Nat.ofDigitChars_cons]
      congr 1
      ring

theorem readSign_digit {c : Char} (hc : c.isDigit = true) (cs : List Char) :
    readSign (c :: cs) = (false, c :: cs) := by
  unfold readSign
  split
  · rename_i heq
    cases heq
    exact absurd hc (by decide)
  · rename_i heq
    cases heq
    exact absurd hc (by decide)
  · rfl

theorem isSpace_digit {c : Char} (hc : c.isDigit = true) : isSpace c = false := by
  rw [isSpace, decide_eq_false_iff_not]
  rintro hmem
  have hall : [' ', '\t', '\n', '\x0b', '\x0c', '\r'].all (fun x => !x.isDigit) = true := by decide
  have hno := List.all_eq_true.mp hall c hmem
  rw [hc] at hno
  cases hno

/-- A number as it is printed is a word. -/
theorem isWord_toString (n : Nat) : IsWord isSpace (toString n).toList := by
  have htext : (toString n).toList = Nat.toDigits 10 n := by simp
  rw [htext]
  exact ⟨Nat.toDigits_ne_nil, fun c hc =>
    isSpace_digit (Nat.isDigit_of_mem_toDigits (by decide) (by decide) hc)⟩

/-- A number that is printed is read back. -/
theorem strtoull_toString {n : Nat} (h : n < 2 ^ 64) :
    strtoull (toString n).toList = UInt64.ofNat n := by
  have hdigits : ∀ c ∈ Nat.toDigits 10 n, c.isDigit = true := fun c hc =>
    Nat.isDigit_of_mem_toDigits (by decide) (by decide) hc
  have htext : (toString n).toList = Nat.toDigits 10 n := by simp
  have hvalue : leadingNumber 0 (Nat.toDigits 10 n) = n := by
    rw [leadingNumber_digits hdigits, Nat.ofDigitChars_ten_toDigits]
  have hne : Nat.toDigits 10 n ≠ [] := Nat.toDigits_ne_nil
  rw [htext]
  unfold strtoull
  cases hd : Nat.toDigits 10 n with
  | nil => exact absurd hd hne
  | cons c cs =>
      rw [hd] at hdigits hvalue
      have hc := hdigits c List.mem_cons_self
      rw [List.dropWhile_cons_of_neg (by rw [isSpace_digit hc]; decide), readSign_digit hc]
      simp only [hvalue, Nat.not_le.mpr h, if_false, Bool.false_eq_true]

end Lib
