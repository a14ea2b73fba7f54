import Mathlib.Data.List.DropRight
import Mathlib.Tactic

set_option autoImplicit false

/-! # Fields between separators

The nonempty pieces of a list between separators, as the components of a path are. Cutting the list
cuts its fields into two lists exactly if the cut is at a separator or at an end: anywhere else it
goes through a field. -/

namespace Lib

variable {α : Type} {sep : α → Bool}

/-- The nonempty pieces of a list between separators. -/
def fields (sep : α → Bool) (l : List α) : List (List α) :=
  (l.splitOnP sep).filter fun w => !w.isEmpty

@[simp] theorem fields_nil : fields sep [] = [] := by simp [fields]

theorem fields_append_cons (x y : List α) {c : α} (hc : sep c = true) :
    fields sep (x ++ c :: y) = fields sep x ++ fields sep y := by
  unfold fields
  rw [List.splitOnP_append_cons x y hc, List.filter_append]

theorem fields_cons_sep {c : α} (hc : sep c = true) (l : List α) :
    fields sep (c :: l) = fields sep l := by
  simpa using fields_append_cons [] l hc

theorem splitOnP_cons_of_not {c : α} (hc : sep c = false) (l : List α) :
    ∃ w ws, l.splitOnP sep = w :: ws ∧ (c :: l).splitOnP sep = (c :: w) :: ws := by
  obtain ⟨w, ws, hsplit⟩ := List.exists_cons_of_ne_nil (List.splitOnP_ne_nil sep l)
  refine ⟨w, ws, hsplit, ?_⟩
  rw [List.splitOnP_cons_eq_if_modifyHead, if_neg (by simp [hc]), hsplit, List.modifyHead_cons]

/-- A list without separators is one field. -/
theorem fields_run {w : List α} (hne : w ≠ []) (hw : ∀ c ∈ w, sep c = false) :
    fields sep w = [w] := by
  unfold fields
  rw [List.splitOnP_eq_singleton hw]
  simp [hne]

theorem fields_eq_nil_iff {l : List α} : fields sep l = [] ↔ ∀ c ∈ l, sep c = true := by
  induction l with
  | nil => simp
  | cons c l ih =>
      cases hc : sep c with
      | true => simp [fields_cons_sep hc, ih, hc]
      | false =>
          obtain ⟨w, ws, -, hsplit⟩ := splitOnP_cons_of_not hc l
          simp [fields, hsplit, hc]

/-- The pieces are parts of the list; the first one is its beginning. -/
theorem infix_of_mem_splitOnP (sep : α → Bool) (l : List α) :
    (∀ w, (l.splitOnP sep).head? = some w → w <+: l) ∧ ∀ w ∈ l.splitOnP sep, w <:+: l := by
  -- an element before the list is a piece of its own or lengthens the first piece
  induction l with
  | nil => simp
  | cons c l ih =>
      obtain ⟨hfirst, hall⟩ := ih
      have hlater : ∀ {w}, w ∈ l.splitOnP sep → w <:+: c :: l :=
        fun hw => List.infix_cons (hall _ hw)
      cases hc : sep c with
      | true =>
          rw [List.splitOnP_cons_eq_if_modifyHead, if_pos hc]
          refine ⟨by simp, fun w hw => ?_⟩
          rcases List.mem_cons.mp hw with rfl | hw
          · exact List.nil_infix
          · exact hlater hw
      | false =>
          obtain ⟨w, ws, hsplit, hsplit'⟩ := splitOnP_cons_of_not hc l
          have hbegin : c :: w <+: c :: l :=
            List.cons_prefix_cons.mpr ⟨rfl, hfirst w (by rw [hsplit]; rfl)⟩
          rw [hsplit']
          refine ⟨fun v hv => ?_, fun v hv => ?_⟩
          · cases hv
            exact hbegin
          · rcases List.mem_cons.mp hv with rfl | hv
            · exact hbegin.isInfix
            · exact hlater (hsplit ▸ List.mem_cons_of_mem _ hv)

theorem infix_of_mem_fields {l w : List α} (hw : w ∈ fields sep l) : w <:+: l :=
  (infix_of_mem_splitOnP sep l).2 w (List.mem_of_mem_filter hw)

/-! ## Cutting a list -/

/-- No field goes across the cut between `x` and `y`. -/
def Seam (sep : α → Bool) (x y : List α) : Prop :=
  (∀ c ∈ x.getLast?, sep c = true) ∨ ∀ c ∈ y.head?, sep c = true

/-- Between nonempty lists there is a separator at the seam. -/
theorem seam_iff {x y : List α} (hx : x ≠ []) (hy : y ≠ []) : Seam sep x y ↔
    (∃ c ∈ x.getLast?, sep c = true) ∨ ∃ c ∈ y.head?, sep c = true := by
  rw [Seam, List.getLast?_eq_some_getLast hx, List.head?_eq_some_head hy]
  simp

theorem fields_append {x y : List α} (h : Seam sep x y) :
    fields sep (x ++ y) = fields sep x ++ fields sep y := by
  rcases h with hlast | hhead
  · rcases List.eq_nil_or_concat x with rfl | ⟨x, c, rfl⟩
    · simp
    · have hc : sep c = true := hlast c (by simp)
      have hx := fields_append_cons x [] hc
      rw [fields_nil, List.append_nil] at hx
      rw [List.concat_eq_append, List.append_assoc, List.singleton_append,
        fields_append_cons x y hc, hx]
  · cases y with
    | nil => simp
    | cons c y =>
        have hc : sep c = true := hhead c rfl
        rw [fields_append_cons x y hc, fields_cons_sep hc]

/-- The last field of a list that does not end in a separator. -/
theorem exists_last_field {x : List α} {d : α} (hlast : x.getLast? = some d)
    (hd : sep d = false) :
    ∃ b w, x = b ++ w ∧ w ≠ [] ∧ (∀ c ∈ w, sep c = false) ∧
      ∀ c ∈ b.getLast?, sep c = true := by
  -- the longest end of the list without separators
  refine ⟨x.rdropWhile fun c => !sep c, x.rtakeWhile fun c => !sep c,
    List.rdropWhile_append_rtakeWhile.symm, ?_, fun c hc => ?_, fun c hc => ?_⟩
  · intro hnil
    have hne : x ≠ [] := by
      rintro rfl
      cases hlast
    have hend := List.rtakeWhile_eq_nil_iff.mp hnil hne
    rw [List.getLast?_eq_some_getLast hne] at hlast
    cases hlast
    simp [hd] at hend
  · simpa using List.mem_rtakeWhile_imp hc
  · have hne : (x.rdropWhile fun c => !sep c) ≠ [] := by
      intro hnil
      rw [hnil] at hc
      cases hc
    have hend := List.rdropWhile_last_not _ _ hne
    rw [List.getLast?_eq_some_getLast hne] at hc
    cases hc
    simpa using hend

/-- The first field of a list that does not start with a separator. -/
theorem exists_first_field {y : List α} {d : α} (hhead : y.head? = some d) (hd : sep d = false) :
    ∃ v r, y = v ++ r ∧ v ≠ [] ∧ (∀ c ∈ v, sep c = false) ∧ ∀ c ∈ r.head?, sep c = true := by
  obtain ⟨b, w, hrev, hne, hw, hb⟩ :=
    exists_last_field (x := y.reverse) (by rw [List.getLast?_reverse, hhead]) hd
  refine ⟨w.reverse, b.reverse, ?_, by simpa using hne, by simpa using hw, ?_⟩
  · rw [← List.reverse_append, ← hrev, List.reverse_reverse]
  · rw [List.head?_reverse]
    exact hb

/-- The fields of a beginning of the list are the first fields of the list if and only if no field
goes across its end. -/
theorem fields_prefix_iff {x y : List α} :
    fields sep x <+: fields sep (x ++ y) ↔ Seam sep x y := by
  constructor
  · intro hprefix
    by_contra hcut
    obtain ⟨hend, hstart⟩ := not_or.mp hcut
    push Not at hend hstart
    obtain ⟨d, hlast, hd⟩ := hend
    obtain ⟨c, hhead, hc⟩ := hstart
    obtain ⟨b, w, rfl, hwne, hw, hb⟩ := exists_last_field hlast (by simpa using hd)
    obtain ⟨v, r, rfl, hvne, hv, hr⟩ := exists_first_field hhead (by simpa using hc)
    -- the field `w` goes on with `v` after the cut
    have hjoined : fields sep (w ++ v ++ r) = (w ++ v) :: fields sep r := by
      rw [fields_append (.inr hr), fields_run (by simp [hwne])]
      · rfl
      · intro e he
        exact (List.mem_append.mp he).elim (hw e) (hv e)
    rw [List.append_assoc, ← List.append_assoc w, fields_append (.inl hb),
      fields_append (.inl hb), fields_run hwne hw, hjoined, List.prefix_append_right_inj,
      List.cons_prefix_cons] at hprefix
    exact hvne (List.self_eq_append_right.mp hprefix.1)
  · intro hseam
    rw [fields_append hseam]
    exact List.prefix_append _ _

/-- There are further fields if something follows that is not a separator. -/
theorem fields_length_lt_iff {x y : List α} (h : Seam sep x y) :
    (fields sep x).length < (fields sep (x ++ y)).length ↔ ∃ c ∈ y, sep c = false := by
  rw [fields_append h, List.length_append, Nat.lt_add_right_iff_pos, List.length_pos_iff, Ne,
    fields_eq_nil_iff]
  simp

end Lib
