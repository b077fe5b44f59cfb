import Mathlib.Data.List.Infix

/-!
# Replacing every occurrence of a pattern

A text is read from left to right, and each occurrence of the pattern that does not overlap the one
before it gives way to the replacement.  A replacement that is longer than the pattern makes every
text longer in which the pattern occurs, so exactly the other texts are left as they are.
-/

namespace Replace

variable {α : Type} [DecidableEq α]

/-- The text after its first `skip` elements, with the occurrences replaced. -/
def replaceFrom (pattern replacement : List α) : ℕ → List α → List α
  | _, [] => []
  | skip + 1, _ :: rest => replaceFrom pattern replacement skip rest
  | 0, head :: rest =>
      if pattern <+: head :: rest then
        replacement ++ replaceFrom pattern replacement (pattern.length - 1) rest
      else head :: replaceFrom pattern replacement 0 rest

def replaceAll (pattern replacement text : List α) : List α :=
  replaceFrom pattern replacement 0 text

/-- `str::replace` with a pattern that is not empty. -/
def strReplace (pattern replacement text : String) : String :=
  String.ofList (replaceAll pattern.toList replacement.toList text.toList)

theorem toList_strReplace (pattern replacement text : String) :
    (strReplace pattern replacement text).toList =
      replaceAll pattern.toList replacement.toList text.toList :=
  String.toList_ofList

/-- Overlapping occurrences are replaced once. -/
example : strReplace "aa" "b" "aaa a aaaa" = "ba a bb" := by decide

variable {pattern replacement text : List α}

theorem replaceFrom_eq_drop (skip : ℕ) : replaceFrom pattern replacement skip text =
    replaceAll pattern replacement (text.drop skip) := by
  induction text generalizing skip with
  | nil => cases skip <;> rfl
  | cons head rest ih =>
    cases skip with
    | zero => rfl
    | succ skip => exact ih skip

/-- An occurrence at the front of the text. -/
theorem replaceAll_append (hpattern : pattern ≠ []) (rest : List α) :
    replaceAll pattern replacement (pattern ++ rest) =
      replacement ++ replaceAll pattern replacement rest := by
  obtain ⟨head, tail, rfl⟩ := List.exists_cons_of_ne_nil hpattern
  have hstart : head :: tail <+: head :: (tail ++ rest) := List.prefix_append (head :: tail) rest
  rw [replaceAll, List.cons_append, replaceFrom, if_pos hstart, replaceFrom_eq_drop,
    List.length_cons, Nat.add_sub_cancel, List.drop_left]

/-- A text without the pattern is left as it is. -/
theorem replaceAll_of_absent (h : ¬pattern <:+: text) :
    replaceAll pattern replacement text = text := by
  induction text with
  | nil => rfl
  | cons head rest ih =>
    rw [List.infix_cons_iff, not_or] at h
    rw [replaceAll, replaceFrom, if_neg h.1]
    exact congrArg (head :: ·) (ih h.2)

section Longer

variable (hlonger : pattern.length < replacement.length)

include hlonger

theorem length_le_replaceFrom (skip : ℕ) :
    text.length ≤ skip + (replaceFrom pattern replacement skip text).length := by
  induction text generalizing skip with
  | nil => exact Nat.zero_le _
  | cons head rest ih =>
    cases skip with
    | zero =>
      rw [replaceFrom]
      split
      · have hrest := ih (pattern.length - 1)
        rw [List.length_append, List.length_cons]
        omega
      · have hrest := ih 0
        rw [List.length_cons, List.length_cons]
        omega
    | succ skip =>
      have hrest := ih skip
      rw [replaceFrom, List.length_cons]
      omega

theorem length_le_replaceAll (text : List α) :
    text.length ≤ (replaceAll pattern replacement text).length := by
  calc
    _ ≤ 0 + (replaceFrom pattern replacement 0 text).length := length_le_replaceFrom hlonger 0
    _ = _ := Nat.zero_add _

/-- Every occurrence makes the text longer. -/
theorem length_lt_replaceAll (hpattern : pattern ≠ []) (h : pattern <:+: text) :
    text.length < (replaceAll pattern replacement text).length := by
  have hpositive : 0 < pattern.length := List.length_pos_of_ne_nil hpattern
  induction text with
  | nil => exact absurd (List.infix_nil.mp h) hpattern
  | cons head rest ih =>
    rw [replaceAll, replaceFrom]
    split
    · have hrest : rest.length ≤ pattern.length - 1 +
          (replaceFrom pattern replacement (pattern.length - 1) rest).length :=
        length_le_replaceFrom hlonger _
      rw [List.length_append, List.length_cons]
      omega
    case isFalse hstart =>
      have hrest := ih ((List.infix_cons_iff.mp h).resolve_left hstart)
      exact Nat.succ_lt_succ hrest

/-- Exactly the texts without the pattern are left as they are. -/
theorem replaceAll_eq_self_iff (hpattern : pattern ≠ []) :
    replaceAll pattern replacement text = text ↔ ¬pattern <:+: text := by
  refine ⟨fun hself hfound ↦ ?_, replaceAll_of_absent⟩
  have hlength := length_lt_replaceAll hlonger hpattern hfound
  rw [hself] at hlength
  exact lt_irrefl _ hlength

end Longer

omit [DecidableEq α]

/-- A pattern does not reach into a part of the text without the pattern's last element. -/
theorem infix_append_iff_of_getLast {left right : List α} (hpattern : pattern ≠ [])
    (hlast : pattern.getLast hpattern ∉ right) :
    pattern <:+: left ++ right ↔ pattern <:+: left := by
  refine ⟨fun h ↦ ?_, List.infix_append_of_infix_left⟩
  rcases List.infix_append_iff_ne_nil.mp h with hleft | hright |
    ⟨front, back, _, hback, rfl, _, hstart⟩
  · exact hleft
  · exact absurd (hright.subset (List.getLast_mem hpattern)) hlast
  · rw [List.getLast_append_of_ne_nil _ hback] at hlast
    exact absurd (hstart.subset (List.getLast_mem hback)) hlast

/-- A pattern that ends with a separator occurs in a text up to its only separator exactly if the
text ends like the pattern. -/
theorem infix_concat_iff_suffix (init : List α) {text : List α} {last : α} (hlast : last ∉ text) :
    init ++ [last] <:+: text ++ [last] ↔ init <:+ text := by
  rw [List.infix_concat_iff, List.suffix_concat_iff]
  constructor
  · rintro ((hnil | ⟨front, hfront, hsuffix⟩) | hfound)
    · exact absurd hnil (List.concat_ne_nil last init)
    · exact List.append_cancel_right hfront ▸ hsuffix
    · exact absurd (hfound.subset (List.mem_append_right init List.mem_cons_self)) hlast
  · intro hsuffix
    exact Or.inl (Or.inr ⟨init, rfl, hsuffix⟩)

end Replace
