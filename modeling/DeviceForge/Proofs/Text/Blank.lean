import Mathlib
import DeviceForge.Text.Blank

/-!
# Trimming

Blanks around a text do not count for trimming, and a text that starts and
ends with other characters is its own trimming.
-/

namespace DeviceForge.Text

def AllBlank (cs : List Char) : Prop :=
  ∀ c ∈ cs, isBlank c = true

instance (cs : List Char) : Decidable (AllBlank cs) :=
  decidable_of_iff (cs.all isBlank = true) List.all_eq_true

theorem allBlank_replicate_space (n : ℕ) : AllBlank (List.replicate n ' ') := by
  intro c hc
  rw [List.eq_of_mem_replicate hc]
  rfl

theorem AllBlank.append {front back : List Char} (hfront : AllBlank front)
    (hback : AllBlank back) : AllBlank (front ++ back) := by
  intro c hc
  rcases List.mem_append.mp hc with hc | hc
  · exact hfront c hc
  · exact hback c hc

theorem dropLeading_append_of_allBlank {front : List Char}
    (hfront : AllBlank front) (cs : List Char) :
    dropLeading (front ++ cs) = dropLeading cs :=
  List.dropWhile_append_of_pos hfront

theorem dropLeading_eq_nil_iff {cs : List Char} :
    dropLeading cs = [] ↔ AllBlank cs := by
  simp [dropLeading, AllBlank, List.dropWhile_eq_nil_iff]

theorem dropTrailing_append_of_allBlank {back : List Char}
    (hback : AllBlank back) (cs : List Char) :
    dropTrailing (cs ++ back) = dropTrailing cs := by
  have hreverse : AllBlank back.reverse := fun c hc => hback c (List.mem_reverse.mp hc)
  have hdrop := dropLeading_append_of_allBlank hreverse cs.reverse
  simp only [dropLeading] at hdrop
  rw [dropTrailing, List.reverse_append, hdrop]
  rfl

theorem trimChars_append_of_allBlank_left {front : List Char}
    (hfront : AllBlank front) (cs : List Char) :
    trimChars (front ++ cs) = trimChars cs := by
  rw [trimChars, dropLeading_append_of_allBlank hfront]
  rfl

/-- Blanks at the end are trimmed, whatever stands before them. -/
theorem trimChars_append_of_allBlank_right {back : List Char}
    (hback : AllBlank back) (cs : List Char) :
    trimChars (cs ++ back) = trimChars cs := by
  by_cases hcs : AllBlank cs
  · have hall : AllBlank (cs ++ back) := hcs.append hback
    rw [trimChars, trimChars, dropLeading_eq_nil_iff.mpr hall,
      dropLeading_eq_nil_iff.mpr hcs]
  · have hne : (dropLeading cs).isEmpty = false := by
      rw [List.isEmpty_eq_false_iff]
      exact dropLeading_eq_nil_iff.not.mpr hcs
    have hdrop : dropLeading (cs ++ back) = dropLeading cs ++ back := by
      simp only [dropLeading] at hne ⊢
      rw [List.dropWhile_append, hne]
      rfl
    rw [trimChars, hdrop, dropTrailing_append_of_allBlank hback]
    rfl

theorem dropLeading_cons_of_not_blank {c : Char} (hc : isBlank c = false)
    (cs : List Char) : dropLeading (c :: cs) = c :: cs := by
  simp [dropLeading, hc]

theorem dropTrailing_concat_of_not_blank {c : Char} (hc : isBlank c = false)
    (cs : List Char) : dropTrailing (cs ++ [c]) = cs ++ [c] := by
  simp [dropTrailing, hc]

/-- A text between two characters that are not blank stays as it is. -/
theorem trimChars_eq_self {first last : Char} (hfirst : isBlank first = false)
    (hlast : isBlank last = false) (cs : List Char) :
    trimChars (first :: (cs ++ [last])) = first :: (cs ++ [last]) := by
  rw [trimChars, dropLeading_cons_of_not_blank hfirst, ← List.cons_append,
    dropTrailing_concat_of_not_blank hlast]

theorem trimChars_eq_nil_of_allBlank {cs : List Char} (h : AllBlank cs) :
    trimChars cs = [] := by
  rw [trimChars, dropLeading_eq_nil_iff.mpr h]
  rfl

theorem dropTrailing_isPrefix (cs : List Char) : dropTrailing cs <+: cs := by
  rw [dropTrailing, ← List.reverse_suffix, List.reverse_reverse]
  exact List.dropWhile_suffix isBlank

/-- Trimming takes a stretch out of the text. -/
theorem trimChars_isInfix (cs : List Char) : trimChars cs <:+: cs :=
  (dropTrailing_isPrefix (dropLeading cs)).isInfix.trans
    (List.dropWhile_suffix isBlank).isInfix

/-- A text is its own trimming when it has no blanks at either end. -/
theorem trimChars_eq_self_iff {cs : List Char} :
    trimChars cs = cs ↔ dropLeading cs = cs ∧ dropTrailing cs = cs := by
  refine ⟨fun h => ?_, fun h => by rw [trimChars, h.1, h.2]⟩
  have hleading : dropLeading cs = cs := by
    refine (List.dropWhile_suffix isBlank).eq_of_length_le ?_
    calc cs.length = (trimChars cs).length := by rw [h]
      _ ≤ (dropLeading cs).length := (dropTrailing_isPrefix _).length_le
  exact ⟨hleading, by rwa [trimChars, hleading] at h⟩

theorem dropTrailing_append {back : List Char} (h : dropTrailing back = back)
    (hne : back ≠ []) (front : List Char) :
    dropTrailing (front ++ back) = front ++ back := by
  have hback : back.reverse.dropWhile isBlank = back.reverse := by
    rw [← List.reverse_inj, List.reverse_reverse]
    exact h
  rw [dropTrailing, List.reverse_append, List.dropWhile_append, hback]
  simp [hne]

end DeviceForge.Text
