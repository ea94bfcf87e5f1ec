import Mathlib
import DeviceForge.Text.Lines

/-!
# Lines put together and taken apart

A text is complete when it is empty or ends its last line.  What follows a
complete text starts a line of its own, so the lines of the two together are
the lines of the one and then those of the other.
-/

namespace DeviceForge.Text

/-- Nothing is missing at the end: the text is empty or ends its last line. -/
def Complete (cs : List Char) : Prop :=
  cs = [] ∨ cs.getLast? = some '\n'

instance (cs : List Char) : Decidable (Complete cs) :=
  inferInstanceAs (Decidable (_ ∨ _))

/-- A whole line: its only line feed is its last character. -/
def IsLine (line : List Char) : Prop :=
  ∃ content, '\n' ∉ content ∧ line = content ++ ['\n']

@[simp]
theorem complete_nil : Complete [] :=
  Or.inl rfl

theorem complete_concat (cs : List Char) : Complete (cs ++ ['\n']) :=
  Or.inr (by simp)

theorem Complete.append {front back : List Char} (hfront : Complete front)
    (hback : Complete back) : Complete (front ++ back) := by
  rcases hback with rfl | hback
  · simpa using hfront
  · right
    simp [List.getLast?_append, hback]

/-- Texts that end their last lines do so when they are put together. -/
theorem Complete.flatten {texts : List (List Char)}
    (htexts : ∀ text ∈ texts, Complete text) : Complete texts.flatten := by
  induction texts with
  | nil => simp
  | cons text texts ih =>
      rw [List.flatten_cons]
      exact (htexts text List.mem_cons_self).append
        (ih fun other hother => htexts other (List.mem_cons_of_mem _ hother))

theorem Complete.tail {c : Char} {cs : List Char} (h : Complete (c :: cs)) :
    Complete cs := by
  cases cs with
  | nil => simp
  | cons d ds =>
      rcases h with h | h
      · simp at h
      · right
        simpa [List.getLast?_cons_cons] using h

theorem eq_newline_of_complete_singleton {c : Char} (h : Complete [c]) :
    c = '\n' := by
  rcases h with h | h
  · simp at h
  · simpa using h

theorem IsLine.complete {line : List Char} (h : IsLine line) : Complete line := by
  obtain ⟨content, -, rfl⟩ := h
  exact complete_concat content

theorem IsLine.concat {content : List Char} (h : '\n' ∉ content) :
    IsLine (content ++ ['\n']) :=
  ⟨content, h, rfl⟩

@[simp]
theorem splitLines_nil : splitLines [] = [] := rfl

theorem splitLines_newline_cons (cs : List Char) :
    splitLines ('\n' :: cs) = ['\n'] :: splitLines cs := by
  simp [splitLines]

theorem splitLines_cons_of_ne {c : Char} (hc : c ≠ '\n') (cs : List Char) :
    splitLines (c :: cs) =
      match splitLines cs with
      | [] => [[c]]
      | line :: rest => (c :: line) :: rest :=
  if_neg hc

theorem splitLines_ne_nil {cs : List Char} (h : cs ≠ []) : splitLines cs ≠ [] := by
  intro hnil
  apply h
  rw [← flatten_splitLines cs, hnil, List.flatten_nil]

/-- What follows a complete text starts a line. -/
theorem splitLines_append {front : List Char} (hfront : Complete front)
    (back : List Char) :
    splitLines (front ++ back) = splitLines front ++ splitLines back := by
  induction front with
  | nil => rfl
  | cons c cs ih =>
      have htail := ih hfront.tail
      by_cases hc : c = '\n'
      · subst c
        rw [List.cons_append, splitLines_newline_cons, splitLines_newline_cons,
          htail, List.cons_append]
      · have hcs : cs ≠ [] := by
          rintro rfl
          exact hc (eq_newline_of_complete_singleton hfront)
        rw [List.cons_append, splitLines_cons_of_ne hc, splitLines_cons_of_ne hc,
          htail]
        cases hlines : splitLines cs with
        | nil => exact absurd hlines (splitLines_ne_nil hcs)
        | cons line rest => rfl

/-- Text without a line feed is a single line. -/
theorem splitLines_of_notMem {content : List Char} (hcontent : '\n' ∉ content)
    (hne : content ≠ []) : splitLines content = [content] := by
  induction content with
  | nil => exact absurd rfl hne
  | cons c cs ih =>
      rw [List.mem_cons, not_or] at hcontent
      rw [splitLines_cons_of_ne (Ne.symm hcontent.1)]
      cases cs with
      | nil => rfl
      | cons d ds => rw [ih hcontent.2 (by simp)]

theorem splitLines_line {content : List Char} (hcontent : '\n' ∉ content) :
    splitLines (content ++ ['\n']) = [content ++ ['\n']] := by
  induction content with
  | nil => rfl
  | cons c cs ih =>
      rw [List.mem_cons, not_or] at hcontent
      rw [List.cons_append, splitLines_cons_of_ne (Ne.symm hcontent.1),
        ih hcontent.2]

theorem IsLine.splitLines_eq {line : List Char} (h : IsLine line) :
    splitLines line = [line] := by
  obtain ⟨content, hcontent, rfl⟩ := h
  exact splitLines_line hcontent

/-- Lines that are put together are split again at the same places. -/
theorem splitLines_flatten {lines : List (List Char)}
    (hlines : ∀ line ∈ lines, IsLine line) : splitLines lines.flatten = lines := by
  induction lines with
  | nil => rfl
  | cons line rest ih =>
      have hline := hlines line List.mem_cons_self
      rw [List.flatten_cons, splitLines_append hline.complete, hline.splitLines_eq,
        ih fun other hother => hlines other (List.mem_cons_of_mem _ hother)]
      rfl

/-- The lines of a text are whole, but for the last one of an incomplete text. -/
theorem isLine_or_of_mem_splitLines {cs line : List Char}
    (hline : line ∈ splitLines cs) :
    IsLine line ∨ ('\n' ∉ line ∧ line ≠ []) := by
  induction cs generalizing line with
  | nil => simp at hline
  | cons c cs ih =>
      by_cases hc : c = '\n'
      · subst c
        rw [splitLines_newline_cons, List.mem_cons] at hline
        rcases hline with rfl | hline
        · exact Or.inl ⟨[], by simp, rfl⟩
        · exact ih hline
      · rw [splitLines_cons_of_ne hc] at hline
        cases hlines : splitLines cs with
        | nil =>
            simp only [hlines, List.mem_singleton] at hline
            subst hline
            exact Or.inr ⟨by simpa using Ne.symm hc, by simp⟩
        | cons first rest =>
            simp only [hlines, List.mem_cons] at hline ih
            rcases hline with rfl | hline
            · rcases ih (Or.inl rfl) with ⟨content, hcontent, rfl⟩ | ⟨hfirst, -⟩
              · exact Or.inl ⟨c :: content, by simp [hcontent, Ne.symm hc], rfl⟩
              · exact Or.inr ⟨by simp [hfirst, Ne.symm hc], by simp⟩
            · exact ih (Or.inr hline)

/-- A line that is not the last one is whole. -/
theorem isLine_of_splitLines_cons {cs first next : List Char} {rest : List (List Char)}
    (h : splitLines cs = first :: next :: rest) : IsLine first := by
  induction cs generalizing first with
  | nil => simp at h
  | cons c cs ih =>
      by_cases hc : c = '\n'
      · subst c
        rw [splitLines_newline_cons] at h
        rw [← (List.cons.inj h).1]
        exact ⟨[], by simp, rfl⟩
      · rw [splitLines_cons_of_ne hc] at h
        split at h
        · simp at h
        · next line others hlines =>
            obtain ⟨rfl, rfl⟩ := List.cons.inj h
            obtain ⟨content, hcontent, rfl⟩ := ih hlines
            exact ⟨c :: content, by simp [hcontent, Ne.symm hc], rfl⟩

/-- The lines of a text fall into whole ones and the lines of the rest of it. -/
theorem splitLines_eq_append {cs line : List Char} {front rest : List (List Char)}
    (h : splitLines cs = front ++ line :: rest) :
    (∀ other ∈ front, IsLine other) ∧
      splitLines (line :: rest).flatten = line :: rest := by
  induction front generalizing cs with
  | nil =>
      rw [List.nil_append] at h
      rw [← h, flatten_splitLines]
      exact ⟨by simp, rfl⟩
  | cons first front ih =>
      have hfirst : IsLine first := by
        cases front with
        | nil => exact isLine_of_splitLines_cons h
        | cons next front => exact isLine_of_splitLines_cons h
      have hrest : splitLines (front ++ line :: rest).flatten =
          front ++ line :: rest := by
        have hcs : cs = first ++ (front ++ line :: rest).flatten := by
          rw [← flatten_splitLines cs, h]
          rfl
        rw [hcs, splitLines_append hfirst.complete, hfirst.splitLines_eq] at h
        exact (List.cons.inj h).2
      obtain ⟨hfront, hback⟩ := ih hrest
      exact ⟨List.forall_mem_cons.mpr ⟨hfirst, hfront⟩, hback⟩

/-- A line is its contents and its end. -/
theorem exists_eq_chomp_append (line : List Char) :
    ∃ ending, line = chomp line ++ ending ∧
    (ending = [] ∨ ending = ['\n'] ∨ ending = ['\r', '\n']) := by
  rw [chomp]
  split
  · next rest h => exact ⟨_, by simpa using congrArg List.reverse h, .inr (.inr rfl)⟩
  · next rest _ h => exact ⟨_, by simpa using congrArg List.reverse h, .inr (.inl rfl)⟩
  · exact ⟨[], by simp, .inl rfl⟩

theorem chomp_isPrefix (line : List Char) : chomp line <+: line := by
  obtain ⟨ending, hline, -⟩ := exists_eq_chomp_append line
  exact ⟨ending, hline.symm⟩

/-- The contents leave out the line feed. -/
theorem chomp_concat_isPrefix (content : List Char) :
    chomp (content ++ ['\n']) <+: content := by
  rw [chomp, List.reverse_append, List.reverse_singleton, List.singleton_append]
  split
  · next rest hrest =>
      have hcontent := congrArg List.reverse (List.cons.inj hrest).2
      rw [List.reverse_reverse, List.reverse_cons] at hcontent
      exact ⟨['\r'], hcontent.symm⟩
  · next rest _ hrest => rw [← (List.cons.inj hrest).2, List.reverse_reverse]
  · next hother => exact absurd rfl (hother _)

theorem newline_notMem_chomp {cs line : List Char} (hline : line ∈ splitLines cs) :
    '\n' ∉ chomp line := by
  rcases isLine_or_of_mem_splitLines hline with ⟨content, hcontent, rfl⟩ | ⟨hline, -⟩
  · exact fun hmem => hcontent ((chomp_concat_isPrefix content).subset hmem)
  · exact fun hmem => hline ((chomp_isPrefix line).subset hmem)

/-- A line that does not end in a carriage return is its content again. -/
theorem chomp_line {content : List Char} (h : content.getLast? ≠ some '\r') :
    chomp (content ++ ['\n']) = content := by
  rw [chomp, List.reverse_append, List.reverse_singleton, List.singleton_append]
  split
  · next rest hrest =>
      rw [← List.head?_reverse, (List.cons.inj hrest).2] at h
      exact absurd rfl h
  · next rest _ hrest => rw [← (List.cons.inj hrest).2, List.reverse_reverse]
  · next hother => exact absurd rfl (hother _)

/-! ## Ending the last line -/

def ended (cs : List Char) : List Char :=
  if Complete cs then cs else cs ++ ['\n']

theorem ended_of_complete {cs : List Char} (h : Complete cs) : ended cs = cs :=
  if_pos h

theorem ended_of_not_complete {cs : List Char} (h : ¬ Complete cs) :
    ended cs = cs ++ ['\n'] :=
  if_neg h

theorem complete_ended (cs : List Char) : Complete (ended cs) := by
  by_cases h : Complete cs
  · rwa [ended_of_complete h]
  · rw [ended_of_not_complete h]
    exact complete_concat cs

@[simp]
theorem ended_nil : ended [] = [] := rfl

theorem ended_newline_cons (cs : List Char) :
    ended ('\n' :: cs) = '\n' :: ended cs := by
  have hiff : Complete ('\n' :: cs) ↔ Complete cs := by
    refine ⟨Complete.tail, fun h => ?_⟩
    exact (Complete.append (complete_concat []) h)
  by_cases h : Complete cs
  · rw [ended_of_complete h, ended_of_complete (hiff.mpr h)]
  · rw [ended_of_not_complete h, ended_of_not_complete (hiff.not.mpr h)]
    rfl

theorem ended_cons_of_ne_nil (c : Char) {cs : List Char} (hcs : cs ≠ []) :
    ended (c :: cs) = c :: ended cs := by
  have hiff : Complete (c :: cs) ↔ Complete cs := by
    simp [Complete, hcs, List.getLast?_cons, List.getLast?_eq_some_getLast hcs]
  by_cases h : Complete cs
  · rw [ended_of_complete h, ended_of_complete (hiff.mpr h)]
  · rw [ended_of_not_complete h, ended_of_not_complete (hiff.not.mpr h)]
    rfl

/-- What stands before does not matter to the end of the last line. -/
theorem ended_append {front : List Char} (hfront : Complete front)
    (back : List Char) : ended (front ++ back) = front ++ ended back := by
  by_cases hback : Complete back
  · rw [ended_of_complete hback, ended_of_complete (hfront.append hback)]
  · have hwhole : ¬ Complete (front ++ back) := by
      rintro (hnil | hlast)
      · exact hback (Or.inl (List.append_eq_nil_iff.mp hnil).2)
      · apply hback
        cases back with
        | nil => exact complete_nil
        | cons c cs =>
            rw [List.getLast?_append_of_ne_nil _ (by simp)] at hlast
            exact Or.inr hlast
    rw [ended_of_not_complete hback, ended_of_not_complete hwhole,
      List.append_assoc]

/-- The string and its characters are ended in the same way. -/
@[simp]
theorem toList_endLine (s : String) : (endLine s).toList = ended s.toList := by
  unfold endLine
  by_cases h : Complete s.toList
  · have htest : (s.toList.isEmpty || s.toList.getLast? == some '\n') = true := by
      simpa [Complete] using h
    rw [if_pos htest, ended_of_complete h]
  · have htest : (s.toList.isEmpty || s.toList.getLast? == some '\n') = false := by
      simpa [Complete] using h
    rw [htest, ended_of_not_complete h]
    simp

theorem endLine_of_complete {s : String} (h : Complete s.toList) :
    endLine s = s := by
  apply String.toList_injective
  rw [toList_endLine, ended_of_complete h]

end DeviceForge.Text
