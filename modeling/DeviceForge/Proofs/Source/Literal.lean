import DeviceForge.Proofs.Source.Docstring

/-!
# What a literal holds

A literal goes on up to the first quote that is not escaped.  The writer puts a
backslash only where it starts an escape or is the second character of one, so
each quote that it writes for a text is escaped, and the one behind the text is
not.  With the escapes undone, the text is there again but for its carriage
returns.
-/

namespace DeviceForge

open Text Docstring

namespace Text

/-- What a backslash makes of the character behind it. -/
def escapeMeaning? : Char → Option Char
  | '\\' => some '\\'
  | '"' => some '"'
  | 'n' => some '\n'
  | 't' => some '\t'
  | _ => none

/-- What stands between the quotes of a literal, with the escapes undone.  A quote or a
backslash has to be part of an escape, and an escape has to mean something. -/
def unescape? : List Char → Option (List Char)
  | [] => some []
  | '\\' :: mark :: rest =>
    (escapeMeaning? mark).bind fun c => (unescape? rest).map (c :: ·)
  | c :: rest => if c = '\\' ∨ c = '"' then none else (unescape? rest).map (c :: ·)

def withoutReturns (s : String) : List Char :=
  s.toList.filter (· ≠ '\r')

def literalBody (s : String) : List Char :=
  s.toList.flatMap literalChar

theorem toList_literal (s : String) :
    (literal s).toList = '"' :: (literalBody s ++ ['"']) := by
  rw [literal, String.toList_ofList]
  rfl

/-- A character is left out, or written as an escape that means it, or as it is. -/
theorem literalChar_cases (c : Char) :
    (c = '\r' ∧ literalChar c = []) ∨
    (c ≠ '\r' ∧ ∃ mark, literalChar c = ['\\', mark] ∧ escapeMeaning? mark = some c) ∨
    (c ≠ '\r' ∧ c ≠ '\\' ∧ c ≠ '"' ∧ literalChar c = [c]) := by
  unfold literalChar
  split
  · next h =>
      exact Or.inr (Or.inl ⟨by simp [h], '\\', rfl, by simp [h, escapeMeaning?]⟩)
  split
  · next h => exact Or.inr (Or.inl ⟨by simp [h], '"', rfl, by simp [h, escapeMeaning?]⟩)
  split
  · next h => exact Or.inr (Or.inl ⟨by simp [h], 'n', rfl, by simp [h, escapeMeaning?]⟩)
  split
  · next h => exact Or.inr (Or.inl ⟨by simp [h], 't', rfl, by simp [h, escapeMeaning?]⟩)
  split
  · next h => exact Or.inl ⟨h, rfl⟩
  · next hslash hquote _ _ hreturn =>
      exact Or.inr (Or.inr ⟨hreturn, hslash, hquote, rfl⟩)

theorem unescape?_escape {mark c : Char} (h : escapeMeaning? mark = some c)
    (rest : List Char) :
    unescape? ('\\' :: mark :: rest) = (unescape? rest).map (c :: ·) := by
  rw [unescape?, h, Option.bind_some]

theorem unescape?_cons {c : Char} (hslash : c ≠ '\\') (hquote : c ≠ '"')
    (rest : List Char) :
    unescape? (c :: rest) = (unescape? rest).map (c :: ·) := by
  simp [unescape?, hslash, hquote]

/-- Escapes are undone one by one, and carriage returns are not written. -/
theorem unescape?_flatMap_literalChar (cs : List Char) :
    unescape? (cs.flatMap literalChar) = some (cs.filter (· ≠ '\r')) := by
  induction cs with
  | nil => rfl
  | cons c rest ih =>
      rw [List.flatMap_cons]
      rcases literalChar_cases c with ⟨rfl, hc⟩ | ⟨hreturn, mark, hc, hmeaning⟩ |
        ⟨hreturn, hslash, hquote, hc⟩
      · simpa [hc] using ih
      · rw [hc, List.cons_append, List.singleton_append, unescape?_escape hmeaning, ih]
        simp [hreturn]
      · rw [hc, List.singleton_append, unescape?_cons hslash hquote, ih]
        simp [hreturn]

theorem unescape?_literalBody (s : String) :
    unescape? (literalBody s) = some (withoutReturns s) :=
  unescape?_flatMap_literalChar s.toList

theorem escaped_concat_backslash_iff (front : List Char) :
    Escaped (front ++ ['\\']) ↔ ¬ Escaped front := by
  rw [Escaped, Escaped, List.rtakeWhile_concat, if_pos (by decide), List.length_append,
    List.length_singleton, Nat.odd_add_one]

/-- An escape is over with its second character. -/
theorem not_escaped_append_escape {front : List Char} (h : ¬ Escaped front)
    (mark : Char) :
    ¬ Escaped (front ++ ['\\', mark]) := by
  have hsplit : front ++ ['\\', mark] = front ++ ['\\'] ++ [mark] := by simp
  rw [hsplit]
  by_cases hmark : mark = '\\'
  · rw [hmark, escaped_concat_backslash_iff, escaped_concat_backslash_iff, not_not]
    exact h
  · exact not_escaped_concat hmark _

/-- Backslashes are written in pairs or with the letter that they escape, so the quote
that follows is not escaped. -/
theorem not_escaped_flatMap_literalChar (cs : List Char) :
    ¬ Escaped (cs.flatMap literalChar) := by
  induction cs using List.reverseRecOn with
  | nil => decide
  | append_singleton cs c ih =>
      rw [List.flatMap_append, List.flatMap_singleton]
      rcases literalChar_cases c with ⟨-, hc⟩ | ⟨-, mark, hc, -⟩ | ⟨-, hslash, -, hc⟩
      · rwa [hc, List.append_nil]
      · rw [hc]
        exact not_escaped_append_escape ih mark
      · rw [hc]
        exact not_escaped_concat hslash _

/-- A quote is written behind a backslash. -/
theorem eq_backslash_of_literalChar {c : Char} {front back : List Char}
    (h : literalChar c = front ++ '"' :: back) : front = ['\\'] := by
  rcases literalChar_cases c with ⟨-, hc⟩ | ⟨-, mark, hc, -⟩ | ⟨-, -, hquote, hc⟩
  · simp [hc] at h
  · match front with
    | [] => simp [hc] at h
    | [d] =>
        obtain ⟨hd, -⟩ : '\\' = d ∧ _ := by simpa [hc] using h
        rw [hd]
    | d :: e :: rest => simp [hc] at h
  · match front with
    | [] =>
      exact absurd (by simpa [hc] using h) (not_and_of_not_left (back = []) hquote)
    | d :: rest => simp [hc] at h

/-- Every quote that is written for a text is escaped. -/
theorem escaped_of_flatMap_literalChar {cs front back : List Char}
    (h : cs.flatMap literalChar = front ++ '"' :: back) : Escaped front := by
  induction cs using List.reverseRecOn generalizing back with
  | nil => simp at h
  | append_singleton cs c ih =>
      rw [List.flatMap_append, List.flatMap_singleton, List.append_eq_append_iff] at h
      rcases h with ⟨gap, rfl, hgap⟩ | ⟨gap, hfront, hgap⟩
      · rw [eq_backslash_of_literalChar hgap, escaped_concat_backslash_iff]
        exact not_escaped_flatMap_literalChar cs
      · cases gap with
        | nil =>
            have hnil : ([] : List Char) = ['\\'] :=
              eq_backslash_of_literalChar hgap.symm
            exact absurd hnil (by simp)
        | cons d gap =>
            obtain ⟨rfl, -⟩ := List.cons.inj hgap
            exact ih hfront

/-- Carriage returns leave no trace. -/
theorem literalBody_eq (s : String) :
    literalBody s = (withoutReturns s).flatMap literalChar := by
  rw [literalBody, withoutReturns]
  induction s.toList with
  | nil => rfl
  | cons c rest ih =>
      by_cases hc : c = '\r'
      · simpa [hc, literalChar] using ih
      · simpa [hc] using ih

/-- Texts have the same literal exactly if they differ in carriage returns only. -/
theorem literal_eq_literal_iff {s t : String} :
    literal s = literal t ↔ withoutReturns s = withoutReturns t := by
  constructor
  · intro h
    have hchars := congrArg String.toList h
    rw [toList_literal, toList_literal, List.cons.injEq] at hchars
    have hbody : literalBody s = literalBody t := List.append_cancel_right hchars.2
    apply Option.some_injective
    rw [← unescape?_literalBody, hbody, unescape?_literalBody]
  · intro h
    apply String.toList_injective
    rw [toList_literal, toList_literal, literalBody_eq, h, ← literalBody_eq]

theorem withoutReturns_of_lacks {s : String} (h : Lacks '\r' s) :
    withoutReturns s = s.toList := by
  rw [withoutReturns, List.filter_eq_self]
  intro c hc
  rw [decide_eq_true_eq]
  rintro rfl
  exact h hc

/-- A literal stands on one line.  It starts with a quote, and of the quotes behind that
one the first that is not escaped is its last character.  What is between them says the
text without its carriage returns, so texts without any are told apart by their
literals. -/
theorem literal_exact :
    (∀ s : String, Lacks '\n' (literal s) ∧
      ∃ body, (literal s).toList = '"' :: (body ++ ['"']) ∧
        ¬ Escaped body ∧ (∀ front back, body = front ++ '"' :: back → Escaped front) ∧
        unescape? body = some (withoutReturns s)) ∧
    Set.InjOn literal {s | Lacks '\r' s} := by
  refine ⟨fun s => ⟨lacks_newline_literal s, literalBody s, toList_literal s,
    not_escaped_flatMap_literalChar _, fun _ _ => escaped_of_flatMap_literalChar,
    unescape?_literalBody s⟩, fun s hs t ht heq => ?_⟩
  have hchars := literal_eq_literal_iff.mp heq
  rw [withoutReturns_of_lacks hs, withoutReturns_of_lacks ht] at hchars
  exact String.toList_injective hchars

end Text

end DeviceForge
