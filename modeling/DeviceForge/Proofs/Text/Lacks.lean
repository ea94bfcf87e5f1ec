import DeviceForge.Proofs.Name
import DeviceForge.Proofs.Text.Blank
import DeviceForge.Proofs.Text.Lines
import DeviceForge.Text.Case
import DeviceForge.Text.Escape

/-!
# Characters that a text lacks

Generated text is put together from fixed words, names, numbers and escaped
text.  Each of them lacks certain characters, and so does what is put together
from them.
-/

namespace DeviceForge.Text

def Lacks (c : Char) (s : String) : Prop :=
  c ∉ s.toList

instance (c : Char) (s : String) : Decidable (Lacks c s) :=
  inferInstanceAs (Decidable (¬ c ∈ s.toList))

variable {c : Char} {s t : String}

@[simp]
theorem lacks_append : Lacks c (s ++ t) ↔ Lacks c s ∧ Lacks c t := by
  simp [Lacks]

@[simp]
theorem lacks_toString : Lacks c (toString s) ↔ Lacks c s :=
  Iff.rfl

theorem lacks_of_isWord (h : Name.IsWord s) (hc : Name.isInnerChar c = false) :
    Lacks c s := by
  intro hmem
  rw [h c hmem] at hc
  exact absurd hc (by simp)

theorem lacks_repr (hc : c.isDigit = false) (n : ℕ) : Lacks c n.repr := by
  intro hmem
  rw [Nat.toList_repr] at hmem
  rw [Nat.isDigit_of_mem_toDigits (by decide) (by decide) hmem] at hc
  exact absurd hc (by simp)

theorem lacks_ofList {cs : List Char} : Lacks c (String.ofList cs) ↔ c ∉ cs := by
  simp [Lacks]

/-- A text that is written out lacks what is not among its characters.  This
spares the evaluation of its encoding. -/
theorem lacks_lit {cs : List Char} (h : c ∉ cs) : Lacks c (String.ofList cs) :=
  lacks_ofList.mpr h

theorem lacks_join {texts : List String} :
    Lacks c (String.join texts) ↔ ∀ text ∈ texts, Lacks c text := by
  simp [Lacks]

/-- The characters of a list of items are those of the items and the commas. -/
theorem lacks_commaList {texts : List String} (hc : Lacks c ", ")
    (h : ∀ text ∈ texts, Lacks c text) : Lacks c (commaList texts) := by
  rw [commaList]
  induction texts with
  | nil => simp [Lacks]
  | cons text rest ih =>
      have hrest := ih fun other hother => h other (List.mem_cons_of_mem _ hother)
      cases rest with
      | nil => simpa using h
      | cons next others =>
          rw [String.intercalate_cons_cons, lacks_append, lacks_append]
          exact ⟨⟨h text List.mem_cons_self, hc⟩, hrest⟩

/-- A literal stays on one line: it writes a line feed of its text as an escape. -/
theorem lacks_newline_literal (s : String) : Lacks '\n' (literal s) := by
  rw [literal, lacks_ofList]
  simp only [List.cons_append, List.mem_cons, List.mem_append, List.mem_flatMap]
  rintro (h | ⟨c, -, h⟩ | h)
  · exact absurd h (by decide)
  · unfold literalChar at h
    split at h
    · exact absurd h (by decide)
    split at h
    · exact absurd h (by decide)
    split at h
    · exact absurd h (by decide)
    split at h
    · exact absurd h (by decide)
    split at h
    · exact absurd h (by simp)
    · next hnewline _ _ =>
        exact hnewline (List.mem_singleton.mp h).symm
  · simp at h

end DeviceForge.Text
