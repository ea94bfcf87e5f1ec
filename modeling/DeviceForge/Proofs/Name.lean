import DeviceForge.Device.Error
import DeviceForge.Proofs.Outcome
import DeviceForge.Text.Case

/-!
# Identifiers

An identifier is not empty and holds only letters, digits and underscores, so
it can stand where a blank or a punctuation mark ends a name.
-/

namespace DeviceForge.Name

/-- A name without a fault starts with a letter and goes on with inner characters. -/
theorem faultOf_eq_none_iff {cs : List Char} :
    faultOf cs = none ↔
      ∃ c rest, cs = c :: rest ∧ c.isAlpha = true ∧
        ∀ d ∈ rest, isInnerChar d = true := by
  cases cs with
  | nil => simp [faultOf]
  | cons c rest =>
      by_cases hc : c.isAlpha = true
      · simp [faultOf, hc, Option.map_eq_none_iff]
      · simp [faultOf, hc]

theorem isInnerChar_of_mem {name : String} (h : isIdentifier name = true) {c : Char}
    (hc : c ∈ name.toList) : isInnerChar c = true := by
  rw [isIdentifier, fault?, Option.isNone_iff_eq_none, faultOf_eq_none_iff] at h
  obtain ⟨first, rest, hname, hfirst, hrest⟩ := h
  rw [hname, List.mem_cons] at hc
  rcases hc with rfl | hc
  · simp [isInnerChar, Char.isAlphanum, hfirst]
  · exact hrest c hc

theorem notMem_of_isIdentifier {name : String} (h : isIdentifier name = true) {c : Char}
    (hc : isInnerChar c = false) : c ∉ name.toList := by
  intro hmem
  rw [isInnerChar_of_mem h hmem] at hc
  exact absurd hc (by simp)

theorem ne_empty_of_isIdentifier {name : String} (h : isIdentifier name = true) :
    name ≠ "" := by
  rintro rfl
  exact absurd h (by decide)

/-- Only letters, digits and underscores, and possibly nothing at all. -/
def IsWord (name : String) : Prop :=
  ∀ c ∈ name.toList, isInnerChar c = true

theorem isWord_of_isIdentifier {name : String} (h : isIdentifier name = true) :
    IsWord name := fun _ hc => isInnerChar_of_mem h hc

theorem isInnerChar_toLower {c : Char} (h : isInnerChar c = true) :
    isInnerChar c.toLower = true := by
  by_cases hupper : c.isUpper = true
  · have halpha : c.isAlpha = true := by simp [Char.isAlpha, hupper]
    simp [isInnerChar, Char.isAlphanum, halpha]
  · rw [Char.toLower_eq_of_not_isUpper hupper]
    exact h

theorem isInnerChar_toUpper {c : Char} (h : isInnerChar c = true) :
    isInnerChar c.toUpper = true := by
  by_cases hlower : c.isLower = true
  · have halpha : c.isAlpha = true := by simp [Char.isAlpha, hlower]
    simp [isInnerChar, Char.isAlphanum, halpha]
  · rw [Char.toUpper_eq_of_not_isLower hlower]
    exact h

/-- A change of the first character that keeps words words does so for a whole name. -/
theorem IsWord.mapFirst {f : Char → Char}
    (hf : ∀ c, isInnerChar c = true → isInnerChar (f c) = true) {name : String}
    (h : IsWord name) : IsWord (Text.mapFirst f name) := by
  intro c hc
  rw [Text.mapFirst, String.toList_ofList] at hc
  unfold IsWord at h
  cases hname : name.toList with
  | nil => simp [hname] at hc
  | cons first rest =>
      rw [hname] at h hc
      rw [List.modifyHead_cons, List.mem_cons] at hc
      rcases hc with rfl | hc
      · exact hf first (h first List.mem_cons_self)
      · exact h c (List.mem_cons_of_mem _ hc)

theorem IsWord.toLowerAscii {name : String} (h : IsWord name) :
    IsWord (Text.toLowerAscii name) := by
  intro c hc
  rw [Text.toLowerAscii, String.toList_ofList, List.mem_map] at hc
  obtain ⟨d, hd, rfl⟩ := hc
  exact isInnerChar_toLower (h d hd)

/-- Snake case only changes the case of letters and puts in underscores. -/
theorem isInnerChar_of_mem_snakeChars {cs : List Char}
    (h : ∀ c ∈ cs, isInnerChar c = true) {previous : Option Char} {c : Char}
    (hc : c ∈ snakeChars previous cs) : isInnerChar c = true := by
  induction cs generalizing previous with
  | nil => simp [snakeChars] at hc
  | cons first rest ih =>
      have hrest := @ih fun d hd => h d (List.mem_cons_of_mem _ hd)
      have hfirst := h first List.mem_cons_self
      rw [snakeChars] at hc
      split at hc
      · split at hc
        · simp only [List.mem_cons] at hc
          rcases hc with rfl | rfl | hc
          · rfl
          · exact isInnerChar_toLower hfirst
          · exact hrest hc
        · rcases List.mem_cons.mp hc with rfl | hc
          · exact isInnerChar_toLower hfirst
          · exact hrest hc
      · rcases List.mem_cons.mp hc with rfl | hc
        · exact hfirst
        · exact hrest hc

theorem IsWord.snakeCase {name : String} (h : IsWord name) :
    IsWord (snakeCase name) := by
  intro c hc
  rw [Name.snakeCase, String.toList_ofList] at hc
  exact isInnerChar_of_mem_snakeChars h hc

theorem check_eq_ok_iff {name : String} {u : Unit} :
    check name = .ok u ↔ isIdentifier name = true := by
  rw [check, isIdentifier]
  cases fault? name <;> simp

/-- A class name is spelled as an identifier. -/
theorem isIdentifier_of_ofText {text name : String} (h : ofText text = .ok name) :
    isIdentifier name = true := by
  obtain ⟨u, hcheck, rfl⟩ := Outcome.map_eq_ok_iff.mp h
  exact check_eq_ok_iff.mp hcheck

end DeviceForge.Name
