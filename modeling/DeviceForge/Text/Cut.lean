/-!
# Cutting texts apart

A text is cut at a character, or freed from a known start or end. Each function undoes
an append, which is what the lemmas say.
-/

namespace DeviceForge.Text

/-- What stands before and after the first occurrence of a character. -/
def cut? (mark : Char) : List Char → Option (List Char × List Char)
  | [] => none
  | c :: cs =>
    if c = mark then some ([], cs)
    else (cut? mark cs).map fun (before, after) => (c :: before, after)

def afterStart? : List Char → List Char → Option (List Char)
  | [], cs => some cs
  | _ :: _, [] => none
  | p :: ps, c :: cs => if p = c then afterStart? ps cs else none

def beforeEnd? (ending cs : List Char) : Option (List Char) :=
  (afterStart? ending.reverse cs.reverse).map List.reverse

theorem afterStart?_eq_some_iff {start cs rest : List Char} :
    afterStart? start cs = some rest ↔ cs = start ++ rest := by
  induction start generalizing cs with
  | nil => simp [afterStart?, eq_comm]
  | cons p ps ih =>
      cases cs with
      | nil => simp [afterStart?]
      | cons c cs =>
          by_cases h : p = c
          · simp [afterStart?, h, ih]
          · simp [afterStart?, h, Ne.symm h]

theorem beforeEnd?_eq_some_iff {ending cs rest : List Char} :
    beforeEnd? ending cs = some rest ↔ cs = rest ++ ending := by
  simp only [beforeEnd?, Option.map_eq_some_iff, afterStart?_eq_some_iff]
  constructor
  · rintro ⟨r, hr, rfl⟩
    simpa using congrArg List.reverse hr
  · rintro rfl
    exact ⟨rest.reverse, by simp⟩

/-- A cut loses nothing but the mark. -/
theorem eq_of_cut? {mark : Char} {cs before after : List Char}
    (h : cut? mark cs = some (before, after)) : cs = before ++ mark :: after := by
  induction cs generalizing before with
  | nil => simp [cut?] at h
  | cons c cs ih =>
      by_cases hc : c = mark
      · simp only [cut?, hc, if_true, Option.some.injEq, Prod.mk.injEq] at h
        obtain ⟨rfl, rfl⟩ := h
        rw [hc]
        rfl
      · simp only [cut?, hc, if_false, Option.map_eq_some_iff, Prod.mk.injEq,
          Prod.exists] at h
        obtain ⟨b, a, hrest, rfl, rfl⟩ := h
        rw [ih hrest]
        rfl

end DeviceForge.Text
