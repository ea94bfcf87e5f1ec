import DeviceForge.Proofs.Name

/-!
# Words of names

A name that is put into snake case keeps its words and loses the case of its
letters.  So two names end up the same exactly if their words are the same but
for that.  Between underscores a word starts at some of the capitals, and which
ones they are can be told from the letters beside them.
-/

namespace DeviceForge.Name

/-- The words of a name that is read after the character `previous`.  A word
ends at an underscore, and before a capital that starts another one. -/
def snakeWordsAfter (previous : Option Char) : List Char → List (List Char)
  | [] => [[]]
  | c :: rest =>
    let later := snakeWordsAfter (some c) rest
    if c = '_' then [] :: later
    else if c.isUpper && startsWord previous rest.head? then
      [] :: later.modifyHead (c :: ·)
    else later.modifyHead (c :: ·)

/-- The words of a name without the case of their letters. -/
def snakeWords (name : String) : List (List Char) :=
  (snakeWordsAfter none name.toList).map (·.map Char.toLower)

theorem toLower_ne_underscore {c : Char} (h : c ≠ '_') : c.toLower ≠ '_' := by
  by_cases hupper : c.isUpper = true
  · intro heq
    have halpha : c.toLower.isAlpha = true := by simp [Char.isAlpha, hupper]
    rw [heq] at halpha
    exact absurd halpha (by decide)
  · rw [Char.toLower_eq_of_not_isUpper hupper]
    exact h

/-- A character that is no capital is its own lower case, so all characters are read
alike. -/
theorem snakeChars_cons (previous : Option Char) (c : Char) (rest : List Char) :
    snakeChars previous (c :: rest) =
      if c.isUpper && startsWord previous rest.head? then
        '_' :: c.toLower :: snakeChars (some c) rest
      else c.toLower :: snakeChars (some c) rest := by
  rw [snakeChars]
  by_cases hupper : c.isUpper = true
  · simp only [hupper, if_true, Bool.true_and]
  · rw [Char.toLower_eq_of_not_isUpper hupper]
    simp only [hupper, Bool.false_eq_true, if_false, Bool.false_and]

/-- The underscores of a name in snake case stand between its words. -/
theorem splitOn_snakeChars (previous : Option Char) (cs : List Char) :
    (snakeChars previous cs).splitOn '_' =
      (snakeWordsAfter previous cs).map (·.map Char.toLower) := by
  induction cs generalizing previous with
  | nil => rfl
  | cons c rest ih =>
      by_cases hc : c = '_'
      · subst c
        rw [snakeChars_cons, if_neg (by simp +decide),
          List.splitOn_cons_eq_if_modifyHead, if_pos (by decide), ih, snakeWordsAfter,
          if_pos rfl]
        rfl
      · have hletter : (c.toLower :: snakeChars (some c) rest).splitOn '_' =
            ((snakeWordsAfter (some c) rest).modifyHead (c :: ·)).map
              (·.map Char.toLower) := by
          rw [List.splitOn_cons_eq_if_modifyHead,
            if_neg (by simpa using toLower_ne_underscore hc), ih]
          cases snakeWordsAfter (some c) rest <;> rfl
        rw [snakeChars_cons, snakeWordsAfter, if_neg hc]
        split
        · rw [List.splitOn_cons_eq_if_modifyHead, if_pos (by decide), hletter]
          rfl
        · exact hletter

/-- Two names share their snake case exactly if they share their words. -/
theorem snakeCase_eq_iff {name other : String} :
    snakeCase name = snakeCase other ↔ snakeWords name = snakeWords other := by
  rw [snakeCase, snakeCase, snakeWords, snakeWords, ← splitOn_snakeChars,
    ← splitOn_snakeChars]
  constructor
  · intro h
    rw [String.ofList_injective h]
  · intro h
    have hchars := congrArg (['_'].intercalate ·) h
    simp only [List.intercalate_splitOn] at hchars
    rw [hchars]

example : snakeCase "GoUp" = snakeCase "go_Up" := by decide
example : snakeCase "GoUp" ≠ snakeCase "Goup" := by decide

/-- A word starts at a capital behind a lower case letter or a digit, and at one
between a capital and a lower case letter. -/
def StartsWordAt (cs : List Char) : ℕ → Prop
  | 0 => False
  | i + 1 => ∃ p ∈ cs[i]?, ∃ c ∈ cs[i + 1]?, c.isUpper ∧
      (p.isLower ∨ p.isDigit ∨ p.isUpper ∧ ∃ next ∈ cs[i + 2]?, next.isLower)

instance (cs : List Char) : DecidablePred (StartsWordAt cs)
  | 0 => inferInstanceAs (Decidable False)
  | _ + 1 => inferInstanceAs (Decidable (∃ _ ∈ _, ∃ _ ∈ _, _))

theorem lt_length_of_startsWordAt {cs : List Char} {i : ℕ} (h : StartsWordAt cs i) :
    i < cs.length := by
  cases i with
  | zero => exact h.elim
  | succ i =>
      obtain ⟨p, -, c, hc, -⟩ := h
      exact (List.getElem?_eq_some_iff.mp hc).1

/-- The two neighbours that the reading of a name sees are enough to tell. -/
theorem startsWordAt_length_iff {front rest : List Char} {c : Char} :
    StartsWordAt (front ++ c :: rest) front.length ↔
      (c.isUpper && startsWord front.getLast? rest.head?) = true := by
  cases front using List.reverseRecOn with
  | nil => simp [StartsWordAt, startsWord]
  | append_singleton front p =>
      have hp : (front ++ [p] ++ c :: rest)[front.length]? = some p := by simp
      have hc : (front ++ [p] ++ c :: rest)[front.length + 1]? = some c := by simp
      have hnext : (front ++ [p] ++ c :: rest)[front.length + 2]? = rest.head? := by
        rw [List.append_assoc, List.getElem?_append_right (by omega),
          List.head?_eq_getElem?]
        simp
      rw [List.length_append, List.length_singleton, StartsWordAt, hp, hc, hnext]
      cases rest <;> simp [startsWord, or_assoc]

/-- A character behind an underscore, if a word starts at it. -/
def marked (piece : Char × Bool) : List Char :=
  if piece.2 then ['_', piece.1] else [piece.1]

/-- The characters of a name in lower case, each with whether a word starts at it. -/
def wordStarts (cs : List Char) : List (Char × Bool) :=
  cs.zipIdx.map fun (c, i) => (c.toLower, decide (StartsWordAt cs i))

/-- What is read behind `front` keeps the positions of the whole name. -/
theorem snakeChars_eq_flatMap (front back : List Char) :
    snakeChars front.getLast? back =
      ((back.zipIdx front.length).map fun (c, i) =>
        (c.toLower, decide (StartsWordAt (front ++ back) i))).flatMap marked := by
  induction back generalizing front with
  | nil => rfl
  | cons c rest ih =>
      have hrest := ih (front ++ [c])
      rw [List.getLast?_concat, List.length_append, List.length_singleton,
        List.append_assoc, List.singleton_append] at hrest
      rw [snakeChars_cons, hrest, List.zipIdx_cons, List.map_cons, List.flatMap_cons]
      simp only [marked, startsWordAt_length_iff, Bool.decide_eq_true]
      split <;> rfl

/-- A name in snake case is its letters in lower case, with an underscore before each
one that starts a word. -/
theorem toList_snakeCase (name : String) :
    (snakeCase name).toList = (wordStarts name.toList).flatMap marked := by
  rw [snakeCase, String.toList_ofList]
  exact snakeChars_eq_flatMap [] name.toList

/-- Where no character is an underscore itself, the underscores tell which are marked.
-/
theorem flatMap_marked_inj {xs ys : List (Char × Bool)} (hxs : ∀ x ∈ xs, x.1 ≠ '_')
    (hys : ∀ y ∈ ys, y.1 ≠ '_') (h : xs.flatMap marked = ys.flatMap marked) :
    xs = ys := by
  induction xs generalizing ys with
  | nil =>
      cases ys with
      | nil => rfl
      | cons y ys => obtain ⟨d, _ | _⟩ := y <;> simp [marked] at h
  | cons x xs ih =>
      cases ys with
      | nil => obtain ⟨c, _ | _⟩ := x <;> simp [marked] at h
      | cons y ys =>
          obtain ⟨hx, hxs⟩ := List.forall_mem_cons.mp hxs
          obtain ⟨hy, hys⟩ := List.forall_mem_cons.mp hys
          obtain ⟨c, _ | _⟩ := x <;> obtain ⟨d, _ | _⟩ := y <;>
            simp only [List.flatMap_cons, marked, if_true, if_false, List.cons_append,
              List.nil_append, List.cons.injEq, Bool.false_eq_true] at h hx hy
          all_goals grind

theorem map_fst_wordStarts (cs : List Char) :
    (wordStarts cs).map Prod.fst = cs.map Char.toLower := by
  have hfst : Prod.fst ∘
      (fun x : Char × ℕ => (x.1.toLower, decide (StartsWordAt cs x.2))) =
      Char.toLower ∘ Prod.fst := rfl
  rw [wordStarts, List.map_map, hfst, ← List.map_map, List.zipIdx_map_fst]

theorem getElem?_wordStarts (cs : List Char) (i : ℕ) :
    (wordStarts cs)[i]? = (cs.map Char.toLower)[i]?.map
      (·, decide (StartsWordAt cs i)) := by
  simp only [wordStarts, List.getElem?_map, List.getElem?_zipIdx, Option.map_map,
    Nat.zero_add]
  rfl

/-- The marks of a name are there for all positions at which a word starts, and for no
others. -/
theorem startsWordAt_iff_getElem? {cs : List Char} {i : ℕ} :
    StartsWordAt cs i ↔ ∃ c, (wordStarts cs)[i]? = some (c, true) := by
  rw [getElem?_wordStarts]
  constructor
  · intro h
    have hi : i < (cs.map Char.toLower).length := by
      rw [List.length_map]
      exact lt_length_of_startsWordAt h
    exact ⟨_, by rw [List.getElem?_eq_getElem hi, decide_eq_true h, Option.map_some]⟩
  · rintro ⟨c, hc⟩
    obtain ⟨d, -, hd⟩ := Option.map_eq_some_iff.mp hc
    exact of_decide_eq_true (Prod.mk.inj hd).2

/-- Names without underscores have the same snake case exactly if they differ in
nothing but the case of their letters, and the same letters start words. -/
theorem snakeCase_eq_iff_startsWordAt {name other : String} (hname : '_' ∉ name.toList)
    (hother : '_' ∉ other.toList) :
    snakeCase name = snakeCase other ↔
      name.toList.map Char.toLower = other.toList.map Char.toLower ∧
        ∀ i, StartsWordAt name.toList i ↔ StartsWordAt other.toList i := by
  have hletters : ∀ {cs : List Char}, '_' ∉ cs → ∀ x ∈ wordStarts cs, x.1 ≠ '_' := by
    intro cs hcs x hx
    have hfst : x.1 ∈ cs.map Char.toLower :=
      map_fst_wordStarts cs ▸ List.mem_map_of_mem hx
    obtain ⟨c, hc, heq⟩ := List.mem_map.mp hfst
    rw [← heq]
    exact toLower_ne_underscore fun h => hcs (h ▸ hc)
  have hstarts : snakeCase name = snakeCase other ↔
      wordStarts name.toList = wordStarts other.toList := by
    rw [← String.toList_inj, toList_snakeCase, toList_snakeCase]
    exact ⟨flatMap_marked_inj (hletters hname) (hletters hother), fun h => h ▸ rfl⟩
  rw [hstarts]
  constructor
  · intro h
    refine ⟨?_, fun i => ?_⟩
    · rw [← map_fst_wordStarts, h, map_fst_wordStarts]
    · rw [startsWordAt_iff_getElem?, startsWordAt_iff_getElem?, h]
  · rintro ⟨hlower, hsame⟩
    refine List.ext_getElem? fun i => ?_
    rw [getElem?_wordStarts, getElem?_wordStarts, hlower,
      decide_eq_decide.mpr (hsame i)]

example : snakeCase "GoUp" = snakeCase "GoUP" := by decide

/-- With its first character in lower case a name keeps all others. -/
theorem mapFirst_toLower_eq_iff {name other : String} :
    Text.mapFirst Char.toLower name = Text.mapFirst Char.toLower other ↔
      name.toList.head?.map Char.toLower = other.toList.head?.map Char.toLower ∧
        name.toList.tail = other.toList.tail := by
  rw [Text.mapFirst, Text.mapFirst, String.ofList_inj]
  cases name.toList <;> cases other.toList <;> simp

end DeviceForge.Name
