import DeviceForge.Text.Escape
import Mathlib.Data.List.Chain

/-!
# Free text inside block comments

Putting two characters apart adds spaces and nothing else.  Other characters that
do not meet before do not meet behind either, so what is put apart last leaves
apart what was put apart first: escaped text neither opens nor closes a block
comment.
-/

namespace DeviceForge.Text

/-- The first character is never directly followed by the second. -/
def Apart (a b : Char) (cs : List Char) : Prop :=
  cs.IsChain fun c d => ¬ (c = a ∧ d = b)

def Unopened (cs : List Char) : Prop :=
  cs.IsChain fun c d => ¬ (c = '/' ∧ d = '*')

instance (a b : Char) (cs : List Char) : Decidable (Apart a b cs) :=
  inferInstanceAs (Decidable (List.IsChain _ _))

instance (cs : List Char) : Decidable (Unopened cs) :=
  inferInstanceAs (Decidable (List.IsChain _ _))

section Apart

variable {a b : Char} {cs front back : List Char}

/-- One more character keeps the two apart unless it is the first of them and the second
follows. -/
theorem apart_cons_iff {c : Char} :
    Apart a b (c :: cs) ↔ (c = a → b ∉ cs.head?) ∧ Apart a b cs := by
  rw [Apart, List.isChain_cons]
  refine and_congr_left fun _ => ?_
  constructor
  · intro h hc hb
    exact h b hb ⟨hc, rfl⟩
  · rintro h d hd ⟨hc, rfl⟩
    exact h hc hd

/-- Two characters are apart exactly if they do not stand in the text as a pair. -/
theorem apart_iff_not_isInfix : Apart a b cs ↔ ¬ [a, b] <:+: cs := by
  induction cs with
  | nil => simp [Apart]
  | cons c rest ih =>
      have hpair : [a, b] <+: c :: rest ↔ c = a ∧ b ∈ rest.head? := by
        rw [List.cons_prefix_cons, eq_comm]
        cases rest <;> simp [List.cons_prefix_cons, eq_comm]
      rw [apart_cons_iff, List.infix_cons_iff, hpair, not_or, ih, not_and]

theorem apart_of_notMem_left (h : a ∉ cs) : Apart a b cs := by
  rw [apart_iff_not_isInfix]
  exact fun hpair => h (hpair.subset (by simp))

theorem apart_of_notMem_right (h : b ∉ cs) : Apart a b cs := by
  rw [apart_iff_not_isInfix]
  exact fun hpair => h (hpair.subset (by simp))

/-- Texts may follow each other if the first does not end with the first character. -/
theorem Apart.append (hfront : Apart a b front) (hback : Apart a b back)
    (hlast : a ∉ front.getLast?) : Apart a b (front ++ back) := by
  rw [Apart, List.isChain_append]
  exact ⟨hfront, hback, fun c hc d _ hpair => hlast (hpair.1 ▸ hc)⟩

/-- A third character between two texts keeps them apart. -/
theorem apart_append_cons_iff {c : Char} (ha : c ≠ a) (hb : c ≠ b) :
    Apart a b (front ++ c :: back) ↔ Apart a b front ∧ Apart a b back := by
  rw [Apart, List.isChain_append, ← Apart, ← Apart, apart_cons_iff]
  have hmeet : ∀ d ∈ front.getLast?, ∀ e ∈ (c :: back).head?, ¬ (d = a ∧ e = b) := by
    intro d _ e he hpair
    rw [List.head?_cons, Option.mem_some_iff] at he
    exact hb (he.trans hpair.2)
  constructor
  · rintro ⟨hfront, ⟨-, hback⟩, -⟩
    exact ⟨hfront, hback⟩
  · rintro ⟨hfront, hback⟩
    exact ⟨hfront, ⟨fun hc => absurd hc ha, hback⟩, hmeet⟩

end Apart

theorem unopened_of_notMem_slash {cs : List Char} (h : '/' ∉ cs) : Unopened cs :=
  apart_of_notMem_left h

theorem unopened_of_notMem_star {cs : List Char} (h : '*' ∉ cs) : Unopened cs :=
  apart_of_notMem_right h

/-- A text that does not end with a slash does not open a comment with the next. -/
theorem Unopened.append {front back : List Char} (hfront : Unopened front)
    (hback : Unopened back) (hlast : '/' ∉ front.getLast?) : Unopened (front ++ back) :=
  Apart.append hfront hback hlast

section Separate

variable {a b : Char}

/-- A space comes between two characters, so never first. -/
theorem head?_separate (a b c : Char) (rest : List Char) :
    (separate a b (c :: rest)).head? = some c := by
  cases rest with
  | nil => rfl
  | cons d rest =>
      rw [separate]
      split
      · next hpair => simp [hpair.1]
      · rfl

/-- Separated characters never meet. -/
theorem apart_separate (ha : a ≠ ' ') (hb : b ≠ ' ') (cs : List Char) :
    Apart a b (separate a b cs) := by
  fun_induction separate a b cs with
  | case1 => exact List.isChain_nil
  | case2 c => exact List.isChain_singleton c
  | case3 c d rest hpair ih =>
      rw [apart_cons_iff, apart_cons_iff]
      exact ⟨fun _ hspace => hb (Option.some.inj hspace).symm,
        fun hspace => absurd hspace.symm ha, ih⟩
  | case4 c d rest hpair ih =>
      rw [apart_cons_iff, head?_separate]
      exact ⟨fun hc hd => hpair ⟨hc, Option.some.inj hd⟩, ih⟩

/-- Spaces do not bring others together. -/
theorem Apart.separate {x y : Char} (hx : x ≠ ' ') (hy : y ≠ ' ') {cs : List Char}
    (h : Apart x y cs) : Apart x y (separate a b cs) := by
  fun_induction Text.separate a b cs with
  | case1 => exact h
  | case2 c => exact h
  | case3 c d rest hpair ih =>
      rw [apart_cons_iff] at h
      rw [apart_cons_iff, apart_cons_iff]
      exact ⟨fun _ hspace => hy (Option.some.inj hspace).symm,
        fun hspace => absurd hspace.symm hx, ih h.2⟩
  | case4 c d rest hpair ih =>
      rw [apart_cons_iff] at h
      rw [apart_cons_iff, head?_separate]
      exact ⟨h.1, ih h.2⟩

/-- Text without the pair is left as it is. -/
theorem separate_of_apart {cs : List Char} (h : Apart a b cs) :
    separate a b cs = cs := by
  fun_induction separate a b cs with
  | case1 => rfl
  | case2 c => rfl
  | case3 c d rest hpair ih =>
      rw [apart_cons_iff] at h
      exact absurd (congrArg some hpair.2) (h.1 hpair.1)
  | case4 c d rest hpair ih =>
      rw [apart_cons_iff] at h
      rw [ih h.2]

/-- Separating puts in nothing but spaces. -/
theorem filter_space_separate (cs : List Char) :
    (separate a b cs).filter (· ≠ ' ') = cs.filter (· ≠ ' ') := by
  fun_induction separate a b cs with
  | case1 => rfl
  | case2 c => rfl
  | case3 c d rest hpair ih =>
      rw [hpair.1, List.filter_cons, List.filter_cons_of_neg (by simp), ih]
      simp only [List.filter_cons]
  | case4 c d rest hpair ih =>
      simp only [List.filter_cons, ih]

end Separate

section Escape

variable (s : String)

theorem unopened_escapeComment : Unopened (escapeComment s).toList := by
  rw [escapeComment, String.toList_ofList]
  exact apart_separate (by decide) (by decide) _

/-- Putting apart what opens a comment does not bring together what closes one. -/
theorem unclosed_escapeComment : Apart '*' '/' (escapeComment s).toList := by
  rw [escapeComment, String.toList_ofList]
  exact (apart_separate (by decide) (by decide) _).separate (by decide) (by decide)

theorem escapeComment_escapeComment :
    escapeComment (escapeComment s) = escapeComment s := by
  rw [escapeComment, separate_of_apart (unclosed_escapeComment s),
    separate_of_apart (unopened_escapeComment s), String.ofList_toList]

theorem filter_space_escapeComment :
    (escapeComment s).toList.filter (· ≠ ' ') = s.toList.filter (· ≠ ' ') := by
  rw [escapeComment, String.toList_ofList, filter_space_separate, filter_space_separate]

end Escape

end DeviceForge.Text
