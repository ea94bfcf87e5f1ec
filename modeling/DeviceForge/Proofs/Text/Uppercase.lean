import DeviceForge.Proofs.Name

/-!
# The front of an upper case

The upper case of a character is not empty and does not begin with a letter from
`a` to `z`.  Words that are put together to a class name do not begin with one
either.
-/

namespace DeviceForge.Text

theorem isLower_eq_false_iff {c : Char} :
    c.isLower = false ↔ c.toNat < 0x61 ∨ 0x7A < c.toNat := by
  have hle : ∀ {a b : Char}, a.val ≤ b.val ↔ a.toNat ≤ b.toNat := UInt32.le_iff_toNat_le
  rw [Char.isLower, Bool.and_eq_false_iff, decide_eq_false_iff_not,
    decide_eq_false_iff_not, ge_iff_le, hle, hle, not_le, not_le]
  rfl

theorem isLower_ofNat {n : ℕ} (h : n < 0x61 ∨ 0x7A < n) :
    (Char.ofNat n).isLower = false := by
  rw [isLower_eq_false_iff, Char.toNat_ofNat]
  split <;> omega

/-- No run leads to a lower case letter. -/
theorem shift_of_mem_caseRuns : ∀ run ∈ caseRuns,
    (run.last : ℤ) + run.shift < 0x61 ∨ 0x7A < (run.first : ℤ) + run.shift := by
  decide +kernel

theorem exists_head_of_mem_longUppercase : ∀ entry ∈ longUppercase,
    ∃ first ∈ entry.2.head?, first < 0x61 ∨ 0x7A < first := by
  decide +kernel

/-- The upper case of a character starts with one that is no lower case letter of ASCII.
-/
theorem exists_head_uppercase (c : Char) :
    ∃ d ∈ (uppercase c).head?, d.isLower = false := by
  unfold uppercase
  split
  · next codes hcodes =>
      obtain ⟨front, back, hentry, -⟩ := List.lookup_eq_some_iff.mp hcodes
      obtain ⟨first, hfirst, hrange⟩ :=
        exists_head_of_mem_longUppercase (c.toNat, codes) (by simp [hentry])
      refine ⟨Char.ofNat first, ?_, isLower_ofNat hrange⟩
      rw [List.head?_map]
      exact Option.mem_map_of_mem _ hfirst
  · split
    · next run hrun =>
        refine ⟨_, rfl, isLower_ofNat ?_⟩
        have hcovers := List.find?_some hrun
        simp only [CaseRun.covers, Bool.and_eq_true, decide_eq_true_eq] at hcovers
        have hshift := shift_of_mem_caseRuns run (List.mem_of_find?_eq_some hrun)
        omega
    · next hnone =>
        -- the letters from `a` to `z` are the first run
        have hletters :=
          List.find?_eq_none.mp hnone ⟨0x61, 0x7A, 1, -32⟩ List.mem_cons_self
        simp only [CaseRun.covers, Nat.mod_one, BEq.rfl, Bool.and_true,
          Bool.and_eq_true, decide_eq_true_eq, not_and, not_le] at hletters
        refine ⟨c, rfl, isLower_eq_false_iff.mpr ?_⟩
        omega

end DeviceForge.Text

namespace DeviceForge.Name

open Text

/-- So no class name starts with a lower case letter. -/
theorem isLower_of_mem_head?_join {text : String} {d : Char}
    (h : d ∈ (join text).toList.head?) : d.isLower = false := by
  rw [join, String.toList_ofList] at h
  generalize words text = ws at h
  induction ws with
  | nil => simp at h
  | cons word rest ih =>
      cases word with
      | nil => exact ih h
      | cons c word =>
          obtain ⟨first, hfirst, hlower⟩ := exists_head_uppercase c
          rw [List.flatMap_cons, List.append_assoc, List.head?_append,
            Option.mem_def.mp hfirst] at h
          obtain rfl : first = d := Option.some.inj h
          exact hlower

/-- A class name does not begin with a letter from `a` to `z`. -/
theorem isLower_of_ofText {text name : String} (h : ofText text = .ok name) {d : Char}
    (hd : d ∈ name.toList.head?) : d.isLower = false := by
  obtain ⟨⟨⟩, -, rfl⟩ := Outcome.map_eq_ok_iff.mp h
  exact isLower_of_mem_head?_join hd

end DeviceForge.Name
