import DeviceForge.Proofs.Device.Reachable

/-!
# The names along a chain

Classes that join a chain are looked at with all their ancestors, so the
ancestors of a class never share a name.  A new name for the class itself is not
compared with theirs: along any course of edits, the names of a class and of its
ancestors stay distinct as long as no edit names the class like an ancestor of
it, and no longer.
-/

namespace DeviceForge

/-- No edit of members or states changes the name of the class. -/
theorem ClassBody.name_of_edit {body after : ClassBody} {edit : MemberEdit}
    (h : body.edit edit = .ok after) : after.name = body.name := by
  cases edit with
  | add member =>
      obtain ⟨-, -, rfl⟩ := add_eq_ok_iff.mp h
      exact (states_append body member).2
  | rename kind old new =>
      obtain ⟨-, -, ⟨-, rfl⟩ | ⟨-, rfl⟩⟩ := rename_eq_ok_iff.mp h
      · rfl
      · exact name_mapMembers ..
  | remove key =>
      obtain ⟨-, rfl⟩ := remove_eq_ok_iff.mp h
      exact name_mapMembers ..

/-- The edit gives a class the name of one of its ancestors. -/
def ClassEdit.TakesAncestorName (cls : DeviceClass) : ClassEdit → Prop
  | .setName text => ∃ ancestor ∈ cls.ancestors, Name.ofText text = .ok ancestor.name
  | _ => False

namespace DeviceClass

def lineage (cls : DeviceClass) : List String :=
  cls.chain.map (·.name)

variable {cls after : DeviceClass}

theorem nodup_lineage_iff :
    cls.lineage.Nodup ↔
      cls.name ∉ cls.ancestors.map (·.name) ∧ (cls.ancestors.map (·.name)).Nodup := by
  rw [lineage, chain, List.map_cons, List.nodup_cons]

theorem lineage_of_editBody {f : ClassBody → Except ModelError ClassBody}
    (hf : ∀ body, f cls.toClassBody = .ok body → body.name = cls.name)
    (hedit : cls.editBody f = .ok after) : after.lineage = cls.lineage := by
  obtain ⟨body, hbody, rfl⟩ := editBody_eq_ok_iff.mp hedit
  rw [lineage, chain, List.map_cons, hf body hbody, lineage, chain, List.map_cons]

/-- The names that join the chain are new to it, and different from each other. -/
theorem nodup_lineage_addAncestor {ancestor : DeviceClass} (h : cls.lineage.Nodup)
    (hadd : cls.addAncestor ancestor = .ok after) : after.lineage.Nodup := by
  obtain ⟨⟨⟩, hcheck, rfl⟩ := Outcome.map_eq_ok_iff.mp hadd
  obtain ⟨hnew, hnodup⟩ := checkChain_eq_ok_iff.mp hcheck
  have hlineage :
      ({ cls with ancestors := cls.ancestors ++ ancestor.chain } :
          DeviceClass).lineage =
        cls.lineage ++ ancestor.chain.map (·.name) := by
    rw [lineage, chain, ← List.cons_append, List.map_append]
    rfl
  have hdisjoint : cls.lineage.Disjoint (ancestor.chain.map (·.name)) := by
    intro name hname hjoined
    obtain ⟨level, hlevel, rfl⟩ := List.mem_map.mp hjoined
    exact (hnew level hlevel).2 hname
  rw [hlineage]
  exact h.append hnodup hdisjoint

theorem nodup_lineage_inheritFrom {parent : DeviceClass}
    (hinherit : cls.inheritFrom parent = .ok after) : after.lineage.Nodup := by
  obtain ⟨⟨⟩, hcheck, rfl⟩ := Outcome.map_eq_ok_iff.mp hinherit
  obtain ⟨hnew, hnodup⟩ := checkChain_eq_ok_iff.mp hcheck
  refine nodup_lineage_iff.mpr ⟨fun hname => ?_, hnodup⟩
  obtain ⟨level, hlevel, hsame⟩ := List.mem_map.mp hname
  exact (hnew level hlevel).2 (List.mem_singleton.mpr hsame)

theorem nodup_lineage_setName_iff {text : String} (h : cls.lineage.Nodup)
    (hset : cls.setName text = .ok after) :
    after.lineage.Nodup ↔ ¬ (ClassEdit.setName text).TakesAncestorName cls := by
  obtain ⟨name, hname, rfl⟩ := Outcome.map_eq_ok_iff.mp hset
  rw [nodup_lineage_iff, and_iff_left (nodup_lineage_iff.mp h).2, not_iff_not,
    List.mem_map, ClassEdit.TakesAncestorName]
  simp only [hname, Except.ok.injEq, eq_comm]

/-- An accepted edit keeps the names distinct, unless it takes the name of an ancestor.
-/
theorem nodup_lineage_apply_iff {edit : ClassEdit} (h : cls.lineage.Nodup)
    (happly : cls.apply edit = .ok after) :
    after.lineage.Nodup ↔ ¬ edit.TakesAncestorName cls := by
  -- any other edit is not in the way: the names are the old ones, or were compared
  have hother : ¬ edit.TakesAncestorName cls → after.lineage.Nodup →
      (after.lineage.Nodup ↔ ¬ edit.TakesAncestorName cls) :=
    fun htakes hnodup => iff_of_true hnodup htakes
  cases edit with
  | members edit =>
      refine hother not_false ?_
      rwa [lineage_of_editBody (f := (·.edit edit))
        (fun body => ClassBody.name_of_edit) happly]
  | addState state =>
      refine hother not_false ?_
      rwa [lineage_of_editBody (f := (·.addState state)) (fun body hbody => by
        obtain ⟨-, -, rfl⟩ := ClassBody.addState_eq_ok_iff.mp hbody
        rfl) happly]
  | removeState name =>
      obtain rfl := Except.ok.inj happly
      exact hother not_false h
  | setAllowedStates key names =>
      refine hother not_false ?_
      rwa [lineage_of_editBody (f := (·.setAllowedStates key names))
        (fun body hbody => by
          obtain ⟨-, rfl⟩ := ClassBody.setAllowedStates_eq_ok_iff.mp hbody
          rfl) happly]
  | setName text => exact nodup_lineage_setName_iff h happly
  | setLanguage language =>
      obtain rfl := eq_of_setLanguage happly
      exact hother not_false h
  | addAncestor ancestor => exact hother not_false (nodup_lineage_addAncestor h happly)
  | inheritFrom parent => exact hother not_false (nodup_lineage_inheritFrom happly)

/-- The class after an edit, which stays as it is when the edit is refused. -/
def attempt (cls : DeviceClass) (edit : ClassEdit) : DeviceClass :=
  match cls.apply edit with
  | .ok after => after
  | .error _ => cls

/-- The class at the start and after each of the edits. -/
def course (cls : DeviceClass) (edits : List ClassEdit) : List DeviceClass :=
  edits.scanl attempt cls

theorem course_cons (cls : DeviceClass) (edit : ClassEdit) (rest : List ClassEdit) :
    cls.course (edit :: rest) = cls :: (cls.attempt edit).course rest :=
  List.scanl_cons ..

/-- A name that an ancestor has is a name, so the edit that takes it is accepted. -/
theorem ne_error_of_takesAncestorName {edit : ClassEdit}
    (h : edit.TakesAncestorName cls) (error : ModelError) :
    cls.apply edit ≠ .error error := by
  cases edit with
  | setName text =>
      obtain ⟨ancestor, -, hname⟩ := h
      rw [apply, setName, hname]
      simp [Except.map]
  | _ => exact absurd h not_false

theorem nodup_lineage_attempt_iff {edit : ClassEdit} (h : cls.lineage.Nodup) :
    (cls.attempt edit).lineage.Nodup ↔ ¬ edit.TakesAncestorName cls := by
  rw [attempt]
  split
  · next after happly => exact nodup_lineage_apply_iff h happly
  · next error happly =>
      exact iff_of_true h fun htakes =>
        ne_error_of_takesAncestorName htakes error happly

/-- Names along the chain stay different from edit to edit, until one gives the class
the name of an ancestor. -/
theorem forall_mem_course_iff {edits : List ClassEdit} (h : cls.lineage.Nodup) :
    (∀ visited ∈ cls.course edits, visited.lineage.Nodup) ↔
      ∀ step ∈ (cls.course edits).zip edits, ¬ step.2.TakesAncestorName step.1 := by
  induction edits generalizing cls with
  | nil => simpa [course] using h
  | cons edit rest ih =>
      rw [course_cons, List.zip_cons_cons, List.forall_mem_cons, List.forall_mem_cons,
        ← nodup_lineage_attempt_iff h, and_iff_right h]
      by_cases hnext : (cls.attempt edit).lineage.Nodup
      · rw [ih hnext, and_iff_right hnext]
      · refine iff_of_false (fun hall => hnext (hall _ ?_)) fun hsteps => hnext hsteps.1
        cases rest <;> simp [course]

theorem Reachable.attempt (h : cls.Reachable) {edit : ClassEdit}
    (hattached : ∀ ancestor, edit.attached? = some ancestor → ancestor.Reachable) :
    (cls.attempt edit).Reachable := by
  rw [DeviceClass.attempt]
  split
  · next after happly => exact h.apply hattached happly
  · exact h

/-- A refused edit leaves the class as it was, so all classes on the way are made by
edits too. -/
theorem Reachable.of_mem_course {edits : List ClassEdit} (h : cls.Reachable)
    (hattached : ∀ edit ∈ edits, ∀ ancestor, edit.attached? = some ancestor →
      ancestor.Reachable)
    {visited : DeviceClass} (hvisited : visited ∈ cls.course edits) :
    visited.Reachable := by
  induction edits generalizing cls with
  | nil =>
      obtain rfl := List.mem_singleton.mp hvisited
      exact h
  | cons edit rest ih =>
      rw [List.forall_mem_cons] at hattached
      rw [course_cons, List.mem_cons] at hvisited
      rcases hvisited with rfl | hvisited
      · exact h
      · exact ih (h.attempt hattached.1) hattached.2 hvisited

/-- Along a course of edits of a new class all classes are in reach of the edits, and
each has a name of its own and different ancestors exactly when no edit takes the name
of an ancestor. -/
theorem nodup_lineage_course_iff {text : String} {language : Language}
    {start : DeviceClass} (hstart : DeviceClass.ofText text language = .ok start)
    {edits : List ClassEdit}
    (hattached : ∀ edit ∈ edits, ∀ ancestor, edit.attached? = some ancestor →
      ancestor.Reachable) :
    (∀ visited ∈ start.course edits, visited.Reachable) ∧
      ((∀ visited ∈ start.course edits, visited.lineage.Nodup) ↔
        ∀ step ∈ (start.course edits).zip edits,
          ¬ step.2.TakesAncestorName step.1) := by
  refine ⟨fun visited hvisited =>
    (Reachable.ofText hstart).of_mem_course hattached hvisited,
    forall_mem_course_iff ?_⟩
  obtain ⟨name, -, rfl⟩ := Outcome.map_eq_ok_iff.mp hstart
  exact List.nodup_singleton name

/-- A motor gets a parent and then a name that no ancestor has. -/
theorem nodup_lineage_course_iff_servo :
    let start : DeviceClass := { name := "Motor", language := .java }
    let edits :=
      [ClassEdit.inheritFrom haltingAxis, .setName "servo", .addAncestor haltingAxis]
    DeviceClass.ofText "motor" .java = .ok start ∧
      (∀ visited ∈ start.course edits, visited.Reachable) ∧
      ((∀ visited ∈ start.course edits, visited.lineage.Nodup) ↔
        ∀ step ∈ (start.course edits).zip edits, ¬ step.2.TakesAncestorName step.1) :=
  have hstart : DeviceClass.ofText "motor" .java =
      .ok { name := "Motor", language := .java } := rfl
  ⟨hstart, nodup_lineage_course_iff hstart
    (by simpa [ClassEdit.attached?] using reachable_haltingAxis)⟩

/-- A class that was named like its parent after the parent had joined. -/
def namesake : DeviceClass where
  name := "Axis"
  language := .java
  ancestors := [haltingAxis]

theorem reachable_namesake : namesake.Reachable := by
  have hstart : DeviceClass.ofText "motor" .java =
      .ok { name := "Motor", language := .java } := rfl
  have hedits : DeviceClass.applyAll { name := "Motor", language := .java }
      [.inheritFrom haltingAxis, .setName "axis"] = .ok namesake := rfl
  exact (Reachable.ofText hstart).applyAll
    (by simpa [ClassEdit.attached?] using reachable_haltingAxis) hedits

theorem not_forall_reachable_nodup_lineage :
    ¬ ∀ cls : DeviceClass, cls.Reachable → cls.lineage.Nodup := by
  intro hall
  have hnodup : ["Axis", "Axis"].Nodup := hall namesake reachable_namesake
  simp at hnodup

end DeviceClass

end DeviceForge
