import DeviceForge.Proofs.Skeleton
import DeviceForge.Proofs.Zone.Rewriting

/-!
# A zone among damage

A zone that is written whole is recovered whole, whatever the markers of other
zones do before it and after it.  The scan may hold another zone open when the
zone begins, or have given up any number of ids: the line that opens the zone
forgets the one, and the others do not concern it.
-/

namespace DeviceForge

open Text Skeleton

namespace MarkerStyle

variable {style : MarkerStyle} {id : ZoneId}

/-- No line of the text is a marker of the id. -/
def Unmarked (style : MarkerStyle) (id : ZoneId) (cs : List Char) : Prop :=
  ∀ line ∈ splitLines cs,
    style.read? line ≠ some (.opens id) ∧ style.read? line ≠ some (.closes id)

instance (style : MarkerStyle) (id : ZoneId) (cs : List Char) :
    Decidable (style.Unmarked id cs) :=
  inferInstanceAs (Decidable (∀ _ ∈ _, _))

theorem Plain.unmarked {cs : List Char} (h : style.Plain cs) (id : ZoneId) :
    style.Unmarked id cs := by
  intro line hline
  simp [h line hline]

theorem Unmarked.append {front back : List Char} (h : style.Unmarked id front)
    (hcomplete : Complete front) (hback : style.Unmarked id back) :
    style.Unmarked id (front ++ back) := by
  intro line hline
  rw [splitLines_append hcomplete, List.mem_append] at hline
  exact hline.elim (h line) (hback line)

/-- A zone is closed by a line that names it, whatever is open before. -/
theorem notMem_closings_of_forall_not_closes {lines : List (List Char)}
    (h : ∀ line ∈ lines, style.read? line ≠ some (.closes id))
    (opened : Option ZoneText) :
    id ∉ (style.closings opened lines).map Prod.fst := by
  intro hid
  obtain ⟨zone, hzone, rfl⟩ := List.mem_map.mp hid
  obtain ⟨front, closing, rest, rfl, -, hcloses⟩ := exists_closing_of_mem_closings hzone
  exact h closing (by simp) hcloses

/-- A zone that is closed was opened by a line that names it. -/
theorem notMem_closings_of_forall_not_opens {lines : List (List Char)}
    (h : ∀ line ∈ lines, style.read? line ≠ some (.opens id)) :
    id ∉ (style.closings none lines).map Prod.fst := by
  intro hid
  obtain ⟨zone, hzone, rfl⟩ := List.mem_map.mp hid
  obtain ⟨front, closing, rest, rfl, hopened, -⟩ := exists_closing_of_mem_closings hzone
  obtain ⟨before, opening, inner, rfl, hopens, -⟩ :=
    exists_opening_of_openAfterAll hopened
  exact h opening (by simp) hopens

theorem get?_recoverZones_eq_none_of_notMem {text : String}
    (h : id ∉ (style.closings none (splitLines text.toList)).map Prod.fst) :
    (recoverZones style text).zones.get? id = none := by
  rw [get?_recoverZones_eq_none_iff, List.count_eq_zero.mpr h]
  decide

variable {pre body post indent indent' : String}

/-- The zone is closed between what the texts around it close. -/
theorem closings_of_zone (hbegin : ReadableZone id indent)
    (hend : ReadableZone id indent') (hpre : Complete pre.toList)
    (hbody : style.ZoneBody body.toList) (post : String) :
    style.closings none (splitLines (pre.toList ++ (style.beginLine indent id ++
        (body.toList ++ (style.endLine indent' id ++ post.toList))))) =
      style.closings none (splitLines pre.toList) ++
        (id, body.toList) :: style.closings none (splitLines post.toList) := by
  have hclosing : IsLine (style.endLine indent' id) :=
    isLine_endLine hend.newline_notMem_indent hend.newline_notMem_id
  have hback : splitLines (style.endLine indent' id ++ post.toList) =
      style.endLine indent' id :: splitLines post.toList := by
    rw [splitLines_append hclosing.complete, hclosing.splitLines_eq,
      List.singleton_append]
  have hfound : style.openAfterAll (some (id, [])) (splitLines body.toList) =
      some (id, body.toList) := by
    rw [openAfterAll_of_plain hbody.2, Scan.map_bodyLine_splitLines,
      ended_of_complete hbody.1, flatten_splitLines]
    rfl
  exact closings_between hpre
    (isLine_beginLine hbegin.newline_notMem_indent hbegin.newline_notMem_id)
    (read?_beginLine hbegin.allBlank_indent hbegin.id_ne_empty) hbody.1 hfound
    (closings_of_plain hbody.2 _) hback
      (read?_endLine hend.allBlank_indent hend.id_ne_empty)

/-- With both markers in place the zone is recovered with its body. -/
theorem get?_recoverZones_of_zone (hbegin : ReadableZone id indent)
    (hend : ReadableZone id indent') (hpre : Complete pre.toList)
    (hunmarkedPre : style.Unmarked id pre.toList) (hbody : style.ZoneBody body.toList)
    (hunmarkedPost : style.Unmarked id post.toList) :
    (recoverZones style (pre ++ (indent ++ style.beginMarker id ++ "\n") ++ body ++
        (indent' ++ style.endMarker id ++ "\n") ++ post)).zones.get? id =
          some body := by
  have hbefore : id ∉ (style.closings none (splitLines pre.toList)).map Prod.fst :=
    notMem_closings_of_forall_not_closes
      (fun line hline => (hunmarkedPre line hline).2) none
  have hafter : id ∉ (style.closings none (splitLines post.toList)).map Prod.fst :=
    notMem_closings_of_forall_not_closes
      (fun line hline => (hunmarkedPost line hline).2) none
  have hclosings := closings_of_zone hbegin hend hpre hbody post
  rw [get?_recoverZones_eq_some_iff]
  simp only [String.toList_append, List.append_assoc, beginLine, endLine] at hclosings ⊢
  rw [show "\n".toList = ['\n'] from rfl, hclosings]
  refine ⟨?_, by simp⟩
  rw [List.map_append, List.map_cons, List.count_append, List.count_cons_self,
    List.count_eq_zero.mpr hbefore, List.count_eq_zero.mpr hafter]

/-- Without the line that opens it, nothing opens the zone. -/
theorem get?_recoverZones_of_no_begin (hend : ReadableZone id indent')
    (hpre : Complete pre.toList) (hunmarkedPre : style.Unmarked id pre.toList)
    (hbody : style.ZoneBody body.toList)
    (hunmarkedPost : style.Unmarked id post.toList) :
    (recoverZones style (pre ++ body ++ (indent' ++ style.endMarker id ++ "\n") ++
        post)).zones.get? id = none := by
  have hclosing : IsLine (style.endLine indent' id) :=
    isLine_endLine hend.newline_notMem_indent hend.newline_notMem_id
  have htext : (pre ++ body ++ (indent' ++ style.endMarker id ++ "\n") ++ post).toList =
      pre.toList ++ (body.toList ++ (style.endLine indent' id ++ post.toList)) := by
    simp [endLine]
  apply get?_recoverZones_eq_none_of_notMem
  rw [htext, splitLines_append hpre, splitLines_append hbody.1,
    splitLines_append hclosing.complete, hclosing.splitLines_eq]
  apply notMem_closings_of_forall_not_opens
  intro line hline
  simp only [List.mem_append, List.mem_singleton] at hline
  rcases hline with hline | hline | rfl | hline
  · exact (hunmarkedPre line hline).1
  · exact (hbody.2.unmarked id line hline).1
  · simp [read?_endLine hend.allBlank_indent hend.id_ne_empty]
  · exact (hunmarkedPost line hline).1

/-- Without the line that closes it, nothing closes the zone. -/
theorem get?_recoverZones_of_no_end (hbegin : ReadableZone id indent)
    (hpre : Complete pre.toList) (hunmarkedPre : style.Unmarked id pre.toList)
    (hbody : style.ZoneBody body.toList)
    (hunmarkedPost : style.Unmarked id post.toList) :
    (recoverZones style (pre ++ (indent ++ style.beginMarker id ++ "\n") ++ body ++
        post)).zones.get? id = none := by
  have hopening : IsLine (style.beginLine indent id) :=
    isLine_beginLine hbegin.newline_notMem_indent hbegin.newline_notMem_id
  have htext :
      (pre ++ (indent ++ style.beginMarker id ++ "\n") ++ body ++ post).toList =
      pre.toList ++ (style.beginLine indent id ++ (body.toList ++ post.toList)) := by
    simp [beginLine]
  apply get?_recoverZones_eq_none_of_notMem
  rw [htext, splitLines_append hpre, splitLines_append hopening.complete,
    splitLines_append hbody.1, hopening.splitLines_eq]
  apply notMem_closings_of_forall_not_closes
  intro line hline
  simp only [List.mem_append, List.mem_singleton] at hline
  rcases hline with hline | rfl | hline | hline
  · exact (hunmarkedPre line hline).2
  · simp [read?_beginLine hbegin.allBlank_indent hbegin.id_ne_empty]
  · exact (hbody.2.unmarked id line hline).2
  · exact (hunmarkedPost line hline).2

/-- A text that never names a zone does not have it. -/
theorem get?_recoverZones_of_unmarked {text : String}
    (h : style.Unmarked id text.toList) :
    (recoverZones style text).zones.get? id = none :=
  get?_recoverZones_eq_none_of_notMem
    (notMem_closings_of_forall_not_closes (fun line hline => (h line hline).2) none)

/-- Whatever the markers of other ids around it are, a zone is recovered with
its body if both its markers stand, and not at all if one of them is missing,
or both. -/
theorem get?_recoverZones_among_damage (hbegin : ReadableZone id indent)
    (hend : ReadableZone id indent') (hpre : Complete pre.toList)
    (hunmarkedPre : style.Unmarked id pre.toList) (hbody : style.ZoneBody body.toList)
    (hunmarkedPost : style.Unmarked id post.toList) :
    (recoverZones style (pre ++ (indent ++ style.beginMarker id ++ "\n") ++ body ++
        (indent' ++ style.endMarker id ++ "\n") ++ post)).zones.get? id = some body ∧
      (recoverZones style (pre ++ body ++ (indent' ++ style.endMarker id ++ "\n") ++
        post)).zones.get? id = none ∧
      (recoverZones style (pre ++ (indent ++ style.beginMarker id ++ "\n") ++ body ++
        post)).zones.get? id = none ∧
      (recoverZones style (pre ++ body ++ post)).zones.get? id = none := by
  refine ⟨get?_recoverZones_of_zone hbegin hend hpre hunmarkedPre hbody hunmarkedPost,
    get?_recoverZones_of_no_begin hend hpre hunmarkedPre hbody hunmarkedPost,
    get?_recoverZones_of_no_end hbegin hpre hunmarkedPre hbody hunmarkedPost,
    get?_recoverZones_of_unmarked ?_⟩
  rw [String.toList_append, String.toList_append, List.append_assoc]
  exact hunmarkedPre.append hpre ((hbody.2.unmarked id).append hbody.1 hunmarkedPost)

/-- A zone is cut off before the zone `a` begins.  After it, that zone is
closed, and a last one never is. -/
theorem get?_recoverZones_among_damage_of_hash :
    (recoverZones .hash ("x\n#----- PROTECTED REGION ID(b) ENABLED START -----#\n" ++
        ("" ++ MarkerStyle.hash.beginMarker ⟨"a"⟩ ++ "\n") ++ "kept\n" ++
        ("  " ++ MarkerStyle.hash.endMarker ⟨"a"⟩ ++ "\n") ++
        ("#----- PROTECTED REGION END(b) -----#\n" ++
          "#----- PROTECTED REGION ID(c) ENABLED START -----#\ny"))).zones.get? ⟨"a"⟩ =
      some "kept\n" := by
  have hbegin : ReadableZone ⟨"a"⟩ "" :=
    ⟨by decide, by decide, by simp [AllBlank], by decide⟩
  have hend : ReadableZone ⟨"a"⟩ "  " :=
    ⟨by decide, by decide, by simp [AllBlank, isBlank], by decide⟩
  exact (get?_recoverZones_among_damage hbegin hend (by decide) (by decide +kernel)
    ⟨by decide, by decide +kernel⟩ (by decide +kernel)).1

end MarkerStyle

end DeviceForge
