import DeviceForge.Fragments
import DeviceForge.Proofs.Skeleton

/-!
# Fragments read back

Fragments are written out as zones that follow one another, without indentation
and without text between them.  A recovery reads them back as they are.  The one
exception is the empty id, whose marker lines are no markers: its fragment is
passed over like any other text outside of zones.
-/

namespace DeviceForge

open Text

namespace MarkerStyle

/-- The lines that an id and a body are written as. -/
def fragmentLines (style : MarkerStyle) (e : ZoneId × String) : List (List Char) :=
  Skeleton.segmentLines style (fun _ => none) (.zone e.1 e.2 "")

variable {style : MarkerStyle}

theorem read?_beginLine_of_empty {id : ZoneId} (hid : id.text = "") :
    style.read? (style.beginLine "" id) = none := by
  obtain ⟨text⟩ := id
  subst hid
  cases style <;> decide

theorem read?_endLine_of_empty {id : ZoneId} (hid : id.text = "") :
    style.read? (style.endLine "" id) = none := by
  obtain ⟨text⟩ := id
  subst hid
  cases style <;> decide

theorem readableZone_noIndent {id : ZoneId} (hid : id.text ≠ "")
    (hline : '\n' ∉ id.text.toList) :
    Skeleton.ReadableZone id "" :=
  ⟨hid, hline, by simp [AllBlank], by simp⟩

theorem isLine_of_mem_fragmentLines {e : ZoneId × String}
    (hline : '\n' ∉ e.1.text.toList) {line : List Char}
    (h : line ∈ style.fragmentLines e) : IsLine line := by
  simp only [fragmentLines, Skeleton.segmentLines, List.cons_append, List.mem_cons,
    List.mem_append, List.not_mem_nil, or_false] at h
  rcases h with rfl | h | rfl
  · exact isLine_beginLine (by simp) hline
  · exact Scan.isLine_of_mem_splitLines_ended h
  · exact isLine_endLine (by simp) hline

/-- Without an id there is no marker among the lines. -/
theorem plain_fragmentLines_of_empty {e : ZoneId × String} (hid : e.1.text = "")
    (hbody : style.Plain e.2.toList) {line : List Char}
    (h : line ∈ style.fragmentLines e) :
    style.read? line = none := by
  simp only [fragmentLines, Skeleton.segmentLines, List.cons_append, List.mem_cons,
    List.mem_append, List.not_mem_nil, or_false] at h
  rcases h with rfl | h | rfl
  · exact read?_beginLine_of_empty hid
  · exact plain_ended_iff.mpr hbody line h
  · exact read?_endLine_of_empty hid

/-- The lines of a fragment with an id open its zone, whether or not another one is
open, and close it. -/
theorem closings_fragmentLines_of_ne {e : ZoneId × String} (hid : e.1.text ≠ "")
    (hline : '\n' ∉ e.1.text.toList) (hbody : style.ZoneBody e.2.toList)
    (opened : Option ZoneText) (rest : List (List Char)) :
    style.closings opened (style.fragmentLines e ++ rest) =
      (e.1, e.2.toList) :: style.closings none rest :=
  calc style.closings opened (style.fragmentLines e ++ rest)
    _ = (e.1, Skeleton.bodyChars (fun _ => none) e.1 e.2) :: style.closings none rest :=
        Skeleton.closings_zone (readableZone_noIndent hid hline) hbody.2 opened rest
    _ = (e.1, e.2.toList) :: style.closings none rest := by
        rw [Skeleton.bodyChars, Option.getD_none, ended_of_complete hbody.1]

/-- The lines of a fragment close its zone, if it has an id. -/
theorem closings_fragmentLines {e : ZoneId × String} (hline : '\n' ∉ e.1.text.toList)
    (hbody : style.ZoneBody e.2.toList) (rest : List (List Char)) :
    style.closings none (style.fragmentLines e ++ rest) =
      (if e.1.text = "" then [] else [(e.1, e.2.toList)]) ++
        style.closings none rest := by
  by_cases hid : e.1.text = ""
  · have hplain : ∀ line ∈ style.fragmentLines e, style.read? line = none := fun _ =>
      plain_fragmentLines_of_empty hid hbody.2
    rw [if_pos hid, closings_append, closings_of_plain hplain,
      openAfterAll_of_plain hplain]
    rfl
  · rw [if_neg hid, closings_fragmentLines_of_ne hid hline hbody]
    rfl

/-- The lines of a fragment hold its own markers and no others. An empty id is not read
back. -/
theorem markers_fragmentLines {e : ZoneId × String} (hline : '\n' ∉ e.1.text.toList)
    (hbody : style.ZoneBody e.2.toList) :
    style.markers (style.fragmentLines e) =
      if e.1.text = "" then [] else [.opens e.1, .closes e.1] := by
  by_cases hid : e.1.text = ""
  · rw [if_pos hid]
    exact List.filterMap_eq_nil_iff.mpr fun line =>
      plain_fragmentLines_of_empty hid hbody.2
  · rw [if_neg hid]
    exact Skeleton.markers_zone (readableZone_noIndent hid hline) hbody.2

end MarkerStyle

namespace Fragments

/-- Whole bodies without markers of a style, under ids that fit on a line. -/
structure Readable (style : MarkerStyle) (f : Fragments) : Prop where
  newline_notMem_id : ∀ e ∈ f.entries, '\n' ∉ e.1.text.toList
  zoneBody : ∀ e ∈ f.entries, style.ZoneBody e.2.toList

variable {style : MarkerStyle} {f : Fragments}

theorem readable_empty : Readable style (.empty : Fragments) :=
  ⟨by simp, by simp⟩

/-- Storing a body ends its last line, so only markers in it could make it unreadable.
-/
theorem Readable.store (h : f.Readable style) {id : ZoneId}
    (hid : '\n' ∉ id.text.toList) {body : String} (hbody : style.Plain body.toList) :
    (f.store id body).Readable style := by
  constructor <;> intro e he <;>
    rcases OrderedMap.mem_entries_insert_iff.mp he with rfl | ⟨he, -⟩
  · exact hid
  · exact h.newline_notMem_id e he
  · rw [toList_endLine]
    exact ⟨complete_ended _, MarkerStyle.plain_ended_iff.mpr hbody⟩
  · exact h.zoneBody e he

variable {wanted : ZoneId → Bool}

/-- The text holds the lines of the wanted fragments, one fragment after another. -/
theorem toList_priorTextWhere (h : f.Readable style) :
    (f.priorTextWhere style wanted).toList =
      ((f.entries.filter fun e => wanted e.1).flatMap style.fragmentLines).flatten := by
  have hentries : ∀ e ∈ f.entries.filter fun e => wanted e.1,
      (style.beginMarker e.1 ++ "\n" ++ e.2 ++ style.endMarker e.1 ++ "\n").toList =
        (style.fragmentLines e).flatten := by
    intro e he
    rw [MarkerStyle.fragmentLines, Skeleton.flatten_segmentLines_zone,
      Skeleton.zoneChars, Option.getD_none, endLine_of_complete
        (h.zoneBody e (List.mem_of_mem_filter he)).1]
    simp
  rw [priorTextWhere]
  generalize f.entries.filter _ = entries at hentries ⊢
  induction entries with
  | nil => rfl
  | cons e rest ih =>
      rw [List.forall_mem_cons] at hentries
      rw [List.map_cons, String.join_cons, String.toList_append, hentries.1,
        ih hentries.2, List.flatMap_cons, List.flatten_append]

theorem splitLines_priorTextWhere (h : f.Readable style) :
    splitLines (f.priorTextWhere style wanted).toList =
      (f.entries.filter fun e => wanted e.1).flatMap style.fragmentLines := by
  rw [toList_priorTextWhere h, splitLines_flatten]
  intro line hline
  obtain ⟨e, he, hline⟩ := List.mem_flatMap.mp hline
  exact MarkerStyle.isLine_of_mem_fragmentLines
    (h.newline_notMem_id e (List.mem_of_mem_filter he)) hline

/-- The fragments that are wanted and can be read back. -/
def readBack (f : Fragments) (wanted : ZoneId → Bool) : List (ZoneId × String) :=
  f.entries.filter fun e => wanted e.1 && e.1.text ≠ ""

theorem nodup_readBack (f : Fragments) (wanted : ZoneId → Bool) :
    ((f.readBack wanted).map Prod.fst).Nodup :=
  f.nodup_keys.sublist (List.filter_sublist.map Prod.fst)

theorem readBack_eq (f : Fragments) (wanted : ZoneId → Bool) :
    f.readBack wanted = (f.entries.filter fun e => wanted e.1).filter fun e =>
      e.1.text ≠ "" := by
  rw [readBack, List.filter_filter]
  exact List.filter_congr fun e _ => Bool.and_comm _ _

/-- The zones that the text closes are the wanted fragments that can be read back, with
their bodies. -/
theorem closings_priorTextWhere (h : f.Readable style) :
    style.closings none (splitLines (f.priorTextWhere style wanted).toList) =
      (f.readBack wanted).map fun e => (e.1, e.2.toList) := by
  have hline : ∀ e ∈ f.entries.filter fun e => wanted e.1, '\n' ∉ e.1.text.toList :=
    fun e he => h.newline_notMem_id e (List.mem_of_mem_filter he)
  have hbody : ∀ e ∈ f.entries.filter fun e => wanted e.1, style.ZoneBody e.2.toList :=
    fun e he => h.zoneBody e (List.mem_of_mem_filter he)
  rw [splitLines_priorTextWhere h, readBack_eq]
  generalize f.entries.filter _ = entries at hline hbody ⊢
  induction entries with
  | nil => rfl
  | cons e rest ih =>
      rw [List.forall_mem_cons] at hline hbody
      rw [List.flatMap_cons, MarkerStyle.closings_fragmentLines hline.1 hbody.1,
        ih hline.2 hbody.2]
      by_cases hid : e.1.text = "" <;> simp [hid]

/-- The first fragment opens its zone, so it does not matter whether another one was
open. -/
theorem closings_priorTextWhere_of_opened (h : f.Readable style)
    (hwanted : ∀ id, wanted id = true → id.text ≠ "") (opened : Option ZoneText) :
    style.closings opened (splitLines (f.priorTextWhere style wanted).toList) =
      (f.readBack wanted).map fun e => (e.1, e.2.toList) := by
  rw [← closings_priorTextWhere h, splitLines_priorTextWhere h]
  cases hentries : f.entries.filter fun e => wanted e.1 with
  | nil => rfl
  | cons e rest =>
      obtain ⟨he, hwant⟩ :=
        List.mem_filter.mp (hentries ▸ List.mem_cons_self : e ∈ f.entries.filter _)
      have hclosings := MarkerStyle.closings_fragmentLines_of_ne (hwanted e.1 hwant)
        (h.newline_notMem_id e he) (h.zoneBody e he)
      rw [List.flatMap_cons, hclosings, hclosings]

/-- So the text has no markers but those around its fragments. -/
theorem markers_priorTextWhere (h : f.Readable style) :
    style.markers (splitLines (f.priorTextWhere style wanted).toList) =
      paired ((f.readBack wanted).map Prod.fst) := by
  have hline : ∀ e ∈ f.entries.filter fun e => wanted e.1, '\n' ∉ e.1.text.toList :=
    fun e he => h.newline_notMem_id e (List.mem_of_mem_filter he)
  have hbody : ∀ e ∈ f.entries.filter fun e => wanted e.1, style.ZoneBody e.2.toList :=
    fun e he => h.zoneBody e (List.mem_of_mem_filter he)
  rw [splitLines_priorTextWhere h, readBack_eq]
  generalize f.entries.filter _ = entries at hline hbody ⊢
  induction entries with
  | nil => rfl
  | cons e rest ih =>
      rw [List.forall_mem_cons] at hline hbody
      have hrest := ih hline.2 hbody.2
      have hfirst := MarkerStyle.markers_fragmentLines hline.1 hbody.1
      rw [MarkerStyle.markers] at hrest hfirst
      rw [List.flatMap_cons, MarkerStyle.markers, List.filterMap_append, hfirst, hrest]
      by_cases hid : e.1.text = "" <;> simp [hid, paired]

/-- Fragments that are written out are recovered in their order, with their bodies. -/
theorem entries_recoverZones_priorTextWhere (h : f.Readable style)
    (wanted : ZoneId → Bool) :
    (recoverZones style (f.priorTextWhere style wanted)).zones.entries =
      f.readBack wanted := by
  have hids : ((f.readBack wanted).map fun e => (e.1, e.2.toList)).map Prod.fst =
      (f.readBack wanted).map Prod.fst := by
    simp [Function.comp_def]
  have hnodup := f.nodup_readBack wanted
  rw [← hids] at hnodup
  rw [entries_recoverZones, closings_priorTextWhere h, unrepeated_of_nodup hnodup,
    List.map_map]
  simp [ZoneText.entry, Function.comp_def]

theorem damage_recoverZones_priorTextWhere (h : f.Readable style)
    (wanted : ZoneId → Bool) :
    (recoverZones style (f.priorTextWhere style wanted)).damage = [] :=
  damage_recoverZones_of_paired (f.nodup_readBack wanted) (markers_priorTextWhere h)

/-- Ids that fit into a marker line, and bodies that end their last line. -/
structure Markable (f : Fragments) : Prop where
  text_ne_empty : ∀ e ∈ f.entries, e.1.text ≠ ""
  newline_notMem_id : ∀ e ∈ f.entries, '\n' ∉ e.1.text.toList
  complete : ∀ e ∈ f.entries, Complete e.2.toList

theorem markable_empty : Markable .empty :=
  ⟨by simp, by simp, by simp⟩

/-- What is stored ends its last line. -/
theorem Markable.store (h : f.Markable) {id : ZoneId} (hne : id.text ≠ "")
    (hline : '\n' ∉ id.text.toList) (body : String) : (f.store id body).Markable := by
  constructor <;> intro e he <;>
    rcases OrderedMap.mem_entries_insert_iff.mp he with rfl | ⟨he, -⟩
  · exact hne
  · exact h.text_ne_empty e he
  · exact hline
  · exact h.newline_notMem_id e he
  · rw [toList_endLine]
    exact complete_ended _
  · exact h.complete e he

/-- All fragments are read back exactly when no body holds a marker: what a recovery
finds never does. -/
theorem Markable.recoverZones_priorText_iff (h : f.Markable) :
    ((recoverZones style (f.priorText style)).damage = [] ∧
      (recoverZones style (f.priorText style)).zones.entries = f.entries) ↔
        ∀ e ∈ f.entries, style.Plain e.2.toList := by
  constructor
  · rintro ⟨-, hentries⟩ e he
    rw [← hentries] at he
    exact (zoneBody_of_get?_recoverZones (OrderedMap.get?_eq_some_iff.mpr he)).2
  · intro hplain
    have hreadable : f.Readable style :=
      ⟨h.newline_notMem_id, fun e he => ⟨h.complete e he, hplain e he⟩⟩
    have hall : f.readBack (fun _ => true) = f.entries :=
      List.filter_eq_self.mpr fun e he => by simpa using h.text_ne_empty e he
    exact ⟨damage_recoverZones_priorTextWhere hreadable _,
      (entries_recoverZones_priorTextWhere hreadable _).trans hall⟩

end Fragments

end DeviceForge
