import DeviceForge.Proofs.Text.Blank
import DeviceForge.Proofs.Text.Lines
import DeviceForge.Zone.Marker

/-!
# Reading marker lines back

A line is a marker exactly when, without the blanks around it, it is what the
writer writes for an id that is not empty.  A text is plain in a style when
none of its lines is a marker of that style.
-/

namespace DeviceForge.MarkerStyle

open Text

/-- What is found between two texts is all that stands there. -/
theorem between?_eq_some_iff {lead trail : String} {cs inner : List Char} :
    between? lead trail cs = some inner ↔
      cs = lead.toList ++ inner ++ trail.toList := by
  simp only [between?, Option.bind_eq_some_iff, afterStart?_eq_some_iff,
    beforeEnd?_eq_some_iff]
  constructor
  · rintro ⟨rest, rfl, rfl⟩
    rw [List.append_assoc]
  · rintro rfl
    exact ⟨inner ++ trail.toList, List.append_assoc _ _ _, rfl⟩

/-- An id is read as it stands, and is not empty. -/
theorem idOf?_eq_some_iff {cs : List Char} {id : ZoneId} :
    idOf? cs = some id ↔ cs = id.text.toList ∧ id.text ≠ "" := by
  unfold idOf?
  cases cs with
  | nil =>
      simp only [List.isEmpty_nil, if_true, reduceCtorEq, false_iff, not_and,
        not_not]
      intro hid
      exact String.toList_eq_nil_iff.mp hid.symm
  | cons c cs =>
      simp only [List.isEmpty_cons, Bool.false_eq_true, if_false,
        Option.some.injEq]
      constructor
      · rintro rfl
        refine ⟨by simp, fun hempty => ?_⟩
        have hlist := congrArg String.toList hempty
        simp at hlist
      · rintro ⟨hid, -⟩
        rw [hid, String.ofList_toList]

/-- The writer puts its comment signs around the lead, the id and the trail. -/
theorem toList_beginMarker (style : MarkerStyle) (id : ZoneId) :
    (style.beginMarker id).toList = style.commentStart.toList ++
      (beginLead.toList ++ id.text.toList ++ beginTrail.toList) ++
      style.commentEnd.toList := by
  simp [beginMarker]

theorem toList_endMarker (style : MarkerStyle) (id : ZoneId) :
    (style.endMarker id).toList = style.commentStart.toList ++
      (endLead.toList ++ id.text.toList ++ endTrail.toList) ++
      style.commentEnd.toList := by
  simp [endMarker]

/-- The two leads part before the id begins. -/
theorem between?_begin_of_end (cs : List Char) :
    between? beginLead beginTrail (endLead.toList ++ cs ++ endTrail.toList) = none := by
  rw [Option.eq_none_iff_forall_ne_some]
  intro inner hinner
  rw [between?_eq_some_iff, List.append_assoc, List.append_assoc] at hinner
  have htake := congrArg (List.take 24) hinner
  rw [List.take_append_of_le_length (by decide),
    List.take_append_of_le_length (by decide)] at htake
  exact absurd htake (by decide)

/-- A marker is decided by what stands between its comment signs. -/
theorem read?_of_trimChars {style : MarkerStyle} {line body : List Char}
    (hline : trimChars line =
      style.commentStart.toList ++ body ++ style.commentEnd.toList) :
    style.read? line =
      match between? beginLead beginTrail body with
      | some id => (idOf? id).map .opens
      | none => ((between? endLead endTrail body).bind idOf?).map .closes := by
  have hbody := between?_eq_some_iff.mpr hline
  cases hbegin : between? beginLead beginTrail body with
  | none => simp only [read?, hbody, hbegin]
  | some inner => simp only [read?, hbody, hbegin]

theorem exists_body_of_read? {style : MarkerStyle} {line : List Char}
    {marker : Marker} (hread : style.read? line = some marker) :
    ∃ body, trimChars line =
      style.commentStart.toList ++ body ++ style.commentEnd.toList := by
  cases hbody : between? style.commentStart style.commentEnd (trimChars line) with
  | none => simp [read?, hbody] at hread
  | some body => exact ⟨body, between?_eq_some_iff.mp hbody⟩

/-- But for blanks around it, a line opens a zone exactly if it is the marker that is
written for the zone. -/
theorem read?_eq_some_opens_iff {style : MarkerStyle} {line : List Char}
    {id : ZoneId} :
    style.read? line = some (.opens id) ↔
      trimChars line = (style.beginMarker id).toList ∧ id.text ≠ "" := by
  constructor
  · intro hread
    obtain ⟨body, hbody⟩ := exists_body_of_read? hread
    rw [read?_of_trimChars hbody] at hread
    cases hid : between? beginLead beginTrail body with
    | none =>
        simp only [hid, Option.map_eq_some_iff, reduceCtorEq, and_false,
          exists_false] at hread
    | some inner =>
        simp only [hid, Option.map_eq_some_iff, Marker.opens.injEq,
          exists_eq_right, idOf?_eq_some_iff] at hread
        obtain ⟨rfl, hne⟩ := hread
        rw [hbody, between?_eq_some_iff.mp hid, toList_beginMarker]
        exact ⟨rfl, hne⟩
  · rintro ⟨htrim, hne⟩
    rw [toList_beginMarker] at htrim
    rw [read?_of_trimChars htrim, between?_eq_some_iff.mpr rfl]
    simp [idOf?_eq_some_iff, hne]

/-- The same for lines that close a zone. -/
theorem read?_eq_some_closes_iff {style : MarkerStyle} {line : List Char}
    {id : ZoneId} :
    style.read? line = some (.closes id) ↔
      trimChars line = (style.endMarker id).toList ∧ id.text ≠ "" := by
  constructor
  · intro hread
    obtain ⟨body, hbody⟩ := exists_body_of_read? hread
    rw [read?_of_trimChars hbody] at hread
    cases hid : between? beginLead beginTrail body with
    | some inner =>
        simp only [hid, Option.map_eq_some_iff, reduceCtorEq, and_false,
          exists_false] at hread
    | none =>
        simp only [hid, Option.map_eq_some_iff, Marker.closes.injEq, exists_eq_right,
          Option.bind_eq_some_iff, between?_eq_some_iff, idOf?_eq_some_iff] at hread
        obtain ⟨inner, rfl, rfl, hne⟩ := hread
        rw [hbody, toList_endMarker]
        exact ⟨rfl, hne⟩
  · rintro ⟨htrim, hne⟩
    rw [toList_endMarker] at htrim
    rw [read?_of_trimChars htrim, between?_begin_of_end,
      between?_eq_some_iff.mpr rfl]
    simp [idOf?_eq_some_iff, hne]

theorem read?_append_of_allBlank {style : MarkerStyle} {front back : List Char}
    (hfront : AllBlank front) (hback : AllBlank back) (line : List Char) :
    style.read? (front ++ line ++ back) = style.read? line := by
  unfold read?
  rw [trimChars_append_of_allBlank_right hback,
    trimChars_append_of_allBlank_left hfront]

theorem read?_concat_newline (style : MarkerStyle) (line : List Char) :
    style.read? (line ++ ['\n']) = style.read? line := by
  have h : style.read? ([] ++ line ++ ['\n']) = style.read? line :=
    read?_append_of_allBlank (by simp [AllBlank]) (by simp [AllBlank, isBlank]) line
  simpa using h

theorem read?_eq_none_of_allBlank {style : MarkerStyle} {line : List Char}
    (h : AllBlank line) : style.read? line = none := by
  unfold read?
  rw [trimChars_eq_nil_of_allBlank h]
  cases style <;> rfl

/-- A comment sign at either end keeps a marker from being trimmed. -/
theorem trimChars_comment (style : MarkerStyle) (body : List Char) :
    trimChars (style.commentStart.toList ++ body ++ style.commentEnd.toList) =
      style.commentStart.toList ++ body ++ style.commentEnd.toList := by
  cases style with
  | block =>
      have h : trimChars ('/' :: ('*' :: (body ++ ['*']) ++ ['/'])) = _ :=
        trimChars_eq_self rfl rfl _
      simpa [commentStart, commentEnd] using h
  | hash =>
      have h : trimChars ('#' :: (body ++ ['#'])) = _ := trimChars_eq_self rfl rfl _
      simpa [commentStart, commentEnd] using h

def beginLine (style : MarkerStyle) (indent : String) (id : ZoneId) : List Char :=
  indent.toList ++ (style.beginMarker id).toList ++ ['\n']

def endLine (style : MarkerStyle) (indent : String) (id : ZoneId) : List Char :=
  indent.toList ++ (style.endMarker id).toList ++ ['\n']

theorem read?_beginLine {style : MarkerStyle} {indent : String} {id : ZoneId}
    (hindent : AllBlank indent.toList) (hid : id.text ≠ "") :
    style.read? (style.beginLine indent id) = some (.opens id) := by
  rw [beginLine, read?_append_of_allBlank hindent (by simp [AllBlank, isBlank]),
    read?_eq_some_opens_iff, toList_beginMarker, trimChars_comment]
  exact ⟨rfl, hid⟩

theorem read?_endLine {style : MarkerStyle} {indent : String} {id : ZoneId}
    (hindent : AllBlank indent.toList) (hid : id.text ≠ "") :
    style.read? (style.endLine indent id) = some (.closes id) := by
  rw [endLine, read?_append_of_allBlank hindent (by simp [AllBlank, isBlank]),
    read?_eq_some_closes_iff, toList_endMarker, trimChars_comment]
  exact ⟨rfl, hid⟩

theorem isLine_beginLine {style : MarkerStyle} {indent : String} {id : ZoneId}
    (hindent : '\n' ∉ indent.toList) (hid : '\n' ∉ id.text.toList) :
    IsLine (style.beginLine indent id) := by
  apply IsLine.concat
  cases style <;>
    simp [beginMarker, commentStart, commentEnd, beginLead, beginTrail, hindent, hid]

theorem isLine_endLine {style : MarkerStyle} {indent : String} {id : ZoneId}
    (hindent : '\n' ∉ indent.toList) (hid : '\n' ∉ id.text.toList) :
    IsLine (style.endLine indent id) := by
  apply IsLine.concat
  cases style <;>
    simp [endMarker, commentStart, commentEnd, endLead, endTrail, hindent, hid]

/-- No line of the text is a marker. -/
def Plain (style : MarkerStyle) (cs : List Char) : Prop :=
  ∀ line ∈ splitLines cs, style.read? line = none

instance (style : MarkerStyle) (cs : List Char) : Decidable (style.Plain cs) :=
  inferInstanceAs (Decidable (∀ _ ∈ _, _))

@[simp]
theorem plain_nil (style : MarkerStyle) : style.Plain [] := by
  simp [Plain]

theorem plain_append_iff {style : MarkerStyle} {front back : List Char}
    (hfront : Complete front) :
    style.Plain (front ++ back) ↔ style.Plain front ∧ style.Plain back := by
  simp only [Plain, splitLines_append hfront, List.mem_append, or_imp,
    forall_and]

theorem plain_iff_of_isLine {style : MarkerStyle} {line : List Char}
    (hline : IsLine line) : style.Plain line ↔ style.read? line = none := by
  simp [Plain, hline.splitLines_eq]

/-- What the writer writes for a marker. -/
def markerText (style : MarkerStyle) : Marker → String
  | .opens id => style.beginMarker id
  | .closes id => style.endMarker id

/-- The id of a zone is what stands between the lead and the trail. -/
theorem eq_of_framed_eq_framed {style : MarkerStyle} {lead trail : String}
    {id other : ZoneId}
    (h : style.commentStart.toList ++ (lead.toList ++ id.text.toList ++ trail.toList) ++
        style.commentEnd.toList =
      style.commentStart.toList ++ (lead.toList ++ other.text.toList ++ trail.toList) ++
        style.commentEnd.toList) : id = other := by
  have hbody := List.append_cancel_left (List.append_cancel_right h)
  have htext := List.append_cancel_left (List.append_cancel_right hbody)
  cases id
  cases other
  exact congrArg ZoneId.mk (String.toList_injective htext)

theorem beginMarker_injective (style : MarkerStyle) :
    Function.Injective style.beginMarker := by
  intro id other heq
  have hchars := congrArg String.toList heq
  rw [toList_beginMarker, toList_beginMarker] at hchars
  exact eq_of_framed_eq_framed hchars

theorem endMarker_injective (style : MarkerStyle) :
    Function.Injective style.endMarker := by
  intro id other heq
  have hchars := congrArg String.toList heq
  rw [toList_endMarker, toList_endMarker] at hchars
  exact eq_of_framed_eq_framed hchars

/-- A text in comment signs has those of one style only. -/
theorem eq_of_comment_eq_comment {style other : MarkerStyle} {body text : List Char}
    (h : style.commentStart.toList ++ body ++ style.commentEnd.toList =
      other.commentStart.toList ++ text ++ other.commentEnd.toList) :
    style = other := by
  have hhead := congrArg List.head? h
  cases style <;> cases other
  case block.block => rfl
  case hash.hash => rfl
  all_goals exact absurd hhead (by simp [commentStart])

/-- An opening marker and a closing one differ whatever they name, since the words in
front of the ids do. -/
theorem beginMarker_ne_endMarker (style other : MarkerStyle) (id closed : ZoneId) :
    style.beginMarker id ≠ other.endMarker closed := by
  intro heq
  have hchars := congrArg String.toList heq
  rw [toList_beginMarker, toList_endMarker] at hchars
  obtain rfl := eq_of_comment_eq_comment hchars
  have hbody := List.append_cancel_left (List.append_cancel_right hchars)
  have hbegin := between?_begin_of_end closed.text.toList
  rw [← hbody, between?_eq_some_iff.mpr rfl] at hbegin
  exact absurd hbegin (Option.some_ne_none _)

/-- What is written for a marker tells which one it is. -/
theorem markerText_injective (style : MarkerStyle) :
    Function.Injective style.markerText := by
  intro marker other heq
  cases marker with
  | opens id =>
      cases other with
      | opens id' => rw [style.beginMarker_injective heq]
      | closes id' => exact absurd heq (beginMarker_ne_endMarker _ _ _ _)
  | closes id =>
      cases other with
      | opens id' => exact absurd heq.symm (beginMarker_ne_endMarker _ _ _ _)
      | closes id' => rw [style.endMarker_injective heq]

/-- The marker that opens or closes a zone is what a line is read as exactly when the
line is that marker between blanks, and the zone has a name.  No line is two markers,
the two markers of zones are never the same, and no line is a marker in both styles. -/
theorem read?_exact :
    (∀ (style : MarkerStyle) (line : List Char) (id : ZoneId),
      (style.read? line = some (.opens id) ↔
        id.text ≠ "" ∧ trimChars line = (style.beginMarker id).toList) ∧
      (style.read? line = some (.closes id) ↔
        id.text ≠ "" ∧ trimChars line = (style.endMarker id).toList)) ∧
    (∀ (style : MarkerStyle) (line : List Char),
      {marker | trimChars line = (style.markerText marker).toList}.Subsingleton) ∧
    (∀ (style other : MarkerStyle) (id closed : ZoneId),
      style.beginMarker id ≠ other.endMarker closed) ∧
    ∀ line : List Char,
      MarkerStyle.block.read? line = none ∨ MarkerStyle.hash.read? line = none := by
  refine ⟨fun style line id => ⟨?_, ?_⟩,
    fun style line marker hmarker other hother => ?_, beginMarker_ne_endMarker,
    fun line => ?_⟩
  · rw [read?_eq_some_opens_iff, and_comm]
  · rw [read?_eq_some_closes_iff, and_comm]
  · exact style.markerText_injective
      (String.toList_injective (hmarker.symm.trans hother))
  · by_contra hboth
    rw [not_or, ← ne_eq, ← ne_eq, Option.ne_none_iff_exists',
      Option.ne_none_iff_exists'] at hboth
    obtain ⟨⟨marker, hblock⟩, other, hhash⟩ := hboth
    obtain ⟨body, hbody⟩ := exists_body_of_read? hblock
    obtain ⟨text, htext⟩ := exists_body_of_read? hhash
    exact absurd (eq_of_comment_eq_comment (hbody.symm.trans htext)) (by decide)

end DeviceForge.MarkerStyle
