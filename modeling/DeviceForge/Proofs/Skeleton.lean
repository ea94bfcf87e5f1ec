import DeviceForge.Proofs.Zone.Recovery
import DeviceForge.Skeleton

/-!
# Rendering and recovering

A skeleton is rendered line by line: the lines of its texts, and for every
zone a marker line, the lines of its body and another marker line.  Whatever
the texts hold, the lines of a rendered zone close that zone with its body, so
a recovery finds every body again unless a text closes the same zone once
more.
-/

namespace DeviceForge

open Text

namespace Segment

def isText : Segment → Bool
  | text _ => true
  | zone _ _ _ => false

end Segment

namespace Skeleton

/-- What can be made by appending texts and zones to an empty skeleton. -/
inductive Built : Skeleton → Prop
  | start (file : String) (style : MarkerStyle) : Built ⟨file, style, []⟩
  | pushText {s : Skeleton} (hs : Built s) (content : String) :
      Built (s.pushText content)
  | pushZone {s : Skeleton} (hs : Built s) (id : ZoneId) (indent body : String) :
      Built (s.pushZone id indent body)

/-- No text follows a text, so a text that does not end its last line is
followed by a zone or by nothing. -/
def Separated (segments : List Segment) : Prop :=
  segments.IsChain fun segment next => segment.isText = true → next.isText = false

/-- Every default body ends its last line. -/
def BodiesComplete (segments : List Segment) : Prop :=
  ∀ id body indent, Segment.zone id body indent ∈ segments → Complete body.toList

/-- Text joins a last text, or else stands after a zone or at the beginning. -/
theorem appendText_cases (content : String) (segments : List Segment) :
    (∃ front before, segments = front ++ [.text before] ∧
      appendText content segments = front ++ [.text (before ++ content)]) ∨
    ((∀ last ∈ segments.getLast?, last.isText = false) ∧
      appendText content segments = segments ++ [.text content]) := by
  fun_induction appendText content segments with
  | case1 => exact Or.inr ⟨by simp, rfl⟩
  | case2 before => exact Or.inl ⟨[], before, rfl, rfl⟩
  | case3 segment rest hsegment ih =>
      rcases ih with ⟨front, before, rfl, happend⟩ | ⟨hlast, happend⟩
      · exact Or.inl ⟨segment :: front, before, rfl, by rw [happend]; rfl⟩
      · refine Or.inr ⟨fun last hmem => ?_, by rw [happend]; rfl⟩
        cases rest with
        | nil =>
            simp only [List.getLast?_singleton, Option.mem_def,
              Option.some.injEq] at hmem
            subst hmem
            cases segment with
            | text before => exact absurd rfl (hsegment before rfl)
            | zone id body indent => rfl
        | cons next others =>
            rw [List.getLast?_cons_cons] at hmem
            exact hlast last hmem

/-- Text is appended to the text before it, so that no two texts meet. -/
theorem separated_appendText (content : String) {segments : List Segment}
    (hsegments : Separated segments) : Separated (appendText content segments) := by
  rcases appendText_cases content segments with
    ⟨front, before, rfl, happend⟩ | ⟨hlast, happend⟩
  · rw [happend]
    rw [Separated, List.isChain_append] at hsegments ⊢
    obtain ⟨hfront, -, hjoin⟩ := hsegments
    refine ⟨hfront, List.isChain_singleton _, fun last hmem next hnext => ?_⟩
    simp only [List.head?_cons, Option.mem_def, Option.some.injEq] at hnext
    subst hnext
    exact hjoin last hmem (.text before) rfl
  · rw [happend, Separated, List.isChain_append]
    refine ⟨hsegments, List.isChain_singleton _, fun last hmem next _ htext => ?_⟩
    rw [hlast last hmem] at htext
    exact absurd htext (by simp)

theorem separated_concat_zone {segments : List Segment} (hsegments : Separated segments)
    (id : ZoneId) (body indent : String) :
    Separated (segments ++ [.zone id body indent]) := by
  rw [Separated, List.isChain_append]
  refine ⟨hsegments, List.isChain_singleton _, fun last _ next hnext _ => ?_⟩
  simp only [List.head?_cons, Option.mem_def, Option.some.injEq] at hnext
  subst hnext
  rfl

theorem Built.separated {s : Skeleton} (hs : s.Built) : Separated s.segments := by
  induction hs with
  | start => exact List.isChain_nil
  | pushText _ content ih =>
      rw [Skeleton.pushText]
      split
      · exact ih
      · exact separated_appendText content ih
  | pushZone _ id indent body ih => exact separated_concat_zone ih id _ indent

/-- Default bodies are ended when their zones are appended. -/
theorem Built.bodiesComplete {s : Skeleton} (hs : s.Built) :
    BodiesComplete s.segments := by
  induction hs with
  | start => simp [BodiesComplete]
  | @pushText s _ content ih =>
      rw [Skeleton.pushText]
      split
      · exact ih
      · intro id body indent hmem
        simp only at hmem
        rcases appendText_cases content s.segments with
          ⟨front, before, hfront, happend⟩ | ⟨-, happend⟩
        · rw [happend] at hmem
          exact ih id body indent (by rw [hfront]; simpa using hmem)
        · rw [happend] at hmem
          exact ih id body indent (by simpa using hmem)
  | pushZone _ id indent body ih =>
      intro other otherBody otherIndent hmem
      rcases List.mem_append.mp hmem with hmem | hmem
      · exact ih other otherBody otherIndent hmem
      · simp only [List.mem_singleton, Segment.zone.injEq] at hmem
        obtain ⟨-, rfl, -⟩ := hmem
        rw [toList_endLine]
        exact complete_ended body.toList

/-! ## The lines of a rendered skeleton -/

/-- Id and indent keep the markers of a zone on lines of their own, where they
can be read. -/
structure ReadableZone (id : ZoneId) (indent : String) : Prop where
  id_ne_empty : id.text ≠ ""
  newline_notMem_id : '\n' ∉ id.text.toList
  allBlank_indent : AllBlank indent.toList
  newline_notMem_indent : '\n' ∉ indent.toList

def Readable (segments : List Segment) : Prop :=
  ∀ id body indent, Segment.zone id body indent ∈ segments → ReadableZone id indent

theorem Readable.tail {segment : Segment} {rest : List Segment}
    (h : Readable (segment :: rest)) : Readable rest :=
  fun id body indent hmem => h id body indent (List.mem_cons_of_mem _ hmem)

variable (style : MarkerStyle) (content : ZoneId → Option String)

/-- The body that a zone is rendered with. -/
def bodyChars (id : ZoneId) (body : String) : List Char :=
  ended ((content id).getD body).toList

/-- The lines that a segment is rendered as. -/
def segmentLines : Segment → List (List Char)
  | .text t => splitLines (ended t.toList)
  | .zone id body indent =>
      style.beginLine indent id :: splitLines (bodyChars content id body) ++
        [style.endLine indent id]

variable {style content}

theorem flatten_segmentLines_zone (id : ZoneId) (body indent : String) :
    (segmentLines style content (.zone id body indent)).flatten =
      zoneChars style id indent ((content id).getD body) := by
  simp [segmentLines, zoneChars, bodyChars, MarkerStyle.beginLine, MarkerStyle.endLine]

/-- What a segment is written as are whole lines. -/
theorem isLine_of_mem_segmentLines {segment : Segment} {rest : List Segment}
    (h : Readable (segment :: rest)) {line : List Char}
    (hline : line ∈ segmentLines style content segment) : IsLine line := by
  cases segment with
  | text t => exact Scan.isLine_of_mem_splitLines_ended hline
  | zone id body indent =>
      have hzone := h id body indent List.mem_cons_self
      simp only [segmentLines, List.cons_append, List.mem_cons, List.mem_append,
        List.not_mem_nil, or_false] at hline
      rcases hline with rfl | hline | rfl
      · exact MarkerStyle.isLine_beginLine hzone.newline_notMem_indent
          hzone.newline_notMem_id
      · exact Scan.isLine_of_mem_splitLines_ended hline
      · exact MarkerStyle.isLine_endLine hzone.newline_notMem_indent
          hzone.newline_notMem_id

theorem complete_zoneChars (id : ZoneId) (indent body : String) :
    Complete (zoneChars style id indent body) :=
  complete_concat _

theorem atLineStart_of_complete {cs : List Char} (h : Complete cs) :
    atLineStart true cs = true := by
  rcases h with rfl | h
  · rfl
  · simp [atLineStart, h]

/-- After text that stops inside a line a zone has to start a new one. -/
theorem atLineStart_of_not_complete {cs : List Char} (h : ¬ Complete cs) :
    atLineStart true cs = false := by
  rw [Complete, not_or] at h
  unfold atLineStart
  cases hlast : cs.getLast? with
  | none => exact absurd (List.getLast?_eq_none_iff.mp hlast) h.1
  | some c =>
      rw [hlast] at h
      simpa using h.2

/-- A zone after an unfinished line starts on the next one. -/
theorem renderFrom_false_zone (id : ZoneId) (body indent : String)
    (rest : List Segment) :
    renderFrom style content false (.zone id body indent :: rest) =
      '\n' :: renderFrom style content true (.zone id body indent :: rest) := by
  simp [renderFrom]

/-- The lines of a rendered skeleton are the lines of its segments. -/
theorem splitLines_ended_renderFrom {segments : List Segment}
    (hseparated : Separated segments) (hreadable : Readable segments) :
    splitLines (ended (renderFrom style content true segments)) =
      segments.flatMap (segmentLines style content) := by
  induction segments with
  | nil => rfl
  | cons segment rest ih =>
      have hrest := ih hseparated.tail hreadable.tail
      rw [List.flatMap_cons, ← hrest]
      cases segment with
      | zone id body indent =>
          have hlines : splitLines
              (segmentLines style content (.zone id body indent)).flatten =
                segmentLines style content (.zone id body indent) :=
            splitLines_flatten fun line => isLine_of_mem_segmentLines hreadable
          have hzone : Complete (zoneChars style id indent ((content id).getD body)) :=
            complete_zoneChars _ _ _
          rw [flatten_segmentLines_zone] at hlines
          rw [← hlines, renderFrom, if_pos rfl, List.nil_append, ended_append hzone,
            splitLines_append hzone]
      | text t =>
          rw [segmentLines, renderFrom]
          by_cases ht : Complete t.toList
          · rw [atLineStart_of_complete ht, ended_append ht, splitLines_append ht,
              ended_of_complete ht]
          · rw [atLineStart_of_not_complete ht]
            -- what follows an unfinished text starts with a line feed
            have hnext : renderFrom style content false rest = [] ∧
                  renderFrom style content true rest = [] ∨
                renderFrom style content false rest =
                  '\n' :: renderFrom style content true rest := by
              cases rest with
              | nil => exact Or.inl ⟨rfl, rfl⟩
              | cons next others =>
                  have hkind := (List.isChain_cons_cons.mp hseparated).1 rfl
                  cases next with
                  | text other => simp [Segment.isText] at hkind
                  | zone id body indent =>
                      exact Or.inr (renderFrom_false_zone id body indent others)
            rcases hnext with ⟨hfalse, htrue⟩ | hfalse
            · simp [hfalse, htrue]
            · have hended := complete_ended t.toList
              rw [hfalse, ← List.singleton_append, ← List.append_assoc,
                ← ended_of_not_complete ht, ended_append hended,
                splitLines_append hended]

/-! ## The zones that a rendered skeleton closes -/

variable (style content) in
/-- The zones that the lines of a segment close. -/
def closedIn : Segment → List ZoneText
  | .text t => style.closings none (splitLines t.toList)
  | .zone id body _ => [(id, bodyChars content id body)]

def PlainBodies (style : MarkerStyle) (content : ZoneId → Option String)
    (segments : List Segment) : Prop :=
  ∀ id body indent, Segment.zone id body indent ∈ segments →
    style.Plain ((content id).getD body).toList

/-- A written zone is read back with the body that was filled in, whatever was open
before it. -/
theorem closings_zone {id : ZoneId} {body indent : String}
    (hzone : ReadableZone id indent)
    (hbody : style.Plain ((content id).getD body).toList)
    (opened : Option ZoneText) (rest : List (List Char)) :
    style.closings opened
        (segmentLines style content (.zone id body indent) ++ rest) =
      (id, bodyChars content id body) :: style.closings none rest := by
  have hplain : ∀ line ∈ splitLines (bodyChars content id body),
      style.read? line = none := MarkerStyle.plain_ended_iff.mpr hbody
  have hlines : (splitLines (bodyChars content id body)).map Scan.bodyLine =
      splitLines (bodyChars content id body) := by
    rw [Scan.map_bodyLine_splitLines, bodyChars,
      ended_of_complete (complete_ended _)]
  rw [segmentLines, List.cons_append, List.cons_append, List.append_assoc,
    MarkerStyle.closings_cons_of_opens
      (MarkerStyle.read?_beginLine hzone.allBlank_indent hzone.id_ne_empty),
    MarkerStyle.closings_append, MarkerStyle.closings_of_plain hplain,
    MarkerStyle.openAfterAll_of_plain hplain, hlines, flatten_splitLines]
  exact MarkerStyle.closings_cons_of_closes
    (MarkerStyle.read?_endLine hzone.allBlank_indent hzone.id_ne_empty) rest

/-- The rendered lines close what the segments close, one after another.  A zone
that a text leaves open is forgotten, as a text is followed by a zone. -/
theorem closings_flatMap_segmentLines {segments : List Segment}
    (hseparated : Separated segments) (hreadable : Readable segments)
    (hbodies : PlainBodies style content segments) {opened : Option ZoneText}
    (hopened : ∀ segment ∈ segments.head?, segment.isText = true → opened = none) :
    style.closings opened (segments.flatMap (segmentLines style content)) =
      segments.flatMap (closedIn style content) := by
  induction segments generalizing opened with
  | nil => rfl
  | cons segment rest ih =>
      have hrest := @ih hseparated.tail hreadable.tail
        fun id body indent hmem => hbodies id body indent (List.mem_cons_of_mem _ hmem)
      rw [List.flatMap_cons, List.flatMap_cons]
      cases segment with
      | zone id body indent =>
          rw [closings_zone (hreadable id body indent List.mem_cons_self)
            (hbodies id body indent List.mem_cons_self), hrest (by simp)]
          rfl
      | text t =>
          have hnone : opened = none := hopened _ rfl rfl
          subst hnone
          rw [MarkerStyle.closings_append, closedIn, MarkerStyle.closings_splitLines]
          congr 1
          apply hrest
          intro next hnext htext
          have hkind := (List.isChain_cons.mp hseparated).1 next hnext rfl
          rw [hkind] at htext
          exact absurd htext (by simp)

def forgedIds (s : Skeleton) : List ZoneId :=
  s.segments.flatMap fun
    | .text t => (s.style.closings none (splitLines t.toList)).map Prod.fst
    | .zone _ _ _ => []

/-- Every id is closed by its zone and by the texts that forge it. -/
theorem count_closedIn (content : ZoneId → Option String) (s : Skeleton) (id : ZoneId) :
    ((s.segments.flatMap (closedIn s.style content)).map Prod.fst).count id =
      s.zoneIds.count id + s.forgedIds.count id := by
  unfold zoneIds forgedIds
  induction s.segments with
  | nil => rfl
  | cons segment rest ih =>
      rw [List.flatMap_cons, List.map_append, List.count_append, ih]
      cases segment with
      | text t =>
          simp only [closedIn, List.filterMap_cons, List.flatMap_cons,
            List.count_append]
          omega
      | zone other body indent =>
          simp only [closedIn, List.filterMap_cons, List.flatMap_cons, List.count_cons,
            List.map_cons, List.map_nil, List.count_nil, List.nil_append]
          omega

theorem mem_zoneIds_iff {s : Skeleton} {id : ZoneId} :
    id ∈ s.zoneIds ↔ ∃ body indent, Segment.zone id body indent ∈ s.segments := by
  simp only [zoneIds, List.mem_filterMap]
  constructor
  · rintro ⟨segment, hmem, hid⟩
    cases segment with
    | text t => simp at hid
    | zone other body indent =>
        simp only [Option.some.injEq] at hid
        subst hid
        exact ⟨body, indent, hmem⟩
  · rintro ⟨body, indent, hmem⟩
    exact ⟨_, hmem, rfl⟩

/-- The zones of a skeleton are all different, its markers can be read, and its
default bodies are free of markers and end their last line. -/
structure Sound (s : Skeleton) : Prop where
  separated : Separated s.segments
  readable : Readable s.segments
  nodup_zoneIds : s.zoneIds.Nodup
  bodiesComplete : BodiesComplete s.segments
  plain_default : PlainBodies s.style (fun _ => none) s.segments

/-- An id has only one zone. -/
theorem Sound.body_eq {s : Skeleton} (hs : s.Sound) {id : ZoneId}
    {body other indent blanks : String} (h : Segment.zone id body indent ∈ s.segments)
    (hother : Segment.zone id other blanks ∈ s.segments) : body = other := by
  by_contra hne
  have hpairs := hs.nodup_zoneIds
  rw [zoneIds, List.Nodup, List.pairwise_filterMap] at hpairs
  exact @List.Pairwise.forall _ _ _
    ⟨fun _ _ hdistinct _ hid _ hid' => (hdistinct _ hid' _ hid).symm⟩ hpairs _ h
    _ hother (by simp [hne]) id rfl id rfl rfl

def PlainTexts (s : Skeleton) : Prop :=
  ∀ t, Segment.text t ∈ s.segments → s.style.Plain t.toList

/-- The bodies that come from outside are free of markers. -/
def PlainContent (style : MarkerStyle) (content : ZoneId → Option String) : Prop :=
  ∀ id, ∀ body ∈ content id, style.Plain body.toList

/-- The zones of a skeleton are all different, its markers can be read, and the
bodies that it is rendered with are free of markers. -/
structure Recoverable (s : Skeleton) (content : ZoneId → Option String) : Prop where
  separated : Separated s.segments
  readable : Readable s.segments
  nodup_zoneIds : s.zoneIds.Nodup
  plainBodies : PlainBodies s.style content s.segments

theorem Sound.recoverable {s : Skeleton} (hs : s.Sound)
    (hcontent : PlainContent s.style content) : s.Recoverable content := by
  refine ⟨hs.separated, hs.readable, hs.nodup_zoneIds, fun id body indent hmem => ?_⟩
  cases hfound : content id with
  | none => exact hs.plain_default id body indent hmem
  | some other => exact hcontent id other hfound

theorem Recoverable.closings_render {s : Skeleton} (hs : s.Recoverable content) :
    s.style.closings none (splitLines (s.render content).toList) =
      s.segments.flatMap (closedIn s.style content) := by
  rw [MarkerStyle.closings_splitLines, render, String.toList_ofList,
    splitLines_ended_renderFrom hs.separated hs.readable]
  exact closings_flatMap_segmentLines hs.separated hs.readable hs.plainBodies (by simp)

/-- A zone that no text forges is recovered with the body that it was rendered
with. -/
theorem Recoverable.get?_recoverZones_render {s : Skeleton} (hs : s.Recoverable content)
    {id : ZoneId} {body indent : String}
    (hmem : Segment.zone id body indent ∈ s.segments) (hforged : id ∉ s.forgedIds) :
    (recoverZones s.style (s.render content)).zones.get? id =
      some (Text.endLine ((content id).getD body)) := by
  have hzoneId : id ∈ s.zoneIds := mem_zoneIds_iff.mpr ⟨body, indent, hmem⟩
  have hcount := count_closedIn content s id
  rw [List.count_eq_one_of_mem hs.nodup_zoneIds hzoneId,
    List.count_eq_zero.mpr hforged] at hcount
  have hclosed : (id, bodyChars content id body) ∈
      unrepeated (s.segments.flatMap (closedIn s.style content)) := by
    refine List.mem_filter.mpr ⟨?_, by simpa using hcount⟩
    exact List.mem_flatMap.mpr ⟨_, hmem, by simp [closedIn]⟩
  rw [OrderedMap.get?_eq_some_iff, entries_recoverZones, hs.closings_render]
  refine List.mem_map.mpr ⟨_, hclosed, ?_⟩
  simp [ZoneText.entry, bodyChars, ← toList_endLine]

/-- A zone that a text forges is not recovered. -/
theorem Sound.get?_recoverZones_render_of_forged {s : Skeleton} (hs : s.Sound)
    (hcontent : PlainContent s.style content) {id : ZoneId} (hid : id ∈ s.zoneIds)
    (hforged : id ∈ s.forgedIds) :
    (recoverZones s.style (s.render content)).zones.get? id = none := by
  have hcount := count_closedIn content s id
  have hzone := List.count_pos_iff.mpr hid
  have htext := List.count_pos_iff.mpr hforged
  rw [OrderedMap.get?_eq_none_iff, OrderedMap.keys, entries_recoverZones,
    Scan.map_fst_entry, (hs.recoverable hcontent).closings_render,
    mem_map_fst_unrepeated_iff]
  omega

theorem PlainTexts.closings_text {s : Skeleton} (hs : s.PlainTexts) {t : String}
    (ht : Segment.text t ∈ s.segments) :
    s.style.closings none (splitLines t.toList) = [] :=
  MarkerStyle.closings_of_plain (hs t ht) none

theorem PlainTexts.forgedIds_eq_nil {s : Skeleton} (hs : s.PlainTexts) :
    s.forgedIds = [] := by
  rw [forgedIds, List.flatMap_eq_nil_iff]
  intro segment hmem
  cases segment with
  | text t => simp [hs.closings_text hmem]
  | zone id body indent => rfl

/-- The zones of a skeleton in their order, each with the body that it is rendered
with and the last line of that ended. -/
def filledZones (s : Skeleton) (content : ZoneId → Option String) :
    List (ZoneId × String) :=
  s.segments.filterMap fun
    | .text _ => none
    | .zone id body _ => some (id, Text.endLine ((content id).getD body))

theorem map_fst_filledZones (s : Skeleton) (content : ZoneId → Option String) :
    (s.filledZones content).map Prod.fst = s.zoneIds := by
  rw [filledZones, zoneIds, List.map_filterMap]
  congr 1
  funext segment
  cases segment <;> rfl

/-- The lines of a rendered skeleton close its zones and nothing else. -/
theorem PlainTexts.map_entry_closedIn {s : Skeleton} (hs : s.PlainTexts) :
    (s.segments.flatMap (closedIn s.style content)).map ZoneText.entry =
      s.filledZones content := by
  have htexts : ∀ t, Segment.text t ∈ s.segments →
      s.style.closings none (splitLines t.toList) = [] := fun t => hs.closings_text
  unfold filledZones
  generalize s.segments = segments at htexts ⊢
  induction segments with
  | nil => rfl
  | cons segment rest ih =>
      have hrest := ih fun t ht => htexts t (List.mem_cons_of_mem _ ht)
      rw [List.flatMap_cons, List.map_append, hrest, List.filterMap_cons]
      cases segment with
      | text t =>
          rw [closedIn, htexts t List.mem_cons_self]
          rfl
      | zone id body indent =>
        simp [closedIn, ZoneText.entry, bodyChars, ← toList_endLine]

theorem PlainTexts.map_fst_closedIn {s : Skeleton} (hs : s.PlainTexts) :
    (s.segments.flatMap (closedIn s.style content)).map Prod.fst = s.zoneIds := by
  rw [← Scan.map_fst_entry, hs.map_entry_closedIn, map_fst_filledZones]

theorem Recoverable.entries_recoverZones_render {s : Skeleton}
    (hs : s.Recoverable content) (htexts : s.PlainTexts) :
    (recoverZones s.style (s.render content)).zones.entries =
      s.filledZones content := by
  have hnodup :
      ((s.segments.flatMap (closedIn s.style content)).map Prod.fst).Nodup := by
    rw [htexts.map_fst_closedIn]
    exact hs.nodup_zoneIds
  rw [entries_recoverZones, hs.closings_render, unrepeated_of_nodup hnodup,
    htexts.map_entry_closedIn]

/-- The recovered zones are the zones of the skeleton, in its order. -/
theorem Recoverable.keys_recoverZones_render {s : Skeleton} (hs : s.Recoverable content)
    (htexts : s.PlainTexts) :
    (recoverZones s.style (s.render content)).zones.keys = s.zoneIds := by
  rw [OrderedMap.keys, hs.entries_recoverZones_render htexts, map_fst_filledZones]

theorem markers_splitLines (style : MarkerStyle) (cs : List Char) :
    style.markers (splitLines cs) = style.markers (splitLines (ended cs)) := by
  rw [← Scan.map_bodyLine_splitLines]
  simp [MarkerStyle.markers, List.filterMap_map, MarkerStyle.read?_bodyLine]

theorem markers_of_plain {style : MarkerStyle} {cs : List Char} (h : style.Plain cs) :
    style.markers (splitLines cs) = [] :=
  List.filterMap_eq_nil_iff.mpr h

/-- A rendered zone shows two markers, whatever its body is. -/
theorem markers_zone {id : ZoneId} {body indent : String}
    (hzone : ReadableZone id indent)
    (hbody : style.Plain ((content id).getD body).toList) :
    style.markers (segmentLines style content (.zone id body indent)) =
      [.opens id, .closes id] := by
  have hplain : style.markers (splitLines (bodyChars content id body)) = [] :=
    markers_of_plain (MarkerStyle.plain_ended_iff.mpr hbody)
  rw [segmentLines, List.cons_append, MarkerStyle.markers_cons_of_marker
    (MarkerStyle.read?_beginLine hzone.allBlank_indent hzone.id_ne_empty)]
  simp only [MarkerStyle.markers, List.filterMap_append] at hplain ⊢
  rw [hplain]
  simp [MarkerStyle.read?_endLine hzone.allBlank_indent hzone.id_ne_empty]

/-- A file without markers in its texts has only those of its zones, pair by pair. -/
theorem Recoverable.markers_render {s : Skeleton} (hs : s.Recoverable content)
    (htexts : s.PlainTexts) :
    s.style.markers (splitLines (s.render content).toList) = paired s.zoneIds := by
  have hbodies := hs.plainBodies
  have hreadable := hs.readable
  have htexts : ∀ t, Segment.text t ∈ s.segments → s.style.Plain t.toList := htexts
  rw [markers_splitLines, render, String.toList_ofList,
    splitLines_ended_renderFrom hs.separated hs.readable, zoneIds]
  generalize s.segments = segments at hbodies hreadable htexts ⊢
  induction segments with
  | nil => rfl
  | cons segment rest ih =>
      have hrest := ih (fun id body indent hmem =>
        hbodies id body indent (List.mem_cons_of_mem _ hmem)) hreadable.tail
        fun t ht => htexts t (List.mem_cons_of_mem _ ht)
      rw [List.flatMap_cons, MarkerStyle.markers, List.filterMap_append]
      simp only [MarkerStyle.markers] at hrest
      rw [hrest]
      cases segment with
      | text t =>
          have hplain := markers_of_plain
            (MarkerStyle.plain_ended_iff.mpr (htexts t List.mem_cons_self))
          simp only [MarkerStyle.markers] at hplain
          rw [segmentLines, hplain]
          rfl
      | zone id body indent =>
          have hzone := markers_zone (hreadable id body indent List.mem_cons_self)
            (hbodies id body indent List.mem_cons_self)
          simp only [MarkerStyle.markers] at hzone
          rw [hzone]
          rfl

theorem Recoverable.damage_recoverZones_render {s : Skeleton}
    (hs : s.Recoverable content) (htexts : s.PlainTexts) :
    (recoverZones s.style (s.render content)).damage = [] :=
  damage_recoverZones_of_paired hs.nodup_zoneIds (hs.markers_render htexts)

theorem Sound.damage_recoverZones_render {s : Skeleton} (hs : s.Sound)
    (htexts : s.PlainTexts) (hcontent : PlainContent s.style content) :
    (recoverZones s.style (s.render content)).damage = [] :=
  (hs.recoverable hcontent).damage_recoverZones_render htexts

/-- A recovery undoes a rendering: there is no damage, and the zones are those of
the skeleton in its order, each with the body that it was rendered with. -/
theorem recoverZones_render {s : Skeleton} (hbuilt : s.Built) (hids : s.zoneIds.Nodup)
    (hreadable : Readable s.segments) (htexts : s.PlainTexts)
    {content : ZoneId → Option String}
    (hbodies : PlainBodies s.style content s.segments) :
    (recoverZones s.style (s.render content)).damage = [] ∧
      (recoverZones s.style (s.render content)).zones.keys = s.zoneIds ∧
      (recoverZones s.style (s.render content)).zones.entries =
        s.filledZones content := by
  have hs : s.Recoverable content := ⟨hbuilt.separated, hreadable, hids, hbodies⟩
  exact ⟨hs.damage_recoverZones_render htexts, hs.keys_recoverZones_render htexts,
    hs.entries_recoverZones_render htexts⟩

/-- A text that stops inside a line before each of two zones. -/
def unevenSkeleton : Skeleton :=
  ((((⟨"Motor.h", .block, []⟩ : Skeleton).pushText "class Motor \x7b").pushZone
    ⟨"class:members"⟩ "\t" "int x;").pushText "\x7d;").pushZone
      ⟨"class:additional-methods"⟩ "" ""

def unevenContent (id : ZoneId) : Option String :=
  if id = ⟨"class:additional-methods"⟩ then some "go();\r\nstop();" else none

theorem recoverZones_render_unevenSkeleton :
    (recoverZones unevenSkeleton.style (unevenSkeleton.render unevenContent)).damage =
        [] ∧
      (recoverZones unevenSkeleton.style
          (unevenSkeleton.render unevenContent)).zones.entries =
        [(⟨"class:members"⟩, "int x;\n"),
          (⟨"class:additional-methods"⟩, "go();\r\nstop();\n")] := by
  have hbuilt : unevenSkeleton.Built :=
    .pushZone (.pushText (.pushZone (.pushText (.start _ _) _) _ _ _) _) _ _ _
  have hsegments : unevenSkeleton.segments =
      [.text "class Motor \x7b", .zone ⟨"class:members"⟩ "int x;\n" "\t", .text "\x7d;",
        .zone ⟨"class:additional-methods"⟩ "" ""] := by decide
  have hreadable : Readable unevenSkeleton.segments := by
    intro id body indent hmem
    rw [hsegments] at hmem
    simp only [List.mem_cons, reduceCtorEq, Segment.zone.injEq, List.not_mem_nil,
      or_false, false_or] at hmem
    rcases hmem with ⟨rfl, rfl, rfl⟩ | ⟨rfl, rfl, rfl⟩
    · exact ⟨by decide, by decide, by simp [AllBlank]; decide, by decide⟩
    · exact ⟨by decide, by decide, by simp [AllBlank], by decide⟩
  have htexts : unevenSkeleton.PlainTexts := by
    intro t hmem
    rw [hsegments] at hmem
    simp only [List.mem_cons, reduceCtorEq, Segment.text.injEq, List.not_mem_nil,
      or_false, false_or] at hmem
    rcases hmem with rfl | rfl
    · decide
    · decide
  have hbodies : PlainBodies unevenSkeleton.style unevenContent
      unevenSkeleton.segments := by
    intro id body indent hmem
    rw [hsegments] at hmem
    simp only [List.mem_cons, reduceCtorEq, Segment.zone.injEq, List.not_mem_nil,
      or_false, false_or] at hmem
    rcases hmem with ⟨rfl, rfl, -⟩ | ⟨rfl, rfl, -⟩
    · decide
    · decide
  obtain ⟨hdamage, -, hentries⟩ :=
    recoverZones_render hbuilt (by decide) hreadable htexts hbodies
  have hfilled : unevenSkeleton.filledZones unevenContent =
      [(⟨"class:members"⟩, "int x;\n"),
        (⟨"class:additional-methods"⟩, "go();\r\nstop();\n")] := by
    rw [filledZones, hsegments]
    decide
  exact ⟨hdamage, hentries.trans hfilled⟩

/-- Only how bodies end matters to the file, which ends their last lines anyway. -/
theorem renderFrom_congr {other : ZoneId → Option String} {segments : List Segment}
    (h : ∀ id body indent, Segment.zone id body indent ∈ segments →
      Text.endLine ((content id).getD body) = Text.endLine ((other id).getD body))
    (fresh : Bool) :
    renderFrom style content fresh segments =
      renderFrom style other fresh segments := by
  induction segments generalizing fresh with
  | nil => rfl
  | cons segment rest ih =>
      have hrest := ih fun id body indent hmem =>
        h id body indent (List.mem_cons_of_mem _ hmem)
      cases segment with
      | text t => rw [renderFrom, renderFrom, hrest]
      | zone id body indent =>
          rw [renderFrom, renderFrom, hrest, zoneChars, zoneChars,
            h id body indent List.mem_cons_self]

/-- Only the bodies with their last lines ended count. -/
theorem render_congr {s : Skeleton} {other : ZoneId → Option String}
    (h : ∀ id body indent, Segment.zone id body indent ∈ s.segments →
      Text.endLine ((content id).getD body) = Text.endLine ((other id).getD body)) :
    s.render content = s.render other := by
  rw [render, render, renderFrom_congr h]

end Skeleton

end DeviceForge
