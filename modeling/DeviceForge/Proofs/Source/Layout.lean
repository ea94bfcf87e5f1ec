import DeviceForge.Proofs.Skeleton
import DeviceForge.Proofs.Zone.Plain
import DeviceForge.Source.Context

/-!
# Layouts and their skeletons

What holds of all lines of a layout holds of the generated text, and its zones
are the zones of the skeleton.  A layout whose zones are different and can be
read, with bodies free of dashes, makes a sound skeleton.
-/

namespace DeviceForge

open Text

namespace Layout

def zoneIds (l : Layout) : List ZoneId :=
  l.filterMap fun
    | .line _ _ => none
    | .zone _ id _ => some id

/-- Every line has one property, and every default body another. -/
def Every (P Q : String → Prop) (l : Layout) : Prop :=
  ∀ piece ∈ l, match piece with
    | .line _ text => P text
    | .zone _ _ body => Q body

def PlainLine (style : MarkerStyle) (text : String) : Prop :=
  style.Plain text.toList

section Parts

variable {parts : List Layout} {part : Layout}

/-- A part stands in the layout as it is, wherever it is among the others. -/
theorem infix_stacked (h : part ∈ parts) : part <:+: stacked parts :=
  List.infix_of_mem_flatten h

theorem mem_stacked {piece : Piece} (hpart : part ∈ parts) (h : piece ∈ part) :
    piece ∈ stacked parts :=
  List.mem_flatten_of_mem hpart h

theorem mem_forEach {α : Type} {items : List α} {f : α → Layout} {item : α}
    (hitem : item ∈ items) {piece : Piece} (h : piece ∈ f item) :
    piece ∈ forEach items f :=
  List.mem_flatMap.mpr ⟨item, hitem, h⟩

end Parts

section Zones

@[simp]
theorem zoneIds_nil : zoneIds [] = [] := rfl

@[simp]
theorem zoneIds_append (front back : Layout) :
    zoneIds (front ++ back) = zoneIds front ++ zoneIds back :=
  List.filterMap_append

@[simp]
theorem zoneIds_line (text : String) : zoneIds (line text) = [] := rfl

@[simp]
theorem zoneIds_lines (texts : List String) : zoneIds (lines texts) = [] := by
  simp [zoneIds, lines, List.filterMap_map]

@[simp]
theorem zoneIds_blank : zoneIds blank = [] := rfl

@[simp]
theorem zoneIds_zone (id : ZoneId) (body : String) :
    zoneIds (zone id body) = [id] := rfl

@[simp]
theorem zoneIds_indented (l : Layout) : zoneIds (indented l) = zoneIds l := by
  rw [zoneIds, indented, List.filterMap_map, zoneIds]
  congr 1
  funext piece
  cases piece <;> rfl

@[simp]
theorem zoneIds_braced (l : Layout) : zoneIds (braced l) = zoneIds l := by
  simp [braced]

@[simp]
theorem zoneIds_stacked (parts : List Layout) :
    zoneIds (stacked parts) = parts.flatMap zoneIds := by
  rw [zoneIds, stacked, List.filterMap_flatten, List.flatMap_def]
  rfl

@[simp]
theorem zoneIds_forEach {α : Type} (items : List α) (f : α → Layout) :
    zoneIds (forEach items f) = items.flatMap fun item => zoneIds (f item) := by
  simp [forEach, zoneIds, List.filterMap_flatMap]

theorem zoneIds_forEach_of_nil {α : Type} (items : List α) {f : α → Layout}
    (h : ∀ item, zoneIds (f item) = []) : zoneIds (forEach items f) = [] := by
  simp [List.flatMap_eq_nil_iff, h]

/-- A part is left out only if it has no items, so its zones are theirs. -/
theorem zoneIds_unlessEmpty {α : Type} {items : List α} {l : Layout}
    (h : items = [] → zoneIds l = []) : zoneIds (unlessEmpty items l) = zoneIds l := by
  rw [unlessEmpty]
  split
  · next hempty => rw [h (List.isEmpty_iff.mp hempty), zoneIds_nil]
  · rfl

end Zones

section Every

variable {P Q : String → Prop}

@[simp]
theorem every_nil : Every P Q [] := by
  simp [Every]

@[simp]
theorem every_append_iff {front back : Layout} :
    Every P Q (front ++ back) ↔ Every P Q front ∧ Every P Q back := by
  simp only [Every, List.mem_append, or_imp, forall_and]

@[simp]
theorem every_line_iff {text : String} : Every P Q (line text) ↔ P text := by
  simp [Every, line]

@[simp]
theorem every_lines_iff {texts : List String} :
    Every P Q (lines texts) ↔ ∀ text ∈ texts, P text := by
  simp [Every, lines]

@[simp]
theorem every_blank_iff : Every P Q blank ↔ P "" :=
  every_line_iff

@[simp]
theorem every_zone_iff {id : ZoneId} {body : String} :
    Every P Q (zone id body) ↔ Q body := by
  simp [Every, zone]

@[simp]
theorem every_indented_iff {l : Layout} : Every P Q (indented l) ↔ Every P Q l := by
  simp only [Every, indented, List.mem_map, forall_exists_index, and_imp,
    forall_apply_eq_imp_iff₂]
  refine forall₂_congr fun piece _ => ?_
  cases piece <;> rfl

@[simp]
theorem every_braced_iff {l : Layout} :
    Every P Q (braced l) ↔ P "\x7b" ∧ Every P Q l ∧ P "\x7d" := by
  simp [braced]

@[simp]
theorem every_stacked_iff {parts : List Layout} :
    Every P Q (stacked parts) ↔ ∀ part ∈ parts, Every P Q part := by
  constructor
  · intro h part hpart piece hpiece
    exact h piece (mem_stacked hpart hpiece)
  · intro h piece hpiece
    obtain ⟨part, hpart, hmem⟩ := List.mem_flatten.mp hpiece
    exact h part hpart piece hmem

@[simp]
theorem every_forEach_iff {α : Type} {items : List α} {f : α → Layout} :
    Every P Q (forEach items f) ↔ ∀ item ∈ items, Every P Q (f item) := by
  simp only [Every, forEach, List.mem_flatMap]
  constructor
  · intro h item hitem piece hmem
    exact h piece ⟨item, hitem, hmem⟩
  · rintro h piece ⟨item, hitem, hmem⟩
    exact h item hitem piece hmem

theorem every_unlessEmpty {α : Type} {items : List α} {l : Layout} (h : Every P Q l) :
    Every P Q (unlessEmpty items l) := by
  rw [unlessEmpty]
  split
  · exact every_nil
  · exact h

theorem Every.mono {P' Q' : String → Prop} {l : Layout} (h : Every P Q l)
    (hP : ∀ text, P text → P' text) (hQ : ∀ body, Q body → Q' body) :
    Every P' Q' l := by
  intro piece hpiece
  have hold := h piece hpiece
  cases piece with
  | line depth text => exact hP text hold
  | zone depth id body => exact hQ body hold

@[simp]
theorem every_ite_iff {p : Prop} [Decidable p] {l other : Layout} :
    Every P Q (if p then l else other) ↔ (p → Every P Q l) ∧
    (¬ p → Every P Q other) := by
  split
  · next h => simp [h]
  · next h => simp [h]

/-- What follows the head of a layout has good lines and bodies. -/
def Headed (head : Layout) (P Q : String → Prop) (l : Layout) : Prop :=
  ∃ rest, l = head ++ rest ∧ Every P Q rest

theorem headed_stacked {head : Layout} {parts : List Layout}
    (h : ∀ part ∈ parts, Every P Q part) : Headed head P Q (stacked (head :: parts)) :=
  ⟨stacked parts, rfl, every_stacked_iff.mpr h⟩

theorem Headed.every {head l : Layout} (h : Headed head P Q l)
    (hhead : Every P Q head) :
    Every P Q l := by
  obtain ⟨rest, rfl, hrest⟩ := h
  exact every_append_iff.mpr ⟨hhead, hrest⟩

/-- A layout without zones has no bodies. -/
theorem every_of_zoneIds_eq_nil {l : Layout} (h : zoneIds l = []) :
    Every (fun _ => True) Q l := by
  intro piece hpiece
  cases piece with
  | line depth text => trivial
  | zone depth id body =>
      have hid : id ∈ zoneIds l := List.mem_filterMap.mpr ⟨_, hpiece, rfl⟩
      rw [h] at hid
      exact absurd hid (by simp)

theorem Headed.bodies {head l : Layout} (h : Headed head P Q l)
    (hhead : zoneIds head = []) :
    Every (fun _ => True) Q l := by
  obtain ⟨rest, rfl, hrest⟩ := h
  refine every_append_iff.mpr ⟨every_of_zoneIds_eq_nil hhead, fun piece hpiece => ?_⟩
  cases piece with
  | line depth text => trivial
  | zone depth id body => exact hrest _ hpiece

end Every

/-! ## Plain lines -/

theorem plainLine_of_unopened {text : String} (h : Unopened text.toList) :
    PlainLine .block text :=
  MarkerStyle.plain_of_unopened h

theorem plainLine_of_lacks_slash {text : String} (h : Lacks '/' text) :
    PlainLine .block text :=
  plainLine_of_unopened (unopened_of_notMem_slash h)

theorem plainLine_of_lacks_star {text : String} (h : Lacks '*' text) :
    PlainLine .block text :=
  plainLine_of_unopened (unopened_of_notMem_star h)

theorem plainLine_of_lacks_dash {style : MarkerStyle} {text : String}
    (h : Lacks '-' text) :
    PlainLine style text :=
  MarkerStyle.plain_of_lacks_dash h

/-- A line that is written out opens no comment. -/
theorem plainLine_lit {cs : List Char} (h : Unopened cs) :
    PlainLine .block (String.ofList cs) :=
  plainLine_of_unopened (by rwa [String.toList_ofList])

/-- A line of code that starts with a sign of its own is no comment. -/
theorem plainLine_of_head {c : Char} {text : String} (hhead : c ∈ text.toList.head?)
    (hblank : isBlank c = false) (hslash : c ≠ '/') (hline : Lacks '\n' text) :
    PlainLine .block text := by
  obtain ⟨rest, hrest⟩ := List.head?_eq_some_iff.mp hhead
  rw [Lacks, hrest] at hline
  rw [PlainLine, hrest]
  exact MarkerStyle.plain_of_head hblank hslash hline

@[simp]
theorem plainLine_empty (style : MarkerStyle) : PlainLine style "" :=
  plainLine_of_lacks_dash (lacks_lit (by decide))

@[simp]
theorem plainLine_openBrace (style : MarkerStyle) : PlainLine style "\x7b" :=
  plainLine_of_lacks_dash (lacks_lit (by decide))

@[simp]
theorem plainLine_closeBrace (style : MarkerStyle) : PlainLine style "\x7d" :=
  plainLine_of_lacks_dash (lacks_lit (by decide))

/-- Text that opens no comment may follow a lead that does not end with a slash. -/
theorem unopened_append {lead text : String} (hlead : Unopened lead.toList)
    (hlast : '/' ∉ lead.toList.getLast?) (htext : Unopened text.toList) :
    Unopened (lead ++ text).toList := by
  rw [String.toList_append]
  exact hlead.append htext hlast

theorem unopened_trimEnd {text : String} (h : Unopened text.toList) :
    Unopened (trimEnd text).toList := by
  rw [toList_trimEnd]
  exact List.IsChain.prefix h (dropTrailing_isPrefix _)

section Indentation

variable {unit : String}

theorem allBlank_indentText (hunit : AllBlank unit.toList) (depth : ℕ) :
    AllBlank (indentText unit depth).toList := by
  intro c hc
  rw [indentText, String.toList_join, List.mem_flatMap] at hc
  obtain ⟨text, htext, hc⟩ := hc
  rw [List.eq_of_mem_replicate htext] at hc
  exact hunit c hc

theorem lacks_indentText {c : Char} (hunit : Lacks c unit) (depth : ℕ) :
    Lacks c (indentText unit depth) := by
  rw [indentText, lacks_join]
  intro text htext
  rw [List.eq_of_mem_replicate htext]
  exact hunit

theorem lacks_of_allBlank {c : Char} {s : String} (hs : AllBlank s.toList)
    (hc : isBlank c = false) : Lacks c s := by
  intro hmem
  rw [hs c hmem] at hc
  exact absurd hc (by simp)

/-- Indenting puts nothing before lines but the indent. -/
theorem lacks_indentLines {c : Char} {text indent : String} (htext : Lacks c text)
    (hindent : Lacks c indent) : Lacks c (indentLines text indent) := by
  rw [indentLines, lacks_ofList]
  intro hmem
  obtain ⟨line, hline, hc⟩ := List.mem_flatMap.mp hmem
  have hlineText : line ⊆ text.toList := by
    rw [← flatten_splitLines text.toList]
    exact fun d hd => List.mem_flatten_of_mem hline hd
  split at hc
  · exact htext (hlineText ((List.dropWhile_sublist _).subset hc))
  · rcases List.mem_append.mp hc with hc | hc
    · exact hindent hc
    · exact htext (hlineText hc)

theorem lacks_endLine {c : Char} {s : String} (hc : c ≠ '\n') (h : Lacks c s) :
    Lacks c (Text.endLine s) := by
  rw [Text.endLine]
  split
  · exact h
  · rw [lacks_append]
    exact ⟨h, by simpa [Lacks] using hc⟩

/-- Blanks before a text go before its first line. -/
theorem splitLines_append_of_notMem {front : List Char} (hfront : '\n' ∉ front)
    {cs : List Char} (hcs : cs ≠ []) :
    ∃ line rest, splitLines cs = line :: rest ∧
      splitLines (front ++ cs) = (front ++ line) :: rest := by
  induction front with
  | nil =>
      obtain ⟨line, rest, hlines⟩ := List.exists_cons_of_ne_nil (splitLines_ne_nil hcs)
      exact ⟨line, rest, hlines, hlines⟩
  | cons c front ih =>
      rw [List.mem_cons, not_or] at hfront
      obtain ⟨line, rest, hlines, hwhole⟩ := ih hfront.2
      refine ⟨line, rest, hlines, ?_⟩
      rw [List.cons_append, splitLines_cons_of_ne (Ne.symm hfront.1), hwhole]
      rfl

/-- Blanks before the first line do not make it a marker. -/
theorem plain_append_of_allBlank {style : MarkerStyle} {indent cs : List Char}
    (hblank : AllBlank indent) (hindent : '\n' ∉ indent) (h : style.Plain cs) :
    style.Plain (indent ++ cs) := by
  by_cases hcs : cs = []
  · rw [hcs, List.append_nil]
    intro line hline
    apply MarkerStyle.read?_eq_none_of_allBlank
    intro c hc
    apply hblank
    rw [← flatten_splitLines indent]
    exact List.mem_flatten_of_mem hline hc
  · obtain ⟨first, rest, hlines, hwhole⟩ := splitLines_append_of_notMem hindent hcs
    rw [MarkerStyle.Plain, hlines] at h
    rw [MarkerStyle.Plain, hwhole]
    intro line hline
    rcases List.mem_cons.mp hline with rfl | hline
    · have hread : style.read? (indent ++ first ++ []) = style.read? first :=
        MarkerStyle.read?_append_of_allBlank hblank (by simp [AllBlank]) first
      rw [List.append_nil] at hread
      rw [hread]
      exact h first List.mem_cons_self
    · exact h line (List.mem_cons_of_mem _ hline)

theorem plain_newline (style : MarkerStyle) : style.Plain ['\n'] :=
  MarkerStyle.plain_of_lacks_dash (s := "\n") (by decide)

theorem plain_concat_newline {style : MarkerStyle} {cs : List Char}
    (h : style.Plain cs) :
    style.Plain (cs ++ ['\n']) := by
  by_cases hcs : Complete cs
  · rw [MarkerStyle.plain_append_iff hcs]
    exact ⟨h, plain_newline style⟩
  · rw [← ended_of_not_complete hcs]
    exact MarkerStyle.plain_ended_iff.mpr h

theorem plain_lineText {style : MarkerStyle} (hblank : AllBlank unit.toList)
    (hunit : Lacks '\n' unit) {text : String} (h : style.Plain text.toList)
    (depth : ℕ) :
    style.Plain (lineText unit depth text).toList := by
  rw [lineText]
  split
  · exact plain_newline style
  · rw [String.toList_append, String.toList_append, List.append_assoc]
    exact plain_append_of_allBlank (allBlank_indentText hblank depth)
      (lacks_indentText hunit depth) (plain_concat_newline h)

theorem complete_lineText (depth : ℕ) (text : String) :
    Complete (lineText unit depth text).toList := by
  rw [lineText]
  split
  · exact complete_concat []
  · rw [String.toList_append]
    exact complete_concat _

theorem toList_lineText_zero (text : String) :
    (lineText unit 0 text).toList = text.toList ++ ['\n'] := by
  rw [lineText]
  split
  · next hempty => simp [show text = "" by simpa using hempty]
  · simp [indentText]

/-- A line joins the generated text that follows it. -/
theorem segments_line_cases (unit : String) (depth : ℕ) (text : String)
    (rest : Layout) :
    (∃ more others, segments unit rest = .text more :: others ∧
      segments unit (.line depth text :: rest) =
        .text (lineText unit depth text ++ more) :: others) ∨
    ((∀ next ∈ (segments unit rest).head?, next.isText = false) ∧
      segments unit (.line depth text :: rest) =
        .text (lineText unit depth text) :: segments unit rest) := by
  rw [segments]
  split
  · next more others hrest => exact Or.inl ⟨more, others, hrest, rfl⟩
  · next hother =>
      refine Or.inr ⟨fun next hnext => ?_, rfl⟩
      cases next with
      | text more =>
          obtain ⟨others, hrest⟩ := List.head?_eq_some_iff.mp hnext
          exact absurd hrest (hother more others)
      | zone id body indent => rfl

/-- Neighbouring lines are one text, so texts are separated by zones. -/
theorem separated_segments (unit : String) (l : Layout) :
    Skeleton.Separated (segments unit l) := by
  induction l with
  | nil => exact List.isChain_nil
  | cons piece rest ih =>
      cases piece with
      | zone depth id body =>
          refine List.isChain_cons.mpr ⟨fun next _ htext => ?_, ih⟩
          exact absurd htext (by simp [Segment.isText])
      | line depth text =>
          rcases segments_line_cases unit depth text rest with
            ⟨more, others, hrest, hsegments⟩ | ⟨hhead, hsegments⟩
          · rw [hsegments]
            rw [hrest] at ih
            exact List.isChain_cons.mpr ⟨(List.isChain_cons.mp ih).1, ih.tail⟩
          · rw [hsegments]
            exact List.isChain_cons.mpr ⟨fun next hnext _ => hhead next hnext, ih⟩

/-- Only the text of a layout is put together, so its zones are found one by one. -/
theorem filterMap_segments {α : Type} {f : Segment → Option α}
    (htext : ∀ t, f (.text t) = none) (unit : String) (l : Layout) :
    (segments unit l).filterMap f = l.filterMap fun
      | .line _ _ => none
      | .zone depth id body =>
          f (.zone id (Text.endLine (indentLines body (indentText unit depth)))
            (indentText unit depth)) := by
  induction l with
  | nil => rfl
  | cons piece rest ih =>
      cases piece with
      | zone depth id body =>
          rw [segments, List.filterMap_cons, ih, List.filterMap_cons]
      | line depth text =>
          rw [List.filterMap_cons_none (by rfl), ← ih]
          rcases segments_line_cases unit depth text rest with
            ⟨more, others, hrest, hsegments⟩ | ⟨-, hsegments⟩
          · rw [hsegments, hrest, List.filterMap_cons_none (htext _),
              List.filterMap_cons_none (htext _)]
          · rw [hsegments, List.filterMap_cons_none (htext _)]

theorem zoneIds_segments (unit : String) (l : Layout) :
    (segments unit l).filterMap (fun
      | .text _ => none
      | .zone id _ _ => some id) = zoneIds l :=
  filterMap_segments (fun _ => rfl) unit l

/-- A zone of the skeleton is one of the layout, with its body indented. -/
theorem mem_of_zone_mem_segments {l : Layout} {id : ZoneId} {body indent : String}
    (h : Segment.zone id body indent ∈ segments unit l) :
    ∃ depth default, Piece.zone depth id default ∈ l ∧ indent = indentText unit depth ∧
      body = Text.endLine (indentLines default indent) := by
  have hmem : Segment.zone id body indent ∈ (segments unit l).filterMap fun
      | .text _ => none
      | .zone id body indent => some (.zone id body indent) :=
    List.mem_filterMap.mpr ⟨_, h, rfl⟩
  rw [filterMap_segments fun _ => rfl] at hmem
  obtain ⟨piece, hpiece, heq⟩ := List.mem_filterMap.mp hmem
  cases piece with
  | line depth text => exact absurd heq (by simp)
  | zone depth other default =>
      simp only [Option.some.injEq, Segment.zone.injEq] at heq
      obtain ⟨rfl, rfl, rfl⟩ := heq
      exact ⟨depth, default, hpiece, rfl, rfl⟩

/-- The generated text is plain if all lines are. -/
theorem plain_of_text_mem_segments {style : MarkerStyle} {Q : String → Prop}
    (hblank : AllBlank unit.toList) (hunit : Lacks '\n' unit) {l : Layout}
    (hl : Every (PlainLine style) Q l) {t : String}
    (ht : Segment.text t ∈ segments unit l) : style.Plain t.toList := by
  induction l generalizing t with
  | nil => simp [segments] at ht
  | cons piece rest ih =>
      have hrest := @ih fun other hother => hl other (List.mem_cons_of_mem _ hother)
      cases piece with
      | zone depth id body =>
          rw [segments, List.mem_cons] at ht
          exact hrest (ht.resolve_left (by simp))
      | line depth text =>
          have hline := plain_lineText hblank hunit (hl _ List.mem_cons_self) depth
          rcases segments_line_cases unit depth text rest with
            ⟨more, others, hothers, hsegments⟩ | ⟨-, hsegments⟩
          · rw [hothers] at hrest
            rw [hsegments, List.mem_cons] at ht
            rcases ht with ht | ht
            · simp only [Segment.text.injEq] at ht
              rw [ht, String.toList_append,
                MarkerStyle.plain_append_iff (complete_lineText depth text)]
              exact ⟨hline, hrest List.mem_cons_self⟩
            · exact hrest (List.mem_cons_of_mem _ ht)
          · rw [hsegments, List.mem_cons] at ht
            rcases ht with ht | ht
            · simp only [Segment.text.injEq] at ht
              rw [ht]
              exact hline
            · exact hrest ht

/-! ## Skeletons -/

variable {P Q : String → Prop} {l : Layout}

@[simp]
theorem zoneIds_toSkeleton (file : String) (style : MarkerStyle) (unit : String)
    (l : Layout) : (l.toSkeleton file style unit).zoneIds = zoneIds l :=
  zoneIds_segments unit l

def ReadableId (id : ZoneId) : Prop :=
  id.text ≠ "" ∧ Lacks '\n' id.text

theorem mem_zoneIds_of_mem {depth : ℕ} {id : ZoneId} {body : String}
    (h : Piece.zone depth id body ∈ l) : id ∈ zoneIds l :=
  List.mem_filterMap.mpr ⟨_, h, rfl⟩

/-- A default body without dashes is free of markers, however deep it stands. -/
theorem plainBodies_segments (style : MarkerStyle) (hblank : AllBlank unit.toList)
    (hbodies : Every P (Lacks '-') l) :
    Skeleton.PlainBodies style (fun _ => none) (segments unit l) := by
  intro id body indent hmem
  obtain ⟨depth, default, hpiece, rfl, rfl⟩ := mem_of_zone_mem_segments hmem
  apply MarkerStyle.plain_of_lacks_dash
  apply lacks_endLine (by decide)
  apply lacks_indentLines (hbodies _ hpiece)
  exact lacks_of_allBlank (allBlank_indentText hblank depth) (by decide)

/-- A layout makes a sound skeleton if its zones are different and can be read. -/
theorem sound_toSkeleton {file : String} {style : MarkerStyle}
    (hblank : AllBlank unit.toList) (hunit : Lacks '\n' unit)
    (hids : (zoneIds l).Nodup) (hreadable : ∀ id ∈ zoneIds l, ReadableId id)
    (hbodies : Every P (Lacks '-') l) : (l.toSkeleton file style unit).Sound := by
  constructor
  · exact separated_segments unit l
  · intro id body indent hmem
    obtain ⟨depth, default, hpiece, rfl, -⟩ := mem_of_zone_mem_segments hmem
    obtain ⟨hne, hline⟩ := hreadable id (mem_zoneIds_of_mem hpiece)
    exact ⟨hne, hline, allBlank_indentText hblank depth, lacks_indentText hunit depth⟩
  · rw [zoneIds_toSkeleton]
    exact hids
  · intro id body indent hmem
    obtain ⟨depth, default, -, -, rfl⟩ := mem_of_zone_mem_segments hmem
    rw [toList_endLine]
    exact complete_ended _
  · exact plainBodies_segments style hblank hbodies

theorem plainTexts_toSkeleton {file : String} {style : MarkerStyle}
    (hblank : AllBlank unit.toList) (hunit : Lacks '\n' unit)
    (hlines : Every (PlainLine style) Q l) :
    (l.toSkeleton file style unit).PlainTexts :=
  fun _ => plain_of_text_mem_segments hblank hunit hlines

end Indentation

end Layout

theorem Settings.allBlank_indentUnit (s : Settings) : AllBlank s.indentUnit.toList := by
  rw [indentUnit, String.toList_ofList]
  exact allBlank_replicate_space s.indentWidth

theorem Settings.lacks_newline_indentUnit (s : Settings) : Lacks '\n' s.indentUnit := by
  rw [indentUnit, lacks_ofList]
  intro hmem
  exact absurd (List.eq_of_mem_replicate hmem) (by decide)

end DeviceForge
