import DeviceForge.Proofs.Generation

/-!
# Generating twice

A second generation recovers what the first one wrote, unless a generated text
holds markers of a zone of its own file.  Such a zone is found twice and given
up, so its body is lost.
-/

namespace DeviceForge

open Text

namespace Skeleton

variable {s : Skeleton} {content other : ZoneId → Option String} {style : MarkerStyle}

theorem length_zoneChars (id : ZoneId) (indent body : String) :
    (zoneChars style id indent body).length = 2 * indent.toList.length +
      (style.beginMarker id).toList.length + (style.endMarker id).toList.length + 2 +
      (ended body.toList).length := by
  simp only [zoneChars, List.length_append, List.length_cons, List.length_nil,
    toList_endLine]
  omega

/-- Longer bodies make a longer file. -/
theorem length_renderFrom_le {segments : List Segment}
    (h : ∀ id body indent, Segment.zone id body indent ∈ segments →
      (bodyChars content id body).length ≤ (bodyChars other id body).length)
    (fresh : Bool) :
    (renderFrom style content fresh segments).length ≤
      (renderFrom style other fresh segments).length := by
  induction segments generalizing fresh with
  | nil => exact le_rfl
  | cons segment rest ih =>
      have hrest := ih fun id body indent hmem =>
        h id body indent (List.mem_cons_of_mem _ hmem)
      cases segment with
      | text t =>
          rw [renderFrom, renderFrom, List.length_append, List.length_append]
          exact Nat.add_le_add_left (hrest _) _
      | zone id body indent =>
          have hbody := h id body indent List.mem_cons_self
          have hafter := hrest true
          simp only [renderFrom, List.length_append, length_zoneChars]
          simp only [bodyChars] at hbody
          omega

/-- A file is longer if all its bodies are at least as long and one of them is longer.
-/
theorem length_renderFrom_lt {segments : List Segment}
    (h : ∀ id body indent, Segment.zone id body indent ∈ segments →
      (bodyChars content id body).length ≤ (bodyChars other id body).length)
    {id : ZoneId} {body indent : String} (hmem : Segment.zone id body indent ∈ segments)
    (hlonger : (bodyChars content id body).length < (bodyChars other id body).length)
    (fresh : Bool) :
    (renderFrom style content fresh segments).length <
      (renderFrom style other fresh segments).length := by
  induction segments generalizing fresh with
  | nil => simp at hmem
  | cons segment rest ih =>
      have htail := fun id body indent hmem =>
        h id body indent (List.mem_cons_of_mem _ hmem)
      rcases List.mem_cons.mp hmem with rfl | hmem
      · have hafter : (renderFrom style content true rest).length ≤
            (renderFrom style other true rest).length := length_renderFrom_le htail true
        simp only [renderFrom, List.length_append, length_zoneChars]
        simp only [bodyChars] at hlonger
        omega
      · have hafter := ih htail hmem
        cases segment with
        | text t =>
            rw [renderFrom, renderFrom, List.length_append, List.length_append]
            exact Nat.add_lt_add_left (hafter _) _
        | zone first default blanks =>
            have hbody := h first default blanks List.mem_cons_self
            have hlast := hafter true
            simp only [renderFrom, List.length_append, length_zoneChars]
            simp only [bodyChars] at hbody
            omega

/-- A file with shorter bodies is another file. -/
theorem render_ne_of_shorter
    (h : ∀ id body indent, Segment.zone id body indent ∈ s.segments →
      (bodyChars content id body).length ≤ (bodyChars other id body).length)
    {id : ZoneId} {body indent : String}
    (hmem : Segment.zone id body indent ∈ s.segments)
    (hlonger : (bodyChars content id body).length < (bodyChars other id body).length) :
    s.render content ≠ s.render other := by
  intro heq
  have hlength := congrArg (fun text => text.toList.length) heq
  simp only [render, String.toList_ofList] at hlength
  exact absurd hlength (Nat.ne_of_lt (length_renderFrom_lt h hmem hlonger true))

/-! ## Files with one zone -/

def single (style : MarkerStyle) (id : ZoneId) (body : String) : Skeleton :=
  ⟨"", style, [.zone id body ""]⟩

/-- A readable id and a plain body make a file of one zone that is sound. -/
theorem sound_single {id : ZoneId} {body : String} (hid : id.text ≠ "")
    (hline : '\n' ∉ id.text.toList) (hcomplete : Complete body.toList)
    (hplain : style.Plain body.toList) : (single style id body).Sound := by
  constructor
  · exact List.isChain_singleton _
  · intro other text indent hmem
    simp only [single, List.mem_singleton, Segment.zone.injEq] at hmem
    obtain ⟨rfl, -, rfl⟩ := hmem
    exact ⟨hid, hline, by simp [AllBlank], by simp⟩
  · exact List.nodup_singleton _
  · intro other text indent hmem
    simp only [single, List.mem_singleton, Segment.zone.injEq] at hmem
    obtain ⟨-, rfl, -⟩ := hmem
    exact hcomplete
  · intro other text indent hmem
    simp only [single, List.mem_singleton, Segment.zone.injEq] at hmem
    obtain ⟨-, rfl, -⟩ := hmem
    exact hplain

/-- What is recovered from a file with one zone. -/
theorem get?_recoverZones_single {id : ZoneId} {body : String}
    (hs : (single style id body).Sound) (target : ZoneId) :
    (recoverZones style (single style id body).renderDefault).zones.get? target =
      if target = id then some body else none := by
  have hcontent : PlainContent style fun _ => none := by simp [PlainContent]
  have hrecoverable := hs.recoverable hcontent
  have htexts : (single style id body).PlainTexts := by simp [single, PlainTexts]
  have hzone : Segment.zone id body "" ∈ (single style id body).segments :=
    List.mem_cons_self
  by_cases htarget : target = id
  · subst htarget
    rw [if_pos rfl]
    have hget :=
      hrecoverable.get?_recoverZones_render hzone (by simp [htexts.forgedIds_eq_nil])
    rwa [Option.getD_none, endLine_of_complete (hs.bodiesComplete _ _ _ hzone)] at hget
  · rw [if_neg htarget, OrderedMap.get?_eq_none_iff]
    have hkeys : (recoverZones style (single style id body).renderDefault).zones.keys =
        [id] :=
      hrecoverable.keys_recoverZones_render htexts
    rw [hkeys]
    simpa using htarget

/-- A second merge changes nothing if no text forges a zone. -/
theorem Sound.merge_again (hs : s.Sound) (hforged : ∀ id ∈ s.zoneIds, id ∉ s.forgedIds)
    (prior : Option String) (renames : Renames) :
    (merge s (some (merge s prior renames).text) {}).text =
      (merge s prior renames).text := by
  rw [text_merge_empty, text_merge s prior renames]
  apply render_congr
  intro id body indent hmem
  rw [← text_merge s prior renames, hs.get?_recoverZones_merge hmem
    (hforged id (mem_zoneIds_iff.mpr ⟨body, indent, hmem⟩)), Option.getD_some]

/-- The body of a zone that a text forges can be lost: some earlier file is not
reproduced by a second merge. -/
theorem Sound.exists_merge_again_ne (hs : s.Sound) {id : ZoneId} (hid : id ∈ s.zoneIds)
    (hforged : id ∈ s.forgedIds) :
    ∃ text, (merge s (some (merge s (some text) {}).text) {}).text ≠
      (merge s (some text) {}).text := by
  obtain ⟨body, indent, hmem⟩ := mem_zoneIds_iff.mp hid
  have hreadable := hs.readable id body indent hmem
  have hcomplete := hs.bodiesComplete id body indent hmem
  have hplain : s.style.Plain body.toList := hs.plain_default id body indent hmem
  let longer := body ++ "x\n"
  have hlonger : longer.toList = body.toList ++ ['x', '\n'] := by simp [longer]
  have hlongerComplete : Complete longer.toList := by
    rw [hlonger]
    exact hcomplete.append (complete_concat ['x'])
  have hlongerPlain : s.style.Plain longer.toList := by
    rw [hlonger, MarkerStyle.plain_append_iff hcomplete]
    exact ⟨hplain, MarkerStyle.plain_of_lacks_dash (s := "x\n") (by decide)⟩
  have hsingle := sound_single hreadable.id_ne_empty hreadable.newline_notMem_id
    hlongerComplete hlongerPlain
  refine ⟨(single s.style id longer).renderDefault, ?_⟩
  rw [text_merge_empty, text_merge_empty]
  set first :=
    (recoverZones s.style (single s.style id longer).renderDefault).zones.get?
    with hfirst
  have hget : ∀ target, first target = if target = id then some longer else none :=
    get?_recoverZones_single hsingle
  have hcontent : PlainContent s.style first := by
    intro target text htext
    rw [hget] at htext
    split at htext
    · rw [Option.mem_some_iff] at htext
      exact htext ▸ hlongerPlain
    · simp at htext
  set second := (recoverZones s.style (s.render first)).zones.get? with hsecond
  have hgone : second id = none :=
    hs.get?_recoverZones_render_of_forged hcontent hid hforged
  have hshorter :
      (bodyChars second id body).length < (bodyChars first id body).length := by
    rw [bodyChars, bodyChars, hgone, hget, if_pos rfl, Option.getD_none,
      Option.getD_some, ended_of_complete hcomplete, ended_of_complete hlongerComplete,
      hlonger]
    simp
  refine render_ne_of_shorter (fun target default blanks hzone => ?_) hmem hshorter
  by_cases htarget : target = id
  · subst htarget
    obtain rfl := hs.body_eq hmem hzone
    exact hshorter.le
  · rw [bodyChars, bodyChars, hget, if_neg htarget, Option.getD_none]
    by_cases hother : target ∈ s.forgedIds
    · rw [hsecond, hs.get?_recoverZones_render_of_forged hcontent
        (mem_zoneIds_iff.mpr ⟨default, blanks, hzone⟩) hother, Option.getD_none]
    · rw [hsecond, (hs.recoverable hcontent).get?_recoverZones_render hzone hother,
        hget, if_neg htarget, Option.getD_none, Option.getD_some, toList_endLine,
        ended_of_complete (complete_ended _)]

end Skeleton

/-! ## Generating twice -/

variable {settings : Settings} {cls : DeviceClass} {prior : PriorSource}
  {renames pending : Renames} {files : List Skeleton} {warnings : List Warning}
  {out : Output}

/-- Where no text forges a marker of a zone, a second generation recovers what the first
one wrote and writes it again. -/
theorem generate_again (hcls : cls.Named)
    (hfiles : skeletons settings cls = .ok (files, warnings))
    (hforged : ∀ s ∈ files, ∀ id ∈ s.zoneIds, id ∉ s.forgedIds)
    (h : generate settings cls prior renames = .ok (out, pending)) :
    ∃ again, generate settings cls (.ofFiles out.files) {} = .ok (again, {}) ∧
      again.files = out.files := by
  obtain ⟨files', warnings', hfiles', -, rfl, -⟩ := generate_eq_ok_iff.mp h
  obtain ⟨rfl, rfl⟩ := Prod.mk.inj (Except.ok.inj (hfiles.symm.trans hfiles'))
  refine ⟨_, generate_ofFiles_eq_ok_iff.mpr ⟨files, warnings, hfiles, rfl, rfl⟩, ?_⟩
  apply OrderedMap.eq_of_entries_eq
  rw [entries_files_outputOf (nodup_files hfiles),
    entries_files_outputOf (nodup_files hfiles)]
  refine List.map_congr_left fun s hs => ?_
  rw [get?_files_outputOf (nodup_files hfiles) hs,
    (hcls.ownFile hfiles hs).sound.merge_again (hforged s hs)]

/-- A forged marker makes two zones of one id, so a body long enough is lost by the
second generation. -/
theorem exists_generate_again_ne (hcls : cls.Named)
    (hfiles : skeletons settings cls = .ok (files, warnings)) {s : Skeleton}
    (hs : s ∈ files) {id : ZoneId} (hid : id ∈ s.zoneIds) (hforged : id ∈ s.forgedIds) :
    ∃ prior out again, generate settings cls prior {} = .ok (out, {}) ∧
      generate settings cls (.ofFiles out.files) {} = .ok (again, {}) ∧
      again.files ≠ out.files := by
  obtain ⟨text, htext⟩ :=
    (hcls.ownFile hfiles hs).sound.exists_merge_again_ne hid hforged
  let prior : PriorSource := fun _ => .text text
  have hprior : ∀ other ∈ files, prior other.file ≠ .unreadable := by simp [prior]
  refine ⟨prior, _, _,
    generate_eq_ok_iff.mpr ⟨files, warnings, hfiles, hprior, rfl, rfl⟩,
    generate_ofFiles_eq_ok_iff.mpr ⟨files, warnings, hfiles, rfl, rfl⟩, fun heq =>
      htext ?_⟩
  have hget := congrArg (fun m => m.get? s.file) heq
  rw [get?_files_outputOf (nodup_files hfiles) hs] at hget
  simp only [get?_files_outputOf (nodup_files hfiles) hs] at hget
  exact Option.some.inj hget

/-- Generating a class a second time, with nothing pending and the files of the
first time, gives these files again, whatever the first time started from, in
exactly the cases where no generated text holds markers of a zone of its own
file. -/
theorem generate_again_iff (hcls : cls.Checked) :
    (∀ prior renames out pending,
      generate settings cls prior renames = .ok (out, pending) →
      ∃ again, generate settings cls (.ofFiles out.files) {} = .ok (again, {}) ∧
        again.files = out.files) ↔
    ∀ files warnings, skeletons settings cls = .ok (files, warnings) →
      ∀ s ∈ files, ∀ id ∈ s.zoneIds, id ∉ s.forgedIds := by
  constructor
  · intro hagain files warnings hfiles s hs id hid hforged
    obtain ⟨prior, out, other, hout, hother, hne⟩ :=
      exists_generate_again_ne hcls.named hfiles hs hid hforged
    obtain ⟨again, hgenerate, hsame⟩ := hagain prior {} out {} hout
    rw [hother, Except.ok.injEq, Prod.mk.injEq] at hgenerate
    exact hne (hgenerate.1 ▸ hsame)
  · intro hforged prior renames out pending h
    obtain ⟨files, warnings, hfiles, -⟩ := generate_eq_ok_iff.mp h
    exact generate_again hcls.named hfiles (hforged files warnings hfiles) h

/-- A C++ class without a description is generated, and generated again. -/
theorem generate_again_iff_motor :
    let cls : DeviceClass := { name := "Motor", language := .cpp }
    cls.Checked ∧ (∃ out, generate {} cls .none {} = .ok (out, {})) ∧
      ∀ prior renames out pending, generate {} cls prior renames = .ok (out, pending) →
        ∃ again, generate {} cls (.ofFiles out.files) {} = .ok (again, {}) ∧
          again.files = out.files := by
  intro cls
  have hname : Name.ofText "Motor" = .ok "Motor" := by decide
  have hchecked : cls.Checked := by
    have hstart : DeviceClass.ofText "Motor" .cpp = .ok cls := by
      rw [DeviceClass.ofText, hname]
      rfl
    exact .ofText hstart
  have hgenerated : ∃ files warnings, skeletons {} cls = .ok (files, warnings) :=
    ⟨_, _, skeletons_eq_ok_iff.mpr ⟨_, _, rfl, rfl, rfl⟩⟩
  obtain ⟨files, warnings, hfiles⟩ := hgenerated
  refine ⟨hchecked, ⟨_, generate_eq_ok_iff.mpr ⟨files, warnings, hfiles, ?_, rfl, rfl⟩⟩,
    ?_⟩
  · simp [PriorSource.none]
  · refine (generate_again_iff hchecked).mpr fun files warnings hfiles s hs id _ => ?_
    rw [(hchecked.named.plainTexts (Or.inl rfl) rfl hfiles hs).forgedIds_eq_nil]
    exact List.not_mem_nil

/-- In the languages with block comments all free text is escaped, so a second
generation always gives the files of the first one. -/
theorem generate_again_of_blockComments (hcls : cls.Checked)
    (hlanguage : cls.language = .cpp ∨ cls.language = .java)
    (hrevision : cls.revision = some currentRevision)
    (h : generate settings cls prior renames = .ok (out, pending)) :
    ∃ again, generate settings cls (.ofFiles out.files) {} = .ok (again, {}) ∧
      again.files = out.files := by
  obtain ⟨files, warnings, hfiles, -⟩ := generate_eq_ok_iff.mp h
  refine generate_again hcls.named hfiles (fun s hs id _ => ?_) h
  rw [(hcls.named.plainTexts hlanguage hrevision hfiles hs).forgedIds_eq_nil]
  exact List.not_mem_nil

section Forged

open Layout

/-- Two neighbouring lines that open and close a zone. -/
theorem mem_closings_of_neighbours {style : MarkerStyle}
    {front opening closing back : List Char} {id : ZoneId} (hfront : Complete front)
    (hopening : IsLine opening) (hclosing : IsLine closing)
    (hopens : style.read? opening = some (.opens id))
    (hcloses : style.read? closing = some (.closes id)) :
    id ∈
      (style.closings none (splitLines (front ++ (opening ++ (closing ++ back))))).map
      Prod.fst := by
  rw [splitLines_append hfront, splitLines_append hopening.complete,
    splitLines_append hclosing.complete, hopening.splitLines_eq, hclosing.splitLines_eq,
    MarkerStyle.closings_append, List.map_append, List.mem_append]
  right
  rw [List.singleton_append, List.singleton_append,
    MarkerStyle.closings_cons_of_opens hopens,
    MarkerStyle.closings_cons_of_closes hcloses]
  exact List.mem_cons_self

/-- Neighbouring lines of a layout are lines of one text. -/
theorem exists_text_of_neighbours (unit : String) (before after : Layout)
    (first second : String) :
    ∃ t front back,
      Segment.text t ∈
        segments unit (before ++ .line 0 first :: .line 0 second :: after) ∧
      t.toList = front ++ ((lineText unit 0 first).toList ++
        ((lineText unit 0 second).toList ++ back)) ∧ Complete front := by
  induction before with
  | nil =>
      rw [List.nil_append]
      have hsecond : ∃ back others, segments unit (.line 0 second :: after) =
          .text (lineText unit 0 second ++ back) :: others := by
        rcases segments_line_cases unit 0 second after with
          ⟨more, others, -, hsegments⟩ | ⟨-, hsegments⟩
        · exact ⟨more, others, hsegments⟩
        · exact ⟨"", _, by rw [hsegments, String.append_empty]⟩
      obtain ⟨back, others, hsecond⟩ := hsecond
      rcases segments_line_cases unit 0 first (.line 0 second :: after) with
        ⟨more, others', hrest, hsegments⟩ | ⟨hhead, -⟩
      · rw [hsecond] at hrest
        obtain ⟨rfl, rfl⟩ :
            lineText unit 0 second ++ back = more ∧ others = others' := by
          simpa using hrest
        refine ⟨_, [], back.toList, by rw [hsegments]; exact List.mem_cons_self, ?_,
          complete_nil⟩
        simp
      · rw [hsecond] at hhead
        exact absurd (hhead _ rfl) (by simp [Segment.isText])
  | cons piece rest ih =>
      obtain ⟨t, front, back, hmem, htext, hfront⟩ := ih
      rw [List.cons_append]
      cases piece with
      | zone depth id body =>
          exact ⟨t, front, back, List.mem_cons_of_mem _ hmem, htext, hfront⟩
      | line depth text =>
          rcases segments_line_cases unit depth text
            (rest ++ .line 0 first :: .line 0 second :: after) with
            ⟨more, others, hrest, hsegments⟩ | ⟨-, hsegments⟩
          · rw [hrest, List.mem_cons] at hmem
            rw [hsegments]
            rcases hmem with hmem | hmem
            · rw [Segment.text.injEq] at hmem
              refine ⟨_, (lineText unit depth text).toList ++ front, back,
                List.mem_cons_self, ?_, (complete_lineText depth text).append hfront⟩
              rw [String.toList_append, ← hmem, htext, List.append_assoc]
            · exact ⟨t, front, back, List.mem_cons_of_mem _ hmem, htext, hfront⟩
          · rw [hsegments]
            exact ⟨t, front, back, List.mem_cons_of_mem _ hmem, htext, hfront⟩

/-- Two neighbouring lines that are the markers of a zone forge it. -/
theorem mem_forgedIds_of_neighbours {style : MarkerStyle} {unit : String} {id : ZoneId}
    (hid : id.text ≠ "") (hline : '\n' ∉ id.text.toList) {l : Layout}
    (hl : [Piece.line 0 (style.beginMarker id), .line 0 (style.endMarker id)] <:+: l)
    (file : String) : id ∈ (l.toSkeleton file style unit).forgedIds := by
  obtain ⟨before, after, rfl⟩ := hl
  obtain ⟨t, front, back, hmem, htext, hfront⟩ :=
    exists_text_of_neighbours unit before after (style.beginMarker id)
      (style.endMarker id)
  have hopening : (lineText unit 0 (style.beginMarker id)).toList =
      style.beginLine "" id := by
    simp [toList_lineText_zero, MarkerStyle.beginLine]
  have hclosing : (lineText unit 0 (style.endMarker id)).toList =
      style.endLine "" id := by
    simp [toList_lineText_zero, MarkerStyle.endLine]
  have hblank : AllBlank "".toList := by simp [AllBlank]
  refine List.mem_flatMap.mpr ⟨.text t, ?_, ?_⟩
  · simpa [toSkeleton] using hmem
  · simp only [htext, hopening, hclosing]
    exact mem_closings_of_neighbours hfront
      (MarkerStyle.isLine_beginLine (by simp) hline)
      (MarkerStyle.isLine_endLine (by simp) hline)
      (MarkerStyle.read?_beginLine hblank hid) (MarkerStyle.read?_endLine hblank hid)

/-- A Python class whose description is the markers of a zone. -/
def markedMotor : DeviceClass :=
  { name := "Motor"
    language := .python
    metadata :=
      { description :=
        "#----- PROTECTED REGION ID(class:members) ENABLED START -----#\n" ++
          "#----- PROTECTED REGION END(class:members) -----#" } }

theorem checked_markedMotor : markedMotor.Checked := by
  have hname : Name.ofText "Motor" = .ok "Motor" := by decide
  have hstart : DeviceClass.ofText "Motor" .python =
      .ok { name := "Motor", language := .python } := by
    rw [DeviceClass.ofText, hname]
    rfl
  exact .describe (.ofText hstart) ⟨rfl, rfl, rfl, rfl⟩

theorem exists_skeletons_markedMotor :
    ∃ iface files warnings, skeletons {} markedMotor = .ok (files, warnings) ∧
      files = Python.skeletons ⟨iface, markedMotor.toClassBody, {}⟩ := by
  refine ⟨_, _, _, skeletons_eq_ok_iff.mpr ⟨_, _, rfl, rfl, rfl⟩, rfl⟩

theorem description_markedMotor (iface : Interface) :
    (SourceContext.description ⟨iface, markedMotor.toClassBody, {}⟩).map docstringText =
      [MarkerStyle.hash.beginMarker (.ofClass .members),
        MarkerStyle.hash.endMarker (.ofClass .members)] := by
  show (lines markedMotor.metadata.description).map docstringText = _
  decide +kernel

/-- The docstring of the class forges the zone of its data members, so one of
its files is not generated again. -/
theorem not_generate_again :
    ¬ ∀ settings cls, DeviceClass.Checked cls → ∀ prior renames out pending,
      generate settings cls prior renames = .ok (out, pending) →
      ∃ again, generate settings cls (.ofFiles out.files) {} = .ok (again, {}) ∧
        again.files = out.files := by
  intro hall
  obtain ⟨iface, files, warnings, hfiles, rfl⟩ := exists_skeletons_markedMotor
  let c : SourceContext := ⟨iface, markedMotor.toClassBody, {}⟩
  let file := c.name ++ ".py"
  have hforged : ZoneId.ofClass .members ∈
      (c.file file .hash (Python.layout c file)).forgedIds := by
    refine mem_forgedIds_of_neighbours (by decide) (by decide) ?_ file
    have hdocstring : lines (c.description.map docstringText) <:+: Script.docstring c :=
      infix_stacked (by simp only [List.mem_cons, true_or, or_true])
    have hlayout : Script.docstring c <:+: Python.layout c file :=
      infix_stacked (by simp only [List.mem_cons, true_or, or_true])
    rw [description_markedMotor] at hdocstring
    exact hdocstring.trans hlayout
  have hzone : ZoneId.ofClass .members ∈
      (c.file file .hash (Python.layout c file)).zoneIds := by
    rw [SourceContext.file, zoneIds_toSkeleton, Python.zoneIds_layout]
    simp
  obtain ⟨prior, out, other, hout, hother, hne⟩ := exists_generate_again_ne
    checked_markedMotor.named hfiles List.mem_cons_self hzone hforged
  obtain ⟨again, hagain, hsame⟩ :=
    hall {} markedMotor checked_markedMotor prior {} out {} hout
  rw [hother, Except.ok.injEq, Prod.mk.injEq] at hagain
  exact hne (hagain.1 ▸ hsame)

end Forged

end DeviceForge
