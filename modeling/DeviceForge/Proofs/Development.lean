import DeviceForge.Proofs.Generation
import DeviceForge.Proofs.Roster
import DeviceForge.Proofs.Zone.Rewriting

/-!
# The code of developers

A class is edited, its files are generated over and over, and its developers
write code into their zones.  The code of a member follows the member through
all its names, and the code of the class stays where it is.
-/

namespace DeviceForge

open Text

/-- A place that one zone at most belongs to takes the body of that zone. -/
theorem carried?_eq_of_source {renames : Renames} {zones : OrderedMap ZoneId String}
    {target : ZoneId} {source : Option ZoneId}
    (hsource : ∀ id ∈ zones.keys, (renames.resolve id).target? = some target ↔
      some id = source) :
    (carried? renames zones.entries target).map Prod.snd = source.bind zones.get? := by
  cases hcarried : carried? renames zones.entries target with
  | none =>
      cases source with
      | none => rfl
      | some id =>
          symm
          rw [Option.map_none, Option.bind_some, OrderedMap.get?_eq_none_iff]
          intro hid
          obtain ⟨zone, hzone, rfl⟩ := List.mem_map.mp hid
          exact target?_ne_of_carried?_eq_none hcarried hzone ((hsource _ hid).mpr rfl)
  | some zone =>
      have hzone := mem_of_carried? hcarried
      have hid : zone.1 ∈ zones.keys := List.mem_map_of_mem hzone
      rw [← (hsource _ hid).mp (target?_of_carried? hcarried), Option.bind_some,
        OrderedMap.get?_eq_some_iff.mpr hzone, Option.map_some]

namespace Roster

variable {r : Roster} {body : ClassBody}

/-- Which zone of the files of the last generation a zone takes its body from: a
zone of the class from itself, and a zone of a member from the zone of the same
role under the name that the member had then.  A member that is new has none. -/
def Source (r : Roster) (id : ZoneId) (source : Option ZoneId) : Prop :=
  match id.slot? with
  | none => source = some id
  | some slot => ∃ who, (∀ other, r.Holds slot.key other ↔ other = who) ∧
      source = who.map fun origin => .ofSlot (slot.withName origin.name)

/-- A member that was there at the last generation is the source of its zones. -/
theorem Source.eq_of_called {id : ZoneId} {source : Option ZoneId} {slot : MemberSlot}
    {origin : MemberKey} (h : r.Source id source) (hslot : id.slot? = some slot)
    (hcalled : r.Called slot.key origin) :
    source = some (.ofSlot (slot.withName origin.name)) := by
  rw [Source, hslot] at h
  obtain ⟨who, hwho, rfl⟩ := h
  rw [← (hwho (some origin)).mp hcalled, Option.map_some]

/-- Every zone of the class and of its members has a source or is new. -/
theorem Fits.exists_source (h : r.Fits body) {id : ZoneId}
    (hown : ∀ slot, id.slot? = some slot → body.hasMember slot.key = true) :
    ∃ source, r.Source id source := by
  cases hid : id.slot? with
  | none => exact ⟨some id, by rw [Source, hid]⟩
  | some slot =>
      obtain ⟨who, hwho⟩ := (h.hasMember_iff slot.key).mp (hown slot hid)
      refine ⟨who.map fun origin => .ofSlot (slot.withName origin.name), ?_⟩
      rw [Source, hid]
      refine ⟨who, fun other => ⟨fun hother => h.holder_unique _ _ _ hother hwho, ?_⟩,
        rfl⟩
      rintro rfl
      exact hwho

/-- Among the zones of members that the roster knows, only the source of a zone
belongs there. -/
theorem Fits.target?_eq_some_iff (h : r.Fits body)
    (hidentifier : ∀ origin, r.fate origin ≠ none →
      Name.isIdentifier origin.name = true)
    {id other : ZoneId} {source : Option ZoneId} (hsource : r.Source id source)
    (hknown : ∀ slot, other.slot? = some slot → r.fate slot.key ≠ none) :
    (r.resolve other).target? = some id ↔ some other = source := by
  unfold Source at hsource
  split at hsource
  · next hid =>
      rw [hsource, Option.some.injEq]
      exact h.target?_eq_iff_of_slot?_eq_none hid other
  · next slot hid =>
      obtain ⟨who, hwho, rfl⟩ := hsource
      obtain ⟨hslot, hvalid⟩ := ZoneId.eq_ofSlot_of_slot? hid
      constructor
      · intro htarget
        obtain ⟨origin, hcalled, rfl⟩ := h.called_of_target? hid hknown htarget
        rw [← (hwho (some origin)).mp hcalled, Option.map_some]
      · intro hother
        obtain ⟨origin, rfl, rfl⟩ := Option.map_eq_some_iff.mp hother.symm
        have hcalled : r.Called slot.key origin := (hwho (some origin)).mpr rfl
        have hname := hidentifier origin (by simp [hcalled.2])
        rw [hslot]
        exact target?_resolve_of_called hvalid hname hcalled

end Roster

/-! ## Runs of a development -/

/-- A session that generates has nothing pending any more. -/
theorem Session.generate_eq_ok_iff {s next : Session} {settings : Settings}
    {m : OrderedMap String String} {out : Output} :
    s.generate settings (.ofFiles m) = .ok (out, next) ↔
      ∃ files warnings, skeletons settings s.cls = .ok (files, warnings) ∧
        out = outputOf warnings
          (files.map fun file => merge file (m.get? file.file) s.renames) ∧
        next = ⟨s.cls, {}⟩ := by
  rw [Session.generate, Outcome.map_eq_ok_iff]
  simp only [Prod.exists, generate_ofFiles_eq_ok_iff, Prod.mk.injEq]
  constructor
  · rintro ⟨out, pending, ⟨files, warnings, hfiles, rfl, rfl⟩, rfl, rfl⟩
    exact ⟨files, warnings, hfiles, rfl, rfl⟩
  · rintro ⟨files, warnings, hfiles, rfl, rfl⟩
    exact ⟨_, _, ⟨files, warnings, hfiles, rfl, rfl⟩, rfl, rfl⟩

/-- Earlier files are no obstacle to a generation, whatever they hold. -/
theorem Session.exists_generate (s : Session) {settings : Settings}
    {files : List Skeleton} {warnings : List Warning}
    (hfiles : skeletons settings s.cls = .ok (files, warnings))
    (m : OrderedMap String String) :
    ∃ out, s.generate settings (.ofFiles m) = .ok (out, ⟨s.cls, {}⟩) :=
  ⟨_, Session.generate_eq_ok_iff.mpr ⟨files, warnings, hfiles, rfl, rfl⟩⟩

/-- A session, the files of its last generation with what developers have
written into them since, and the roster of the members that these files are
about. -/
structure Development where
  session : Session
  files : OrderedMap String String := .empty
  roster : Roster

namespace Development

def start (cls : DeviceClass) : Development where
  session := ⟨cls, {}⟩
  roster := .start cls

/-- One step of a development.  What is refused or fails changes nothing. -/
inductive Step : Development → Development → Prop
  | edit {d : Development} {edit : MemberEdit} {next : Session}
      (h : d.session.edit edit = .ok next) :
      Step d { d with session := next, roster := d.roster.edit edit }
  | refused {d : Development} {edit : MemberEdit} {error : ModelError}
      (h : d.session.edit edit = .error error) : Step d d
  | generate {d : Development} {settings : Settings} {out : Output} {next : Session}
      (h : d.session.generate settings (.ofFiles d.files) = .ok (out, next)) :
      Step d ⟨next, out.files, .start next.cls⟩
  | failed {d : Development} {settings : Settings} {prior : PriorSource}
      {error : GenerationError} (h : d.session.generate settings prior = .error error) :
      Step d d
  | rewrite {d : Development} {file text after : String} {id : ZoneId} {body : String}
      (hfile : d.files.get? file = some text)
      (hbody : (MarkerStyle.ofLanguage d.session.cls.language).ZoneBody body.toList)
      (hrewrites :
        (MarkerStyle.ofLanguage d.session.cls.language).Rewrites id body text after) :
      Step d { d with files := d.files.insert file after }

abbrev Run : Development → Development → Prop :=
  Relation.ReflTransGen Step

/-- What the file of a skeleton holds for a zone at this point. -/
def bodyBefore (d : Development) (s : Skeleton) (id : ZoneId) : Option String :=
  (d.files.get? s.file).bind fun text => (recoverZones s.style text).zones.get? id

/-- What a run keeps: the record of the session follows the members, and the
files have zones of the class and of members that the roster knows. -/
structure Invariant (d : Development) : Prop where
  checked : d.session.cls.Checked
  language : d.session.cls.language = .cpp ∨ d.session.cls.language = .java
  revision : d.session.cls.revision = some currentRevision
  follows : d.session.Follows d.roster
  identifier : ∀ origin, d.roster.fate origin ≠ none →
    Name.isIdentifier origin.name = true
  known : ∀ file text, d.files.get? file = some text →
    ∀ id ∈ (recoverZones (.ofLanguage d.session.cls.language) text).zones.keys,
      ∀ slot, id.slot? = some slot → d.roster.fate slot.key ≠ none

variable {d after : Development}

theorem fate_start_eq_none_iff {cls : DeviceClass} {origin : MemberKey} :
    (Roster.start cls).fate origin = none ↔ cls.hasMember origin = false := by
  simp [Roster.start]

theorem identifier_start {cls : DeviceClass} (hcls : cls.Checked) {origin : MemberKey}
    (horigin : (Roster.start cls).fate origin ≠ none) :
    Name.isIdentifier origin.name = true := by
  rw [ne_eq, fate_start_eq_none_iff, Bool.not_eq_false] at horigin
  exact hcls.named.1.members origin.kind origin.name
    (ClassBody.hasMember_iff.mp horigin)

/-- At the start there are no files, and the members are those of the class. -/
theorem Invariant.start {cls : DeviceClass} (hcls : cls.Checked)
    (hlanguage : cls.language = .cpp ∨ cls.language = .java)
    (hrevision : cls.revision = some currentRevision) : (start cls).Invariant where
  checked := hcls
  language := hlanguage
  revision := hrevision
  follows := .start hcls.named.1.unique
  identifier _ := identifier_start hcls
  known file text hfile := by simp [Development.start] at hfile

/-- An edit changes class, record and roster together, and leaves the files alone. So
what their zones belong to is still known. -/
theorem Invariant.edit (h : d.Invariant) {edit : MemberEdit} {next : Session}
    (hedit : d.session.edit edit = .ok next) :
    Invariant { d with session := next, roster := d.roster.edit edit } := by
  rw [Session.edit_eq] at hedit
  obtain ⟨cls, hcls, rfl⟩ := Outcome.map_eq_ok_iff.mp hedit
  obtain ⟨body, hbody, hsame⟩ := DeviceClass.editBody_eq_ok_iff.mp hcls
  obtain ⟨hlanguage, hrevision⟩ := ClassBody.language_revision_of_edit hbody
  have hlanguage : cls.language = d.session.cls.language := by rw [hsame, hlanguage]
  have hrevision : cls.revision = d.session.cls.revision := by rw [hsame, hrevision]
  constructor
  · exact .edit h.checked hcls
  · rw [hlanguage]
    exact h.language
  · rw [hrevision]
    exact h.revision
  · exact h.follows.edit hcls
  · intro origin horigin
    rw [ne_eq, Roster.fate_edit_eq_none_iff] at horigin
    exact h.identifier origin horigin
  · intro file text hfile id hid slot hslot
    rw [ne_eq, Roster.fate_edit_eq_none_iff]
    rw [hlanguage] at hid
    exact h.known file text hfile id hid slot hslot

/-- A generated file shows zones of the class and of the members it has now. -/
theorem Invariant.generate (h : d.Invariant) {settings : Settings} {out : Output}
    {next : Session}
    (hgenerate : d.session.generate settings (.ofFiles d.files) = .ok (out, next)) :
    Invariant ⟨next, out.files, .start next.cls⟩ := by
  obtain ⟨files, warnings, hfiles, rfl, rfl⟩ := Session.generate_eq_ok_iff.mp hgenerate
  have hnamed := h.checked.named
  constructor
  · exact h.checked
  · exact h.language
  · exact h.revision
  · exact .start hnamed.1.unique
  · exact fun _ => identifier_start h.checked
  · intro file text hfile id hid slot hslot
    rw [OrderedMap.get?_eq_some_iff, entries_files_outputOf (nodup_files hfiles)]
      at hfile
    obtain ⟨s, hs, hentry⟩ := List.mem_map.mp hfile
    obtain ⟨rfl, rfl⟩ := Prod.mk.inj hentry
    have hown := hnamed.ownFile hfiles hs
    have htexts := hnamed.plainTexts h.language h.revision hfiles hs
    rw [← style_of_mem_skeletons hfiles hs, hown.sound.keys_recoverZones_merge htexts]
      at hid
    rw [ne_eq, fate_start_eq_none_iff, Bool.not_eq_false]
    exact hown.zones.own id hid slot hslot

/-- A developer who writes a body brings in no zone. -/
theorem Invariant.rewrite (h : d.Invariant) {file text after : String} {id : ZoneId}
    {body : String} (hfile : d.files.get? file = some text)
    (hbody : (MarkerStyle.ofLanguage d.session.cls.language).ZoneBody body.toList)
    (hrewrites :
      (MarkerStyle.ofLanguage d.session.cls.language).Rewrites id body text after) :
    Invariant { d with files := d.files.insert file after } := by
  refine { h with known := fun other found hfound zone hzone slot hslot => ?_ }
  rw [OrderedMap.get?_insert] at hfound
  split at hfound
  · obtain rfl := Option.some.inj hfound
    exact h.known file text hfile zone ((hrewrites.mem_keys_iff hbody).mp hzone)
      slot hslot
  · exact h.known other found hfound zone hzone slot hslot

theorem Invariant.step (h : d.Invariant) (hstep : Step d after) : after.Invariant := by
  cases hstep with
  | edit hedit => exact h.edit hedit
  | refused _ => exact h
  | generate hgenerate => exact h.generate hgenerate
  | failed _ => exact h
  | rewrite hfile hbody hrewrites => exact h.rewrite hfile hbody hrewrites

theorem Invariant.run (h : d.Invariant) (hrun : Run d after) : after.Invariant := by
  induction hrun with
  | refl => exact h
  | tail _ hstep ih => exact ih.step hstep

/-- A zone takes the body that its source has at this point. -/
theorem Invariant.carriedBodies_eq (h : d.Invariant) {s : Skeleton}
    (hstyle : s.style = .ofLanguage d.session.cls.language) {id : ZoneId}
    {source : Option ZoneId} (hsource : d.roster.Source id source) :
    carriedBodies s.style (d.files.get? s.file) d.session.renames id =
      source.bind (d.bodyBefore s) := by
  cases hfile : d.files.get? s.file with
  | none =>
      have hnone : d.bodyBefore s = fun _ => none := by
        funext id
        rw [bodyBefore, hfile, Option.bind_none]
      rw [hnone]
      cases source <;> rfl
  | some text =>
      have hsome : d.bodyBefore s = (recoverZones s.style text).zones.get? := by
        funext id
        rw [bodyBefore, hfile, Option.bind_some]
      rw [hsome, carriedBodies, Option.bind_some]
      apply carried?_eq_of_source
      intro other hother
      rw [h.follows.tracks.resolve_eq]
      rw [hstyle] at hother
      exact h.follows.fits.target?_eq_some_iff h.identifier hsource
        (h.known s.file text hfile other hother)

/-- Every generation of a C++ or Java class keeps the code of its developers:
each zone of each file has the body that its source had in the earlier file of
that name, and its default body if it has no source or the source is not there. -/
theorem generate_keeps_code {cls : DeviceClass} (hcls : cls.Checked)
    (hlanguage : cls.language = .cpp ∨ cls.language = .java)
    (hrevision : cls.revision = some currentRevision) {d : Development}
    (hrun : Run (.start cls) d) {settings : Settings} {out : Output} {next : Session}
    (h : d.session.generate settings (.ofFiles d.files) = .ok (out, next)) :
    ∃ files warnings, skeletons settings d.session.cls = .ok (files, warnings) ∧
      out.files.keys = files.map (·.file) ∧
      ∀ s ∈ files, ∃ text, out.files.get? s.file = some text ∧
        (recoverZones s.style text).zones.keys = s.zoneIds ∧
        ∀ id body indent, .zone id body indent ∈ s.segments →
          ∃ source, d.roster.Source id source ∧
            (recoverZones s.style text).zones.get? id =
              some ((source.bind (d.bodyBefore s)).getD body) := by
  have hinvariant := (Invariant.start hcls hlanguage hrevision).run hrun
  have hnamed := hinvariant.checked.named
  obtain ⟨files, warnings, hfiles, rfl, rfl⟩ := Session.generate_eq_ok_iff.mp h
  have hnodup := nodup_files hfiles
  refine ⟨files, warnings, hfiles, ?_,
    fun s hs => ⟨_, get?_files_outputOf hnodup hs, ?_⟩⟩
  · rw [OrderedMap.keys, entries_files_outputOf hnodup, List.map_map]
    rfl
  have hown := hnamed.ownFile hfiles hs
  have htexts := hnamed.plainTexts hinvariant.language hinvariant.revision hfiles hs
  refine ⟨hown.sound.keys_recoverZones_merge htexts _ _, fun id body indent hmem => ?_⟩
  have hid : id ∈ s.zoneIds := Skeleton.mem_zoneIds_iff.mpr ⟨body, indent, hmem⟩
  have hforged : id ∉ s.forgedIds := by simp [htexts.forgedIds_eq_nil]
  obtain ⟨source, hsource⟩ :=
    hinvariant.follows.fits.exists_source (hown.zones.own id hid)
  refine ⟨source, hsource, ?_⟩
  rw [hown.sound.get?_recoverZones_merge hmem hforged,
    hinvariant.carriedBodies_eq (style_of_mem_skeletons hfiles hs) hsource]

def motorWith (command : String) : DeviceClass :=
  { name := "Motor", language := .java, commands := [{ name := command }] }

/-- The one file of the class has a zone for the command. -/
theorem exists_skeletons_motorWith (command : String) :
    ∃ s warnings, skeletons {} (motorWith command) = .ok ([s], warnings) ∧
      s.file = "Motor.java" ∧ s.style = .block ∧
      ZoneId.ofMember .command command .execute ∈ s.zoneIds := by
  have hiface : ∃ iface issues, (motorWith command).resolve = .ok (iface, issues) ∧
      iface.name = "Motor" ∧ iface.unsupported? .java = none ∧
      iface.commands.locals = [{ name := command }] :=
    ⟨_, _, rfl, rfl, rfl, rfl⟩
  obtain ⟨iface, issues, hresolve, hname, hsupported, hlocals⟩ := hiface
  let c : SourceContext := ⟨iface, (motorWith command).toClassBody, {}⟩
  have hemit : emit .java c = .ok (Java.skeletons c) := by
    unfold emit
    rw [hsupported]
  refine ⟨_, _, skeletons_eq_ok_iff.mpr ⟨iface, issues, hresolve, hemit, rfl⟩, ?_,
    rfl, ?_⟩
  · show iface.name ++ ".java" = "Motor.java"
    rw [hname]
    decide
  rw [SourceContext.file, Layout.zoneIds_toSkeleton, Java.zoneIds_layout,
    memberZones_localMembers, hlocals]
  simp

theorem checked_motorWith (command : String) (h : Name.isIdentifier command = true) :
    (motorWith command).Checked := by
  have hname : Name.ofText "Motor" = .ok "Motor" := by decide
  have hstart : DeviceClass.ofText "Motor" .java =
      .ok { name := "Motor", language := .java } := by
    rw [DeviceClass.ofText, hname]
    rfl
  have hadd : DeviceClass.edit { name := "Motor", language := .java }
      (.add (.command { name := command })) = .ok (motorWith command) :=
    DeviceClass.editBody_eq_ok_iff.mpr
      ⟨_, ClassBody.add_eq_ok_iff.mpr ⟨h, List.not_mem_nil, rfl⟩, rfl⟩
  exact .edit (.ofText hstart) hadd

theorem edit_motorWith :
    let edit : MemberEdit := .rename .command "On" "Start"
    (⟨motorWith "On", {}⟩ : Session).edit edit =
      .ok ⟨motorWith "Start", Renames.edit {} edit⟩ := by
  intro edit
  have hcls : (motorWith "On").edit edit = .ok (motorWith "Start") :=
    DeviceClass.editBody_eq_ok_iff.mpr ⟨_, ClassBody.rename_eq_ok_iff.mpr
      ⟨by decide, by decide, Or.inr ⟨by decide, rfl⟩⟩, rfl⟩
  rw [Session.edit_eq, hcls]
  rfl

/-- Code that is written for a command is there when the command has another name. -/
theorem generate_keeps_code_motor :
    ∃ d out next text, Run (.start (motorWith "On")) d ∧
      d.session.generate {} (.ofFiles d.files) = .ok (out, next) ∧
      next.cls = motorWith "Start" ∧
      out.files.get? "Motor.java" = some text ∧
      (recoverZones .block text).zones.get? ⟨"command:Start:execute-implementation"⟩ =
        some "        go();\n" := by
  have hchecked := checked_motorWith "On" (by decide)
  obtain ⟨s, warnings, hfirst, hfile, hstyle, hzone⟩ := exists_skeletons_motorWith "On"
  obtain ⟨t, others, hsecond, hfile', hstyle', hzone'⟩ :=
    exists_skeletons_motorWith "Start"
  obtain ⟨first, hgenerate⟩ :=
    Session.exists_generate ⟨motorWith "On", {}⟩ hfirst .empty
  obtain ⟨files, _, hfiles, -, hkept⟩ :=
    generate_keeps_code hchecked (Or.inr rfl) rfl .refl hgenerate
  obtain ⟨rfl, rfl⟩ := Prod.mk.inj (Except.ok.inj (hfirst.symm.trans hfiles))
  obtain ⟨text, htext, hkeys, -⟩ := hkept s List.mem_cons_self
  rw [← hkeys, hstyle] at hzone
  rw [hfile] at htext
  obtain ⟨after, hrewrites⟩ := MarkerStyle.exists_rewrites hzone "        go();\n"
  have hbody : MarkerStyle.block.ZoneBody "        go();\n".toList :=
    ⟨by decide, MarkerStyle.plain_of_lacks_dash (by decide)⟩
  let edit : MemberEdit := .rename .command "On" "Start"
  let generated : Development :=
    ⟨⟨motorWith "On", {}⟩, first.files, .start (motorWith "On")⟩
  let written : Development :=
    { generated with files := first.files.insert "Motor.java" after }
  let d : Development :=
    { written with
      session := ⟨motorWith "Start", Renames.edit {} edit⟩
      roster := written.roster.edit edit }
  have hgenerated : Step (.start (motorWith "On")) generated := .generate hgenerate
  have hwritten : Step generated written := .rewrite htext hbody hrewrites
  have hrun : Run (.start (motorWith "On")) d :=
    ((Relation.ReflTransGen.single hgenerated).tail hwritten).tail
      (.edit edit_motorWith)
  obtain ⟨out, hout⟩ := Session.exists_generate d.session hsecond d.files
  obtain ⟨files, _, hfiles, -, hkept⟩ :=
    generate_keeps_code hchecked (Or.inr rfl) rfl hrun hout
  obtain ⟨rfl, rfl⟩ := Prod.mk.inj (Except.ok.inj (hsecond.symm.trans hfiles))
  obtain ⟨last, hlast, -, hzones⟩ := hkept t List.mem_cons_self
  obtain ⟨body, indent, hmem⟩ := Skeleton.mem_zoneIds_iff.mp hzone'
  obtain ⟨source, hsource, hget⟩ := hzones _ body indent hmem
  have hcalled : ((Roster.start (motorWith "On")).rename .command "On" "Start").Called
      ⟨.command, "Start"⟩ ⟨.command, "On"⟩ := ⟨rfl, by decide⟩
  have hslot : (ZoneId.ofMember .command "Start" .execute).slot? =
      some ⟨.command, "Start", MemberRole.execute.tag⟩ :=
    slot?_ofMember (by decide) .execute
  rw [hsource.eq_of_called hslot hcalled] at hget
  have hbefore : d.bodyBefore t (ZoneId.ofMember .command "On" .execute) =
      some "        go();\n" := by
    rw [bodyBefore, hfile', OrderedMap.get?_insert, if_pos rfl, Option.bind_some,
      hstyle', hrewrites.get?_eq hbody hzone, if_pos rfl]
  refine ⟨d, out, _, last, hrun, hout, rfl, hfile' ▸ hlast, ?_⟩
  rw [hstyle'] at hget
  exact hget.trans (congrArg (fun b => some (b.getD body)) hbefore)

end Development

end DeviceForge
