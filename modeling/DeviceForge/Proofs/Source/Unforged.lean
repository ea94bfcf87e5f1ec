import DeviceForge.Proofs.Device.Reachable
import DeviceForge.Proofs.Generation

/-!
# Sources without forged markers

In the languages with block comments, whatever free text goes into a file, only
its zones have markers.  The lines of an entry point are code with names in it,
below a banner in which free text is escaped.
-/

namespace DeviceForge

open Layout Text

/-- No line of generated text, and no line of a default body, is a marker in a block
comment. -/
structure Skeleton.Unforged (s : Skeleton) : Prop where
  texts : ∀ text, Segment.text text ∈ s.segments → MarkerStyle.block.Plain text.toList
  bodies : ∀ id body indent, Segment.zone id body indent ∈ s.segments →
    MarkerStyle.block.Plain body.toList

namespace Server

/-- What can be made by the checked operations.  What is no name may be changed
freely. -/
inductive Checked : Server → Prop
  | ofText {text : String} {server : Server} (h : ofText text = .ok server) :
    Checked server
  | add {server after : Server} (hserver : Checked server) {cls : DeviceClass}
      (hcls : cls.Checked) (h : server.add cls = .ok after) : Checked after
  | describe {server after : Server} (hserver : Checked server)
      (hname : after.name = server.name) (hclasses : after.classes = server.classes) :
      Checked after

/-- The server and its classes go by identifiers. -/
structure Named (server : Server) : Prop where
  name : Name.isIdentifier server.name = true
  classes : ∀ cls ∈ server.classes, Name.isIdentifier cls.name = true

/-- An accepted class is the last one of the server. -/
theorem eq_of_add {server after : Server} {cls : DeviceClass}
    (h : server.add cls = .ok after) :
    after = { server with classes := server.classes ++ [cls] } := by
  by_cases hknown : server.classes.any (·.name == cls.name) = true
  · cases hlanguage : server.language? <;>
      simp only [add, hlanguage, hknown, if_true, Outcome.bind_eq_ok_iff,
        Outcome.throw_ne_ok, false_and, and_false, exists_false] at h
  · cases hlanguage : server.language? with
    | none =>
        simp only [add, hlanguage, hknown, Bool.false_eq_true, if_false,
          Outcome.pure_eq_ok_iff] at h
        exact h
    | some language =>
        simp only [add, hlanguage, hknown, Bool.false_eq_true, if_false,
          Outcome.bind_eq_ok_iff, Outcome.pure_eq_ok_iff] at h
        obtain ⟨-, -, h⟩ := h
        exact h

/-- Induction on how the server was made. -/
theorem Checked.named {server : Server} (h : server.Checked) : server.Named := by
  induction h with
  | ofText h =>
      obtain ⟨name, hname, rfl⟩ := Outcome.map_eq_ok_iff.mp h
      exact ⟨Name.isIdentifier_of_ofText hname, by simp⟩
  | add _ hcls h ih =>
      obtain rfl := eq_of_add h
      refine ⟨ih.name, List.forall_mem_append.mpr ⟨ih.classes, ?_⟩⟩
      exact List.forall_mem_singleton.mpr hcls.named.1.name
  | describe _ hname hclasses ih =>
      refine ⟨hname ▸ ih.name, ?_⟩
      rw [hclasses]
      exact ih.classes

end Server

namespace EntryPoint

variable {server : Server} {settings : Settings}

/-! No line of code in an entry point has a slash. -/

theorem every_cppMain : Every (Lacks '/') (Lacks '-') cppMain := by
  simp +decide [cppMain, includes]

theorem every_cppFactory (h : server.Named) :
    Every (Lacks '/') (Lacks '-') (cppFactory server) := by
  have hclasses : ∀ cls ∈ server.classes, Lacks '/' cls.name := fun cls hcls =>
    Name.notMem_of_isIdentifier (h.classes cls hcls) (by decide)
  simpa +decide [cppFactory, includes, additionalClasses, classNames] using hclasses

/-- The main class of a server holds names of classes and fixed text. -/
theorem every_javaMain (h : server.Named) :
    Every (Lacks '/') (Lacks '-') (javaMain server) := by
  have hslash : ∀ {name : String}, Name.isIdentifier name = true →
      Lacks '/' name ∧ Lacks '/' (toLowerAscii name) := fun hname =>
    ⟨Name.notMem_of_isIdentifier hname (by decide),
      lacks_of_isWord (Name.isWord_of_isIdentifier hname).toLowerAscii (by decide)⟩
  obtain ⟨hname, hpackage⟩ := hslash h.name
  have hclasses : ∀ cls ∈ server.classes, Lacks '/' cls.name := fun cls hcls =>
    (hslash (h.classes cls hcls)).1
  have hpackages : ∀ cls ∈ server.classes, Lacks '/' (toLowerAscii cls.name) ∧
      Lacks '/' cls.name :=
    fun cls hcls => (hslash (h.classes cls hcls)).symm
  simpa +decide [javaMain, includes, additionalClasses, classNames] using
    ⟨hpackage, hpackages, hname, hclasses, hname⟩

/-- Free text in a banner is escaped. -/
theorem every_ofServer {Q : String → Prop} (h : server.Named) {file : String}
    (hfile : Lacks '*' file) :
    Every (PlainLine .block) Q (Banner.ofServer server settings "//" file) := by
  rw [Banner.ofServer]
  split
  · have htitle : Unopened (if (trim server.title).isEmpty then server.name
        else escapeComment (trim server.title)).toList := by
      split
      · exact unopened_of_notMem_star (Name.notMem_of_isIdentifier h.name (by decide))
      · exact unopened_escapeComment _
    have hlicense : Lacks '*' server.license.label := by
      cases server.license <;> decide
    simp only [every_append_iff, every_line_iff]
    exact ⟨⟨Banner.every_opening hfile htitle,
      plainLine_of_lacks_star (by simp +decide [hlicense])⟩,
        Banner.every_closing (by decide)⟩
  · exact every_nil

theorem unforged_slashFile (h : server.Named) {file : String} (hfile : Lacks '*' file)
    {l : Layout} (hl : Every (Lacks '/') (Lacks '-') l) :
    (slashFile server settings file l).Unforged := by
  have hlines : Every (PlainLine .block) (Lacks '-')
      (Banner.ofServer server settings "//" file ++ l) :=
    every_append_iff.mpr ⟨every_ofServer h hfile,
      hl.mono (fun _ => plainLine_of_lacks_slash) fun _ => id⟩
  have hblank := settings.allBlank_indentUnit
  exact ⟨fun _ => plain_of_text_mem_segments hblank
    settings.lacks_newline_indentUnit hlines, plainBodies_segments .block hblank hlines⟩

/-- No entry point in C++ or Java forges a marker. -/
theorem unforged_of_mem_filesIn (h : server.Named) {language : Language}
    (hlanguage : language = .cpp ∨ language = .java) {s : Skeleton}
    (hs : s ∈ filesIn server settings language) : s.Unforged := by
  rcases hlanguage with rfl | rfl
  · simp only [filesIn, List.mem_cons, List.not_mem_nil, or_false] at hs
    rcases hs with rfl | rfl
    · exact unforged_slashFile h (by decide) every_cppMain
    · exact unforged_slashFile h (by decide) (every_cppFactory h)
  · obtain rfl := List.mem_singleton.mp hs
    have hname : Lacks '*' server.name := Name.notMem_of_isIdentifier h.name (by decide)
    exact unforged_slashFile h (by simp +decide [hname]) (every_javaMain h)

end EntryPoint

/-- No file of a C++ or Java class forges a marker. -/
theorem Language.unforged_of_mem_skeletons {c : SourceContext}
    (h : c.iface.Named c.body) (hrevision : c.body.revision = some currentRevision)
    {language : Language} (hlanguage : language = .cpp ∨ language = .java)
    {s : Skeleton} (hs : s ∈ language.skeletons c) : s.Unforged := by
  have hstyle : s.style = .block := by
    rw [style_of_mem_skeletons hs]
    rcases hlanguage with rfl | rfl <;> rfl
  have htexts := plainTexts_of_mem_skeletons h hrevision hlanguage hs
  have hbodies := (ownFile_of_mem_skeletons h hs).sound.plain_default
  rw [Skeleton.PlainTexts, hstyle] at htexts
  rw [hstyle] at hbodies
  exact ⟨htexts, hbodies⟩

/-- Files in a language with block comments, of a class that was made in the current
schema revision or of a server. -/
inductive SlashFiles (settings : Settings) : List Skeleton → Prop
  | ofClass {cls : DeviceClass} (hcls : cls.Checked)
      (hrevision : cls.revision = some currentRevision)
      {i : Interface} {issues : List InterfaceIssue}
      (hresolve : cls.resolve = .ok (i, issues)) {language : Language}
      (hlanguage : language = .cpp ∨ language = .java) {files : List Skeleton}
      (hemit : emit language ⟨i, cls.toClassBody, settings⟩ = .ok files) :
      SlashFiles settings files
  | ofServer {server : Server} (hserver : server.Checked)
      (hlanguage : ∀ language ∈ server.language?, language = .cpp ∨ language = .java)
      {files : List Skeleton}
      (hfiles : EntryPoint.skeletons server settings = .ok files) :
      SlashFiles settings files

/-- Free text forges no marker in a file with block comments. -/
theorem unforged_of_slashFiles {settings : Settings} {files : List Skeleton}
    (h : SlashFiles settings files) : ∀ s ∈ files, s.Unforged := by
  intro s hs
  cases h with
  | ofClass hcls hrevision hresolve hlanguage hemit =>
      obtain rfl := eq_of_emit hemit
      obtain ⟨hnamed, -⟩ := hcls.named.resolve hresolve
      exact Language.unforged_of_mem_skeletons hnamed hrevision hlanguage hs
  | ofServer hserver hlanguage hfiles =>
      rw [EntryPoint.skeletons] at hfiles
      split at hfiles
      · obtain rfl := Except.ok.inj hfiles
        exact absurd hs List.not_mem_nil
      · next language hsome =>
          obtain ⟨-, -, rfl⟩ := Outcome.map_eq_ok_iff.mp hfiles
          exact EntryPoint.unforged_of_mem_filesIn hserver.named
            (hlanguage language hsome) hs

def markedAxis : DeviceClass :=
  { DeviceClass.haltingAxis with
    metadata := { description := MarkerStyle.block.beginMarker (.ofClass .members) } }

/-- A server whose title would close a zone. -/
def markedServer : Server where
  name := "Axis"
  title := MarkerStyle.block.endMarker (.ofServer .includes)
  classes := [markedAxis]

theorem checked_markedAxis : markedAxis.Checked :=
  .describe DeviceClass.reachable_haltingAxis.checked ⟨rfl, rfl, rfl, rfl⟩

theorem checked_markedServer : markedServer.Checked := by
  have hstart : Server.ofText "axis" = .ok { name := "Axis" } := rfl
  have hadd : Server.add { name := "Axis" } markedAxis =
      .ok { name := "Axis", classes := [markedAxis] } := rfl
  exact .describe (.add (.ofText hstart) checked_markedAxis hadd) rfl rfl

theorem unforged_of_slashFiles_marked :
    ∃ i issues files entryPoints, markedAxis.resolve = .ok (i, issues) ∧
      emit .cpp ⟨i, markedAxis.toClassBody, {}⟩ = .ok files ∧
      EntryPoint.skeletons markedServer {} = .ok entryPoints ∧
      (∀ s ∈ files, s.Unforged) ∧ ∀ s ∈ entryPoints, s.Unforged := by
  obtain ⟨i, issues, files, hresolve, hemit⟩ :
      ∃ i issues files, markedAxis.resolve = .ok (i, issues) ∧
        emit .cpp ⟨i, markedAxis.toClassBody, {}⟩ = .ok files := ⟨_, _, _, rfl, rfl⟩
  obtain ⟨entryPoints, hentryPoints⟩ :
      ∃ entryPoints, EntryPoint.skeletons markedServer {} = .ok entryPoints := ⟨_, rfl⟩
  refine ⟨i, issues, files, entryPoints, hresolve, hemit, hentryPoints, ?_, ?_⟩
  · exact unforged_of_slashFiles
      (.ofClass checked_markedAxis rfl hresolve (Or.inl rfl) hemit)
  · exact unforged_of_slashFiles (.ofServer checked_markedServer
      (fun _ h => Or.inr (Option.some.inj h).symm) hentryPoints)

end DeviceForge
