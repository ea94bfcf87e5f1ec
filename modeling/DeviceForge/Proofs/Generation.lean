import DeviceForge.Generation
import DeviceForge.Proofs.Merge
import DeviceForge.Proofs.Source.Cpp
import DeviceForge.Proofs.Source.Java
import DeviceForge.Proofs.Source.Python

/-!
# Generating files

A generation merges every skeleton of a class with the earlier file of the same
name, and fails only where a skeleton or an earlier file is missing.  The
skeletons of a checked class are sound and go by different names.
-/

namespace DeviceForge

open Text

/-- The content of an earlier file that can be read. -/
def PriorFile.content? : PriorFile → Option String
  | .text content => some content
  | _ => none

/-- All files have to be readable, and a missing one counts as no text. -/
theorem readPriors_eq_ok_iff {prior : PriorSource} {files : List Skeleton}
    {priors : List (Skeleton × Option String)} :
    readPriors prior files = .ok priors ↔
      (∀ s ∈ files, prior s.file ≠ .unreadable) ∧
        priors = files.map fun s => (s, (prior s.file).content?) := by
  induction files generalizing priors with
  | nil => simp [readPriors, eq_comm]
  | cons s rest ih =>
      rw [readPriors]
      cases hfile : prior s.file with
      | unreadable => simp [hfile]
      | absent =>
          simp only [Outcome.map_eq_ok_iff, ih, List.forall_mem_cons, hfile,
            List.map_cons]
          simp [PriorFile.content?, eq_comm]
      | text content =>
          simp only [Outcome.map_eq_ok_iff, ih, List.forall_mem_cons, hfile,
            List.map_cons]
          simp [PriorFile.content?, eq_comm]

theorem content?_ofFiles (m : OrderedMap String String) (name : String) :
    (PriorSource.ofFiles m name).content? = m.get? name := by
  rw [PriorSource.ofFiles]
  cases m.get? name <;> rfl

theorem ofFiles_ne_unreadable (m : OrderedMap String String) (name : String) :
    PriorSource.ofFiles m name ≠ .unreadable := by
  rw [PriorSource.ofFiles]
  cases m.get? name <;> simp

variable {settings : Settings} {cls : DeviceClass} {prior : PriorSource}
  {renames pending : Renames} {files : List Skeleton} {warnings : List Warning}
  {out : Output}

/-- What a generation that succeeds has done. -/
theorem generate_eq_ok_iff :
    generate settings cls prior renames = .ok (out, pending) ↔
      ∃ files warnings, skeletons settings cls = .ok (files, warnings) ∧
        (∀ s ∈ files, prior s.file ≠ .unreadable) ∧
        out = outputOf warnings
          (files.map fun s => merge s (prior s.file).content? renames) ∧
        pending = {} := by
  rw [generate, Outcome.bind_eq_ok_iff]
  simp only [Outcome.bind_eq_ok_iff, Outcome.pure_eq_ok_iff, readPriors_eq_ok_iff,
    Prod.exists, Prod.mk.injEq]
  constructor
  · rintro ⟨files, warnings, hfiles, priors, ⟨hreadable, rfl⟩, rfl, rfl⟩
    refine ⟨files, warnings, hfiles, hreadable, ?_, rfl⟩
    simp [mergeAll, Function.comp_def]
  · rintro ⟨files, warnings, hfiles, hreadable, rfl, rfl⟩
    refine ⟨files, warnings, hfiles, _, ⟨hreadable, rfl⟩, ?_, rfl⟩
    simp [mergeAll, Function.comp_def]

/-- A generation from files merges every skeleton with the file of its name, and
has no other way to fail than the skeletons have. -/
theorem generate_ofFiles_eq_ok_iff {m : OrderedMap String String} :
    generate settings cls (.ofFiles m) renames = .ok (out, pending) ↔
      ∃ files warnings, skeletons settings cls = .ok (files, warnings) ∧
        out = outputOf warnings (files.map fun s => merge s (m.get? s.file) renames) ∧
        pending = {} := by
  rw [generate_eq_ok_iff]
  simp only [content?_ofFiles, ofFiles_ne_unreadable, ne_eq, not_false_eq_true,
    implies_true, true_and]

/-- Files under different names are all kept, in their order. -/
theorem entries_files_outputOf (hfiles : (files.map (·.file)).Nodup)
    (warnings : List Warning) (content : Skeleton → Option String) (renames : Renames) :
    (outputOf warnings (files.map fun s => merge s (content s) renames)).files.entries =
      files.map fun s => (s.file, (merge s (content s) renames).text) := by
  have hmap : ((files.map fun s => merge s (content s) renames).map fun m =>
      (m.file, m.text)) =
      files.map fun s => (s.file, (merge s (content s) renames).text) := by
    simp [file_merge, Function.comp_def]
  rw [outputOf, hmap, OrderedMap.entries_ofList]
  simpa [Function.comp_def] using hfiles

theorem get?_files_outputOf (hfiles : (files.map (·.file)).Nodup)
    {warnings : List Warning} {content : Skeleton → Option String} {renames : Renames}
    {s : Skeleton} (hs : s ∈ files) :
    (outputOf warnings (files.map fun s => merge s (content s) renames)).files.get?
      s.file = some (merge s (content s) renames).text := by
  rw [OrderedMap.get?_eq_some_iff, entries_files_outputOf hfiles]
  exact List.mem_map_of_mem (f := fun s => (s.file, (merge s (content s) renames).text))
    hs

/-- The files are there exactly if the class resolves and the language can express its
members. -/
theorem skeletons_eq_ok_iff :
    skeletons settings cls = .ok (files, warnings) ↔
      ∃ iface issues, cls.resolve = .ok (iface, issues) ∧
        emit cls.language ⟨iface, cls.toClassBody, settings⟩ = .ok files ∧
        warnings = issues.map (·.toWarning) := by
  rw [skeletons, Outcome.bind_eq_ok_iff]
  simp only [Outcome.bind_eq_ok_iff, Outcome.mapError_eq_ok_iff, Outcome.pure_eq_ok_iff,
    Prod.exists, Prod.mk.injEq]
  constructor
  · rintro ⟨iface, issues, hresolve, emitted, hemit, rfl, rfl⟩
    exact ⟨iface, issues, hresolve, hemit, rfl⟩
  · rintro ⟨iface, issues, hresolve, hemit, rfl⟩
    exact ⟨iface, issues, hresolve, files, hemit, rfl, rfl⟩

/-- The skeletons of a class in a language, whatever it declares. -/
def Language.skeletons (c : SourceContext) : Language → List Skeleton
  | .cpp => Cpp.skeletons c
  | .java => Java.skeletons c
  | .python => Python.skeletons c
  | .pythonHL => PythonHL.skeletons c

/-- Emission depends on the language only in the files, and refuses a member that the
language cannot express. -/
theorem emit_eq (language : Language) (c : SourceContext) :
    emit language c =
      match c.iface.unsupported? language with
      | some member => .error member
      | none => .ok (language.skeletons c) := by
  unfold emit
  cases c.iface.unsupported? language with
  | some member => rfl
  | none => cases language <;> rfl

theorem eq_of_emit {language : Language} {c : SourceContext}
    (h : emit language c = .ok files) : files = language.skeletons c := by
  rw [emit_eq] at h
  split at h
  · exact absurd h (by simp)
  · exact (Except.ok.inj h).symm

/-- A class that is resolved has its files unless a member cannot be expressed. -/
theorem skeletons_of_resolve {i : Interface} {issues : List InterfaceIssue}
    (h : cls.resolve = .ok (i, issues)) (settings : Settings) :
    skeletons settings cls =
      match i.unsupported? cls.language with
      | some member => .error (.unsupported member)
      | none => .ok (cls.language.skeletons ⟨i, cls.toClassBody, settings⟩,
          issues.map (·.toWarning)) := by
  have hskeletons : skeletons settings cls = do
      let files ← (emit cls.language ⟨i, cls.toClassBody, settings⟩).mapError
          .unsupported
      return (files, issues.map (·.toWarning)) := by
    rw [skeletons, h]
    rfl
  rw [hskeletons, emit_eq]
  cases i.unsupported? cls.language <;> rfl

theorem Language.ownFile_of_mem_skeletons {c : SourceContext} (h : c.iface.Named c.body)
    {language : Language} {s : Skeleton} (hs : s ∈ language.skeletons c) :
    OwnFile c.body s := by
  cases language with
  | cpp => exact Cpp.ownFile_of_mem_skeletons h hs
  | java => exact Java.ownFile_of_mem_skeletons h hs
  | python => exact Python.ownFile_of_mem_skeletons h hs
  | pythonHL => exact PythonHL.ownFile_of_mem_skeletons h hs

/-- The skeletons of a class are sound, with zones of the class and of its own
members. -/
theorem DeviceClass.Named.ownFile (h : cls.Named)
    (hfiles : skeletons settings cls = .ok (files, warnings)) {s : Skeleton}
    (hs : s ∈ files) :
    OwnFile cls.toClassBody s := by
  obtain ⟨iface, issues, hresolve, hemit, -⟩ := skeletons_eq_ok_iff.mp hfiles
  obtain ⟨hnamed, -⟩ := h.resolve hresolve
  rw [eq_of_emit hemit] at hs
  exact Language.ownFile_of_mem_skeletons hnamed hs

/-- All files of a class have the markers of its language. -/
theorem Language.style_of_mem_skeletons {c : SourceContext} {language : Language}
    {s : Skeleton} (hs : s ∈ language.skeletons c) :
    s.style = .ofLanguage language := by
  cases language with
  | cpp =>
      simp only [Language.skeletons, Cpp.skeletons, List.mem_cons, List.not_mem_nil,
        or_false] at hs
      rcases hs with rfl | rfl | rfl <;> rfl
  | java =>
      obtain rfl := List.mem_singleton.mp hs
      rfl
  | python =>
      obtain rfl := List.mem_singleton.mp hs
      rfl
  | pythonHL =>
      obtain rfl := List.mem_singleton.mp hs
      rfl

theorem style_of_mem_skeletons (hfiles : skeletons settings cls = .ok (files, warnings))
    {s : Skeleton} (hs : s ∈ files) : s.style = .ofLanguage cls.language := by
  obtain ⟨iface, issues, -, hemit, -⟩ := skeletons_eq_ok_iff.mp hfiles
  rw [eq_of_emit hemit] at hs
  exact Language.style_of_mem_skeletons hs

/-- No two files of a class have the same name. -/
theorem nodup_files (hfiles : skeletons settings cls = .ok (files, warnings)) :
    (files.map (·.file)).Nodup := by
  obtain ⟨iface, issues, -, hemit, -⟩ := skeletons_eq_ok_iff.mp hfiles
  rw [eq_of_emit hemit]
  cases cls.language with
  | cpp => exact Cpp.nodup_files _
  | java => exact List.nodup_singleton _
  | python => exact List.nodup_singleton _
  | pythonHL => exact List.nodup_singleton _

/-- In the languages with block comments no generated text is a marker. -/
theorem Language.plainTexts_of_mem_skeletons {c : SourceContext}
    (h : c.iface.Named c.body) (hrevision : c.body.revision = some currentRevision)
    {language : Language} (hlanguage : language = .cpp ∨ language = .java)
    {s : Skeleton} (hs : s ∈ language.skeletons c) : s.PlainTexts := by
  rcases hlanguage with rfl | rfl
  · exact Cpp.plainTexts_of_mem_skeletons h hrevision hs
  · exact Java.plainTexts_of_mem_skeletons h hrevision hs

/-- The generated text of a C++ or Java class holds no markers: free text is written
where it cannot open a comment, and everything else goes by identifiers. -/
theorem DeviceClass.Named.plainTexts (h : cls.Named)
    (hlanguage : cls.language = .cpp ∨ cls.language = .java)
    (hrevision : cls.revision = some currentRevision)
    (hfiles : skeletons settings cls = .ok (files, warnings)) {s : Skeleton}
    (hs : s ∈ files) :
    s.PlainTexts := by
  obtain ⟨iface, issues, hresolve, hemit, -⟩ := skeletons_eq_ok_iff.mp hfiles
  obtain ⟨hnamed, -⟩ := h.resolve hresolve
  rw [eq_of_emit hemit] at hs
  exact Language.plainTexts_of_mem_skeletons hnamed hrevision hlanguage hs

end DeviceForge
