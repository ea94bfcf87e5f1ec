import DeviceForge.Proofs.Device.Lineage
import DeviceForge.Proofs.Source.Unforged
import DeviceForge.Proofs.Text.Uppercase

/-!
# Files of a server and of its classes

The files of a server stand beside those of its classes.  Their names are made
from the name of the server and the names of the classes, and only the latter
are known to differ from each other.
-/

namespace DeviceForge

namespace DeviceClass

/-- A class goes by a name that some text spells. -/
theorem Checked.exists_ofText {cls : DeviceClass} (h : cls.Checked) :
    ∃ text, Name.ofText text = .ok cls.name := by
  induction h with
  | @ofText text language cls h =>
      obtain ⟨name, hname, rfl⟩ := Outcome.map_eq_ok_iff.mp h
      exact ⟨text, hname⟩
  | edit _ h ih =>
      obtain ⟨body, hbody, rfl⟩ := editBody_eq_ok_iff.mp h
      rw [ClassBody.name_of_edit hbody]
      exact ih
  | addState _ h ih =>
      obtain ⟨body, hbody, rfl⟩ := editBody_eq_ok_iff.mp h
      obtain ⟨-, machine, -, rfl⟩ := ClassBody.addState_eq_ok_iff.mp hbody
      exact ih
  | removeState _ name ih => exact ih
  | setAllowedStates _ h ih =>
      obtain ⟨body, hbody, rfl⟩ := editBody_eq_ok_iff.mp h
      obtain ⟨-, rfl⟩ := ClassBody.setAllowedStates_eq_ok_iff.mp hbody
      exact ih
  | @setName cls after _ text h ih =>
      obtain ⟨name, hname, rfl⟩ := Outcome.map_eq_ok_iff.mp h
      exact ⟨text, hname⟩
  | setLanguage _ h ih =>
      obtain rfl := eq_of_setLanguage h
      exact ih
  | addAncestor _ _ h ih _ =>
      obtain ⟨-, -, rfl⟩ := Outcome.map_eq_ok_iff.mp h
      exact ih
  | inheritFrom _ _ h ih _ =>
      obtain ⟨-, -, rfl⟩ := Outcome.map_eq_ok_iff.mp h
      exact ih
  | describe _ h ih =>
      rw [h.name]
      exact ih

/-- The entry point of a C++ server is `main`, in lower case. -/
theorem Checked.name_ne_main {cls : DeviceClass} (h : cls.Checked) :
    cls.name ≠ "main" := by
  obtain ⟨text, htext⟩ := h.exists_ofText
  intro hname
  have hlower := Name.isLower_of_ofText (d := 'm') htext (by rw [hname]; decide)
  exact absurd hlower (by decide)

end DeviceClass

namespace Server

theorem name_notMem_of_add {server after : Server} {cls : DeviceClass}
    (h : server.add cls = .ok after) : cls.name ∉ server.classes.map (·.name) := by
  intro hname
  have hknown : server.classes.any (·.name == cls.name) = true := by
    obtain ⟨other, hother, heq⟩ := List.mem_map.mp hname
    exact List.any_eq_true.mpr ⟨other, hother, by simpa using heq⟩
  cases hlanguage : server.language? <;>
    simp only [add, hlanguage, hknown, if_true, Outcome.bind_eq_ok_iff,
      Outcome.throw_ne_ok, false_and, and_false, exists_false] at h

/-- The classes of a server are checked, and their names are different. -/
theorem Checked.classes {server : Server} (h : server.Checked) :
    (∀ cls ∈ server.classes, cls.Checked) ∧ (server.classes.map (·.name)).Nodup := by
  induction h with
  | ofText h =>
      obtain ⟨name, -, rfl⟩ := Outcome.map_eq_ok_iff.mp h
      exact ⟨by simp, List.nodup_nil⟩
  | add _ hcls h ih =>
      have hnew := name_notMem_of_add h
      obtain rfl := eq_of_add h
      refine ⟨List.forall_mem_append.mpr ⟨ih.1, List.forall_mem_singleton.mpr hcls⟩, ?_⟩
      rw [List.map_append, List.nodup_append]
      refine ⟨ih.2, List.nodup_singleton _, ?_⟩
      rintro name hname other hother rfl
      rw [List.mem_singleton.mp hother] at hname
      exact hnew hname
  | describe _ _ hclasses ih =>
      rw [hclasses]
      exact ih

end Server

/-! ## Names of files -/

namespace Language

def classFiles (name : String) : Language → List String
  | .cpp => [name ++ ".h", name ++ ".cpp", name ++ "StateMachine.cpp"]
  | .java => [name ++ ".java"]
  | .python | .pythonHL => [name ++ ".py"]

def serverFiles (name : String) : Language → List String
  | .cpp => ["main.cpp", "ClassFactory.cpp"]
  | .java => [name ++ ".java"]
  | .python | .pythonHL => [name ++ ".py"]

/-- No class has a file of the name of another file.  In C++ the entry points
have fixed names, and the state machine of a class is named like the
implementation of another one would be. -/
def FilesApart (server : String) (classes : List String) : Language → Prop
  | .cpp =>
    "ClassFactory" ∉ classes ∧ ∀ name ∈ classes, name ++ "StateMachine" ∉ classes
  | .java | .python | .pythonHL => server ∉ classes

/-- Texts of which neither can end like the other are different. -/
theorem append_ne_append {ending other : String} (h : ¬ ending.toList <:+ other.toList)
    (hother : ¬ other.toList <:+ ending.toList) (s t : String) :
    s ++ ending ≠ t ++ other := by
  intro heq
  have hending : ending.toList <:+ (t ++ other).toList :=
    ⟨s.toList, by rw [← heq]; simp⟩
  have hotherEnding : other.toList <:+ (t ++ other).toList := ⟨t.toList, by simp⟩
  rcases List.suffix_or_suffix_of_suffix hending hotherEnding with hsuffix | hsuffix
  · exact h hsuffix
  · exact hother hsuffix

theorem append_injective (ending : String) : Function.Injective (· ++ ending) :=
  fun _ _ h => (String.append_left_inj ending).mp h

variable {server : String} {classes : List String}

/-- The C++ files of some classes are headers, implementations, and state
machines, which are named like implementations. -/
theorem perm_classFiles_cpp (classes : List String) :
    (classes.flatMap fun name => classFiles name .cpp).Perm
      (classes.map (· ++ ".h") ++
        (classes ++ classes.map (· ++ "StateMachine")).map (· ++ ".cpp")) := by
  have hfiles : (classes.flatMap fun name => classFiles name .cpp) =
      classes.flatMap fun name =>
        [name ++ ".h"] ++ ([name ++ ".cpp"] ++ [name ++ "StateMachine" ++ ".cpp"]) := by
    congr 1
    funext name
    rw [String.append_assoc]
    rfl
  have hone : ∀ f : String → String,
      classes.flatMap (fun name => [f name]) = classes.map f :=
    fun f => List.flatMap_pure_eq_map f classes
  rw [hfiles]
  refine (List.flatMap_append_perm ..).symm.trans
    (List.Perm.append (.of_eq (hone _)) ?_)
  refine (List.flatMap_append_perm ..).symm.trans (.of_eq ?_)
  rw [hone, hone, List.map_append, List.map_map]
  rfl

/-- Without their endings, the names are those of the entry points and two for each
class. -/
theorem nodup_stems_iff (server : String) (hclasses : classes.Nodup)
    (hmain : "main" ∉ classes) :
    (["main", "ClassFactory"] ++ (classes ++ classes.map (· ++ "StateMachine"))).Nodup ↔
      FilesApart server classes .cpp := by
  have hmachines : (classes ++ classes.map (· ++ "StateMachine")).Nodup ↔
      ∀ name ∈ classes, name ++ "StateMachine" ∉ classes := by
    rw [List.nodup_append', List.disjoint_right]
    simp only [hclasses, hclasses.map (append_injective "StateMachine"), true_and,
      List.forall_mem_map]
  have hending : ∀ stem : String, ¬ "StateMachine".toList <:+ stem.toList →
      stem ∉ classes.map (· ++ "StateMachine") := by
    intro stem hstem hmem
    obtain ⟨name, -, rfl⟩ := List.mem_map.mp hmem
    exact hstem ⟨name.toList, by simp⟩
  have hentries : ["main", "ClassFactory"].Disjoint
      (classes ++ classes.map (· ++ "StateMachine")) ↔ "ClassFactory" ∉ classes := by
    rw [List.disjoint_left]
    simp only [List.forall_mem_cons, List.mem_append, hmain,
      hending "main" (by decide), hending "ClassFactory" (by decide), or_false,
      not_false_eq_true, List.not_mem_nil, false_implies, implies_true, true_and,
      and_true]
  rw [List.nodup_append', hmachines, hentries, FilesApart,
    and_comm (a := ∀ name ∈ classes, _)]
  exact and_iff_right (by decide)

/-- Headers are named like their classes, so only sources can meet. -/
theorem nodup_files_cpp_iff (hclasses : classes.Nodup) (hmain : "main" ∉ classes) :
    (serverFiles server .cpp ++ classes.flatMap fun name =>
      classFiles name .cpp).Nodup ↔
      FilesApart server classes .cpp := by
  have hstems : ∀ stems : List String,
      (["main", "ClassFactory"] ++ stems).map (· ++ ".cpp") =
        serverFiles server .cpp ++ stems.map (· ++ ".cpp") := fun _ => List.map_append
  have hperm : (serverFiles server .cpp ++ classes.flatMap fun name =>
      classFiles name .cpp).Perm
        (classes.map (· ++ ".h") ++
          (["main", "ClassFactory"] ++
            (classes ++ classes.map (· ++ "StateMachine"))).map (· ++ ".cpp")) := by
    rw [hstems]
    refine ((perm_classFiles_cpp classes).append_left _).trans ?_
    exact List.perm_append_comm_assoc ..
  have hheaders : (classes.map (· ++ ".h")).Nodup :=
    hclasses.map (append_injective ".h")
  have hdisjoint : ∀ stems : List String,
      (classes.map (· ++ ".h")).Disjoint (stems.map (· ++ ".cpp")) := by
    intro stems
    rw [List.disjoint_left]
    intro file hfile hother
    obtain ⟨name, -, rfl⟩ := List.mem_map.mp hfile
    obtain ⟨stem, -, hstem⟩ := List.mem_map.mp hother
    exact append_ne_append (by decide) (by decide) stem name hstem
  rw [hperm.nodup_iff, List.nodup_append', List.nodup_map_iff (append_injective ".cpp"),
    nodup_stems_iff server hclasses hmain]
  simp only [hheaders, hdisjoint, true_and, and_true]

/-- A file for each class and one for the server, with names of the same ending. -/
theorem nodup_files_of_ending (ending : String) (hclasses : classes.Nodup) :
    ([server ++ ending] ++ classes.flatMap fun name => [name ++ ending]).Nodup ↔
      server ∉ classes := by
  have hone : classes.flatMap (fun name => [name ++ ending]) =
      classes.map (· ++ ending) :=
    List.flatMap_pure_eq_map _ classes
  rw [hone, List.singleton_append, List.nodup_cons,
    List.mem_map_of_injective (append_injective ending)]
  simp only [hclasses.map (append_injective ending), and_true]

/-- Where the classes have different names, only two clashes can happen. -/
theorem nodup_files_iff (language : Language) (hclasses : classes.Nodup)
    (hmain : "main" ∉ classes) :
    (language.serverFiles server ++
        classes.flatMap fun name => language.classFiles name).Nodup ↔
      language.FilesApart server classes := by
  cases language with
  | cpp => exact nodup_files_cpp_iff hclasses hmain
  | java => exact nodup_files_of_ending ".java" hclasses
  | python => exact nodup_files_of_ending ".py" hclasses
  | pythonHL => exact nodup_files_of_ending ".py" hclasses

end Language

theorem map_file_skeletons {settings : Settings} {cls : DeviceClass} (h : cls.Checked)
    {files : List Skeleton} {warnings : List Warning}
    (hfiles : skeletons settings cls = .ok (files, warnings)) :
    files.map (·.file) = cls.language.classFiles cls.name := by
  obtain ⟨iface, issues, hresolve, hemit, -⟩ := skeletons_eq_ok_iff.mp hfiles
  obtain ⟨-, hname⟩ := h.named.resolve hresolve
  rw [eq_of_emit hemit, ← hname]
  cases cls.language <;> rfl

/-- Of parts that all exist, the whole is what the parts are. -/
theorem map_flatten_of_mapM {ε α β γ : Type} {f : α → Except ε (List β)} {read : β → γ}
    {expected : α → List γ} {l : List α} {parts : List (List β)}
    (hf : ∀ a ∈ l, ∀ part, f a = .ok part → part.map read = expected a)
    (h : l.mapM f = .ok parts) : parts.flatten.map read = l.flatMap expected := by
  induction l generalizing parts with
  | nil =>
      obtain rfl : parts = [] := Outcome.pure_eq_ok_iff.mp h
      rfl
  | cons a rest ih =>
      simp only [List.mapM_cons, Outcome.bind_eq_ok_iff, Outcome.pure_eq_ok_iff] at h
      obtain ⟨part, hpart, others, hothers, rfl⟩ := h
      rw [List.flatten_cons, List.map_append, hf a List.mem_cons_self part hpart,
        ih (fun other hother => hf other (List.mem_cons_of_mem _ hother)) hothers,
        List.flatMap_cons]

namespace Server

/-- The names of the files of a server and its classes, if all of them can be
emitted. -/
def fileNames (settings : Settings) (server : Server) :
    Except GenerationError (List String) := do
  let entryPoints ← (EntryPoint.skeletons server settings).mapError .model
  let files ← server.classes.mapM fun cls => (skeletons settings cls).map Prod.fst
  return (entryPoints ++ files.flatten).map (·.file)

def FilesApart (server : Server) : Prop :=
  ∀ language ∈ server.language?, language.FilesApart server.name
    (server.classes.map (·.name))

variable {server : Server} {settings : Settings} {names : List String}

theorem language_of_checkLanguage {language : Language} {classes : List DeviceClass}
    {u : Unit} (h : server.checkLanguage language classes = .ok u) :
    ∀ cls ∈ classes, cls.language = language := by
  rw [checkLanguage] at h
  split at h
  · exact absurd h (by simp)
  · next hnone =>
      intro cls hcls
      simpa using List.find?_eq_none.mp hnone cls hcls

/-- Where all files can be emitted, their names are known from those of the server and
its classes. -/
theorem fileNames_eq (h : server.Checked) {language : Language}
    (hlanguage : server.language? = some language)
    (hnames : server.fileNames settings = .ok names) :
    names = language.serverFiles server.name ++
      (server.classes.map (·.name)).flatMap fun name => language.classFiles name := by
  simp only [fileNames, Outcome.bind_eq_ok_iff, Outcome.mapError_eq_ok_iff,
    Outcome.pure_eq_ok_iff] at hnames
  obtain ⟨entryPoints, hentry, files, hfiles, rfl⟩ := hnames
  simp only [EntryPoint.skeletons, hlanguage, Outcome.map_eq_ok_iff] at hentry
  obtain ⟨⟨⟩, hcheck, rfl⟩ := hentry
  have hclasses : files.flatten.map (·.file) =
      server.classes.flatMap fun cls => language.classFiles cls.name := by
    refine map_flatten_of_mapM (fun cls hcls part hpart => ?_) hfiles
    obtain ⟨⟨emitted, warnings⟩, hemitted, rfl⟩ := Outcome.map_eq_ok_iff.mp hpart
    rw [← language_of_checkLanguage hcheck cls hcls]
    exact map_file_skeletons (h.classes.1 cls hcls) hemitted
  rw [List.map_append, hclasses, List.flatMap_map]
  congr 1
  cases language <;> rfl

/-- Where a server and its classes can all be emitted, their files have
different names unless a class is named like its server, like the factory of
the classes, or like the state machine of another class. -/
theorem nodup_fileNames_iff (h : server.Checked)
    (hnames : server.fileNames settings = .ok names) :
    names.Nodup ↔ server.FilesApart := by
  cases hlanguage : server.language? with
  | none =>
      have hclasses : server.classes = [] := by simpa [language?] using hlanguage
      simp only [fileNames, EntryPoint.skeletons, hlanguage, hclasses,
        Outcome.bind_eq_ok_iff, Outcome.mapError_eq_ok_iff, Outcome.pure_eq_ok_iff]
        at hnames
      obtain ⟨_, hentry, files, hfiles, rfl⟩ := hnames
      obtain rfl := Except.ok.inj hentry
      obtain rfl : files = [] := Outcome.pure_eq_ok_iff.mp hfiles
      simp [FilesApart, hlanguage]
  | some language =>
      have hmain : "main" ∉ server.classes.map (·.name) := by
        intro hmem
        obtain ⟨cls, hcls, hname⟩ := List.mem_map.mp hmem
        exact (h.classes.1 cls hcls).name_ne_main hname
      rw [fileNames_eq h hlanguage hnames, language.nodup_files_iff h.classes.2 hmain]
      simp [FilesApart, hlanguage]

def ofMotor (name : String) : Server where
  name := name
  classes := [{ name := "Motor", language := .python }]

theorem checked_ofMotor (text : String) {name : String}
    (h : ofText text = .ok { name }) :
    (ofMotor name).Checked := by
  have hclass : DeviceClass.ofText "Motor" .python =
      .ok { name := "Motor", language := .python } := rfl
  exact .add (.ofText h) (.ofText hclass) rfl

theorem nodup_fileNames_iff_bench :
    (ofMotor "Bench").fileNames {} = .ok ["Bench.py", "Motor.py"] ∧
      (ofMotor "Bench").FilesApart := by
  have hnames : (ofMotor "Bench").fileNames {} = .ok ["Bench.py", "Motor.py"] := rfl
  have hserver : (ofMotor "Bench").Checked := checked_ofMotor "bench" rfl
  exact ⟨hnames, (nodup_fileNames_iff hserver hnames).mp (by decide)⟩

/-- The script of a server takes the name of the script of its class. -/
theorem not_forall_nodup_fileNames :
    ¬ ∀ (server : Server) (settings : Settings) (names : List String), server.Checked →
      server.fileNames settings = .ok names → names.Nodup := by
  intro h
  have hnames : (ofMotor "Motor").fileNames {} = .ok ["Motor.py", "Motor.py"] := rfl
  have hserver : (ofMotor "Motor").Checked := checked_ofMotor "motor" rfl
  exact absurd (h _ {} _ hserver hnames) (by decide)

end Server

end DeviceForge
