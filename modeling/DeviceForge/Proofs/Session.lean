import DeviceForge.Proofs.Generation
import DeviceForge.Session.InPlace

/-!
# Calls that fail

A call changes the class, the constraints and the record one after another, and
takes nothing back by itself.  That a call which fails still leaves no trace
rests on the order of its steps: all that can fail comes before the first
change, or is undone where it does not.
-/

namespace DeviceForge

theorem ClassBody.machine_mapMembers (body : ClassBody) (kind : MemberKind)
    (f : {α : Type} → [Declaration α] → List α → List α) :
    (body.mapMembers kind f).machine = body.machine := by
  cases kind <;> rfl

namespace InPlace

variable {ε α : Type}

@[simp]
theorem run_ofExcept_ok (a : α) (w : Workplace) :
    (MonadExcept.ofExcept (.ok a) : InPlace ε α).run w = .ok a w := rfl

@[simp]
theorem run_ofExcept_error (e : ε) (w : Workplace) :
    (MonadExcept.ofExcept (.error e) : InPlace ε α).run w = .error e w := rfl

@[simp]
theorem run_cls (w : Workplace) : (cls : InPlace ε DeviceClass).run w = .ok w.cls w :=
  rfl

@[simp]
theorem run_changeClass (f : DeviceClass → DeviceClass) (w : Workplace) :
    (changeClass f : InPlace ε Unit).run w = .ok () { w with cls := f w.cls } := rfl

@[simp]
theorem run_changeBody (f : ClassBody → ClassBody) (w : Workplace) :
    (changeBody f : InPlace ε Unit).run w =
      .ok () { w with cls := { w.cls with toClassBody := f w.cls.toClassBody } } := rfl

/-- An error that is caught does not bring the earlier workplace back. -/
theorem run_tryCatch (p : InPlace ε α) (handle : ε → InPlace ε α) (w : Workplace) :
    (tryCatch p handle).run w =
      match p.run w with
      | .ok a after => .ok a after
      | .error e after => (handle e).run after := by
  simp only [tryCatch, tryCatchThe, MonadExceptOf.tryCatch, EStateM.tryCatch,
    EStateM.run]
  cases p w <;> rfl

/-! ## Edits in place -/

/-- What is left of an edit that gives another session or refuses to. -/
def settle (w : Workplace) : Except ε Session → EStateM.Result ε Workplace Unit
  | .ok s => .ok () { w with toSession := s }
  | .error e => .error e w

/-- What is left of an edit of the class alone. -/
def settleClass (w : Workplace) (outcome : Except ε DeviceClass) :
    EStateM.Result ε Workplace Unit :=
  settle w (outcome.map ({ w.toSession with cls := · }))

/-- A checked addition in place is the addition. -/
theorem run_addMember (member : Member) (w : Workplace) :
    (addMember member).run w = settleClass w (w.cls.add member) := by
  rw [DeviceClass.add, DeviceClass.editBody, ClassBody.add, addMember]
  cases Name.check member.name with
  | error e =>
      simp only [EStateM.run_bind, run_ofExcept_error]
      rfl
  | ok =>
      simp only [EStateM.run_bind, run_ofExcept_ok, run_cls]
      cases w.cls.hasMember ⟨member.kind, member.name⟩ <;> rfl

/-- The list is changed before the constraints, and nothing can fail in between. -/
theorem run_removeMember (key : MemberKey) (w : Workplace) :
    (removeMember key).run w = settleClass w (w.cls.remove key) := by
  rw [DeviceClass.remove, DeviceClass.editBody, ClassBody.remove, removeMember]
  simp only [EStateM.run_bind, run_cls]
  cases w.cls.hasMember key with
  | false => rfl
  | true =>
      simp only [if_true, EStateM.run_bind, run_changeBody,
        ClassBody.machine_mapMembers]
      rfl

/-- The checks come before all changes, so a refused renaming changes nothing. -/
theorem run_renameMember (kind : MemberKind) (old new : String) (w : Workplace) :
    (renameMember kind old new).run w = settleClass w (w.cls.rename kind old new) := by
  rw [DeviceClass.rename, DeviceClass.editBody, ClassBody.rename, renameMember]
  cases Name.check new with
  | error e =>
      simp only [EStateM.run_bind, run_ofExcept_error]
      rfl
  | ok =>
      simp only [EStateM.run_bind, run_ofExcept_ok, run_cls]
      cases w.cls.hasMember ⟨kind, old⟩ with
      | false => rfl
      | true =>
          simp only [Bool.not_true, Bool.false_eq_true, if_false]
          by_cases hsame : old = new
          · obtain ⟨⟨⟨body, ancestors⟩, renames⟩, filesRead⟩ := w
            simp only [hsame, if_true]
            rfl
          · simp only [hsame, if_false, EStateM.run_bind, run_cls]
            cases w.cls.hasMember ⟨kind, new⟩ with
            | true => rfl
            | false =>
                simp only [Bool.false_eq_true, if_false, EStateM.run_bind,
                  run_changeBody, ClassBody.machine_mapMembers]
                rfl

theorem run_setLanguage (language : Language) (w : Workplace) :
    (setLanguage language).run w = settleClass w (w.cls.setLanguage language) := by
  rw [DeviceClass.setLanguage, setLanguage]
  simp only [EStateM.run_bind, run_cls]
  cases w.cls.parent? with
  | none => rfl
  | some parent =>
      by_cases h : parent.language ≠ language
      · simp only [if_pos h]
        rfl
      · simp only [if_neg h]
        rfl

/-- The check only looks at the workplace. -/
theorem run_checkChain (incoming : List DeviceClass) (w : Workplace) :
    (checkChain incoming).run w =
      match DeviceClass.checkChain w.cls.name w.cls.language
          (w.cls.name :: w.cls.ancestors.map (·.name)) incoming with
      | .ok _ => .ok () w
      | .error e => .error e w := by
  simp only [checkChain, EStateM.run_bind, run_cls]
  cases DeviceClass.checkChain w.cls.name w.cls.language
    (w.cls.name :: w.cls.ancestors.map (·.name)) incoming <;> rfl

theorem run_addAncestor (ancestor : DeviceClass) (w : Workplace) :
    (addAncestor ancestor).run w = settleClass w (w.cls.addAncestor ancestor) := by
  rw [DeviceClass.addAncestor, addAncestor, EStateM.run_bind, run_checkChain]
  cases DeviceClass.checkChain w.cls.name w.cls.language
    (w.cls.name :: w.cls.ancestors.map (·.name)) ancestor.chain <;> rfl

/-- After a refusal the chain that was taken away is back. -/
theorem run_inheritFrom (parent : DeviceClass) (w : Workplace) :
    (inheritFrom parent).run w = settleClass w (w.cls.inheritFrom parent) := by
  obtain ⟨⟨⟨body, ancestors⟩, renames⟩, filesRead⟩ := w
  rw [DeviceClass.inheritFrom, inheritFrom]
  simp only [EStateM.run_bind, run_cls, run_changeClass, run_tryCatch, run_checkChain,
    List.map_nil]
  cases DeviceClass.checkChain body.name body.language [body.name] parent.chain <;> rfl

/-- The record is changed after the class, if the class is changed at all. -/
theorem run_bind_note {p : InPlace ε Unit} {w : Workplace}
    {outcome : Except ε DeviceClass} (h : p.run w = settleClass w outcome)
    (f : Renames → Renames) :
    (do p; note f).run w = settle w (outcome.map (⟨·, f w.renames⟩)) := by
  rw [EStateM.run_bind, h]
  cases outcome <;> rfl

theorem run_add (member : Member) (w : Workplace) :
    (add member).run w = settle w (w.toSession.add member) :=
  run_bind_note (run_addMember member w) _

theorem run_rename (kind : MemberKind) (old new : String) (w : Workplace) :
    (rename kind old new).run w = settle w (w.toSession.rename kind old new) :=
  run_bind_note (run_renameMember kind old new w) _

theorem run_remove (key : MemberKey) (w : Workplace) :
    (remove key).run w = settle w (w.toSession.remove key) :=
  run_bind_note (run_removeMember key w) _

/-! ## Generations in place -/

def asked (prior : PriorSource) : List Skeleton → List String
  | [] => []
  | s :: rest => s.file :: if prior s.file = .unreadable then [] else asked prior rest

theorem asked_eq_map {prior : PriorSource} {files : List Skeleton}
    (h : ∀ s ∈ files, prior s.file ≠ .unreadable) :
    asked prior files = files.map (·.file) := by
  induction files with
  | nil => rfl
  | cons s rest ih =>
      rw [asked, if_neg (h s List.mem_cons_self),
        ih fun other hother => h other (List.mem_cons_of_mem _ hother)]
      rfl

/-- Reading asks for files up to the first that cannot be read, and changes nothing
else. -/
theorem run_readPriors (prior : PriorSource) (files : List Skeleton) (w : Workplace) :
    (readPriors prior files).run w =
      match DeviceForge.readPriors prior files with
      | .ok priors =>
        .ok priors { w with filesRead := w.filesRead ++ asked prior files }
      | .error e =>
        .error e { w with filesRead := w.filesRead ++ asked prior files } := by
  induction files generalizing w with
  | nil => simp [readPriors, DeviceForge.readPriors, asked]
  | cons s rest ih =>
      simp only [readPriors, readPrior, DeviceForge.readPriors, asked, EStateM.run_bind,
        EStateM.run_modify]
      cases prior s.file with
      | unreadable => rfl
      | absent =>
          simp only [EStateM.run_pure, ih, reduceCtorEq, if_false]
          cases DeviceForge.readPriors prior rest <;> simp [Except.map]
      | text content =>
          simp only [EStateM.run_pure, ih, reduceCtorEq, if_false]
          cases DeviceForge.readPriors prior rest <;> simp [Except.map]

/-- The files that a generation asks for.  It asks for none if the class has no
skeletons. -/
def filesAsked (settings : Settings) (prior : PriorSource) (cls : DeviceClass) :
    List String :=
  match skeletons settings cls with
  | .ok (files, _) => asked prior files
  | .error _ => []

/-- A generation that fails has asked for files, but the class and what is pending are
as they were. -/
theorem run_generate (settings : Settings) (prior : PriorSource) (w : Workplace) :
    (generate settings prior).run w =
      let filesRead := w.filesRead ++ filesAsked settings prior w.cls
      match w.toSession.generate settings prior with
      | .ok (output, next) => .ok output { toSession := next, filesRead }
      | .error e => .error e { w with filesRead } := by
  rw [generate, Session.generate, DeviceForge.generate, filesAsked]
  simp only [EStateM.run_bind, run_cls]
  cases skeletons settings w.cls with
  | error e =>
      simp only [run_ofExcept_error, List.append_nil]
      rfl
  | ok found =>
      obtain ⟨files, warnings⟩ := found
      simp only [run_ofExcept_ok, run_readPriors, bind, Except.bind]
      cases DeviceForge.readPriors prior files <;> rfl

end InPlace

/-! ## Calls -/

namespace Session

def edited (result : Except ModelError Session) :
    Except GenerationError (Option Output × Session) :=
  (result.mapError .model).map (none, ·)

/-- What a call returns and the session after it, where it succeeds. -/
def call (s : Session) : Call → Except GenerationError (Option Output × Session)
  | .add member => edited (s.add member)
  | .rename kind old new => edited (s.rename kind old new)
  | .remove key => edited (s.remove key)
  | .addAncestor ancestor => edited (s.addAncestor ancestor)
  | .inheritFrom parent => edited (s.inheritFrom parent)
  | .setLanguage language => edited (s.setLanguage language)
  | .generate settings prior =>
      (s.generate settings prior).map fun (output, next) => (some output, next)

end Session

namespace Call

/-- The earlier files that a call asks for. -/
def filesAsked (s : Session) : Call → List String
  | .generate settings prior => InPlace.filesAsked settings prior s.cls
  | _ => []

/-- What a call returns and leaves, told by what it does to a session and by the
files that it asks for. -/
def outcome (w : Workplace) (call : Call) : Reply × Workplace :=
  let filesRead := w.filesRead ++ call.filesAsked w.toSession
  match w.toSession.call call with
  | .ok (reply, s) => (.ok reply, { toSession := s, filesRead })
  | .error e => (.error e, { w with filesRead })

/-- An edit in place is the call if both do the same to a session. -/
theorem perform_of_run_edit {change : InPlace ModelError Unit} {call : Call}
    {w : Workplace} {result : Except ModelError Session}
    (hcall : call.inPlace = edit change) (hrun : change.run w = InPlace.settle w result)
    (hresult : w.toSession.call call = Session.edited result)
    (hasked : call.filesAsked w.toSession = []) : call.perform w = call.outcome w := by
  have hchange : change w = InPlace.settle w result := hrun
  rw [perform, hcall, outcome, hresult, hasked, List.append_nil, edit, EStateM.run_bind,
    EStateM.run, EStateM.adaptExcept, hchange]
  cases result <;> rfl

/-- In place a call does what it does to a session, and nothing where it fails
but ask for files. -/
theorem perform_eq (call : Call) (w : Workplace) : call.perform w = call.outcome w := by
  cases call with
  | add member => exact perform_of_run_edit rfl (InPlace.run_add member w) rfl rfl
  | rename kind old new =>
      exact perform_of_run_edit rfl (InPlace.run_rename kind old new w) rfl rfl
  | remove key => exact perform_of_run_edit rfl (InPlace.run_remove key w) rfl rfl
  | addAncestor ancestor =>
      exact perform_of_run_edit rfl (InPlace.run_addAncestor ancestor w) rfl rfl
  | inheritFrom parent =>
      exact perform_of_run_edit rfl (InPlace.run_inheritFrom parent w) rfl rfl
  | setLanguage language =>
      exact perform_of_run_edit rfl (InPlace.run_setLanguage language w) rfl rfl
  | generate settings prior =>
      rw [perform, inPlace, EStateM.run_map, InPlace.run_generate, outcome,
        Session.call, filesAsked]
      cases w.toSession.generate settings prior <;> rfl

variable {call : Call} {w other after : Workplace}

theorem perform_eq_error_iff {e : GenerationError} :
    call.perform w = (.error e, after) ↔
      w.toSession.call call = .error e ∧
        after = { w with filesRead := w.filesRead ++ call.filesAsked w.toSession } := by
  rw [perform_eq, outcome]
  cases w.toSession.call call <;> simp [eq_comm]

/-- A call that succeeds leaves the session that the call gives, and has asked for its
files. -/
theorem perform_eq_ok_iff {reply : Option Output} :
    call.perform w = (.ok reply, after) ↔
      ∃ s, w.toSession.call call = .ok (reply, s) ∧
        after = ⟨s, w.filesRead ++ call.filesAsked w.toSession⟩ := by
  rw [perform_eq, outcome]
  cases w.toSession.call call with
  | error e => simp
  | ok found =>
      obtain ⟨reply', s⟩ := found
      simp [eq_comm, and_assoc]

theorem toSession_of_perform {e : GenerationError}
    (h : call.perform w = (.error e, after)) :
    after.toSession = w.toSession := by
  rw [(perform_eq_error_iff.mp h).2]

/-- What was read before makes no difference. -/
theorem perform_congr (h : w.toSession = other.toSession) (call : Call) :
    (call.perform w).1 = (call.perform other).1 ∧
      (call.perform w).2.toSession = (call.perform other).2.toSession := by
  rw [perform_eq, perform_eq, outcome, outcome, h]
  cases other.toSession.call call <;> exact ⟨rfl, rfl⟩

end Call

namespace Workplace

variable {w other : Workplace}

theorem transcript_congr (h : w.toSession = other.toSession) (calls : List Call) :
    w.transcript calls = other.transcript calls := by
  induction calls generalizing w other with
  | nil => rfl
  | cons call rest ih =>
      obtain ⟨hreply, hafter⟩ := Call.perform_congr h call
      rw [transcript, transcript, hreply, ih hafter]

theorem toSession_after_congr (h : w.toSession = other.toSession) (calls : List Call) :
    (w.after calls).toSession = (other.after calls).toSession := by
  induction calls generalizing w other with
  | nil => exact h
  | cons call rest ih => exact ih (Call.perform_congr h call).2

/-- Calls that fail can be left out, some of them or all. -/
theorem transcript_filter {keeps : Call × Reply → Bool}
    (hkeeps : ∀ entry, keeps entry = false → ∃ e, entry.2 = .error e)
    (calls : List Call) :
    w.transcript (((w.transcript calls).filter keeps).map Prod.fst) =
        (w.transcript calls).filter keeps ∧
      (w.after (((w.transcript calls).filter keeps).map Prod.fst)).toSession =
        (w.after calls).toSession := by
  induction calls generalizing w with
  | nil => exact ⟨rfl, rfl⟩
  | cons call rest ih =>
      obtain ⟨hreplies, hafter⟩ := ih (w := (call.perform w).2)
      rw [transcript, after]
      cases hkept : keeps (call, (call.perform w).1) with
      | true =>
          rw [List.filter_cons_of_pos hkept, List.map_cons, transcript, after]
          exact ⟨congrArg _ hreplies, hafter⟩
      | false =>
          -- the rest begins where the call that failed began
          obtain ⟨e, he⟩ := hkeeps _ hkept
          have hsame : w.toSession = (call.perform w).2.toSession :=
            (Call.toSession_of_perform (Prod.ext he rfl)).symm
          rw [List.filter_cons_of_neg (by simp [hkept])]
          exact ⟨(transcript_congr hsame _).trans hreplies,
            (toSession_after_congr hsame _).trans hafter⟩

def successes (w : Workplace) (calls : List Call) : List (Call × Reply) :=
  (w.transcript calls).filter fun entry => entry.2.isOk

end Workplace

/-- Reading earlier files fails only at one that cannot be read. -/
theorem exists_of_readPriors {prior : PriorSource} {files : List Skeleton}
    {e : GenerationError} (h : readPriors prior files = .error e) :
    ∃ file, e = .unreadable file := by
  induction files with
  | nil => simp [readPriors] at h
  | cons s rest ih =>
      have hrest : ∀ content,
          (readPriors prior rest).map ((s, content) :: ·) = .error e →
          ∃ file, e = .unreadable file := by
        intro content hcontent
        cases hread : readPriors prior rest with
        | error e' =>
            obtain rfl : e' = e := by simpa [hread, Except.map] using hcontent
            exact ih hread
        | ok priors => simp [hread, Except.map] at hcontent
      rw [readPriors] at h
      cases hfile : prior s.file with
      | unreadable =>
          simp only [hfile, Except.error.injEq] at h
          exact ⟨s.file, h.symm⟩
      | absent =>
          simp only [hfile] at h
          exact hrest none h
      | text content =>
          simp only [hfile] at h
          exact hrest (some content) h

/-- A class with skeletons cannot fail to be generated but by an earlier file. -/
theorem exists_of_generate {settings : Settings} {cls : DeviceClass}
    {prior : PriorSource} {renames : Renames} {files : List Skeleton}
    {warnings : List Warning} {e : GenerationError}
    (hfiles : skeletons settings cls = .ok (files, warnings))
    (h : generate settings cls prior renames = .error e) :
    ∃ file, e = .unreadable file := by
  simp only [generate, hfiles, bind, Except.bind] at h
  cases hread : readPriors prior files with
  | error e' =>
      obtain rfl : e' = e := by simpa [hread] using h
      exact exists_of_readPriors hread
  | ok priors => simp [hread, pure, Except.pure] at h

theorem InPlace.filesAsked_eq_map {settings : Settings} {cls : DeviceClass}
    {prior : PriorSource} {files : List Skeleton} {warnings : List Warning}
    (hfiles : skeletons settings cls = .ok (files, warnings))
    (hreadable : ∀ s ∈ files, prior s.file ≠ .unreadable) :
    filesAsked settings prior cls = files.map (·.file) := by
  rw [filesAsked, hfiles]
  exact asked_eq_map hreadable

/-- Where generation fails for another reason, it fails before it asks for files. -/
theorem InPlace.filesAsked_eq_nil {settings : Settings} {cls : DeviceClass}
    {prior : PriorSource} {renames : Renames} {e : GenerationError}
    (h : DeviceForge.generate settings cls prior renames = .error e)
    (he : ∀ file, e ≠ .unreadable file) : filesAsked settings prior cls = [] := by
  rw [filesAsked]
  cases hfiles : skeletons settings cls with
  | error e' => rfl
  | ok found =>
      obtain ⟨file, rfl⟩ := exists_of_generate hfiles h
      exact absurd rfl (he file)

namespace Call

variable {settings : Settings} {prior : PriorSource} {w after : Workplace}

/-- A generation that fails because of the class has asked for no file. -/
theorem filesRead_of_generate {e : GenerationError}
    (h : (generate settings prior).perform w = (.error e, after))
    (he : ∀ file, e ≠ .unreadable file) : after.filesRead = w.filesRead := by
  obtain ⟨hcall, rfl⟩ := perform_eq_error_iff.mp h
  rw [Session.call, Session.generate] at hcall
  cases hgenerate : DeviceForge.generate settings w.cls prior w.renames with
  | error e' =>
      obtain rfl : e' = e := by simpa [hgenerate, Except.map] using hcall
      rw [filesAsked, InPlace.filesAsked_eq_nil hgenerate he, List.append_nil]
  | ok found => simp [hgenerate, Except.map] at hcall

/-- A generation that succeeds has asked for every file of the class, and leaves
nothing pending. -/
theorem generate_of_perform {reply : Option Output}
    (h : (generate settings prior).perform w = (.ok reply, after)) :
    after.renames = {} ∧
      ∃ files warnings, skeletons settings w.cls = .ok (files, warnings) ∧
      after.filesRead = w.filesRead ++ files.map (·.file) := by
  obtain ⟨s, hcall, rfl⟩ := perform_eq_ok_iff.mp h
  simp only [Session.call, Session.generate, Outcome.map_eq_ok_iff, Prod.exists,
    Prod.mk.injEq] at hcall
  obtain ⟨out, next, ⟨out', pending, hgenerate, rfl, rfl⟩, rfl, rfl⟩ := hcall
  obtain ⟨files, warnings, hfiles, hreadable, -, rfl⟩ := generate_eq_ok_iff.mp hgenerate
  refine ⟨rfl, files, warnings, hfiles, ?_⟩
  rw [filesAsked, InPlace.filesAsked_eq_map hfiles hreadable]

end Call

/-- Whatever is called: a call that fails leaves class and record as they were,
so that the calls which succeed return the same and end the same without those
which fail.  A generation that fails because of the class has asked for no
earlier file, and one that succeeds leaves every zone where it is. -/
theorem failed_calls_leave_no_trace (w : Workplace) (calls : List Call) :
    (∀ (call : Call) (e : GenerationError) (after : Workplace),
        call.perform w = (.error e, after) → after.toSession = w.toSession) ∧
      w.transcript ((w.successes calls).map Prod.fst) = w.successes calls ∧
      (w.after ((w.successes calls).map Prod.fst)).toSession =
        (w.after calls).toSession ∧
      (∀ settings prior e after,
        (Call.generate settings prior).perform w = (.error e, after) →
        (∀ file, e ≠ .unreadable file) → after.filesRead = w.filesRead) ∧
      ∀ settings prior reply after,
        (Call.generate settings prior).perform w = (.ok reply, after) →
          ∀ id, after.renames.resolve id = .keep id := by
  have hkeeps : ∀ entry : Call × Reply, entry.2.isOk = false →
      ∃ e, entry.2 = .error e := by
    rintro ⟨call, reply⟩ hreply
    cases reply with
    | error e => exact ⟨e, rfl⟩
    | ok output => simp [Except.isOk, Except.toBool] at hreply
  obtain ⟨hreplies, hafter⟩ := Workplace.transcript_filter (w := w) hkeeps calls
  refine ⟨fun call e after h => Call.toSession_of_perform h, hreplies, hafter,
    fun settings prior e after h he => Call.filesRead_of_generate h he, ?_⟩
  intro settings prior reply after h id
  rw [(Call.generate_of_perform h).1, resolve_empty]

/-- A command that is added twice is refused the second time, and a generation
that cannot read its earlier file fails.  Without the two the class is generated
as it is with them. -/
theorem failed_calls_leave_no_trace_motor :
    let w : Workplace := { cls := { name := "Motor", language := .python } }
    let add : Call := .add (.command { name := "On" })
    let lost : Call := .generate {} fun _ => .unreadable
    let fresh : Call := .generate {} .none
    (w.transcript [add, add, lost, fresh]).map (·.2.isOk) = [true, false, false, true] ∧
      w.transcript [add, fresh] = w.successes [add, add, lost, fresh] := by
  intro w add lost fresh
  have hoks : (w.transcript [add, add, lost, fresh]).map (·.2.isOk) =
      [true, false, false, true] := by
    decide +kernel
  have hcalls : (w.successes [add, add, lost, fresh]).map Prod.fst = [add, fresh] := by
    simp only [Workplace.transcript, List.map_cons, List.map_nil, List.cons.injEq,
      and_true] at hoks
    obtain ⟨hadd, htwice, hlost, hfresh⟩ := hoks
    simp [Workplace.successes, Workplace.transcript, hadd, htwice, hlost, hfresh]
  have hmain := (failed_calls_leave_no_trace w [add, add, lost, fresh]).2.1
  rw [hcalls] at hmain
  exact ⟨hoks, hmain⟩

end DeviceForge
