import Mathlib
import DeviceForge.Zone.Id

/-!
# Zone ids and their parts

A member-level id is put together from its parts and falls apart into them
again, as long as the name holds no colon.  An id that falls apart is the one
that its parts make.
-/

namespace DeviceForge

open Text

namespace Text

theorem cut?_append {mark : Char} {before : List Char} (hbefore : mark ∉ before)
    (after : List Char) :
    cut? mark (before ++ mark :: after) = some (before, after) := by
  induction before with
  | nil => simp [cut?]
  | cons c cs ih =>
      rw [List.mem_cons, not_or] at hbefore
      simp [cut?, Ne.symm hbefore.1, ih hbefore.2]

/-- A text is cut at the first mark, so none stands before the cut. -/
theorem notMem_of_cut? {mark : Char} {cs before after : List Char}
    (h : cut? mark cs = some (before, after)) : mark ∉ before := by
  induction cs generalizing before with
  | nil => simp [cut?] at h
  | cons c cs ih =>
      by_cases hc : c = mark
      · simp only [cut?, hc, if_true, Option.some.injEq, Prod.mk.injEq] at h
        simp [← h.1]
      · simp only [cut?, hc, if_false, Option.map_eq_some_iff, Prod.mk.injEq,
          Prod.exists] at h
        obtain ⟨first, rest, hrest, rfl, rfl⟩ := h
        rw [List.mem_cons, not_or]
        exact ⟨Ne.symm hc, ih hrest⟩

end Text

theorem MemberKind.ofTag?_tag (kind : MemberKind) : ofTag? kind.tag = some kind := by
  cases kind <;> decide

theorem MemberKind.tag_of_ofTag? {text : String} {kind : MemberKind}
    (h : ofTag? text = some kind) : kind.tag = text := by
  have hfound := List.find?_some h
  simpa using hfound

theorem MemberRole.tag_injective : Function.Injective MemberRole.tag := by
  intro role other h
  cases role <;> cases other <;> first | rfl | exact absurd h (by decide)

namespace MemberSlot

def key (slot : MemberSlot) : MemberKey :=
  ⟨slot.kind, slot.name⟩

def withName (slot : MemberSlot) (name : String) : MemberSlot :=
  { slot with name }

/-- The parts can be told apart in an id. -/
structure Valid (slot : MemberSlot) : Prop where
  name_ne_empty : slot.name ≠ ""
  colon_notMem_name : ':' ∉ slot.name.toList
  role_ne_empty : slot.role ≠ ""

end MemberSlot

namespace ZoneId

theorem toList_ofSlot (slot : MemberSlot) :
    (ofSlot slot).text.toList =
      slot.kind.tag.toList ++ ':' :: (slot.name.toList ++ ':' :: slot.role.toList) := by
  simp [ofSlot]

theorem colon_notMem_tag (kind : MemberKind) : ':' ∉ kind.tag.toList := by
  cases kind <;> decide

/-- The parts of an id are read back, as only the role may hold the colon between parts.
-/
theorem slot?_ofSlot {slot : MemberSlot} (h : slot.Valid) :
    (ofSlot slot).slot? = some slot := by
  have hname : slot.name.toList.isEmpty = false := by
    simpa using h.name_ne_empty
  have hrole : slot.role.toList.isEmpty = false := by
    simpa using h.role_ne_empty
  simp only [slot?, toList_ofSlot, cut?_append (colon_notMem_tag _),
    cut?_append h.colon_notMem_name, Option.bind_eq_bind, Option.bind_some,
    String.ofList_toList, MemberKind.ofTag?_tag, hname, hrole, Bool.or_false,
    Bool.false_eq_true, if_false]

/-- An id with parts is the id that they make, and its parts can be told apart. -/
theorem eq_ofSlot_of_slot? {id : ZoneId} {slot : MemberSlot}
    (h : id.slot? = some slot) : id = ofSlot slot ∧ slot.Valid := by
  simp only [slot?, Option.bind_eq_bind, Option.bind_eq_some_iff, Prod.exists] at h
  obtain ⟨tag, rest, htag, name, role, hrest, kind, hkind, hslot⟩ := h
  by_cases hempty : (name.isEmpty || role.isEmpty) = true
  · simp [hempty] at hslot
  · rw [if_neg hempty, Option.some.injEq] at hslot
    subst hslot
    rw [Bool.or_eq_true, not_or, List.isEmpty_iff, List.isEmpty_iff] at hempty
    refine ⟨?_, ⟨?_, ?_, ?_⟩⟩
    · have htext : id.text.toList = (ofSlot ⟨kind, String.ofList name,
          String.ofList role⟩).text.toList := by
        rw [toList_ofSlot, eq_of_cut? htag, eq_of_cut? hrest,
          MemberKind.tag_of_ofTag? hkind]
        simp
      exact congrArg ZoneId.mk (String.toList_injective htext)
    · simpa using hempty.1
    · simpa using notMem_of_cut? hrest
    · simpa using hempty.2

theorem ofSlot_injective {slot other : MemberSlot} (hslot : slot.Valid)
    (hother : other.Valid) (h : ofSlot slot = ofSlot other) : slot = other := by
  have hparts := congrArg slot? h
  rw [slot?_ofSlot hslot, slot?_ofSlot hother] at hparts
  exact Option.some.inj hparts

theorem slot?_ofClass (role : ClassRole) : (ofClass role).slot? = none := by
  cases role <;> decide

theorem ofClass_injective : Function.Injective ofClass := by
  intro role other h
  cases role <;> cases other <;> first | rfl | exact absurd h (by decide)

theorem colon_notMem_role (role : MemberRole) : ':' ∉ role.tag.toList := by
  cases role <;> decide

theorem toList_ofMember (kind : MemberKind) (name : String) (role : MemberRole) :
    (ofMember kind name role).text.toList =
      kind.tag.toList ++ ':' :: (name.toList ++ ':' :: role.tag.toList) := by
  rw [ofMember, toList_ofSlot]

/-- Kind and role hold no colon, so the name is what stands between the first colon and
the last. -/
theorem parts_of_ofMember_eq {kind other : MemberKind} {name otherName : String}
    {role otherRole : MemberRole}
    (h : ofMember kind name role = ofMember other otherName otherRole) :
    (⟨kind, name⟩ : MemberKey) = ⟨other, otherName⟩ ∧ role = otherRole := by
  have hchars := congrArg (fun id => cut? ':' id.text.toList) h
  simp only [toList_ofMember, cut?_append (colon_notMem_tag _), Option.some.injEq,
    Prod.mk.injEq] at hchars
  obtain ⟨htag, hrest⟩ := hchars
  have hkind : kind = other := by
    have htags := congrArg MemberKind.ofTag? (String.toList_injective htag)
    rw [MemberKind.ofTag?_tag, MemberKind.ofTag?_tag] at htags
    exact Option.some.inj htags
  have hreverse : ∀ (name : String) (role : MemberRole),
      cut? ':' (name.toList ++ ':' :: role.tag.toList).reverse =
        some (role.tag.toList.reverse, name.toList.reverse) := by
    intro name role
    rw [List.reverse_append, List.reverse_cons, List.append_assoc]
    exact cut?_append (by simpa using colon_notMem_role role) _
  have hcuts := congrArg (fun cs => cut? ':' cs.reverse) hrest
  simp only [hreverse, Option.some.injEq, Prod.mk.injEq, List.reverse_inj] at hcuts
  refine ⟨?_, MemberRole.tag_injective (String.toList_injective hcuts.1)⟩
  rw [hkind, String.toList_injective hcuts.2]

theorem key_of_ofMember_eq {kind other : MemberKind} {name otherName : String}
    {role otherRole : MemberRole}
    (h : ofMember kind name role = ofMember other otherName otherRole) :
    (⟨kind, name⟩ : MemberKey) = ⟨other, otherName⟩ :=
  (parts_of_ofMember_eq h).1

/-- No zone of a class is one of a member, as no kind of member has the tag of a class.
-/
theorem ofClass_ne_ofMember (role : ClassRole) (kind : MemberKind) (name : String)
    (memberRole : MemberRole) : ofClass role ≠ ofMember kind name memberRole := by
  intro h
  have hclass : (cut? ':' (ofClass role).text.toList).map Prod.fst =
      some "class".toList := by
    cases role <;> decide
  have hkind : kind.tag.toList ≠ "class".toList := by
    cases kind <;> decide
  rw [h, toList_ofMember, cut?_append (colon_notMem_tag _), Option.map_some,
    Option.some.injEq] at hclass
  exact hkind hclass

end ZoneId

end DeviceForge
