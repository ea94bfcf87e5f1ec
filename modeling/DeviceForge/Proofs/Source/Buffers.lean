import DeviceForge.Proofs.Generation
import DeviceForge.Proofs.Source.Support
import DeviceForge.Proofs.Source.Written

/-!
# Buffers of attributes

The check of an interface, the memory that an implementation takes, and the stub
that hands the values over each read the dimensions of an attribute for
themselves.  For the first two a dimension of zero is one place; the stub passes
on what is declared.  So it hands over the whole buffer or nothing, and a buffer
is never empty nor longer than a signed 32-bit number can say.
-/

namespace DeviceForge

open Layout

namespace Cpp

def extents (a : Attribute) : List ℕ :=
  match a.format with
  | .scalar => []
  | .spectrum => [a.maxX.toNat]
  | .image => [a.maxX.toNat, a.maxY.toNat]

/-- The attributes that are read by hand, with the lengths of their buffers. -/
def buffers (c : SourceContext) : List (Attribute × ℕ) :=
  (readable c).map fun a => (a, (bufferLength a).toNat)

theorem toNat_bufferLength (a : Attribute) : (bufferLength a).toNat = a.places := by
  rw [bufferLength, Attribute.places]
  cases a.format with
  | scalar => rfl
  | spectrum => exact Attribute.toNat_max_one _
  | image =>
      rw [Attribute.toNat_toUInt64_mul, Attribute.toNat_max_one,
        Attribute.toNat_max_one]

theorem bufferLength_eq_elementCount (a : Attribute) :
    bufferLength a = a.elementCount := by
  apply UInt64.toNat_inj.mp
  rw [toNat_bufferLength, Attribute.toNat_elementCount]

/-- A dimension of zero leaves no values.  Without one, there are as many values as
places. -/
theorem prod_extents_eq_zero_or (a : Attribute) :
    (extents a).prod = 0 ∨ (extents a).prod = a.places := by
  have hmax : ∀ {x : ℕ}, x ≠ 0 → max x 1 = x := fun h =>
    max_eq_left (Nat.one_le_iff_ne_zero.mpr h)
  rw [extents, Attribute.places]
  cases a.format with
  | scalar => exact Or.inr rfl
  | spectrum =>
      by_cases hx : a.maxX.toNat = 0
      · simp [hx]
      · simp [hmax hx]
  | image =>
      by_cases hx : a.maxX.toNat = 0
      · simp [hx]
      by_cases hy : a.maxY.toNat = 0
      · simp [hy]
      · simp [hmax hx, hmax hy]

theorem prod_extents_le_bufferLength (a : Attribute) :
    (extents a).prod ≤ (bufferLength a).toNat := by
  rw [toNat_bufferLength]
  rcases prod_extents_eq_zero_or a with hnone | hall
  · exact hnone ▸ Nat.zero_le _
  · exact hall.le

def allocation (a : Attribute) (length : ℕ) : String :=
  s!"attr_{a.name}_read = new {typeName a.dataType}[{length}];"

/-- The statement that hands the buffer of an attribute over, with these extents. -/
def handOver (a : Attribute) (extents : List ℕ) : String :=
  "attr.set_value(" ++ ", ".intercalate
    (s!"attr_{a.name}_read" :: extents.map toString) ++ ");"

theorem setValue_eq (a : Attribute) : setValue a = handOver a (extents a) := by
  apply String.toList_injective
  delta setValue handOver extents
  cases a.format with
  | scalar => simp [toString]
  | spectrum => simp [toString]
  | image => simp [toString]

/-- When the properties are read, `init_device` takes memory for these attributes, for
so many values each, and ends. -/
def Allocates (s : Skeleton) (unit : String) (buffers : List (Attribute × ℕ)) : Prop :=
  PartOf (indented (line "get_device_property();" ++
    lines (buffers.map fun b => allocation b.1 b.2)) ++ line "\x7d") unit s

/-- The zone in which an attribute is read hands its buffer over with these extents,
unless it holds other code. -/
def HandsOver (s : Skeleton) (unit : String) (a : Attribute) (extents : List ℕ) :
    Prop :=
  PartOf [.zone 1 (.ofMember .attribute a.name .read)
    ("//\tSet the attribute value\n" ++ handOver a extents)] unit s

section Implementation

variable {c : SourceContext} {a : Attribute}

theorem mem_method {piece : Piece} {body : Layout} (h : piece ∈ body)
    (signature : String) :
    indentPiece piece ∈ method signature body := by
  have hbody : indentPiece piece ∈ indented body := List.mem_map_of_mem h
  simp only [method, braced, List.mem_append, hbody, true_or, or_true]

/-- The end of a body stands right before the brace that closes its method. -/
theorem closing_infix_method {part body : Layout} (h : part <:+ body)
    (signature : String) :
    indented part ++ line "\x7d" <:+: method signature body := by
  obtain ⟨front, rfl⟩ := h
  refine ⟨line signature ++ (line "\x7b" ++ indented front), blank, ?_⟩
  simp [method, braced, indented]

theorem allocations_infix_initDevice (c : SourceContext) :
    indented (line "get_device_property();" ++
      lines ((buffers c).map fun b => allocation b.1 b.2)) ++ line "\x7d" <:+:
        initDevice c := by
  rw [buffers, List.map_map]
  apply (closing_infix_method ?_ _).trans (List.suffix_append _ _).isInfix
  exact ⟨_, (List.append_assoc _ _ _).symm⟩

theorem initDevice_infix_implementationLayout (c : SourceContext) (file : String) :
    initDevice c <:+: implementationLayout c file :=
  infix_stacked (by simp only [List.mem_cons, true_or, or_true])

theorem allocates_implementation (c : SourceContext) (file : String) :
    Allocates (c.file file .block (implementationLayout c file)) c.settings.indentUnit
      (buffers c) := by
  apply partOf_toSkeleton
  exact (allocations_infix_initDevice c).trans
    (initDevice_infix_implementationLayout c file)

theorem handOver_mem_attributeMethods (h : a.access.isReadable = true) :
    Piece.zone 1 (.ofMember .attribute a.name .read)
      ("//\tSet the attribute value\n" ++ handOver a (extents a)) ∈
        attributeMethods c a := by
  rw [attributeMethods, if_pos h, ← setValue_eq]
  apply List.mem_append_left
  exact List.mem_append_right _
    (mem_method (List.mem_append_right _ (List.mem_singleton_self _)) _)

theorem handsOver_implementation (ha : a ∈ readable c) (file : String) :
    HandsOver (c.file file .block (implementationLayout c file)) c.settings.indentUnit a
      (extents a) := by
  obtain ⟨hlocal, hreadable⟩ := List.mem_filter.mp ha
  have hmethods := mem_forEach hlocal (handOver_mem_attributeMethods (c := c) hreadable)
  exact partOf_of_mem
    (mem_stacked (by simp only [List.mem_cons, true_or, or_true]) hmethods) _ _ _

end Implementation

end Cpp

/-- In an interface that any language accepts, the check and the allocation count the
places of an attribute without overflow, so they agree.  There is at least one place and
there are at most as many as a signed 32-bit number can say, and no fewer than the
values that are handed over.  The C++ implementation takes that much memory for each
attribute it reads, and hands it over with those extents. -/
theorem buffers_hold_extents {i : Interface} {language : Language}
    (haccepted : i.unsupported? language = none) (body : ClassBody)
    (settings : Settings) :
    (∀ r ∈ i.attributes.values, let a := r.member
      a.elementCount.toNat = a.places ∧ (Cpp.bufferLength a).toNat = a.places ∧
      Cpp.bufferLength a = a.elementCount ∧
      1 ≤ (Cpp.bufferLength a).toNat ∧ (Cpp.bufferLength a).toNat ≤ 2147483647 ∧
      (Cpp.extents a).prod ≤ (Cpp.bufferLength a).toNat) ∧
    let c : SourceContext := ⟨i, body, settings⟩
    ∃ files, emit .cpp c = .ok files ∧ ∃ s ∈ files, s.file = i.name ++ ".cpp" ∧
      Cpp.Allocates s settings.indentUnit (Cpp.buffers c) ∧
      ∀ a ∈ Cpp.readable c, Cpp.HandsOver s settings.indentUnit a (Cpp.extents a) := by
  obtain ⟨hattributes, -⟩ := Interface.unsupported?_eq_none_iff.mp haccepted
  constructor
  · intro r hr a
    obtain ⟨-, hexpressible⟩ := Attribute.obstacle?_eq_none_iff.mp (hattributes r hr)
    have hlength := Cpp.toNat_bufferLength a
    refine ⟨a.toNat_elementCount, hlength, Cpp.bufferLength_eq_elementCount a, ?_, ?_,
      Cpp.prod_extents_le_bufferLength a⟩
    · exact hlength ▸ a.one_le_places
    · exact hlength ▸ hexpressible.places_le
  · intro c
    have hemit : emit .cpp c = .ok (Cpp.skeletons c) := by
      rw [emit_eq, Interface.unsupported?_cpp_eq_none haccepted]
      rfl
    refine ⟨_, hemit, _, List.mem_cons_of_mem _ List.mem_cons_self, rfl, ?_,
      fun a ha => ?_⟩
    · exact Cpp.allocates_implementation c _
    · exact Cpp.handsOver_implementation ha _

def wideFrame : Attribute :=
  { name := "Frame", dataType := .ushort, format := .image, maxX := 46340,
    maxY := 46341 }

def emptyLine : Attribute :=
  { name := "Line", format := .spectrum, maxX := 0 }

def frameCamera : DeviceClass :=
  { name := "Camera", language := .cpp, attributes := [wideFrame, emptyLine] }

theorem buffers_hold_extents_frameCamera :
    ∃ iface issues, frameCamera.resolve = .ok (iface, issues) ∧
      iface.unsupported? .cpp = none ∧
      ∃ files, emit .cpp ⟨iface, frameCamera.toClassBody, {}⟩ = .ok files ∧ ∃ s ∈ files,
        s.file = "Camera.cpp" ∧
        Cpp.Allocates s "    " [(wideFrame, 2147441940), (emptyLine, 1)] ∧
        Cpp.HandsOver s "    " wideFrame [46340, 46341] ∧
        Cpp.HandsOver s "    " emptyLine [0] := by
  obtain ⟨iface, issues, hresolve, hname, haccepted, hreadable⟩ :
      ∃ iface issues, frameCamera.resolve = .ok (iface, issues) ∧
        iface.name = "Camera" ∧
        iface.unsupported? .cpp = none ∧
        Cpp.readable ⟨iface, frameCamera.toClassBody, {}⟩ = [wideFrame, emptyLine] :=
    ⟨_, _, rfl, rfl, rfl, rfl⟩
  obtain ⟨-, files, hemit, s, hs, hfile, hallocates, hhands⟩ :=
    buffers_hold_extents haccepted frameCamera.toClassBody {}
  rw [Cpp.buffers, hreadable] at hallocates
  rw [hreadable] at hhands
  refine ⟨iface, issues, hresolve, haccepted, files, hemit, s, hs, ?_,
    hallocates, ?_, ?_⟩
  · rw [hfile, hname]
    rfl
  · exact hhands wideFrame List.mem_cons_self
  · exact hhands emptyLine (List.mem_cons_of_mem _ List.mem_cons_self)

end DeviceForge
