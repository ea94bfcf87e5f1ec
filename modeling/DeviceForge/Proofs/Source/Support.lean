import DeviceForge.Source.Support
import Mathlib

/-!
# What a language can express

An attribute is expressed if its type, its labels and its format fit and if its
values are not too many.  Their number is a product of machine numbers, but one
that does not overflow, so the check is one on natural numbers.
-/

namespace DeviceForge

namespace Attribute

variable {a : Attribute} {language : Language}

/-- The number of values in the buffer, of which each dimension has at least one place.
-/
def places (a : Attribute) : ℕ :=
  match a.format with
  | .scalar => 1
  | .spectrum => max a.maxX.toNat 1
  | .image => max a.maxX.toNat 1 * max a.maxY.toNat 1

/-- The language can express the labels, the format and the dimensions of the attribute.
-/
structure Expressible (a : Attribute) (language : Language) : Prop where
  labelled : a.dataType = .enum → a.enumLabels ≠ []
  enumFormat : a.dataType = .enum → a.format = .scalar ∨ language = .cpp
  encodedFormat : a.dataType = .encoded → a.format = .scalar
  places_le : a.places ≤ 2147483647

theorem toNat_max_one (x : UInt32) : (max x 1).toNat = max x.toNat 1 := by
  have hle : x ≤ 1 ↔ x.toNat ≤ 1 := UInt32.le_iff_toNat_le
  change (if x ≤ 1 then (1 : UInt32) else x).toNat = max x.toNat 1
  split
  · next h =>
      rw [max_eq_right (hle.mp h)]
      rfl
  · next h => rw [max_eq_left (Nat.le_of_not_le (mt hle.mpr h))]

/-- The product of two 32-bit numbers fits 64 bits. -/
theorem toNat_toUInt64_mul (x y : UInt32) :
    (x.toUInt64 * y.toUInt64).toNat = x.toNat * y.toNat := by
  have hfits : x.toNat * y.toNat < 2 ^ 64 :=
    calc x.toNat * y.toNat
      _ < 2 ^ 32 * 2 ^ 32 := Nat.mul_lt_mul'' x.toNat_lt y.toNat_lt
      _ = 2 ^ 64 := by norm_num
  rw [UInt64.toNat_mul, UInt32.toNat_toUInt64, UInt32.toNat_toUInt64,
    Nat.mod_eq_of_lt hfits]

/-- The product of the dimensions does not overflow. -/
theorem toNat_elementCount (a : Attribute) : a.elementCount.toNat = a.places := by
  rw [elementCount, places]
  cases a.format with
  | scalar => rfl
  | spectrum => exact toNat_max_one _
  | image => rw [toNat_toUInt64_mul, toNat_max_one, toNat_max_one]

theorem one_le_places (a : Attribute) : 1 ≤ a.places := by
  rw [places]
  cases a.format with
  | scalar => exact le_rfl
  | spectrum => exact le_max_right _ _
  | image => exact Nat.mul_pos (lt_max_of_lt_right one_pos) (lt_max_of_lt_right one_pos)

/-- No language can express more than the one that also has arrays of enumerated values.
-/
theorem Expressible.cpp (h : a.Expressible language) : a.Expressible .cpp :=
  { h with enumFormat := fun _ => Or.inr rfl }

/-- Nothing is in the way exactly if the type is one of attributes and the language can
express the rest. -/
theorem obstacle?_eq_none_iff :
    a.obstacle? language = none ↔
      a.dataType.isAttributeType = true ∧ a.Expressible language := by
  have hlarge : a.elementCount > maxElements ↔ ¬ a.places ≤ 2147483647 := by
    rw [gt_iff_lt, UInt64.lt_iff_toNat_lt, toNat_elementCount, not_le]
    rfl
  simp only [obstacle?, ite_eq_iff, reduceCtorEq, and_false, false_or, and_true, hlarge,
    Bool.not_eq_true', Bool.not_eq_false, not_and, not_not, List.isEmpty_iff]
  constructor
  · rintro ⟨htype, hlabelled, henum, hencoded, hplaces⟩
    exact ⟨htype, hlabelled, fun h => or_iff_not_imp_left.mpr (henum h), hencoded,
      hplaces⟩
  · rintro ⟨htype, hlabelled, henum, hencoded, hplaces⟩
    exact ⟨htype, hlabelled, fun h => or_iff_not_imp_left.mp (henum h), hencoded,
      hplaces⟩

end Attribute

namespace Interface

variable {i : Interface} {language : Language}

theorem unsupported?_eq_none_iff :
    i.unsupported? language = none ↔
      (∀ r ∈ i.attributes.values, r.member.obstacle? language = none) ∧
        ∀ p ∈ i.properties, p.2.member.obstacle? = none := by
  simp [unsupported?, List.findSome?_eq_none_iff]

theorem unsupported?_cpp_eq_none (h : i.unsupported? language = none) :
    i.unsupported? .cpp = none := by
  rw [unsupported?_eq_none_iff] at h ⊢
  refine h.imp_left fun hattributes r hr => ?_
  have hfits := Attribute.obstacle?_eq_none_iff.mp (hattributes r hr)
  exact Attribute.obstacle?_eq_none_iff.mpr (hfits.imp_right Attribute.Expressible.cpp)

/-- Where all properties can be expressed, it is an attribute that cannot. -/
theorem exists_of_unsupported? {member : Unsupported}
    (hproperties : ∀ p ∈ i.properties, p.2.member.obstacle? = none)
    (h : i.unsupported? language = some member) :
    ∃ r ∈ i.attributes.values, ∃ obstacle, r.member.obstacle? language = some obstacle ∧
      member = ⟨language, ⟨.attribute, r.member.name⟩, obstacle⟩ := by
  rw [unsupported?] at h
  rcases Option.or_eq_some_iff.mp h with h | ⟨-, h⟩
  · obtain ⟨r, hr, hmember⟩ := List.exists_of_findSome?_eq_some h
    obtain ⟨obstacle, hobstacle, rfl⟩ := Option.map_eq_some_iff.mp hmember
    exact ⟨r, hr, obstacle, hobstacle, rfl⟩
  · obtain ⟨p, hp, hmember⟩ := List.exists_of_findSome?_eq_some h
    simp [hproperties p hp] at hmember

end Interface

end DeviceForge
