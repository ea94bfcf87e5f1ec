import DeviceForge.Proofs.Fragments
import DeviceForge.Proofs.Legacy.Upgrade

/-!
# Recovered bodies as zones of a file

A recovered id comes from one line of a source, so it fits into a marker line,
and a recovered body is stored with its last line ended.  What a body holds is
not looked at, though.  A legacy source may hold markers of the style that the
bodies are written out in, and a body with one of these is not read back.
-/

namespace DeviceForge

namespace Legacy

variable {body : ClassBody}

theorem markable_recoverBodies (sources : OrderedMap String String) :
    (recoverBodies sources body).value.Markable := by
  refine recoverBodies_induction (p := Fragments.Markable) sources
    Fragments.markable_empty ?_
  intro fragments hfragments source _ found hfound _ text
  have hne : found.id.text ≠ "" := fun hempty =>
    Extraction.text_ne_nil_of_isFillable (isFillable_of_mem_extractMethods hfound)
      (String.toList_eq_nil_iff.mpr hempty)
  exact hfragments.store hne (newline_notMem_of_mem_extractMethods hfound) text

variable {desc : LegacyDescription} {settings : Settings} {conv : Conversion}

theorem markable_of_upgrade (h : upgrade desc settings = .ok conv) :
    conv.fragments.Markable := by
  obtain ⟨name, -, hconv, -⟩ := exists_convert_of_upgrade h
  rw [value_convert] at hconv
  rw [(Prod.mk.inj hconv).2]
  split
  · exact Fragments.markable_empty
  · exact markable_recoverBodies _

/-- What an upgrade recovers is read back from its marker form, without damage, with the
same ids in the same order and the same bodies, exactly when no recovered body holds a
marker of the style. -/
theorem recoverZones_priorText_upgrade_iff (h : upgrade desc settings = .ok conv)
    (style : MarkerStyle) :
    ((recoverZones style (conv.fragments.priorText style)).damage = [] ∧
      (recoverZones style (conv.fragments.priorText style)).zones.entries =
        conv.fragments.entries) ↔
      ∀ e ∈ conv.fragments.entries, style.Plain e.2.toList :=
  (markable_of_upgrade h).recoverZones_priorText_iff

def regionBody : String :=
  MarkerStyle.block.beginMarker ⟨"go"⟩ ++ "\nrun();\n" ++
    MarkerStyle.block.endMarker ⟨"go"⟩ ++ "\n"

/-- A class whose command has that body in its legacy source. -/
def regionMotor : LegacyDescription where
  record := [
    ("class_name", .text "Motor"),
    ("commands", .list [.record [("name", .text "Go")]])]
  sources := .ofList [("Motor.cpp",
    "//+---- method: command:Go:execute-implementation\n\x7b\n" ++ regionBody ++
      "\x7d\n")]

theorem exists_upgrade_regionMotor : ∃ conv, upgrade regionMotor {} = .ok conv ∧
    conv.fragments.entries = [(.ofMember .command "Go" .execute, regionBody)] := by
  obtain ⟨conv, h⟩ : ∃ conv, upgrade regionMotor {} = .ok conv := ⟨_, rfl⟩
  refine ⟨conv, h, ?_⟩
  obtain rfl := Except.ok.inj h
  decide +kernel

/-- In the other style the body is a text like any other. -/
theorem recoverZones_priorText_upgrade_regionMotor :
    ∃ conv, upgrade regionMotor {} = .ok conv ∧
      (recoverZones .hash (conv.fragments.priorText .hash)).damage = [] ∧
      (recoverZones .hash (conv.fragments.priorText .hash)).zones.entries =
        [(.ofMember .command "Go" .execute, regionBody)] := by
  obtain ⟨conv, h, hentries⟩ := exists_upgrade_regionMotor
  have hplain : ∀ e ∈ conv.fragments.entries, MarkerStyle.hash.Plain e.2.toList := by
    simp only [hentries, List.forall_mem_singleton, regionBody, MarkerStyle.beginMarker,
      MarkerStyle.endMarker, String.toList_append]
    decide +kernel
  obtain ⟨hdamage, hzones⟩ := (recoverZones_priorText_upgrade_iff h .hash).mpr hplain
  exact ⟨conv, h, hdamage, hzones.trans hentries⟩

/-- In the style of its own markers the body is cut to pieces. -/
theorem not_forall_recoverZones_priorText_upgrade :
    ¬ ∀ desc settings conv style, upgrade desc settings = .ok conv →
      (recoverZones style (conv.fragments.priorText style)).damage = [] ∧
        (recoverZones style (conv.fragments.priorText style)).zones.entries =
          conv.fragments.entries := by
  intro hall
  obtain ⟨conv, h, hentries⟩ := exists_upgrade_regionMotor
  have hmarked : ¬ ∀ e ∈ conv.fragments.entries,
      MarkerStyle.block.Plain e.2.toList := by
    simp only [hentries, List.forall_mem_singleton, regionBody, MarkerStyle.beginMarker,
      MarkerStyle.endMarker, String.toList_append]
    decide +kernel
  exact hmarked ((markable_of_upgrade h).recoverZones_priorText_iff.mp
    (hall regionMotor {} conv .block h))

end Legacy

end DeviceForge
