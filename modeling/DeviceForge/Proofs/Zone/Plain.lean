import DeviceForge.Proofs.Text.Comment
import DeviceForge.Proofs.Text.Lacks
import DeviceForge.Proofs.Zone.Marker

/-!
# Texts that hold no marker

A marker needs dashes, and in a language with block comments it opens one at
the beginning of its line.  So a text without dashes is plain, and so are a text
that opens no block comment and a line that starts with code.
-/

namespace DeviceForge

open Text

namespace MarkerStyle

/-- All markers hold dashes. -/
theorem mem_of_read? {style : MarkerStyle} {line : List Char} {marker : Marker}
    (hread : style.read? line = some marker) : '-' ∈ line := by
  have hmem : '-' ∈ trimChars line := by
    cases marker with
    | opens id =>
        rw [(read?_eq_some_opens_iff.mp hread).1, toList_beginMarker]
        simp [beginLead]
    | closes id =>
        rw [(read?_eq_some_closes_iff.mp hread).1, toList_endMarker]
        simp [endLead]
  exact (trimChars_isInfix line).subset hmem

/-- So text without dashes holds no markers. -/
theorem plain_of_lacks_dash {style : MarkerStyle} {s : String} (h : Lacks '-' s) :
    style.Plain s.toList := by
  intro line hline
  rw [Option.eq_none_iff_forall_ne_some]
  intro marker hread
  apply h
  rw [← flatten_splitLines s.toList]
  exact List.mem_flatten_of_mem hline (mem_of_read? hread)

/-- A marker in a block comment opens one. -/
theorem read?_eq_none_of_unopened {line : List Char} (h : Unopened line) :
    MarkerStyle.block.read? line = none := by
  rw [Option.eq_none_iff_forall_ne_some]
  intro marker hread
  obtain ⟨body, hbody⟩ := exists_body_of_read? hread
  have htrimmed : Unopened (trimChars line) :=
    List.IsChain.infix h (trimChars_isInfix line)
  rw [hbody] at htrimmed
  exact (List.isChain_cons_cons.mp htrimmed).1 ⟨rfl, rfl⟩

theorem plain_of_unopened {cs : List Char} (h : Unopened cs) :
    MarkerStyle.block.Plain cs := by
  intro line hline
  have hinfix : line <:+: cs := by
    have := List.infix_of_mem_flatten hline
    rwa [flatten_splitLines] at this
  have hopen : Unopened line := List.IsChain.infix h hinfix
  exact read?_eq_none_of_unopened hopen

/-- A line of code starts with its first character, not with a comment. -/
theorem plain_of_head {c : Char} {cs : List Char} (hblank : isBlank c = false)
    (hslash : c ≠ '/') (hline : '\n' ∉ c :: cs) :
    MarkerStyle.block.Plain (c :: cs) := by
  intro line hmem
  rw [splitLines_of_notMem hline (List.cons_ne_nil c cs), List.mem_singleton] at hmem
  subst hmem
  rw [Option.eq_none_iff_forall_ne_some]
  intro marker hread
  obtain ⟨body, hbody⟩ := exists_body_of_read? hread
  have hprefix := dropTrailing_isPrefix (c :: cs)
  rw [trimChars, dropLeading_cons_of_not_blank hblank] at hbody
  rw [hbody] at hprefix
  exact hslash (List.cons_prefix_cons.mp hprefix).1.symm

end MarkerStyle

end DeviceForge
