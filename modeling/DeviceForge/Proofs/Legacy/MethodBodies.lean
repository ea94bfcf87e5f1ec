import DeviceForge.Proofs.Legacy.Extraction

/-!
# Where recovered bodies stand

Each header of a source belongs to one of the methods that are found, and the
body of that method is looked for in all lines below the header.  The search for
the end of a body counts braces line by line.  It keeps the line on which the
last brace is closed unless that brace stands in front, and it does not stop at
the next header.  So a recovered body may hold the brace that closes it, or
lines of other methods.  The main statements say exactly when it does not.
-/

namespace DeviceForge

open Text

namespace Extraction

def isFillableHeader (line : List Char) : Bool :=
  match header? line with
  | none => false
  | some (_, raw) => isFillable ⟨String.ofList raw⟩

section Headers

variable {line : List Char} {shape : BodyShape} {id : ZoneId}

theorem isFillableHeader_iff : isFillableHeader line = true ↔
    ∃ shape id, header? line = some (shape, id.text.toList) ∧ isFillable id = true := by
  constructor
  · intro h
    rw [isFillableHeader] at h
    split at h
    · exact absurd h (by simp)
    · next shape raw hheader =>
        exact ⟨shape, ⟨String.ofList raw⟩, by simpa using hheader, h⟩
  · rintro ⟨shape, id, hheader, hid⟩
    rw [isFillableHeader, hheader]
    simpa using hid

theorem methodsIn_of_header (hheader : header? line = some (shape, id.text.toList))
    (hid : isFillable id = true) (rest : List (List Char)) :
    methodsIn (line :: rest) = ⟨id, body? shape rest⟩ :: methodsIn rest := by
  simp only [methodsIn, hheader, String.ofList_toList, hid, if_true]

theorem methodsIn_of_not_fillable (h : ¬ isFillableHeader line = true)
    (rest : List (List Char)) : methodsIn (line :: rest) = methodsIn rest := by
  rw [methodsIn]
  split
  · rfl
  · next shape raw hheader =>
      refine if_neg fun hid => h (isFillableHeader_iff.mpr ⟨shape, _, ?_, hid⟩)
      simpa using hheader

/-- The methods of a source are those of its headers, in their order. -/
theorem getElem?_methodsIn {lines : List (List Char)} {i : ℕ}
    (hline : lines[i]? = some line)
    (hheader : header? line = some (shape, id.text.toList))
    (hid : isFillable id = true) :
    (methodsIn lines)[(lines.take i).countP isFillableHeader]? =
      some ⟨id, body? shape (lines.drop (i + 1))⟩ := by
  induction lines generalizing i with
  | nil => exact absurd hline (by simp)
  | cons first rest ih =>
      cases i with
      | zero =>
          obtain rfl : first = line := by simpa using hline
          rw [methodsIn_of_header hheader hid]
          rfl
      | succ i =>
          have hrest := ih (by simpa using hline)
          rw [List.take_succ_cons, List.drop_succ_cons]
          by_cases hfirst : isFillableHeader first = true
          · obtain ⟨_, _, hother, hfillable⟩ := isFillableHeader_iff.mp hfirst
            rwa [methodsIn_of_header hother hfillable, List.countP_cons_of_pos hfirst,
              List.getElem?_cons_succ]
          · rwa [methodsIn_of_not_fillable hfirst, List.countP_cons_of_neg hfirst]

end Headers

/-- The lines of a body, each of which is ended. -/
def bodyLines (body : String) : List (List Char) :=
  (splitLines body.toList).map List.dropLast

theorem bodyLines_bodyText {lines : List (List Char)}
    (h : ∀ line ∈ lines, '\n' ∉ line) :
    bodyLines (bodyText lines) = lines := by
  rw [bodyLines, splitLines_bodyText h, List.map_map]
  simp [Function.comp_def]

/-- The body below a header as lines, blank or not. -/
def lineBody? : BodyShape → List (List Char) → Option (List (List Char))
  | .braced => bracedBody?
  | .indented => indentedBody?

theorem body?_eq_some_iff {shape : BodyShape} {lines : List (List Char)}
    {text : String} :
    body? shape lines = some text ↔
      (∃ body, lineBody? shape lines = some body ∧ text = bodyText body) ∧
        isBlankText text = false := by
  cases shape <;>
    simp only [body?, lineBody?, Option.filter_eq_some_iff, Option.map_eq_some_iff,
      Bool.not_eq_true', eq_comm (a := text)]

/-! ## Braces -/

/-- The lines below a header for braces: those of the signature, the one with the first
brace, those up to the one on which the last open brace is closed, that one, and the
others. -/
structure BracedMethod where
  signature : List (List Char)
  opening : List Char
  inner : List (List Char)
  closing : List Char
  rest : List (List Char)

namespace BracedMethod

def lines (m : BracedMethod) : List (List Char) :=
  m.signature ++ m.opening :: (m.inner ++ m.closing :: m.rest)

/-- The lines of the body.  The closing line is one of them unless its brace comes
first. -/
def body (m : BracedMethod) : List (List Char) :=
  if StartsClosing m.closing then m.inner else m.inner ++ [m.closing]

def beyond (m : BracedMethod) : List (List Char) :=
  if StartsClosing m.closing then m.closing :: m.rest else m.rest

/-- What stands on the opening line behind its first brace. -/
def opened (m : BracedMethod) : List Char :=
  (m.opening.dropWhile (· ≠ '\x7b')).tail

/-- If the lines between them are balanced, the first brace of the opening line stays
open down to the closing line, and is closed there or further down. -/
structure ClosedBelow (m : BracedMethod) : Prop where
  stays : ∀ front, front <+: m.opened ++ '\n' :: (bodyText m.inner).toList →
    0 ≤ balance front
  closed : ∃ last, last <+: (bodyText (m.closing :: m.rest)).toList ∧
    balance m.opened + balance last < 0

/-- The first brace stands on the opening line, and braces are open from there down to
the closing line, on which none is left. -/
structure Closes (m : BracedMethod) : Prop where
  signature : ∀ line ∈ m.signature, isHeader line = false ∧ '\x7b' ∉ line
  header : isHeader m.opening = false
  brace : '\x7b' ∈ m.opening
  inner : ∀ front, front <+: m.inner → 0 < balance m.opening + totalBalance front
  closing : balance m.opening + totalBalance (m.inner ++ [m.closing]) ≤ 0

variable {m : BracedMethod}

theorem Closes.pos (h : m.Closes) : 0 < balance m.opening := by
  simpa using h.inner [] List.nil_prefix

theorem Closes.bracedBody?_eq (h : m.Closes) : bracedBody? m.lines = some m.body := by
  have hpos := h.pos
  rw [bracedBody?, lines, fromBrace?_append h.signature h.header h.brace]
  simp only [if_neg (not_le.mpr hpos)]
  exact untilClosed?_append h.inner h.closing m.rest

/-- Lines in which a body is found have the parts of a method. -/
theorem exists_closes_of_bracedBody? {lines body : List (List Char)}
    (h : bracedBody? lines = some body) (hne : body ≠ []) :
    ∃ m : BracedMethod, m.Closes ∧ lines = m.lines ∧ body = m.body := by
  cases hbrace : fromBrace? lines with
  | none => exact absurd h (by simp [bracedBody?, hbrace])
  | some found =>
      obtain ⟨signature, opening, rest, hlines, rfl, hsignature, hheader, hopening⟩ :=
        exists_of_fromBrace? hbrace
      simp only [bracedBody?, hbrace] at h
      split at h
      · exact absurd (Option.some.inj h).symm hne
      · next hpos =>
          obtain ⟨inner, closing, others, rfl, hinner, hclosing⟩ :=
            exists_of_untilClosed? (not_le.mp hpos) h
          let m : BracedMethod := ⟨signature, opening, inner, closing, others⟩
          have hcloses : m.Closes := ⟨hsignature, hheader, hopening, hinner, hclosing⟩
          refine ⟨m, hcloses, hlines, Option.some.inj ?_⟩
          exact h.symm.trans (untilClosed?_append hinner hclosing others)

/-- A body that ends with the closing line closes more braces than it opens. -/
theorem Closes.startsClosing_of_balanced (h : m.Closes) (hbody : Balanced m.body) :
    StartsClosing m.closing := by
  by_contra hstarts
  have htotal := hbody.total
  have hpos := h.pos
  have hclosing := h.closing
  rw [body, if_neg hstarts] at htotal
  omega

end BracedMethod

/-- Characters that close as many braces as they open, and never more than are open. -/
structure BalancedText (cs : List Char) : Prop where
  nonneg : ∀ front, front <+: cs → 0 ≤ balance front
  total : balance cs = 0

theorem balance_append (front back : List Char) :
    balance (front ++ back) = balance front + balance back := by
  simp only [balance, List.count_append]
  omega

theorem balance_cons (c : Char) (cs : List Char) :
    balance (c :: cs) = balance [c] + balance cs :=
  balance_append [c] cs

theorem balance_eq_zero {cs : List Char} (hopening : '\x7b' ∉ cs)
    (hclosing : '\x7d' ∉ cs) :
    balance cs = 0 := by
  simp [balance, List.count_eq_zero.mpr hopening, List.count_eq_zero.mpr hclosing]

/-- Line feeds do not count, so the balance of a text is that of its lines. -/
theorem balance_bodyText (lines : List (List Char)) :
    balance (bodyText lines).toList = totalBalance lines := by
  rw [bodyText, String.toList_ofList]
  induction lines with
  | nil => rfl
  | cons line rest ih =>
      have hnewline : balance ['\n'] = 0 := rfl
      rw [List.flatMap_cons, balance_append, balance_append, hnewline, ih,
        totalBalance_cons]
      omega

/-- A brace changes the balance by one, so a text that closes more braces than are open
has one that closes the last of them. -/
theorem exists_closing_brace {depth : Int} (hdepth : 0 ≤ depth) {text : List Char}
    (h : ∃ last, last <+: text ∧ depth + balance last < 0) :
    ∃ last tail, text = last ++ '\x7d' :: tail ∧
      (∀ front, front <+: last → 0 ≤ depth + balance front) ∧
      depth + balance last = 0 := by
  induction text generalizing depth with
  | nil =>
      obtain ⟨last, hlast, hneg⟩ := h
      rw [List.prefix_nil.mp hlast] at hneg
      exact absurd hneg (not_lt.mpr (by simpa [balance] using hdepth))
  | cons c rest ih =>
      by_cases hstep : 0 ≤ depth + balance [c]
      · obtain ⟨last, hlast, hneg⟩ := h
        rcases List.prefix_cons_iff.mp hlast with rfl | ⟨later, rfl, hlater⟩
        · exact absurd hneg (not_lt.mpr (by simpa [balance] using hdepth))
        · rw [balance_cons] at hneg
          obtain ⟨last, tail, rfl, hopen, hzero⟩ := ih hstep ⟨later, hlater, by omega⟩
          refine ⟨c :: last, tail, rfl, fun front hfront => ?_,
            by rw [balance_cons]; omega⟩
          rcases List.prefix_cons_iff.mp hfront with rfl | ⟨others, rfl, hothers⟩
          · simpa [balance] using hdepth
          · rw [balance_cons]
            have := hopen others hothers
            omega
      · have hbrace : c = '\x7d' ∧ depth = 0 := by
          by_cases hc : c = '\x7d'
          · subst c
            have : balance ['\x7d'] = -1 := rfl
            exact ⟨rfl, by omega⟩
          · have : 0 ≤ balance [c] := by
              simp [balance, hc]
            omega
        obtain ⟨rfl, rfl⟩ := hbrace
        refine ⟨[], rest, rfl, fun front hfront => ?_, rfl⟩
        rw [List.prefix_nil.mp hfront]
        exact le_rfl

/-- A text is closed by a brace further down exactly if it never closes more braces than
are open, and the text below does. -/
theorem exists_balancedText_iff {text foot : List Char} :
    (∃ last tail, foot = last ++ '\x7d' :: tail ∧ BalancedText (text ++ last)) ↔
      (∀ front, front <+: text → 0 ≤ balance front) ∧
        ∃ last, last <+: foot ∧ balance text + balance last < 0 := by
  constructor
  · rintro ⟨last, tail, rfl, hbalanced⟩
    refine ⟨fun front hfront =>
      hbalanced.nonneg front (hfront.trans (List.prefix_append _ _)),
      last ++ ['\x7d'], ⟨tail, by simp⟩, ?_⟩
    have htotal := hbalanced.total
    have hbrace : balance ['\x7d'] = -1 := rfl
    rw [balance_append] at htotal ⊢
    omega
  · rintro ⟨hopen, hclosed⟩
    obtain ⟨last, tail, rfl, hlast, hzero⟩ :=
      exists_closing_brace (hopen text List.prefix_rfl) hclosed
    refine ⟨last, tail, rfl, fun front hfront => ?_, by rw [balance_append, hzero]⟩
    rcases List.prefix_or_prefix_of_prefix hfront (List.prefix_append text last) with
      hwithin | ⟨others, rfl⟩
    · exact hopen front hwithin
    · rw [balance_append]
      exact hlast others ((List.prefix_append_right_inj text).mp hfront)

/-- Between a head and a foot, the body stands strictly between the first opening brace
of the head and the brace that closes it. -/
def Enclosed (head body foot : String) : Prop :=
  ∃ lead first last tail, head.toList = lead ++ '\x7b' :: first ∧ '\x7b' ∉ lead ∧
    foot.toList = last ++ '\x7d' :: tail ∧ BalancedText (first ++ body.toList ++ last)

/-- The first brace splits a text in one way only. -/
theorem tail_dropWhile_append {lead : List Char} (h : '\x7b' ∉ lead)
    (first : List Char) :
    ((lead ++ '\x7b' :: first).dropWhile (· ≠ '\x7b')).tail = first := by
  have hlead : ∀ c ∈ lead, decide (c ≠ '\x7b') = true := fun c hc =>
    decide_eq_true fun heq => h (heq ▸ hc)
  rw [List.dropWhile_append_of_pos hlead, List.dropWhile_cons_of_neg (by simp),
    List.tail_cons]

namespace BracedMethod

variable {m : BracedMethod}

/-- The first brace splits the opening line. -/
theorem Closes.exists_opening (h : m.Closes) :
    ∃ lead, m.opening = lead ++ '\x7b' :: m.opened ∧ '\x7b' ∉ lead := by
  obtain ⟨lead, first, hopening, hlead⟩ := List.eq_append_cons_of_mem h.brace
  refine ⟨lead, ?_, hlead⟩
  rw [opened, hopening, tail_dropWhile_append hlead]

/-- The first brace above a body is that of the opening line. -/
theorem Closes.enclosed_iff (h : m.Closes) {body foot : String} :
    Enclosed (bodyText (m.signature ++ [m.opening])) body foot ↔
      ∃ last tail, foot.toList = last ++ '\x7d' :: tail ∧
        BalancedText (m.opened ++ '\n' :: body.toList ++ last) := by
  obtain ⟨before, hopening, hbefore⟩ := h.exists_opening
  let lead := (bodyText m.signature).toList ++ before
  have hlead : '\x7b' ∉ lead := by
    intro hmem
    rcases List.mem_append.mp hmem with hmem | hmem
    · rw [bodyText, String.toList_ofList, List.mem_flatMap] at hmem
      obtain ⟨line, hline, hmem⟩ := hmem
      exact (h.signature line hline).2 (by simpa using hmem)
    · exact hbefore hmem
  have hhead : (bodyText (m.signature ++ [m.opening])).toList =
      lead ++ '\x7b' :: (m.opened ++ ['\n']) := by
    simp [lead, bodyText, hopening]
  constructor
  · rintro ⟨other, first, last, tail, hsplit, hother, hfoot, hbalanced⟩
    have hfirst : first = m.opened ++ ['\n'] := by
      rw [← tail_dropWhile_append hother first, ← hsplit, hhead,
        tail_dropWhile_append hlead]
    exact ⟨last, tail, hfoot, by simpa [hfirst] using hbalanced⟩
  · rintro ⟨last, tail, hfoot, hbalanced⟩
    exact ⟨lead, m.opened ++ ['\n'], last, tail, hhead, hlead,
      hfoot, by simpa using hbalanced⟩

/-- Balanced lines leave the first brace open as far as what stands behind it does. -/
theorem Closes.enclosed_iff_closedBelow (h : m.Closes) (hinner : Balanced m.inner) :
    Enclosed (bodyText (m.signature ++ [m.opening])) (bodyText m.inner)
      (bodyText (m.closing :: m.rest)) ↔ m.ClosedBelow := by
  have hbalance : balance (m.opened ++ '\n' :: (bodyText m.inner).toList) =
      balance m.opened := by
    have hnewline : balance ['\n'] = 0 := rfl
    rw [balance_append, balance_cons, hnewline, balance_bodyText, hinner.total]
    omega
  rw [h.enclosed_iff, exists_balancedText_iff, hbalance]
  exact ⟨fun ⟨stays, closed⟩ => ⟨stays, closed⟩,
    fun hbelow => ⟨hbelow.stays, hbelow.closed⟩⟩

/-- If the first brace is the only one on its line, then only the inner lines can close
it before the closing line does. -/
theorem Closes.closedBelow_iff (h : m.Closes) (hopening : balance m.opening = 1)
    (honly : '\x7d' ∉ m.opening) (hclosing : balance m.closing = -1) :
    m.ClosedBelow ↔
      ∀ front, front <+: (bodyText m.inner).toList → 0 ≤ balance front := by
  obtain ⟨lead, hsplit, hlead⟩ := h.exists_opening
  rw [hsplit] at hopening honly
  simp only [List.mem_append, List.mem_cons, not_or] at honly
  have hnewline : balance ['\n'] = 0 := rfl
  have hopened : '\x7b' ∉ m.opened := by
    have hbrace : balance ['\x7b'] = 1 := rfl
    rw [balance_append, balance_eq_zero hlead honly.1, balance_cons, hbrace, balance,
      List.count_eq_zero.mpr honly.2.2] at hopening
    rw [← List.count_eq_zero]
    omega
  have hfronts : ∀ front, front <+: m.opened → balance front = 0 := fun front hfront =>
    balance_eq_zero (fun hmem => hopened (hfront.subset hmem))
      fun hmem => honly.2.2 (hfront.subset hmem)
  constructor
  · intro hbelow front hfront
    have hstays := hbelow.stays (m.opened ++ '\n' :: front)
      ((List.prefix_append_right_inj _).mpr (List.cons_prefix_cons.mpr ⟨rfl, hfront⟩))
    rw [balance_append, balance_cons, hnewline, hfronts _ List.prefix_rfl] at hstays
    omega
  · intro hinner
    refine ⟨fun front hfront => ?_, m.closing, ?_, ?_⟩
    · rcases List.prefix_or_prefix_of_prefix hfront (List.prefix_append m.opened _) with
        hwithin | ⟨others, rfl⟩
      · exact (hfronts front hwithin).ge
      · rw [balance_append, hfronts _ List.prefix_rfl]
        have hothers := (List.prefix_append_right_inj m.opened).mp hfront
        rcases List.prefix_cons_iff.mp hothers with rfl | ⟨later, rfl, hlater⟩
        · exact le_rfl
        · rw [balance_cons, hnewline]
          have := hinner later hlater
          omega
    · simp [bodyText]
    · rw [hfronts _ List.prefix_rfl, hclosing]
      decide

end BracedMethod

/-- A text that is not blank has a line that is not. -/
theorem exists_not_allBlank {lines : List (List Char)}
    (h : isBlankText (bodyText lines) = false) :
    ∃ line ∈ lines, ¬ AllBlank line := by
  by_contra hnone
  have hall : ∀ line ∈ lines, AllBlank line := by simpa using hnone
  have hblank : isBlankText (bodyText lines) = true := by
    rw [isBlankText, bodyText, String.toList_ofList, List.all_eq_true]
    intro c hc
    obtain ⟨line, hline, hc⟩ := List.mem_flatMap.mp hc
    rcases List.mem_append.mp hc with hc | hc
    · exact hall line hline c hc
    · rw [List.mem_singleton.mp hc]
      rfl
  rw [hblank] at h
  exact absurd h (by simp)

/-- A header starts like a comment. -/
theorem head?_dropLeading_of_isHeader {line : List Char} (h : isHeader line = true) :
    (dropLeading line).head? = some '/' ∨ (dropLeading line).head? = some '#' := by
  have hlead : ∀ c lead rest, afterStart? (c :: lead) (trimChars line) = some rest →
      (dropLeading line).head? = some c := by
    intro c lead rest hrest
    have hprefix : c :: lead <+: dropLeading line :=
      List.IsPrefix.trans ⟨rest, (afterStart?_eq_some_iff.mp hrest).symm⟩
        (dropTrailing_isPrefix (dropLeading line))
    obtain ⟨others, hothers⟩ := hprefix
    rw [← hothers]
    rfl
  obtain ⟨found, hfound⟩ := Option.isSome_iff_exists.mp h
  simp only [header?] at hfound
  split at hfound
  · next rest hrest => exact Or.inl (hlead _ _ _ hrest)
  · obtain ⟨rest, hrest, -⟩ := Option.map_eq_some_iff.mp hfound
    exact Or.inr (hlead _ _ _ hrest)

theorem isHeader_of_startsClosing {line : List Char} (h : StartsClosing line) :
    isHeader line = false := by
  rw [← Bool.not_eq_true]
  intro hheader
  rw [StartsClosing] at h
  rcases head?_dropLeading_of_isHeader hheader with hhead | hhead <;>
    rw [hhead] at h <;>
    exact absurd h (by decide)

theorem isHeader_of_isBlankLine {line : List Char} (h : isBlankLine line = true) :
    isHeader line = false := by
  have hnil : dropLeading line = [] :=
    dropLeading_eq_nil_iff.mpr (List.all_eq_true.mp h)
  rw [← Bool.not_eq_true]
  intro hheader
  rcases head?_dropLeading_of_isHeader hheader with hhead | hhead <;>
    rw [hnil] at hhead <;>
    exact absurd hhead (by simp)

/-! ## Where the lines of a body come from -/

/-- A line as it is kept in a body. -/
def keptLine : BodyShape → List Char → List Char
  | .braced, line => line
  | .indented, line => if isBlankLine line then [] else line

/-- The lines of a body are neighbouring lines of the source. -/
def TakenFrom (shape : BodyShape) (lines body : List (List Char)) : Prop :=
  ∃ taken, taken <:+: lines ∧ body = taken.map (keptLine shape)

/-- A line of a body is a line of the source, but for blank lines, which are kept empty.
-/
theorem TakenFrom.mem_or {shape : BodyShape} {lines body : List (List Char)}
    (h : TakenFrom shape lines body) {line : List Char} (hline : line ∈ body) :
    line ∈ lines ∨ shape = .indented ∧ line = [] ∧
    ∃ blank ∈ lines, isBlankLine blank = true := by
  obtain ⟨taken, htaken, rfl⟩ := h
  obtain ⟨source, hsource, rfl⟩ := List.mem_map.mp hline
  have hmem := htaken.subset hsource
  cases shape with
  | braced => exact Or.inl hmem
  | indented =>
      rw [keptLine]
      split
      · next hblank => exact Or.inr ⟨rfl, rfl, source, hmem, hblank⟩
      · exact Or.inl hmem

theorem takenFrom_of_bracedBody? {lines body : List (List Char)}
    (h : bracedBody? lines = some body) : TakenFrom .braced lines body := by
  have hmap : body = body.map (keptLine .braced) := (List.map_id body).symm
  by_cases hne : body = []
  · exact ⟨[], List.nil_infix, by simpa using hne⟩
  · obtain ⟨m, -, rfl, rfl⟩ := BracedMethod.exists_closes_of_bracedBody? h hne
    refine ⟨m.body, ⟨m.signature ++ [m.opening], m.beyond, ?_⟩, hmap⟩
    simp only [BracedMethod.lines, BracedMethod.body, BracedMethod.beyond]
    split <;> simp

/-- Deeper lines are taken from the start, without a gap. -/
theorem exists_prefix_of_deeperThan (base : ℕ) (lines : List (List Char)) :
    ∃ taken, taken <+: lines ∧
      deeperThan base lines = taken.map (keptLine .indented) := by
  induction lines with
  | nil => exact ⟨[], List.nil_prefix, rfl⟩
  | cons line rest ih =>
      obtain ⟨taken, htaken, hrest⟩ := ih
      have hcons : line :: taken <+: line :: rest :=
        List.cons_prefix_cons.mpr ⟨rfl, htaken⟩
      rw [deeperThan]
      split
      · next hblank => exact ⟨line :: taken, hcons, by simp [keptLine, hblank, hrest]⟩
      · next hblank =>
          split
          · exact ⟨[], List.nil_prefix, rfl⟩
          · exact ⟨line :: taken, hcons, by simp [keptLine, hblank, hrest]⟩

theorem takenFrom_of_indentedBody? {lines body : List (List Char)}
    (h : indentedBody? lines = some body) : TakenFrom .indented lines body := by
  rw [indentedBody?] at h
  split at h
  · exact absurd h (by simp)
  · next first rest hlines =>
      obtain ⟨taken, htaken, hdeeper⟩ := exists_prefix_of_deeperThan (width first) rest
      have hrest : rest <:+: lines :=
        ((List.suffix_cons first rest).trans (hlines ▸ List.dropWhile_suffix _)).isInfix
      have hbody : body <+: deeperThan (width first) rest := by
        rw [← Option.some.inj h, ← List.reverse_suffix, List.reverse_reverse]
        exact List.dropWhile_suffix _
      rw [hdeeper, List.prefix_map_iff] at hbody
      obtain ⟨part, hpart, rfl⟩ := hbody
      exact ⟨part, (hpart.trans htaken).isInfix.trans hrest, rfl⟩

theorem takenFrom_of_lineBody? {shape : BodyShape} {lines body : List (List Char)}
    (h : lineBody? shape lines = some body) : TakenFrom shape lines body := by
  cases shape with
  | braced => exact takenFrom_of_bracedBody? h
  | indented => exact takenFrom_of_indentedBody? h

/-- If no line of a braced body is a header, none before its end is. -/
theorem bracedBody?_takeWhile {lines body : List (List Char)}
    (h : bracedBody? lines = some body) (hne : body ≠ [])
    (hbody : ∀ line ∈ body, isHeader line = false) :
    bracedBody? (lines.takeWhile (!isHeader ·)) = some body := by
  obtain ⟨m, hcloses, rfl, rfl⟩ := BracedMethod.exists_closes_of_bracedBody? h hne
  have hregion : ∀ line ∈ m.inner ++ [m.closing], isHeader line = false := by
    rw [BracedMethod.body] at hbody
    split at hbody
    · next hstarts =>
        refine List.forall_mem_append.mpr ⟨hbody, List.forall_mem_singleton.mpr ?_⟩
        exact isHeader_of_startsClosing hstarts
    · exact hbody
  let own : BracedMethod := { m with rest := m.rest.takeWhile (!isHeader ·) }
  have hown : own.Closes :=
    ⟨hcloses.signature, hcloses.header, hcloses.brace, hcloses.inner, hcloses.closing⟩
  have hlines : m.lines.takeWhile (!isHeader ·) = own.lines := by
    have hfront : ∀ line ∈ m.signature ++ m.opening :: (m.inner ++ [m.closing]),
        (!isHeader line) = true := by
      simp only [List.forall_mem_append, List.forall_mem_cons] at hregion ⊢
      simp only [Bool.not_eq_true', hcloses.header, true_and]
      exact ⟨fun line hline => (hcloses.signature line hline).1, hregion⟩
    have hsplit : ∀ rest, m.signature ++ m.opening :: (m.inner ++ m.closing :: rest) =
        (m.signature ++ m.opening :: (m.inner ++ [m.closing])) ++ rest := by simp
    rw [BracedMethod.lines, hsplit, List.takeWhile_append_of_pos hfront, ← hsplit]
    rfl
  rw [hlines]
  exact hown.bracedBody?_eq

/-- The search for deeper lines ends at the next header by itself. -/
theorem deeperThan_takeWhile (base : ℕ) (lines : List (List Char)) :
    deeperThan base (lines.takeWhile (!isHeader ·)) = deeperThan base lines := by
  induction lines with
  | nil => rfl
  | cons line rest ih =>
      by_cases hheader : isHeader line = true
      · have hblank : isBlankLine line = false := by
          rw [← Bool.not_eq_true]
          intro hblank
          rw [isHeader_of_isBlankLine hblank] at hheader
          exact absurd hheader (by simp)
        simp [deeperThan, hheader, hblank]
      · simp [deeperThan, hheader, ih]

/-- If a line above the next header is not blank, the first such line is not a header.
-/
theorem indentedBody?_takeWhile {lines : List (List Char)}
    (h : ∃ line ∈ lines.takeWhile (!isHeader ·), isBlankLine line = false) :
    indentedBody? (lines.takeWhile (!isHeader ·)) = indentedBody? lines := by
  induction lines with
  | nil => rfl
  | cons line rest ih =>
      obtain ⟨other, hother, hblank⟩ := h
      by_cases hheader : isHeader line = true
      · exact absurd hother (by simp [hheader])
      · rw [List.takeWhile_cons_of_pos (by simpa using hheader)] at hother ⊢
        by_cases hline : isBlankLine line = true
        · have hrest : other ∈ rest.takeWhile (!isHeader ·) := by
            rcases List.mem_cons.mp hother with rfl | hrest
            · rw [hline] at hblank
              exact absurd hblank (by simp)
            · exact hrest
          have hown := ih ⟨other, hrest, hblank⟩
          simpa only [indentedBody?, List.dropWhile_cons_of_pos hline] using hown
        · simp only [indentedBody?, List.dropWhile_cons_of_neg hline,
            deeperThan_takeWhile]

end Extraction

open Extraction

/-! ## Sources -/

def sourceLines (source : String) : List (List Char) :=
  (splitLines source.toList).map chomp

def linesBelow (source : String) (i : ℕ) : List (List Char) :=
  (sourceLines source).drop (i + 1)

/-- The lines below line `i`, down to the next header or to the end. -/
def ownLines (source : String) (i : ℕ) : List (List Char) :=
  (linesBelow source i).takeWhile (!isHeader ·)

/-- The method that is found for the header on line `i` of a source.  Among all methods
of the source it has the place that its line has among the headers of zones that may be
filled. -/
structure FoundAt (source : String) (i : ℕ) (shape : BodyShape) (found : FoundMethod) :
    Prop where
  header : ∃ line, (sourceLines source)[i]? = some line ∧
    header? line = some (shape, found.id.text.toList)
  fillable : isFillable found.id = true
  listed :
    (extractMethods source)[((sourceLines source).take i).countP isFillableHeader]? =
      some found

section Sources

variable {source : String} {i : ℕ} {shape : BodyShape} {found : FoundMethod}
    {text : String}

theorem newline_notMem_linesBelow : ∀ line ∈ linesBelow source i, '\n' ∉ line := by
  intro line hline
  obtain ⟨whole, hwhole, rfl⟩ := List.mem_map.mp (List.mem_of_mem_drop hline)
  exact newline_notMem_chomp hwhole

theorem FoundAt.body_eq (h : FoundAt source i shape found) :
    found.body = body? shape (linesBelow source i) := by
  obtain ⟨line, hline, hheader⟩ := h.header
  have hmethod := getElem?_methodsIn hline hheader h.fillable
  have heq : some found = some ⟨found.id, body? shape (linesBelow source i)⟩ :=
    h.listed.symm.trans hmethod
  exact congrArg FoundMethod.body (Option.some.inj heq)

/-- Every header of a zone that may be filled has its method. -/
theorem foundAt_of_header {line : List Char} {id : ZoneId}
    (hline : (sourceLines source)[i]? = some line)
    (hheader : header? line = some (shape, id.text.toList))
    (hid : isFillable id = true) :
    FoundAt source i shape ⟨id, body? shape (linesBelow source i)⟩ :=
  ⟨⟨line, hline, hheader⟩, hid, getElem?_methodsIn hline hheader hid⟩

/-- Every method of a source is found for one of its headers. -/
theorem exists_foundAt_of_mem (h : found ∈ extractMethods source) :
    ∃ i shape, FoundAt source i shape found := by
  obtain ⟨hid, i, line, shape, hline, hheader, hbody⟩ :=
    exists_header_of_mem_methodsIn h
  have hfound := foundAt_of_header hline hheader hid
  have heq : found = ⟨found.id, body? shape (linesBelow source i)⟩ :=
    congrArg (FoundMethod.mk found.id) hbody
  exact ⟨i, shape, heq ▸ hfound⟩

theorem sourceLines_bodyText {lines : List (List Char)}
    (h : ∀ line ∈ lines, '\n' ∉ line ∧ readLine line = line) :
    sourceLines (bodyText lines) = lines := by
  rw [sourceLines, map_chomp_splitLines_bodyText fun line hline => (h line hline).1]
  exact (List.map_congr_left fun line hline => (h line hline).2).trans lines.map_id

theorem foundAt_bodyText {lines : List (List Char)} {line : List Char}
    (hlines : ∀ line ∈ lines, '\n' ∉ line ∧ readLine line = line)
    (hline : lines[i]? = some line)
    (hheader : header? line = some (shape, found.id.text.toList))
    (hid : isFillable found.id = true)
    (hbody : body? shape (lines.drop (i + 1)) = found.body) :
    FoundAt (bodyText lines) i shape found := by
  have hsource := sourceLines_bodyText hlines
  rw [← hsource] at hline hbody
  have hfound := foundAt_of_header hline hheader hid
  rwa [linesBelow, hbody] at hfound

/-- The body that is found for a header, as lines. -/
theorem FoundAt.exists_body (h : FoundAt source i shape found)
    (hbody : found.body = some text) :
    ∃ body, lineBody? shape (linesBelow source i) = some body ∧ text = bodyText body ∧
      bodyLines text = body ∧ ∃ line ∈ body, ¬ AllBlank line := by
  rw [h.body_eq] at hbody
  obtain ⟨⟨body, hlines, rfl⟩, hblank⟩ := body?_eq_some_iff.mp hbody
  refine ⟨body, hlines, rfl, bodyLines_bodyText fun line hline => ?_,
    exists_not_allBlank hblank⟩
  rcases (takenFrom_of_lineBody? hlines).mem_or hline with hmem | ⟨-, rfl, -⟩
  · exact newline_notMem_linesBelow line hmem
  · exact List.not_mem_nil

end Sources

/-- Where the opening line leaves one brace open and the closing line closes one, the
lines between them are balanced. -/
theorem Extraction.BracedMethod.Closes.balanced_inner {m : BracedMethod} (h : m.Closes)
    (hopening : balance m.opening = 1) (hclosing : balance m.closing = -1) :
    Balanced m.inner := by
  have hinner : ∀ front, front <+: m.inner → 0 ≤ totalBalance front := by
    intro front hfront
    have := h.inner front hfront
    omega
  refine ⟨hinner, le_antisymm ?_ (hinner _ List.prefix_rfl)⟩
  have hall := h.closing
  simp only [totalBalance_append, totalBalance_cons, totalBalance_nil] at hall
  omega

section Main

variable {source : String} {i : ℕ} {shape : BodyShape} {found : FoundMethod}
    {text : String}

/-- A body that is recovered from braces is balanced, and stands between the first brace
and the one that closes it, exactly when the line on which the last brace is closed
starts with a closing brace, the lines between it and the opening line are balanced, and
the first brace stays open down to it and is closed below.  Where the opening line
leaves one brace open and the closing line closes one, the body is balanced whenever the
closing line starts with a closing brace.  If the opening line closes none either, the
body also stands between the two unless the lines in it close the first one. -/
theorem FoundAt.balanced_body_iff (h : FoundAt source i .braced found)
    (hbody : found.body = some text) :
    ∃ m : BracedMethod, m.Closes ∧ linesBelow source i = m.lines ∧
      text = bodyText m.body ∧
      (balance m.opening = 1 → balance m.closing = -1 →
        (Balanced (bodyLines text) ↔ StartsClosing m.closing) ∧
        ('\x7d' ∉ m.opening →
          (Balanced (bodyLines text) ∧
              Enclosed (bodyText (m.signature ++ [m.opening])) text
                (bodyText m.beyond) ↔
            StartsClosing m.closing ∧
              ∀ front, front <+: (bodyText m.inner).toList → 0 ≤ balance front))) ∧
      (Balanced (bodyLines text) ∧
          Enclosed (bodyText (m.signature ++ [m.opening])) text (bodyText m.beyond) ↔
        StartsClosing m.closing ∧ Balanced m.inner ∧ m.ClosedBelow) := by
  obtain ⟨body, hlines, rfl, hbodyLines, line, hline, -⟩ := h.exists_body hbody
  obtain ⟨m, hcloses, hbelow, rfl⟩ :=
    BracedMethod.exists_closes_of_bracedBody? hlines (List.ne_nil_of_mem hline)
  refine ⟨m, hcloses, hbelow, rfl, ?_⟩
  rw [hbodyLines]
  by_cases hstarts : StartsClosing m.closing
  · have hinner : m.body = m.inner := if_pos hstarts
    have hbeyond : m.beyond = m.closing :: m.rest := if_pos hstarts
    rw [hinner, hbeyond]
    refine ⟨fun hopening hclosing => ?_, ?_⟩
    · have hbalanced := hcloses.balanced_inner hopening hclosing
      refine ⟨iff_of_true hbalanced hstarts, fun honly => ?_⟩
      rw [hcloses.enclosed_iff_closedBelow hbalanced,
        hcloses.closedBelow_iff hopening honly hclosing]
      exact and_congr_left' (iff_of_true hbalanced hstarts)
    · rw [and_iff_right hstarts]
      exact and_congr_right hcloses.enclosed_iff_closedBelow
  · have hunbalanced : ¬ Balanced m.body := fun hbalanced =>
      hstarts (hcloses.startsClosing_of_balanced hbalanced)
    have hneither : ∀ {p q : Prop}, Balanced m.body ∧ p ↔ StartsClosing m.closing ∧ q :=
      iff_of_false (fun hgood => hunbalanced hgood.1) fun hgood => hstarts hgood.1
    exact ⟨fun _ _ => ⟨iff_of_false hunbalanced hstarts, fun _ => hneither⟩, hneither⟩

def nestedLines : List (List Char) :=
  ["//+---- method: command:Go:execute-implementation".toList,
    "void Motor::go() \x7b".toList, "  if (ready) \x7b".toList, "    run();".toList,
    "  \x7d else \x7b".toList, "    wait();".toList, "  \x7d".toList, "\x7d".toList,
    "//+---- method: command:Stop:execute-implementation".toList,
    "void Motor::stop() \x7b halt(); \x7d".toList]

def nestedSource : String :=
  bodyText nestedLines

def nestedMethod : FoundMethod :=
  ⟨.ofMember .command "Go" .execute, some (bodyText ((nestedLines.drop 2).take 5))⟩

theorem foundAt_nestedSource : FoundAt nestedSource 0 .braced nestedMethod := by
  rw [nestedSource]
  exact foundAt_bodyText (by decide +kernel) rfl (by decide +kernel) (by decide +kernel)
    (by decide +kernel)

theorem balanced_body_iff_nestedSource :
    FoundAt nestedSource 0 .braced nestedMethod ∧
    ∃ text, nestedMethod.body = some text ∧
      ∃ m : BracedMethod, m.Closes ∧ linesBelow nestedSource 0 = m.lines ∧
        text = bodyText m.body ∧
        (balance m.opening = 1 → balance m.closing = -1 →
          (Balanced (bodyLines text) ↔ StartsClosing m.closing) ∧
          ('\x7d' ∉ m.opening →
            (Balanced (bodyLines text) ∧
                Enclosed (bodyText (m.signature ++ [m.opening])) text
                  (bodyText m.beyond) ↔
              StartsClosing m.closing ∧
                ∀ front, front <+: (bodyText m.inner).toList → 0 ≤ balance front))) ∧
        (Balanced (bodyLines text) ∧
            Enclosed (bodyText (m.signature ++ [m.opening])) text (bodyText m.beyond) ↔
          StartsClosing m.closing ∧ Balanced m.inner ∧ m.ClosedBelow) :=
  ⟨foundAt_nestedSource, _, rfl, foundAt_nestedSource.balanced_body_iff rfl⟩

/-- The lines of a method whose last brace stands behind a comment. -/
def commentedLines : List (List Char) :=
  ["//+---- method: command:Go:execute-implementation".toList,
    "void Motor::go()".toList, "\x7b".toList, "  run();".toList,
    "/* done */ \x7d".toList]

/-- A closing brace that does not stand in front gets into the body. -/
theorem not_forall_balanced_body :
    ¬ ∀ source i found text, FoundAt source i .braced found → found.body = some text →
      Balanced (bodyLines text) := by
  intro hall
  let found : FoundMethod :=
    ⟨.ofMember .command "Go" .execute, some (bodyText (commentedLines.drop 3))⟩
  have hfound : FoundAt (bodyText commentedLines) 0 .braced found :=
    foundAt_bodyText (by decide +kernel) rfl (by decide +kernel) (by decide +kernel)
      (by decide +kernel)
  have hbalanced := hall _ _ _ _ hfound rfl
  rw [bodyLines_bodyText (by decide +kernel)] at hbalanced
  exact absurd hbalanced (by decide +kernel)

/-- The following are the same for a recovered body: each of its lines is one between
its header and the next, or is empty in place of a blank one there; its lines are
neighbours there; and the search finds it there. -/
theorem FoundAt.within_ownLines_tfae (h : FoundAt source i shape found)
    (hbody : found.body = some text) :
    [∀ line ∈ bodyLines text, line ∈ ownLines source i ∨ shape = .indented ∧ line = [] ∧
        ∃ blank ∈ ownLines source i, isBlankLine blank = true,
      TakenFrom shape (ownLines source i) (bodyLines text),
      body? shape (ownLines source i) = some text].TFAE := by
  obtain ⟨body, hlines, rfl, hbodyLines, filled, hfilled, hblank⟩ := h.exists_body hbody
  have htext : isBlankText (bodyText body) = false :=
    isBlankText_bodyText fun hall => hblank (hall filled hfilled)
  rw [hbodyLines]
  tfae_have 1 → 3 := by
    intro hown
    refine body?_eq_some_iff.mpr ⟨⟨body, ?_, rfl⟩, htext⟩
    cases shape with
    | braced =>
        refine bracedBody?_takeWhile hlines (List.ne_nil_of_mem hfilled)
          fun line hline => ?_
        have hmem := (hown line hline).resolve_right (by simp)
        simpa using List.mem_takeWhile_imp hmem
    | indented =>
        have hmem : filled ∈ ownLines source i := by
          refine (hown filled hfilled).resolve_right fun hempty => hblank ?_
          rw [hempty.2.1]
          exact fun c hc => absurd hc List.not_mem_nil
        have hsame : indentedBody? (ownLines source i) =
            indentedBody? (linesBelow source i) :=
          indentedBody?_takeWhile
            ⟨filled, hmem, by simpa [isBlankLine, AllBlank] using hblank⟩
        exact hsame.trans hlines
  tfae_have 3 → 2 := by
    intro hown
    obtain ⟨⟨other, hother, hsame⟩, -⟩ := body?_eq_some_iff.mp hown
    have htaken := takenFrom_of_lineBody? hother
    have hlinesOther : bodyLines (bodyText other) = other :=
      bodyLines_bodyText fun line hline => by
        rcases htaken.mem_or hline with hmem | ⟨-, rfl, -⟩
        · exact newline_notMem_linesBelow line (List.takeWhile_subset _ hmem)
        · exact List.not_mem_nil
    rwa [← hbodyLines, hsame, hlinesOther]
  tfae_have 2 → 1 := fun htaken line hline => htaken.mem_or hline
  tfae_finish

theorem within_ownLines_tfae_nestedSource :
    FoundAt nestedSource 0 .braced nestedMethod ∧
    ∃ text, nestedMethod.body = some text ∧
      ∀ line ∈ bodyLines text, line ∈ ownLines nestedSource 0 ∨
        BodyShape.braced = .indented ∧ line = [] ∧
          ∃ blank ∈ ownLines nestedSource 0, isBlankLine blank = true := by
  have hown : body? .braced (ownLines nestedSource 0) = nestedMethod.body := by
    rw [ownLines, linesBelow, nestedSource, sourceLines_bodyText (by decide +kernel)]
    decide +kernel
  exact ⟨foundAt_nestedSource, _, rfl,
    ((foundAt_nestedSource.within_ownLines_tfae rfl).out 0 2).mpr hown⟩

/-- Two headers in a row, and a function below the second. -/
def adjacentLines : List (List Char) :=
  ["#+---- method: command:Go:execute-implementation".toList,
    "#+---- method: command:Stop:execute-implementation".toList,
    "    def Stop(self):".toList, "        self.halt()".toList]

/-- A method without a body gets that of the next one. -/
theorem not_forall_within_ownLines :
    ¬ ∀ source i shape found text,
      FoundAt source i shape found → found.body = some text →
      ∀ line ∈ bodyLines text, line ∈ ownLines source i ∨
        shape = .indented ∧ line = [] ∧
        ∃ blank ∈ ownLines source i, isBlankLine blank = true := by
  intro hall
  let found : FoundMethod :=
    ⟨.ofMember .command "Go" .execute, some (bodyText (adjacentLines.drop 2))⟩
  have hlines : ∀ line ∈ adjacentLines, '\n' ∉ line ∧ readLine line = line := by
    decide +kernel
  have hfound : FoundAt (bodyText adjacentLines) 0 .indented found :=
    foundAt_bodyText hlines rfl (by decide +kernel) (by decide +kernel)
      (by decide +kernel)
  have hwithin := hall _ _ _ _ _ hfound rfl
  rw [bodyLines_bodyText (by decide +kernel), ownLines, linesBelow,
    sourceLines_bodyText hlines] at hwithin
  exact absurd hwithin (by decide +kernel)

end Main

end DeviceForge
