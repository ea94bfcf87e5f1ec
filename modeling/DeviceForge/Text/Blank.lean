/-!
# Blank characters, trimming and words

A character is blank when Unicode gives it the White_Space property. Trimming removes
blanks from the ends of a text, and words are the maximal stretches without a blank. The
functions on lists of characters carry the definitions; those on strings only pass
through them.
-/

namespace DeviceForge.Text

/-- The characters that Unicode counts as white space. -/
def isBlank (c : Char) : Bool :=
  let n := c.toNat
  (9 ≤ n && n ≤ 13) || n == 0x20 || n == 0x85 || n == 0xA0 || n == 0x1680 ||
    (0x2000 ≤ n && n ≤ 0x200A) || n == 0x2028 || n == 0x2029 || n == 0x202F ||
    n == 0x205F || n == 0x3000

def dropLeading (cs : List Char) : List Char :=
  cs.dropWhile isBlank

def dropTrailing (cs : List Char) : List Char :=
  (cs.reverse.dropWhile isBlank).reverse

def trimChars (cs : List Char) : List Char :=
  dropTrailing (dropLeading cs)

def trim (s : String) : String :=
  String.ofList (trimChars s.toList)

def trimStart (s : String) : String :=
  String.ofList (dropLeading s.toList)

def trimEnd (s : String) : String :=
  String.ofList (dropTrailing s.toList)

def isBlankText (s : String) : Bool :=
  s.toList.all isBlank

@[simp]
theorem toList_trim (s : String) : (trim s).toList = trimChars s.toList := by
  simp [trim]

@[simp]
theorem toList_trimStart (s : String) :
    (trimStart s).toList = dropLeading s.toList := by
  simp [trimStart]

@[simp]
theorem toList_trimEnd (s : String) : (trimEnd s).toList = dropTrailing s.toList := by
  simp [trimEnd]

/-- The stretches between the characters that satisfy a test, empty ones included. -/
def splitWhere (p : Char → Bool) : List Char → List (List Char)
  | [] => [[]]
  | c :: cs =>
    if p c then [] :: splitWhere p cs
    else (splitWhere p cs).modifyHead (c :: ·)

def words (s : String) : List (List Char) :=
  (splitWhere isBlank s.toList).filter (!·.isEmpty)

end DeviceForge.Text
