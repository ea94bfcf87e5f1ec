/-!
# Free text in sources

Text typed by a user may hold the characters that open or close a block comment. In a
comment they are broken up with a space, first every closing pair and then every opening
pair, so the comment ends only where its writer ends it.

The escapes of double-quoted literals are those that C++, Java and Python share: a
backslash, a quote, a line feed and a tab are written with a backslash. A carriage
return has no place in a literal and is left out.
-/

namespace DeviceForge.Text

/-- Puts a space between every occurrence of `a` directly followed by `b`, for different
`a`, `b`. -/
def separate (a b : Char) : List Char → List Char
  | [] => []
  | [c] => [c]
  | c :: d :: rest =>
    if c = a ∧ d = b then a :: ' ' :: separate a b (d :: rest)
    else c :: separate a b (d :: rest)

/-- Free text made safe inside a block comment. -/
def escapeComment (s : String) : String :=
  String.ofList (separate '/' '*' (separate '*' '/' s.toList))

/-- One character of a literal as it is written. -/
def literalChar (c : Char) : List Char :=
  if c = '\\' then ['\\', '\\']
  else if c = '"' then ['\\', '"']
  else if c = '\n' then ['\\', 'n']
  else if c = '\t' then ['\\', 't']
  else if c = '\r' then []
  else [c]

def literal (s : String) : String :=
  String.ofList ('"' :: s.toList.flatMap literalChar ++ ['"'])

def commaList (texts : List String) : String :=
  ", ".intercalate texts

/-- Literals one after another, with commas between them. -/
def literals (texts : List String) : String :=
  commaList (texts.map literal)

/-- A Python docstring ends at three double quotes, so every such run is written with
single quotes. -/
def escapeDocstring : List Char → List Char
  | '"' :: '"' :: '"' :: rest => '\'' :: '\'' :: '\'' :: escapeDocstring rest
  | c :: rest => c :: escapeDocstring rest
  | [] => []

def docstringText (s : String) : String :=
  String.ofList (escapeDocstring s.toList)

end DeviceForge.Text
