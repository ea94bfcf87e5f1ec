import DeviceForge.Decimal.Reading
import DeviceForge.Document.Yaml.Whitespace

/-!
# Quoted scalars

A scalar in quotes goes up to its closing quote, over as many lines as it takes. White
space across lines is folded. In single quotes a quote is written twice; in double
quotes a backslash starts an escape, and before a line end it takes the line end away.
-/

namespace DeviceForge.Yaml

def prepend (start : List Char) (scalar : List Char × List Char) :
    List Char × List Char :=
  (start ++ scalar.1, scalar.2)

/-- The rest of a scalar in single quotes, and what follows it. -/
def singleQuoted? (text : List Char) : Option (List Char × List Char) :=
  match text with
  | [] => none
  | '\'' :: '\'' :: rest => (singleQuoted? rest).map (prepend ['\''])
  | '\'' :: rest => some ([], rest)
  | c :: rest =>
    if isWhite c then
      let white := c :: rest.takeWhile isWhite
      if isBeforeMarker white (afterWhite rest) then none
      else (singleQuoted? (afterWhite rest)).map (prepend (fold white))
    else (singleQuoted? rest).map (prepend [c])
termination_by text.length
decreasing_by
  · simp +arith
  · exact Nat.lt_succ_of_le (length_afterWhite_le rest)
  · simp

def escaped? (c : Char) : Option Char :=
  match c with
  | '0' => some '\x00'
  | 'a' => some '\x07'
  | 'b' => some '\x08'
  | 't' => some '\t'
  | '\t' => some '\t'
  | 'n' => some '\n'
  | 'v' => some '\x0B'
  | 'f' => some '\x0C'
  | 'r' => some '\r'
  | 'e' => some '\x1B'
  | ' ' => some ' '
  | '"' => some '"'
  | '/' => some '/'
  | '\\' => some '\\'
  | 'N' => some '\u0085'
  | '_' => some '\u00A0'
  | 'L' => some '\u2028'
  | 'P' => some '\u2029'
  | _ => none

def escapeLength? (c : Char) : Option Nat :=
  match c with
  | 'x' => some 2
  | 'u' => some 4
  | 'U' => some 8
  | _ => none

def charOfHex? (length : Nat) (digits : List Char) : Option Char :=
  if digits.length = length then
    match Decimal.hex? digits with
    | some n => if n.isValidChar then some (Char.ofNat n) else none
    | none => none
  else none

/-- The rest of a scalar in double quotes, and what follows it. -/
def doubleQuoted? (text : List Char) : Option (List Char × List Char) :=
  match text with
  | [] => none
  | '"' :: rest => some ([], rest)
  | '\\' :: c :: rest =>
    if isBreak c then
      let white := c :: rest.takeWhile isWhite
      if isBeforeMarker white (afterWhite rest) then none
      else (doubleQuoted? (afterWhite rest)).map (prepend (white.tail.filter isBreak))
    else
      match escapeLength? c with
      | some length => do
        let char ← charOfHex? length (rest.take length)
        (doubleQuoted? (rest.drop length)).map (prepend [char])
      | none => do
        let char ← escaped? c
        (doubleQuoted? rest).map (prepend [char])
  | c :: rest =>
    if isWhite c then
      let white := c :: rest.takeWhile isWhite
      if isBeforeMarker white (afterWhite rest) then none
      else (doubleQuoted? (afterWhite rest)).map (prepend (fold white))
    else (doubleQuoted? rest).map (prepend [c])
termination_by text.length
decreasing_by
  · have := length_afterWhite_le rest
    simp +arith only [List.length_cons]
    omega
  · simp +arith [List.length_drop]
  · simp +arith
  · exact Nat.lt_succ_of_le (length_afterWhite_le rest)
  · simp

end DeviceForge.Yaml
