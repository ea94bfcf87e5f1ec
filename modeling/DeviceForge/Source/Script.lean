import DeviceForge.Source.Banner

/-!
# Parts of scripts

Scripts begin and end the same, and both Python interfaces put a class into a module in
the same way: with a docstring, with methods that decide about states for members that
are denied in some, and with the same values to start from.
-/

namespace DeviceForge

/-- The value that an attribute or a command result starts with. -/
def DataType.pythonValue (t : DataType) (dimensions : Nat) : String :=
  if dimensions > 0 ∨ t.isArray then "[]"
  else
    match t with
    | .boolean => "False"
    | .float | .double => "0.0"
    | .string => "\'\'"
    | .state => "DevState.UNKNOWN"
    | .encoded => "(\'\', b\'\')"
    | .void => "None"
    | _ => "0"

namespace Script

open Layout

def head : Layout :=
  lines ["#!/usr/bin/env python", "# -*- coding:utf-8 -*-"] ++ blank

/-- The last lines of a script, which run its main function. -/
def tail : Layout :=
  blank ++ blank ++ line "if __name__ == '__main__':" ++ indented (line "main()")

def function (head : String) (body : Layout) : Layout :=
  line head ++ indented body ++ blank

/-- The docstring of the module, from the title and the description. -/
def docstring (c : SourceContext) : Layout :=
  stacked [
    line "\"\"\"",
    line (Text.docstringText c.title),
    lines (c.description.map Text.docstringText),
    line "\"\"\"",
    blank]

/-- The method that decides about states, for a member that is denied in some. The lines
of `test` find out whether the state is one of them. -/
def isAllowed (c : SourceContext) (key : MemberKey) (parameters : String)
    (test : List String → List String) : Layout :=
  match c.iface.deniedStates key with
  | [] => []
  | denied =>
    function s!"def is_{key.name}_allowed(self{parameters}):"
      (lines (test denied) ++
        zone (.ofMember key.kind key.name .isAllowed) "" ++
        line "return state_ok")

end Script

end DeviceForge
