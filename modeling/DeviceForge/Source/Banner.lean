import DeviceForge.Device.Server
import DeviceForge.Source.Context

/-!
# Banners

A file starts with comment lines that name it, describe the class or the server, and
state the license. `lead` is what starts a comment line in the language of the file.
-/

namespace DeviceForge.Banner

open Layout

def rule (lead : String) : String :=
  lead ++ String.ofList (List.replicate 77 '=')

def opening (lead file title : String) (description : List String) : Layout :=
  lines [rule lead, s!"{lead} file :        {file}", lead,
    s!"{lead} description : {title}"] ++
    lines (description.map fun text =>
      Text.trimEnd (lead ++ "               " ++ Text.escapeComment text)) ++
    line lead

/-- The last lines, which say what made the file. -/
def closing (lead maker : String) : Layout :=
  lines [rule lead, s!"{lead}          This file is generated by {maker}", rule lead] ++
    blank

/-- What a license says of the class that it covers. -/
def licenseText (license : License) (name : String) : List String :=
  match license with
  | .gpl => [
      name ++ " is free software: you can redistribute it and/or modify",
      "it under the terms of the GNU General Public License as published by",
      "the Free Software Foundation, either version 3 of the License, or",
      "(at your option) any later version."]
  | .lgpl => [
      name ++ " is free software: you can redistribute it and/or modify",
      "it under the terms of the GNU Lesser General Public License as published",
      "by the Free Software Foundation, either version 3 of the License, or",
      "(at your option) any later version."]
  | .apache => [
      name ++ " is licensed under the Apache License, Version 2.0.",
      "See http://www.apache.org/licenses/LICENSE-2.0"]
  | .mit => [name ++ " is distributed under the terms of the MIT License."]
  | .unlicensed => []

/-- The banner of a file of a class. -/
def ofClass (c : SourceContext) (lead file : String) : Layout :=
  if c.settings.emitBanner then
    opening lead file c.title c.description ++
      lines [s!"{lead} project :     {c.title}", lead] ++
      lines ((licenseText c.body.metadata.license c.name).map fun text =>
        s!"{lead} {text}") ++
      (match c.copyright? with
      | none => []
      | some text =>
        lines [lead, s!"{lead} Copyright (C): {Text.escapeComment text}"]) ++
      closing lead s!"devgen (schema {c.body.revision.getD currentRevision})"
  else []

def ofServer (server : Server) (settings : Settings) (lead file : String) : Layout :=
  if settings.emitBanner then
    let own := Text.trim server.title
    let title := if own.isEmpty then server.name else Text.escapeComment own
    opening lead file title (Text.lines server.description) ++
      line s!"{lead} license :     {server.license.label}" ++
      closing lead "devgen"
  else []

end DeviceForge.Banner
