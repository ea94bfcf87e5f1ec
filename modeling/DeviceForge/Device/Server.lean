import DeviceForge.Device.Class

/-!
# Servers

A server puts several device classes into one executable. They share a language, which
is that of the first one, and have different names.
-/

namespace DeviceForge

structure Server where
  name : String
  title : String := ""
  description : String := ""
  license : License := .gpl
  sourcePath : String := ""
  classes : List DeviceClass := []

namespace Server

def ofText (text : String) : Except ModelError Server :=
  (Name.ofText text).map fun name => { name }

def language? (server : Server) : Option Language :=
  server.classes.head?.map (·.language)

/-- The first class whose language is not the given one, as an error. -/
def checkLanguage (server : Server) (language : Language) (classes : List DeviceClass) :
    Except ModelError Unit :=
  match classes.find? (·.language ≠ language) with
  | some cls => .error (.languageMismatch server.name cls.name language cls.language)
  | none => .ok ()

/-- Adds a class in the language of the server, under a new name. -/
def add (server : Server) (cls : DeviceClass) : Except ModelError Server := do
  if let some language := server.language? then
    server.checkLanguage language [cls]
  if server.classes.any (·.name == cls.name) then
    throw (.duplicateClass server.name cls.name)
  return { server with classes := server.classes ++ [cls] }

end Server

end DeviceForge
