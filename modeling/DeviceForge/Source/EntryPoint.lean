import DeviceForge.Source.Script
import DeviceForge.Text.Case

/-!
# Entry points of servers

A server gets the files that register its classes and run it. Every class has to have
the language of the first one; a server without classes has no files.
-/

namespace DeviceForge.EntryPoint

open Layout

def classNames (server : Server) : List String :=
  server.classes.map (·.name)

/-- What a zone for the includes looks like in all entry points. -/
def includes : Layout :=
  zone (.ofServer .includes) "" ++ blank

def additionalClasses : Layout :=
  zone (.ofServer .additionalClasses) ""

def cppMain : Layout :=
  line "#include <tango.h>" ++
    includes ++
    line "int main(int argc, char *argv[])" ++
    braced
      (lines ["Tango::Util *tg = NULL;", "try"] ++
        braced (lines [
          "tg = Tango::Util::init(argc, argv);",
          "tg->server_init(false);",
          "std::cout << \"Ready to accept request\" << std::endl;",
          "tg->server_run();"]) ++
        line "catch (std::bad_alloc &)" ++
        braced (line ("std::cout << " ++
          "\"Can't allocate memory to store device object !!!\" << std::endl;")) ++
        line "catch (CORBA::Exception &e)" ++
        braced (line "Tango::Except::print_exception(e);") ++
        line "if (tg != NULL)" ++
        indented (line "tg->server_cleanup();") ++
        line "return 0;")

def cppFactory (server : Server) : Layout :=
  line "#include <tango.h>" ++
    lines ((classNames server).map fun name => s!"#include <{name}Class.h>") ++
    includes ++
    line "void Tango::DServer::class_factory()" ++
    braced
      (lines ((classNames server).map fun name =>
          s!"add_class({name}_ns::{name}Class::init(\"{name}\"));") ++
        additionalClasses)

def javaMain (server : Server) : Layout :=
  line s!"package org.tango.{Text.toLowerAscii server.name};" ++
    blank ++
    line "import org.tango.server.ServerManager;" ++
    lines ((classNames server).map fun name =>
      s!"import org.tango.{Text.toLowerAscii name}.{name};") ++
    includes ++
    line s!"public class {server.name} \x7b" ++
    indented
      (line "public static void main(final String[] args) \x7b" ++
        indented
          (line "ServerManager manager = ServerManager.getInstance();" ++
            lines ((classNames server).map fun name =>
              s!"manager.addClass(\"{name}\", {name}.class);") ++
            additionalClasses ++
            line s!"manager.start(args, \"{server.name}\");") ++
        line "\x7d") ++
    line "\x7d"

def pythonMain (server : Server) : Layout :=
  lines ["import sys", "import PyTango"] ++
    lines ((classNames server).map fun name =>
      s!"from {name} import {name}, {name}Class") ++
    includes ++
    blank ++
    line "def main():" ++
    indented
      (line "py = PyTango.Util(sys.argv)" ++
        lines ((classNames server).map fun name =>
          s!"py.add_class({name}Class, {name}, '{name}')") ++
        additionalClasses ++
        lines ["U = PyTango.Util.instance()", "U.server_init()", "U.server_run()"]) ++
    Script.tail

def pythonHLMain (server : Server) : Layout :=
  line "from tango.server import run" ++
    lines ((classNames server).map fun name => s!"from {name} import {name}") ++
    includes ++
    blank ++
    line "def main(args=None, **kwargs):" ++
    indented
      (line s!"classes = [{Text.commaList (classNames server)}]" ++
        additionalClasses ++
        line "return run(classes, args=args, **kwargs)") ++
    Script.tail

def slashFile (server : Server) (settings : Settings) (file : String) (l : Layout) :
    Skeleton :=
  (Banner.ofServer server settings "//" file ++ l).toSkeleton file .block
    settings.indentUnit

def scriptFile (server : Server) (settings : Settings) (l : Layout) : Skeleton :=
  let file := server.name ++ ".py"
  (Script.head ++ Banner.ofServer server settings "#" file ++ l).toSkeleton file .hash
    settings.indentUnit

def filesIn (server : Server) (settings : Settings) : Language → List Skeleton
  | .cpp => [slashFile server settings "main.cpp" cppMain,
      slashFile server settings "ClassFactory.cpp" (cppFactory server)]
  | .java => [slashFile server settings (server.name ++ ".java") (javaMain server)]
  | .python => [scriptFile server settings (pythonMain server)]
  | .pythonHL => [scriptFile server settings (pythonHLMain server)]

def skeletons (server : Server) (settings : Settings) :
    Except ModelError (List Skeleton) :=
  match server.language? with
  | none => .ok []
  | some language =>
    (server.checkLanguage language server.classes).map fun _ =>
      filesIn server settings language

end DeviceForge.EntryPoint
