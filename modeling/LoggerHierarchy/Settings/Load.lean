import LoggerHierarchy.Document.Merge
import LoggerHierarchy.Document.Toml
import LoggerHierarchy.Settings.Decode
import LoggerHierarchy.Settings.Encode
import LoggerHierarchy.Settings.Environment

namespace LoggerHierarchy

/-!
# Loading settings

Settings are layered from sources of increasing priority: settings that are given, a file, the
environment.

* `Files` — how files are found and read; `Files.ofTexts` — those of given texts, read as TOML;
* `Surroundings` — the variables and the files that loading finds;
* `TreeSettings.layered` — settings with a file's entries and the environment on top;
* `TreeSettings.load`, `TreeSettings.withOverride` — the two ways to load settings.

How files are found and what their format is belongs to the surroundings.  `Files.ofTexts` finds no
files by relative paths, and reads the part of TOML that `Document.Toml` covers: no texts over
several lines, no dates and no times.
-/

/-- Why settings cannot be loaded. -/
inductive LoadFault where
  /-- There is no such file, or not of this format. -/
  | unreadable
  /-- The layered document holds no settings. -/
  | undecodable (fault : DecodeFault)
  deriving DecidableEq, Repr

/-- The wording of a fault, if it is fixed. -/
def LoadFault.message? : LoadFault → Option String
  | unreadable => none
  | undecodable fault => fault.message?

/-- What follows the last dot of a file's name, unless the dot is its first character. -/
def fileExtension? (name : String) : Option (List Char) :=
  let reversed := name.toList.reverse
  let ending := reversed.takeWhile (· ≠ '.')
  if ending.length + 1 < reversed.length then some ending.reverse else none

/-- The parts of a path between its slashes. -/
def splitSlashes (path : String) : List String :=
  (path.toList.splitOn '/').map String.ofList

/-- The parts of a path that lead on: those that are neither empty nor a dot. -/
def pathParts (path : String) : List String :=
  (splitSlashes path).filter fun part => part != "" && part != "."

/-- The text of the file that a path means, of files whose absolute paths are given: the file of
    that very path, whose name has to end in `.toml`, else the one whose path lacks this ending.  A
    path that ends in a slash or a dot means no file itself, and one that is not absolute means
    none at all. -/
def textOfPath? (texts : List (String × String)) (path : String) : Option String :=
  let parts := pathParts path
  let name := parts.getLastD ".."
  let plain := "/".intercalate ("" :: parts)
  let itself := if (splitSlashes path).getLast? = some name then texts.lookup plain else none
  if path.toList.head? ≠ some '/' ∨ name = ".." then none
  else
    match itself with
    | some text => if fileExtension? name = some "toml".toList then some text else none
    | none => texts.lookup (plain ++ ".toml")

/-- The files that loading finds, whatever their format. -/
structure Files where
  /-- The text of the file that a path means. -/
  text? : String → Option String
  /-- The entries of a text in the format of the files. -/
  entries? : String → Option (List (String × Document))

namespace Files

/-- The entries of the file that a path means. -/
def read? (files : Files) (path : String) : Option (List (String × Document)) :=
  (files.text? path).bind files.entries?

/-- Files with the given texts under their absolute paths. -/
def ofTexts (texts : List (String × String)) : Files where
  text? := textOfPath? texts
  entries? := Document.Toml.parse

instance : Coe (List (String × String)) Files := ⟨ofTexts⟩

end Files

/-- What loading finds outside. -/
structure Surroundings where
  /-- The environment variables by name. -/
  environment : List (String × String) := []
  files : Files := .ofTexts []

/-- The environment variable with the path of the settings' file. -/
def configPathVariable : String := "CONFIG_PATH"

namespace TreeSettings

/-- Settings with the entries of a file and then the environment on top. -/
def layered (s : TreeSettings) (file environment : List (String × Document)) : Document :=
  ((Document.layer (.table []) s.toSource).layer file).layer environment

/-- Settings with a file, if there is a path of one, and the environment on top. -/
def loadOver (s : TreeSettings) (path : Option String) (around : Surroundings) :
    Except LoadFault TreeSettings :=
  let found :=
    match path with
    | none => some []
    | some path => around.files.read? path
  match found with
  | none => .error .unreadable
  | some entries =>
    match ofDocument .loaded (s.layered entries (Environment.source around.environment)) with
    | .ok loaded => .ok loaded
    | .error fault => .error (.undecodable fault)

/-- The default settings with the environment on top, and in between the file whose path is in the
    environment, if one is. -/
def load (around : Surroundings) : Except LoadFault TreeSettings :=
  loadOver {} (around.environment.lookup configPathVariable) around

/-- These settings with a file on top, the environment still winning. -/
def withOverride (s : TreeSettings) (path : String) (around : Surroundings) :
    Except LoadFault TreeSettings :=
  s.loadOver (some path) around

end TreeSettings

end LoggerHierarchy
