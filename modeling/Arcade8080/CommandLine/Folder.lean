import Arcade8080.CommandLine.Session

/-!
# Runs in a folder

A folder of named files without subfolders. A path leads to a file of the folder
if it is the file's name, possibly after steps that stay where they are; any
other path leads nowhere. Names and paths that are too long for the operating
system lead nowhere either, whatever they say.
-/

namespace Arcade8080

structure Folder where
  files : List (String × List UInt8)

namespace Folder

/-- The most bytes that a name can have. -/
def longestName : Nat := 255

/-- The most bytes that a path can have. -/
def longestPath : Nat := 4095

/-- Whether a file can have this name. -/
def isFileName (name : String) : Bool :=
  name != "" && name != "." && name != ".." && !name.contains '\x00' &&
    name.utf8ByteSize ≤ longestName

/-- The name of a file that a path leads to. -/
def nameOf? (path : String) : Option String :=
  match (path.splitOn "/").reverse with
  | [] => none
  | name :: before =>
    if path.startsWith "/" || longestPath < path.utf8ByteSize then none
    else if isFileName name && before.all fun step => step = "" || step = "." then some name
    else none

def read? (f : Folder) (path : String) : Option (List UInt8) :=
  (nameOf? path).bind fun name => f.files.lookup name

def write? (f : Folder) (path : String) (data : List UInt8) : Option Folder :=
  (nameOf? path).map fun name =>
    ⟨(name, data) :: f.files.filter fun file => file.1 != name⟩

/-- Runs a program of the folder by a given clock for at most `fuel` turns. -/
def run (f : Folder) (options : Options) (clock : Nat → Reading) (fuel : Nat) :
    Option (Except RunError Progress) × Folder :=
  match f.read? options.romPath with
  | none => (some (.error (.unreadable options.romPath)), f)
  | some image =>
    match Session.start options image with
    | .error error => (some (.error error), f)
    | .ok session =>
      match session.play clock fuel 0 with
      | none => (none, f)
      | some (.ok progress) => (some (.ok progress), f)
      | some (.error crash) =>
        match options.crashPath with
        | none => (some (.error (.crashed crash)), f)
        | some path =>
          match f.write? path crash.saved.encode with
          | none => (some (.error (.unwritable path)), f)
          | some f => (some (.error (.crashed crash)), f)

end Folder

end Arcade8080
