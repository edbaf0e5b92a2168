/-
What the console needs from its surroundings: two streams of text, files, and a
clock. The desktop is a surrounding that consists of values only.
-/

import Croupier.Text.Ascii

namespace Croupier

/-- Surroundings that a console can run in. -/
class Host (m : Type → Type) where
  /-- Writes text for the user. -/
  print : String → m Unit
  /-- Writes text about something that went wrong. -/
  complain : String → m Unit
  /-- The bytes of a file that can be read. -/
  read : String → m (Option (List UInt8))
  /-- Replaces the bytes of a file, and tells whether that was possible. -/
  write : String → List UInt8 → m Bool
  /-- Seconds since some moment in the past. -/
  seconds : m Float

/-- One directory with files, what was written, and a clock that stands
still. -/
structure Desktop where
  files : List (String × List UInt8) := []
  output : String := ""
  complaints : String := ""
  deriving DecidableEq, Repr

namespace Desktop

/-- The longest path, in bytes. -/
def maxPathSize : Nat := 4095

/-- The longest name of a file, in bytes. -/
def maxNameSize : Nat := 255

/-- The name of the file at a path, if it is in the directory and may be that of
a file. A path ends at its first NUL; steps that stay in the directory lead
nowhere, and a name with a slash behind it is none of a file. -/
def fileName? (path : String) : Option String :=
  let path := Text.upToNul path
  let steps := path.splitOn "/"
  if path.utf8ByteSize > maxPathSize || steps.head? = some "" then
    none
  else
    match steps.dropWhile (fun step => step = "." || step = "") with
    | [name] =>
        if name = ".." || name.utf8ByteSize > maxNameSize then
          none
        else
          some name
    | _ => none

/-- The files with the bytes of one of them replaced; a new file comes last. -/
def replace (name : String) (bytes : List UInt8) :
    List (String × List UInt8) → List (String × List UInt8)
  | [] => [(name, bytes)]
  | (other, old) :: rest =>
      if other = name then
        (name, bytes) :: rest
      else
        (other, old) :: replace name bytes rest

instance : Host (StateM Desktop) where
  print text := modify fun desktop =>
    { desktop with output := desktop.output ++ text }
  complain text := modify fun desktop =>
    { desktop with complaints := desktop.complaints ++ text }
  read path := do
    let desktop ← get
    return (fileName? path).bind fun name => desktop.files.lookup name
  write path bytes := do
    match fileName? path with
    | none => return false
    | some name =>
        modify fun desktop =>
          { desktop with files := replace name bytes desktop.files }
        return true
  seconds := pure 0.0

/-- The files in the order of their names. -/
def listing (desktop : Desktop) : List (String × List UInt8) :=
  desktop.files.mergeSort (fun left right => !(right.1 < left.1))

end Desktop

end Croupier
