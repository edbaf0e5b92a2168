/-
A dispatcher of commands: it knows commands by name, reads command lines and
runs the command that a line asks for.

A line is split at spaces. The first token names the command, in letters of
either case; a command takes either no argument or exactly one. Help and exit
are always known.
-/

import Croupier.Console.Host
import Croupier.Text.Tokens

namespace Croupier

structure Version where
  major : Int
  minor : Int
  patch : Int
  deriving DecidableEq, Repr

def Version.text (version : Version) : String :=
  toString version.major ++ "." ++ toString version.minor ++ "."
    ++ toString version.patch

/-- What a command does. It tells whether it succeeded. -/
inductive Handler (m : Type → Type) where
  | help
  | exit
  | plain (run : m Bool)
  | withArgument (label : String) (run : String → m Bool)

/-- A command by its name. -/
structure Command (m : Type → Type) where
  name : String
  description : String
  handler : Handler m

def Command.helpLine {m : Type → Type} (command : Command m) : String :=
  let argument :=
    match command.handler with
    | .withArgument label _ => " <" ++ label ++ ">"
    | _ => ""
  command.name ++ argument ++ ": " ++ command.description ++ "\n"

/-- A dispatcher with its commands in the order in which they were
registered. -/
structure Dispatcher (m : Type → Type) where
  program : String
  version : Version
  commands : List (Command m)
  running : Bool := false

namespace Dispatcher

variable {m : Type → Type}

/-! ### Registering commands -/

/-- A dispatcher that knows help and exit. -/
def create (program : String) (version : Version) : Dispatcher m where
  program
  version
  commands :=
    [{ name := "help"
       description := "Prints this help page."
       handler := .help },
      { name := "exit"
        description := "Exits the program."
        handler := .exit }]

/-- Whether a byte may occur in the name of a command: it is visible ASCII, and
no capital letter because names are matched in either case. -/
def isNameByte (byte : UInt8) : Bool :=
  33 ≤ byte && byte ≤ 126 && !(65 ≤ byte && byte ≤ 90)

/-- Whether a name can be given to a new command. -/
def accepts (dispatcher : Dispatcher m) (name : String) : Bool :=
  name ≠ "" && (Text.bytes name).all isNameByte
    && !dispatcher.commands.any (fun command => command.name = name)

/-- Registers a command unless its name cannot be given, and tells which. -/
def register (dispatcher : Dispatcher m) (command : Command m) :
    Bool × Dispatcher m :=
  if dispatcher.accepts command.name then
    (true,
      { dispatcher with commands := dispatcher.commands ++ [command] })
  else
    (false, dispatcher)

/-- Registers commands in turn, and tells whether all could be registered. -/
def registerAll (dispatcher : Dispatcher m) (commands : List (Command m)) :
    Bool × Dispatcher m :=
  commands.foldl
    (fun (registered, dispatcher) command =>
      let (accepted, dispatcher) := dispatcher.register command
      (registered && accepted, dispatcher))
    (true, dispatcher)

def names (dispatcher : Dispatcher m) : List String :=
  dispatcher.commands.map (·.name)

/-! ### Running commands -/

def helpPage (dispatcher : Dispatcher m) : String :=
  dispatcher.program ++ " options:\n"
    ++ String.join (dispatcher.commands.map (·.helpLine))

def argumentError (name : String) (expected got : Nat) : String :=
  "Error: Incorrect number of arguments provided for " ++ name
    ++ ": Expected " ++ toString expected ++ ", got " ++ toString got ++ "\n"

def unknownCommand (name : String) : String :=
  "Error: Unknown command: " ++ name ++ "\n"

variable [Monad m] [Host m]

def failWith (text : String) : m Bool := do
  Host.complain text
  return false

/-- Runs a handler with the arguments of a line. -/
def runHandler (dispatcher : Dispatcher m) (name : String)
    (arguments : List String) (handler : Handler m) :
    m (Bool × Dispatcher m) := do
  match handler, arguments with
  | .help, [] =>
      Host.print dispatcher.helpPage
      return (true, dispatcher)
  | .exit, [] => return (true, { dispatcher with running := false })
  | .plain run, [] => return (← run, dispatcher)
  | .withArgument _ run, [argument] => return (← run argument, dispatcher)
  | .withArgument _ _, _ =>
      return (← failWith (argumentError name 1 arguments.length), dispatcher)
  | _, _ =>
      return (← failWith (argumentError name 0 arguments.length), dispatcher)

/-- Runs a command line, and tells whether its command succeeded. A blank line
fails without a word. -/
def execute (dispatcher : Dispatcher m) (line : String) :
    m (Bool × Dispatcher m) := do
  match Text.stringTokens 32 line with
  | [] => return (false, dispatcher)
  | first :: arguments =>
      let name := Text.lowered first
      match dispatcher.commands.find? (fun command => command.name = name) with
      | some command =>
          dispatcher.runHandler name arguments command.handler
      | none => return (← failWith (unknownCommand name), dispatcher)

/-! ### Whole sessions -/

def banner (dispatcher : Dispatcher m) : String :=
  dispatcher.program ++ " " ++ dispatcher.version.text
    ++ "\nType \"help\" for more information.\n"

def prompt : String := "> "

/-- Runs lines until one of them exits or there are no more. -/
def runLines (dispatcher : Dispatcher m) : List String → m (Dispatcher m)
  | [] => do
      Host.print (prompt ++ "\n")
      return { dispatcher with running := false }
  | line :: rest => do
      Host.print prompt
      let (_, dispatcher) ← dispatcher.execute line
      if dispatcher.running then
        dispatcher.runLines rest
      else
        return dispatcher

/-- The lines of a text. What follows the last line feed is a line only if it
is not empty. -/
def linesOf (text : String) : List String :=
  let lines := text.splitOn "\n"
  if lines.getLast? = some "" then lines.dropLast else lines

def run (dispatcher : Dispatcher m) (text : String) : m (Dispatcher m) := do
  Host.print dispatcher.banner
  { dispatcher with running := true }.runLines (linesOf text)

end Dispatcher

end Croupier
