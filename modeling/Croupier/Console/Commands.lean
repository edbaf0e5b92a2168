/-
The commands of the simulator: loading programs, changing settings, simulating
and writing results.

A command changes the context only if it succeeds.
-/

import Croupier.Console.Dispatcher
import Croupier.Match.Record
import Croupier.Program.Encode
import Croupier.Program.Library
import Croupier.Text.Numeral

namespace Croupier

/-- A program that can be simulated, under the name it was loaded by. -/
structure LoadedProgram where
  program : Program
  name : String

/-- What the commands work on. -/
structure Context where
  loaded : Option LoadedProgram := none
  settings : Settings := {}
  summary : Option Summary := none

namespace Context

variable {m : Type → Type} [Monad m] [Host m]

/-- A command at work on the context. -/
abbrev Task (m : Type → Type) := StateT Context m

/-! ### Steps of commands -/

def tell (text : String) : Task m Unit :=
  StateT.lift (Host.print text)

def refuse (reason : String) : Task m Bool := do
  StateT.lift (Host.complain ("Error: " ++ reason ++ "\n"))
  return false

def succeed (text : String) : Task m Bool := do
  tell (text ++ "\n")
  return true

def settle (change : Settings → Settings) (text : String) : Task m Bool := do
  modify fun context => { context with settings := change context.settings }
  succeed text

/-- Runs a command on the loaded program, if there is one. -/
def withProgram (run : LoadedProgram → Task m Bool) : Task m Bool := do
  match (← get).loaded with
  | some loaded => run loaded
  | none =>
      refuse ("No game program loaded. Please run \"load <file>\" or one of "
        ++ "the built-in games first.")

/-- Loads a program; results of another program are of no use any more. -/
def install (program : Program) (name : String) : Task m Unit :=
  modify fun context =>
    { context with loaded := some ⟨program, name⟩, summary := none }

/-! ### Loading programs -/

def load (path : String) : Task m Bool := do
  match ← StateT.lift (Host.read path) with
  | none => refuse ("Could not open " ++ path ++ " for reading.")
  | some bytes =>
      match Program.decode bytes with
      | .error error => refuse error.message
      | .ok program =>
          install program path
          succeed ("Successfully loaded game program from " ++ path ++ ".")

def loadGame (name : String) : Task m Bool := do
  match Library.find? name with
  | none => refuse (Library.unknownGame name)
  | some program =>
      install program name
      succeed ("Successfully loaded built-in game " ++ name ++ ".")

/-- Settings files need a reader that is not part of the simulator. -/
def config (path : String) : Task m Bool := do
  tell ("Loading simulation settings from " ++ path ++ ":\n")
  refuse "Could not load settings file. Settings files are not supported."

/-! ### Information -/

def programInfo (loaded : LoadedProgram) : String :=
  let program := loaded.program
  let teams :=
    if program.header.teamMode then
      " (" ++ toString program.teamCount ++ " teams)"
    else
      ""
  "Game: " ++ loaded.name
    ++ "\nPlayers: " ++ toString program.header.participants ++ teams
    ++ "\nDeck size: " ++ toString program.deckSize
    ++ "\nPhases: " ++ Text.joined ", " (program.phases.map Phase.name)
    ++ "\nWin conditions: "
    ++ Text.joined ", " (program.winConditions.map (·.kind.name))
    ++ "\nCard effects: " ++ toString program.effects.entries.length
    ++ "\nTurn limit: " ++ toString program.header.maxTurns ++ "\n\n"

def settingsInfo (settings : Settings) : String :=
  "Games: " ++ toString settings.games
    ++ "\nSeed: " ++ toString settings.seed.toNat
    ++ "\nThreads: " ++ toString settings.threads
    ++ "\nStrategies: "
    ++ Text.joined ", " (settings.strategies.map StrategyKind.name) ++ "\n"

def info : Task m Bool :=
  withProgram fun loaded => do
    tell (programInfo loaded ++ settingsInfo (← get).settings)
    return true

/-! ### Settings -/

def setGames (argument : String) : Task m Bool :=
  match Text.integer? (Text.bytes argument) with
  | some games =>
      if games < 1 then
        refuse "Game count must be a positive integer."
      else
        settle (fun settings => { settings with games })
          ("Successfully set number of games to " ++ toString games ++ ".")
  | none => refuse "Game count must be a positive integer."

def setSeed (argument : String) : Task m Bool :=
  match Text.word? (Text.bytes argument) with
  | some seed =>
      settle (fun settings => { settings with seed })
        ("Successfully set seed to " ++ toString seed.toNat ++ ".")
  | none => refuse "Seed must be a non-negative integer."

def maxThreads : Int := 64

def setThreads (argument : String) : Task m Bool :=
  match Text.integer? (Text.bytes argument) with
  | some threads =>
      if threads < 1 ∨ threads > maxThreads then
        refuse "Thread count must be between 1 and 64."
      else
        settle (fun settings => { settings with threads })
          ("Successfully set number of threads to " ++ toString threads
            ++ ".")
  | none => refuse "Thread count must be an integer."

/-- The strategies that names stand for, or the first name without one. -/
def strategiesOf : List String → Except String (List StrategyKind)
  | [] => .ok []
  | name :: rest => do
      match StrategyKind.ofName? name with
      | none => throw name
      | some kind => return kind :: (← strategiesOf rest)

def setStrategies (argument : String) : Task m Bool :=
  match strategiesOf (Text.stringTokens 44 argument) with
  | .error name => refuse (StrategyKind.unknownName name)
  | .ok [] => refuse "At least one strategy is required."
  | .ok strategies =>
      settle (fun settings => { settings with strategies })
        "Successfully set seat strategies."

/-! ### Simulating -/

def simulate : Task m Bool :=
  withProgram fun loaded => do
    let settings := (← get).settings
    tell ("Simulating " ++ toString settings.games ++ " games of "
      ++ loaded.name ++ " with " ++ toString settings.threads
      ++ " thread(s)...\n")
    let start ← StateT.lift Host.seconds
    let summary := runBatch loaded.program settings
    tell "Finished simulating.\n\n"
    let finish ← StateT.lift Host.seconds
    let summary := { summary with seconds := .ofFloat (finish - start) }
    tell (summary.report loaded.name)
    modify fun context => { context with summary := some summary }
    return true

/-! ### Writing files -/

/-- Writes a file and reports success with a message. -/
def writeFile (path : String) (bytes : List UInt8) (text : String) :
    Task m Bool := do
  if ← StateT.lift (Host.write path bytes) then
    succeed text
  else
    refuse ("Could not open " ++ path ++ " for writing.")

def exportProgram (path : String) : Task m Bool :=
  withProgram fun loaded =>
    let bytes := loaded.program.encode
    writeFile path bytes
      ("Wrote " ++ toString bytes.length ++ " bytes to " ++ path ++ ".")

def save (path : String) : Task m Bool := do
  let context ← get
  match context.summary, context.loaded with
  | some summary, some loaded =>
      let text := Summary.Record.text summary loaded.name context.settings
      writeFile path (Text.bytes text) ("Summary written to " ++ path ++ ".")
  | _, _ =>
      refuse "No simulation results yet. Please run \"simulate\" first."

/-! ### All commands -/

/-- The command that loads a game of the library. -/
def gameCommand (name : String) : Command (Task m) where
  name
  description := "Loads the built-in " ++ name ++ " program."
  handler := .plain (loadGame name)

/-- A command that takes an argument. -/
def commandOn (name label description : String)
    (run : String → Task m Bool) : Command (Task m) :=
  { name, description, handler := .withArgument label run }

def commands : List (Command (Task m)) :=
  commandOn "load" "file"
    "Loads a compiled game program from a binary file." load
  :: Library.names.map gameCommand
  ++ [commandOn "config" "file"
      ("Loads the game and simulation settings from a given .yml "
        ++ "configuration file.") config,
    { name := "info"
      description :=
        "Prints the loaded game and the current simulation settings."
      handler := .plain info },
    commandOn "games" "count"
      "Sets the number of games to simulate. The default is 100." setGames,
    commandOn "seed" "value"
      "Sets the base seed. Game i of a batch uses seed + i." setSeed,
    commandOn "threads" "count"
      ("Sets the number of threads to simulate with. One thread is used by "
        ++ "default. Calls to this command will be ignored if OpenMP is not "
        ++ "enabled.") setThreads,
    commandOn "strategy" "list"
      ("Sets the seat strategies as a comma separated list of random, greedy "
        ++ "and mcts. The last entry repeats for the remaining seats.")
      setStrategies,
    { name := "simulate"
      description :=
        "Plays the configured number of games and prints the aggregate "
          ++ "results."
      handler := .plain simulate },
    commandOn "export" "file"
      ("Writes the loaded game program to a file in the compiled binary "
        ++ "format.") exportProgram,
    commandOn "save" "file"
      "Writes the results of the last simulation to a JSON file." save]

instance : Host (Task m) where
  print text := StateT.lift (Host.print text)
  complain text := StateT.lift (Host.complain text)
  read path := StateT.lift (Host.read path)
  write path bytes := StateT.lift (Host.write path bytes)
  seconds := StateT.lift Host.seconds

/-- The dispatcher of the simulator, and whether all commands could be
registered. -/
def dispatcher : Bool × Dispatcher (Task m) :=
  (Dispatcher.create "CardGameSimulator" ⟨1, 0, 0⟩).registerAll commands

end Context

end Croupier
