/-
The simulator as a program. Commands are read from the file that is named on
the command line, or else from the terminal.
-/

import Croupier.Console.Commands

namespace Croupier

instance : Host IO where
  print text := do
    let out ← IO.getStdout
    out.putStr text
    out.flush
  complain text := IO.eprint text
  read path := do
    try
      return some (← IO.FS.readBinFile path).toList
    catch _ =>
      return none
  write path bytes := do
    try
      IO.FS.writeBinFile path bytes.toByteArray
      return true
    catch _ =>
      return false
  seconds := return (← IO.monoMsNow).toFloat / 1000.0

/-- Reads and runs lines from the terminal until one of them exits or the input
ends. -/
partial def interact (dispatcher : Dispatcher (Context.Task IO)) :
    Context.Task IO Unit := do
  Host.print Dispatcher.prompt
  let input ← IO.getStdin
  let line ← input.getLine
  if line.isEmpty then
    Host.print "\n"
  else
    let text := if line.endsWith "\n" then (line.dropEnd 1).copy else line
    let (_, dispatcher) ← dispatcher.execute text
    if dispatcher.running then
      interact dispatcher

def runFile (path : String) : IO UInt32 := do
  let (_, dispatcher) := (Context.dispatcher : Bool × Dispatcher _)
  match ← (Host.read path : IO (Option (List UInt8))) with
  | none =>
      IO.eprintln ("Error: Could not open command file " ++ path ++ ".")
      return 1
  | some bytes =>
      let (_, _) ← (dispatcher.run (Text.string bytes)).run {}
      return 0

def runTerminal : IO UInt32 := do
  let (_, dispatcher) := (Context.dispatcher : Bool × Dispatcher _)
  IO.print dispatcher.banner
  let (_, _) ← (interact { dispatcher with running := true }).run {}
  return 0

end Croupier

def main (arguments : List String) : IO UInt32 := do
  match arguments with
  | [] => Croupier.runTerminal
  | [path] => Croupier.runFile path
  | _ =>
      IO.eprintln "Usage: croupier [command file]"
      return 1
