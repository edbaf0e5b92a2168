/-
Command lines that fail.

A command looks at everything that can be wrong with it before it changes anything, and the one
thing that can go wrong later, writing a file, is the last that it does. So a line that fails leaves
behind what was loaded, set and simulated, and all files. It takes a host for this that leaves files
alone unless it is asked to write one, and also where it refuses to.
-/

import Croupier.Console.Commands

namespace Croupier

/-! ### Hosts -/

/-- A host leaves the files alone unless it writes one. -/
structure Host.Careful {σ φ : Type} [Host (StateM σ)] (files : σ → φ) : Prop where
  print : ∀ text world, files ((Host.print text : StateM σ Unit) world).2 = files world
  complain : ∀ text world, files ((Host.complain text : StateM σ Unit) world).2 = files world
  read : ∀ path world,
    files ((Host.read path : StateM σ (Option (List UInt8))) world).2 = files world
  seconds : ∀ world, files ((Host.seconds : StateM σ Float) world).2 = files world
  refused : ∀ path bytes world, ((Host.write path bytes : StateM σ Bool) world).1 = false →
    files ((Host.write path bytes : StateM σ Bool) world).2 = files world

/-- The desktop refuses to write where a path leads to no file of the directory. -/
theorem Desktop.careful : Host.Careful Desktop.files where
  print _ _ := rfl
  complain _ _ := rfl
  read _ _ := rfl
  seconds _ := rfl
  refused path bytes desktop refused := by
    simp only [Host.write] at refused ⊢
    cases known : fileName? path with
    | none => rfl
    | some name =>
        rw [known] at refused
        cases refused

namespace Context

variable {σ φ α β : Type} {files : σ → φ} {failed : α → Prop}

/-! ### Tasks -/

/-- Where the result of a task is a failure, the context and the files are as before. -/
def Spares (files : σ → φ) (failed : α → Prop) (task : Task (StateM σ) α) : Prop :=
  ∀ context world, failed (task context world).1.1 →
    (task context world).1.2 = context ∧ files (task context world).2 = files world

/-- A task that leaves the context and the files alone in any case. -/
abbrev Idle (files : σ → φ) (task : Task (StateM σ) α) : Prop :=
  Spares files (fun _ => True) task

theorem Idle.spares {task : Task (StateM σ) α} (idle : Idle files task) :
    Spares files failed task :=
  fun context world _ => idle context world trivial

/-- A task that never fails may change anything. -/
theorem spares_of_succeeds {task : Task (StateM σ) α}
    (succeeds : ∀ context world, ¬failed (task context world).1.1) : Spares files failed task :=
  fun context world fails => absurd fails (succeeds context world)

/-- What comes before a task that spares the context must be idle. -/
theorem Idle.bind {first : Task (StateM σ) β} {rest : β → Task (StateM σ) α}
    (idle : Idle files first) (later : ∀ value, Spares files failed (rest value)) :
    Spares files failed (first >>= rest) := by
  intro context world fails
  obtain ⟨context', files'⟩ := idle context world trivial
  obtain ⟨sameContext, sameFiles⟩ := later _ _ _ fails
  exact ⟨sameContext.trans context', sameFiles.trans files'⟩

theorem idle_pure (value : α) : Idle files (pure value) :=
  fun _ _ _ => ⟨rfl, rfl⟩

theorem idle_get : Idle files (get : Task (StateM σ) Context) :=
  fun _ _ _ => ⟨rfl, rfl⟩

theorem idle_lift {action : StateM σ α} (same : ∀ world, files (action world).2 = files world) :
    Idle files (StateT.lift action) :=
  fun _ world _ => ⟨rfl, same world⟩

variable [Host (StateM σ)]

theorem idle_tell (careful : Host.Careful files) (text : String) : Idle files (tell text) :=
  idle_lift (careful.print text)

theorem idle_refuse (careful : Host.Careful files) (reason : String) :
    Idle files (refuse reason) :=
  (idle_lift (careful.complain _)).bind fun _ => idle_pure false

/-! ### Commands -/

theorem spares_withProgram (careful : Host.Careful files)
    {run : LoadedProgram → Task (StateM σ) Bool}
    (spares : ∀ loaded, Spares files (· = false) (run loaded)) :
    Spares files (· = false) (withProgram run) := by
  refine idle_get.bind fun context => ?_
  cases context.loaded with
  | none => exact (idle_refuse careful _).spares
  | some loaded => exact spares loaded

theorem spares_load (careful : Host.Careful files) (path : String) :
    Spares files (· = false) (load path : Task (StateM σ) Bool) := by
  refine (idle_lift (careful.read path)).bind fun found => ?_
  cases found with
  | none => exact (idle_refuse careful _).spares
  | some bytes =>
      dsimp only
      cases Program.decode bytes with
      | error problem => exact (idle_refuse careful _).spares
      | ok program => exact spares_of_succeeds fun _ _ => nofun

theorem spares_loadGame (careful : Host.Careful files) (name : String) :
    Spares files (· = false) (loadGame name : Task (StateM σ) Bool) := by
  unfold loadGame
  cases Library.find? name with
  | none => exact (idle_refuse careful _).spares
  | some program => exact spares_of_succeeds fun _ _ => nofun

theorem spares_config (careful : Host.Careful files) (path : String) :
    Spares files (· = false) (config path : Task (StateM σ) Bool) :=
  (idle_tell careful _).bind fun _ => (idle_refuse careful _).spares

theorem spares_info (careful : Host.Careful files) :
    Spares files (· = false) (info : Task (StateM σ) Bool) :=
  spares_withProgram careful fun _ => spares_of_succeeds fun _ _ => nofun

theorem spares_setGames (careful : Host.Careful files) (argument : String) :
    Spares files (· = false) (setGames argument : Task (StateM σ) Bool) := by
  unfold setGames
  cases Text.integer? (Text.bytes argument) with
  | none => exact (idle_refuse careful _).spares
  | some games =>
      dsimp only
      split
      · exact (idle_refuse careful _).spares
      · exact spares_of_succeeds fun _ _ => nofun

theorem spares_setSeed (careful : Host.Careful files) (argument : String) :
    Spares files (· = false) (setSeed argument : Task (StateM σ) Bool) := by
  unfold setSeed
  cases Text.word? (Text.bytes argument) with
  | none => exact (idle_refuse careful _).spares
  | some seed => exact spares_of_succeeds fun _ _ => nofun

theorem spares_setThreads (careful : Host.Careful files) (argument : String) :
    Spares files (· = false) (setThreads argument : Task (StateM σ) Bool) := by
  unfold setThreads
  cases Text.integer? (Text.bytes argument) with
  | none => exact (idle_refuse careful _).spares
  | some threads =>
      dsimp only
      split
      · exact (idle_refuse careful _).spares
      · exact spares_of_succeeds fun _ _ => nofun

/-- All names of a list are looked up before the list takes effect. -/
theorem spares_setStrategies (careful : Host.Careful files) (argument : String) :
    Spares files (· = false) (setStrategies argument : Task (StateM σ) Bool) := by
  unfold setStrategies
  cases strategiesOf (Text.stringTokens 44 argument) with
  | error name => exact (idle_refuse careful _).spares
  | ok strategies =>
      cases strategies with
      | nil => exact (idle_refuse careful _).spares
      | cons kind rest => exact spares_of_succeeds fun _ _ => nofun

theorem spares_simulate (careful : Host.Careful files) :
    Spares files (· = false) (simulate : Task (StateM σ) Bool) :=
  spares_withProgram careful fun _ => spares_of_succeeds fun _ _ => nofun

/-- Writing is the last thing that can go wrong, and then nothing was written. -/
theorem spares_writeFile (careful : Host.Careful files) (path : String) (bytes : List UInt8)
    (text : String) :
    Spares files (· = false) (writeFile path bytes text : Task (StateM σ) Bool) := by
  intro context world fails
  have wrote : (writeFile path bytes text : Task (StateM σ) Bool) context world =
      (if ((Host.write path bytes : StateM σ Bool) world).1 then
        succeed text
      else
        refuse ("Could not open " ++ path ++ " for writing.") : Task (StateM σ) Bool)
        context ((Host.write path bytes : StateM σ Bool) world).2 :=
    rfl
  rw [wrote] at fails ⊢
  cases written : ((Host.write path bytes : StateM σ Bool) world).1 with
  | true =>
      rw [written] at fails
      cases fails
  | false =>
      obtain ⟨sameContext, sameFiles⟩ := idle_refuse careful
        ("Could not open " ++ path ++ " for writing.") context
        ((Host.write path bytes : StateM σ Bool) world).2 trivial
      exact ⟨sameContext, sameFiles.trans (careful.refused path bytes world written)⟩

theorem spares_exportProgram (careful : Host.Careful files) (path : String) :
    Spares files (· = false) (exportProgram path : Task (StateM σ) Bool) :=
  spares_withProgram careful fun _ => spares_writeFile careful path _ _

theorem spares_save (careful : Host.Careful files) (path : String) :
    Spares files (· = false) (save path : Task (StateM σ) Bool) := by
  refine idle_get.bind fun context => ?_
  dsimp only
  split
  · exact spares_writeFile careful path _ _
  · exact (idle_refuse careful _).spares

/-- Whatever argument a handler is given, it spares the context where it fails. -/
def HandlerSpares (files : σ → φ) : Handler (Task (StateM σ)) → Prop
  | .help | .exit => True
  | .plain run => Spares files (· = false) run
  | .withArgument _ run => ∀ argument, Spares files (· = false) (run argument)

theorem handlerSpares_commands (careful : Host.Careful files) :
    ∀ command ∈ (commands : List (Command (Task (StateM σ)))),
      HandlerSpares files command.handler := by
  intro command listed
  unfold commands at listed
  rcases List.mem_cons.mp listed with rfl | listed
  · exact spares_load careful
  · rcases List.mem_append.mp listed with game | listed
    · obtain ⟨name, _, rfl⟩ := List.mem_map.mp game
      exact spares_loadGame careful name
    · simp only [List.mem_cons, List.not_mem_nil, or_false] at listed
      rcases listed with rfl | rfl | rfl | rfl | rfl | rfl | rfl | rfl | rfl
      · exact spares_config careful
      · exact spares_info careful
      · exact spares_setGames careful
      · exact spares_setSeed careful
      · exact spares_setThreads careful
      · exact spares_setStrategies careful
      · exact spares_simulate careful
      · exact spares_exportProgram careful
      · exact spares_save careful

/-! ### Lines -/

theorem idle_failWith (careful : Host.Careful files) (text : String) :
    Idle files (Dispatcher.failWith text : Task (StateM σ) Bool) :=
  (idle_lift (careful.complain text)).bind fun _ => idle_pure false

end Context

namespace Dispatcher

open Context

variable {σ φ : Type} [Host (StateM σ)] {files : σ → φ}
  {dispatcher : Dispatcher (Task (StateM σ))}

theorem mem_of_mem_register {m : Type → Type} {dispatcher : Dispatcher m}
    {added command : Command m} (listed : command ∈ (dispatcher.register added).2.commands) :
    command ∈ dispatcher.commands ∨ command = added := by
  unfold register at listed
  split at listed
  · rcases List.mem_append.mp listed with before | new
    · exact .inl before
    · exact .inr (List.mem_singleton.mp new)
  · exact .inl listed

/-- No commands are registered but those that are given. -/
theorem mem_of_mem_registerAll {m : Type → Type} {dispatcher : Dispatcher m}
    {added : List (Command m)} {command : Command m}
    (listed : command ∈ (dispatcher.registerAll added).2.commands) :
    command ∈ dispatcher.commands ∨ command ∈ added := by
  suffices folded : ∀ (added : List (Command m)) (start : Bool × Dispatcher m),
      command ∈ (added.foldl (fun state command =>
        (state.1 && (state.2.register command).1, (state.2.register command).2))
          start).2.commands →
          command ∈ start.2.commands ∨ command ∈ added from folded added _ listed
  intro added
  induction added with
  | nil => exact fun _ => .inl
  | cons first rest ih =>
      intro start listed
      rcases ih _ listed with before | later
      · rcases mem_of_mem_register before with known | rfl
        · exact .inl known
        · exact .inr List.mem_cons_self
      · exact .inr (List.mem_cons_of_mem first later)

theorem runHandler_cases (dispatcher : Dispatcher (Task (StateM σ))) (name : String)
    (arguments : List String) (handler : Handler (Task (StateM σ))) (context : Context)
    (world : σ) :
    (dispatcher.runHandler name arguments handler context world).1.1.2 = dispatcher ∨
      (dispatcher.runHandler name arguments handler context world).1.1 =
        (true, { dispatcher with running := false }) := by
  cases handler with
  | exit =>
      cases arguments with
      | nil => exact .inr rfl
      | cons argument rest => exact .inl rfl
  | help | plain run =>
      cases arguments with
      | nil => exact .inl rfl
      | cons argument rest => exact .inl rfl
  | withArgument label run =>
      match arguments with
      | [] | [_] | _ :: _ :: _ => exact .inl rfl

/-- A line that exits stops the dispatcher; no other line changes it. -/
theorem execute_cases (dispatcher : Dispatcher (Task (StateM σ))) (line : String)
    (context : Context) (world : σ) :
    (dispatcher.execute line context world).1.1.2 = dispatcher ∨
      (dispatcher.execute line context world).1.1 =
        (true, { dispatcher with running := false }) := by
  unfold execute
  cases Text.stringTokens 32 line with
  | nil => exact .inl rfl
  | cons first arguments =>
      dsimp only
      cases dispatcher.commands.find? fun command => command.name = Text.lowered first with
      | none => exact .inl rfl
      | some command => exact runHandler_cases dispatcher _ arguments command.handler context world

theorem spares_runHandler (careful : Host.Careful files) (name : String)
    (arguments : List String) {handler : Handler (Task (StateM σ))}
    (spares : HandlerSpares files handler) :
    Spares files (·.1 = false) (dispatcher.runHandler name arguments handler) := by
  have wrong (expected : Nat) :
      Spares files (·.1 = false) (do
        return (← failWith (argumentError name expected arguments.length), dispatcher) :
          Task (StateM σ) (Bool × Dispatcher (Task (StateM σ)))) :=
    (idle_failWith careful _).bind fun _ => (idle_pure _).spares
  -- What a command answers is passed on together with the dispatcher.
  have passes {run : Task (StateM σ) Bool} (spares : Spares files (· = false) run) :
      Spares files (·.1 = false) (do return (← run, dispatcher) :
        Task (StateM σ) (Bool × Dispatcher (Task (StateM σ)))) :=
    spares
  cases handler with
  | help | exit =>
      cases arguments with
      | nil => exact spares_of_succeeds fun _ _ => nofun
      | cons argument rest => exact wrong 0
  | plain run =>
      cases arguments with
      | nil => exact passes spares
      | cons argument rest => exact wrong 0
  | withArgument label run =>
      match arguments with
      | [] | _ :: _ :: _ => exact wrong 1
      | [argument] => exact passes (spares argument)

theorem spares_execute (careful : Host.Careful files)
    (known : ∀ command ∈ dispatcher.commands, HandlerSpares files command.handler)
    (line : String) : Spares files (·.1 = false) (dispatcher.execute line) := by
  unfold execute
  cases Text.stringTokens 32 line with
  | nil => exact (idle_pure _).spares
  | cons first arguments =>
      dsimp only
      cases found : dispatcher.commands.find? fun command => command.name = Text.lowered first with
      | none => exact (idle_failWith careful _).bind fun _ => (idle_pure _).spares
      | some command =>
          exact spares_runHandler careful _ _ (known command (List.mem_of_find?_eq_some found))

end Dispatcher

/-! ### Sessions -/

/-- A console at work: the dispatcher with all commands, what these work on, and the desktop around
it. -/
structure Session where
  dispatcher : Dispatcher (Context.Task (StateM Desktop)) := Context.dispatcher.2
  context : Context := {}
  desktop : Desktop := {}

namespace Session

/-- Executes a line, and tells whether its command succeeded. -/
def execute (session : Session) (line : String) : Bool × Session :=
  let ((answer, context), desktop) :=
    session.dispatcher.execute line session.context session.desktop
  (answer.1, { dispatcher := answer.2, context, desktop })

/-- Executes lines one after another, whether they succeed or not. -/
def after (session : Session) (lines : List String) : Session :=
  lines.foldl (fun session line => (session.execute line).2) session

variable {session : Session}

/-- Every command that the session knows spares the context and the files where it fails. -/
def Spares (session : Session) : Prop :=
  ∀ command ∈ session.dispatcher.commands,
    Context.HandlerSpares Desktop.files command.handler

theorem spares_start (desktop : Desktop) : Spares { desktop } := by
  intro command listed
  rcases Dispatcher.mem_of_mem_registerAll listed with always | added
  · simp only [Dispatcher.create, List.mem_cons, List.not_mem_nil, or_false] at always
    rcases always with rfl | rfl <;> trivial
  · exact Context.handlerSpares_commands Desktop.careful command added

theorem Spares.execute (spares : session.Spares) (line : String) :
    (session.execute line).2.Spares := by
  have commands : (session.execute line).2.dispatcher.commands = session.dispatcher.commands := by
    rcases session.dispatcher.execute_cases line session.context session.desktop with
      same | stopped
    · exact congrArg Dispatcher.commands same
    · exact congrArg (fun answer => answer.2.commands) stopped
  unfold Spares
  rw [commands]
  exact spares

theorem Spares.after (spares : session.Spares) (lines : List String) :
    (session.after lines).Spares := by
  induction lines generalizing session with
  | nil => exact spares
  | cons line rest ih => exact ih (spares.execute line)

theorem Spares.of_failed {line : String} (spares : session.Spares)
    (failed : (session.execute line).1 = false) :
    (session.execute line).2.context = session.context ∧
      (session.execute line).2.desktop.files = session.desktop.files ∧
      (session.execute line).2.dispatcher = session.dispatcher := by
  obtain ⟨context, files⟩ :=
    Dispatcher.spares_execute Desktop.careful spares line session.context session.desktop failed
  refine ⟨context, files, ?_⟩
  rcases session.dispatcher.execute_cases line session.context session.desktop with same | stopped
  · exact same
  · have succeeded : (session.execute line).1 = true := congrArg Prod.fst stopped
    rw [failed] at succeeded
    cases succeeded

end Session

end Croupier
