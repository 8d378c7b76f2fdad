import KestrelLang.Code.Listing
import KestrelLang.Command.Line
import KestrelLang.Host.Session
import KestrelLang.Report.Diagnostic
import KestrelLang.Report.Log
import KestrelLang.Report.Table
import KestrelLang.Settings.Document
import KestrelLang.Workspace.Scripts

/-! # Performing commands

* `Exit` — what a command wrote, and its exit code.
* `settingsFor` — the settings of an invocation: a file, then flags over it.
* `compileScripts` — the programs of the scripts that are named.
* `runScripts`, `checkScripts`, `listScript`, `showConfig` — the commands.
* `Performance` — what became of a command line: an exit, the start of an interactive session, or a
  run that broke off.
* `perform` — performs a command line in a workspace. -/

namespace KestrelLang

def toolVersion : String := "0.1.0-dev"

def helpText : String :=
  "usage: kestrel [--config FILE] [--log.level LEVEL] [--log.format FORMAT] [--log.file FILE] COMMAND\n"
    ++ String.join (CommandName.all.map fun c => "  " ++ c.text ++ " " ++ c.argumentsText ++ "\n")

/-! ## Exits -/

def exitFailure : Nat := 1

def exitUsage : Nat := 2

/-- Help was asked for about something that does not exist. -/
def exitTopic : Nat := 3

structure Exit where
  code : Nat
  out : String
  err : String
  deriving DecidableEq, Repr, Inhabited

namespace Exit

def quiet : Exit := ⟨0, "", ""⟩

def write (e : Exit) (text : String) : Exit := { e with out := e.out ++ text }

def warn (e : Exit) (text : String) : Exit := { e with err := e.err ++ text ++ "\n" }

def fail (e : Exit) (code : Nat) (message : String) : Exit := { e.warn message with code := code }

end Exit

/-! ## Settings -/

def readSettings (w : Workspace) (path : String) : Except String Config :=
  let format := SettingsFormat.nameOf path
  let named := fun text : String => "config " ++ path ++ ": " ++ text
  match w.readFile path with
  | .error .isDirectory =>
    let reading := "read " ++ path ++ ": " ++ PathFault.isDirectory.message
    match SettingsFormat.ofName? format with
    | none => .error (named (unsupportedText format))
    | some .yaml => .error (named ("yaml: input error: " ++ reading))
    | some .toml => .error (named reading)
  | .error fault => .error ("config: open " ++ path ++ ": " ++ fault.message)
  | .ok bytes =>
    (Config.read format (String.ofList (Text.decodeUtf8 bytes))).mapError fun e => named e.message

def overrideSettings (globals locals : Flags) (c : Config) : Config :=
  let log := { c.log with
    level := (globals.text? logLevelFlag).getD c.log.level
    format := (globals.text? logFormatFlag).getD c.log.format
    file := (globals.text? logFileFlag).getD c.log.file }
  { c with
    log := log
    engine := { c.engine with maxCallDepth := (locals.int? maxDepthFlag).getD c.engine.maxCallDepth }
    parallel := ⟨(locals.int? workersFlag).getD c.parallel.workers⟩ }

def settingsFor (w : Workspace) (globals locals : Flags) : Except String Config := do
  let file := (globals.text? configFlag).getD ""
  let base ← if file = "" then pure Config.usual else readSettings w file
  let c := overrideSettings globals locals base
  match c.fault? with
  | some fault => throw fault.message
  | none =>
    let _ ← Logger.new c.log.level c.log.format false
    return c

/-! ## Scripts -/

def explain (w : Workspace) (e : Failure) : String := e.diagnostic.describe w.dir

def compileScripts (w : Workspace) : List String → Except String (List (String × Program))
  | [] => .ok []
  | argument :: rest => do
    let script ← (w.load argument).mapError Failure.message
    let program ← (compileModule script.origin script.tree).1.mapError (explain w)
    return (script.origin, program) :: (← compileScripts w rest)

inductive Performance where
  | exit (e : Exit)
  /-- An interactive session is to start under these settings. -/
  | interact (c : Config)
  /-- A run broke off. -/
  | broken
  deriving Inhabited

def runInOrder (w : Workspace) (c : Config) (fuel : Nat) (e : Exit) :
    List (String × Program) → Performance
  | [] => .exit e
  | (_, p) :: rest =>
    match (Thread.new 1).run (c.options.limits none none) fuel p with
    | none => .broken
    | some report =>
      let e := e.write report.out
      match report.outcome with
      | .value _ => runInOrder w c fuel e rest
      | .failure f => .exit (e.fail exitFailure (explain w f))
      | .aborted => .broken

def firstFailure? (w : Workspace) (reports : List (String × Report)) : Option String :=
  reports.findSome? fun (name, report) =>
    match report.outcome with
    | .failure f => some (name ++ ": " ++ explain w f)
    | _ => none

/-- Runs programs independently; what they wrote comes in order. -/
def runIndependently (w : Workspace) (c : Config) (fuel : Nat) (programs : List (String × Program)) :
    Performance :=
  let jobs := programs.map fun (name, p) => (⟨name, some p, none⟩ : Job)
  let results := (runJobs c.options fuel none jobs).map fun (job, r) => r.map fun r => (job.name, r)
  match results.mapM id with
  | none => .broken
  | some reports =>
    let e := Exit.quiet.write (String.join (reports.map fun (_, r) => r.out))
    match firstFailure? w reports with
    | some message => .exit (e.fail exitFailure message)
    | none => .exit e

def runScripts (w : Workspace) (c : Config) (fuel : Nat) (locals : Flags)
    (programs : List (String × Program)) : Performance :=
  if locals.isOn parallelFlag && 1 < programs.length then runIndependently w c fuel programs
  else runInOrder w c fuel .quiet programs

def labelTable (p : Program) : Table where
  header := ["Label", "Definitions", "Local", "Non-local"]
  rows := p.labelReport.map fun s =>
    [s.label, toString s.definitions, toString s.locals, toString s.nonLocals]

def checkOne (labels : Bool) (e : Exit) (name : String) (p : Program) : Exit :=
  let e := p.warnings.foldl (fun e warning => e.warn (name ++ ": warning: " ++ warning)) e
  if labels then e.write (name ++ ":\n" ++ (labelTable p).text) else e.write (name ++ ": ok\n")

def checkScripts (locals : Flags) (programs : List (String × Program)) : Exit :=
  programs.foldl (fun e (name, p) => checkOne (locals.isOn labelsFlag) e name p) .quiet

def listingTable (u : CodeUnit) : Table where
  header := ["#", "Op", "Operands"]
  rows := u.listing.map fun l => [toString l.index, l.op, l.operands]

def listScript (programs : List (String × Program)) : Exit :=
  let units := programs.flatMap fun (_, p) => p.units
  units.foldl (fun e u => e.write (nameOrAnon u.name ++ ":\n" ++ (listingTable u).text)) .quiet

def showConfig (locals : Flags) (c : Config) : Exit :=
  let format := (locals.text? formatFlag).getD "toml"
  match SettingsFormat.ofName? format with
  | some f => Exit.quiet.write (c.text f)
  | none => Exit.quiet.fail exitUsage ("config: unknown format " ++ Text.quote format)

/-! ## Command lines -/

def missingArguments (name : CommandName) : Exit :=
  Exit.quiet.fail exitUsage (name.text ++ ": required arguments: " ++ name.argumentsText)

def withScripts (w : Workspace) (name : CommandName) (arguments : List String)
    (next : List (String × Program) → Performance) : Performance :=
  if arguments.isEmpty then .exit (missingArguments name)
  else
    match compileScripts w arguments with
    | .error message => .exit (Exit.quiet.fail exitFailure message)
    | .ok programs => next programs

def performWith (w : Workspace) (fuel : Nat) (name : CommandName) (locals : Flags) (c : Config) :
    Performance :=
  match name with
  | .run => withScripts w name locals.rest (runScripts w c fuel locals)
  | .check => withScripts w name locals.rest fun ps => .exit (checkScripts locals ps)
  | .disasm => withScripts w name locals.rest fun ps => .exit (listScript ps)
  | .repl => .interact c
  | .config => .exit (showConfig locals c)

def argumentFault? (name : CommandName) (arguments : List String) : Option Exit :=
  match name, arguments with
  | .disasm, [_] => none
  | .disasm, _ => some (missingArguments name)
  | .repl, [] => none
  | .repl, _ =>
    let given := " ".intercalate arguments
    some (Exit.quiet.fail exitUsage ("repl does not take arguments (received " ++ given ++ ")"))
  | _, _ => none

def performInvocation (w : Workspace) (fuel : Nat) : Invocation → Performance
  | .version => .exit (Exit.quiet.write ("kestrel version " ++ toolVersion ++ "\n"))
  | .help => .exit (Exit.quiet.write helpText)
  | .unknownTopic name => .exit (Exit.quiet.fail exitTopic ("No help topic for '" ++ name ++ "'"))
  | .command name globals locals =>
    match argumentFault? name locals.rest with
    | some e => .exit e
    | none =>
      match settingsFor w globals locals with
      | .error message => .exit (Exit.quiet.fail exitUsage message)
      | .ok c => performWith w fuel name locals c

def perform (w : Workspace) (fuel : Nat) (arguments : List String) : Performance :=
  match readCommandLine arguments with
  | .error e => .exit (Exit.quiet.fail exitUsage e.message)
  | .ok invocation => performInvocation w fuel invocation

end KestrelLang
