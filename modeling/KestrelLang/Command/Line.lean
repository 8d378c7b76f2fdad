import KestrelLang.Command.Flag

/-! # The command line

* `CommandName` — the commands, with the flags of each.
* `Invocation` — what a command line asks for.
* `readCommandLine` — reads a command line. -/

namespace KestrelLang

/-! ## Flags and commands -/

def configFlag : Flag := ⟨["config"], .text⟩

def logLevelFlag : Flag := ⟨["log.level"], .text⟩

def logFormatFlag : Flag := ⟨["log.format"], .text⟩

def logFileFlag : Flag := ⟨["log.file"], .text⟩

def maxDepthFlag : Flag := ⟨["max-depth"], .int⟩

def parallelFlag : Flag := ⟨["parallel"], .switch⟩

def workersFlag : Flag := ⟨["workers"], .int⟩

def labelsFlag : Flag := ⟨["labels"], .switch⟩

def formatFlag : Flag := ⟨["format"], .text⟩

def helpFlag : Flag := ⟨["help", "h"], .switch⟩

def versionFlag : Flag := ⟨["version", "v"], .switch⟩

inductive CommandName where
  | run | check | disasm | repl | config
  deriving DecidableEq, Repr, Inhabited

namespace CommandName

def all : List CommandName := [.run, .check, .disasm, .repl, .config]

def text : CommandName → String
  | .run => "run"
  | .check => "check"
  | .disasm => "disasm"
  | .repl => "repl"
  | .config => "config"

def flags : CommandName → List Flag
  | .run => [maxDepthFlag, parallelFlag, workersFlag, helpFlag]
  | .check => [labelsFlag, helpFlag]
  | .disasm => [helpFlag]
  | .repl => [helpFlag]
  | .config => [formatFlag, helpFlag]

def argumentsText : CommandName → String
  | .run | .check => "<file.kst|dir> [...]"
  | .disasm => "<file.kst>"
  | .repl | .config => ""

end CommandName

def globalFlags : List Flag :=
  [configFlag, logLevelFlag, logFormatFlag, logFileFlag, helpFlag, versionFlag]

/-! ## Invocations -/

inductive Invocation where
  | version
  | help
  /-- Help about something that does not exist. -/
  | unknownTopic (name : String)
  | command (name : CommandName) (globals locals : Flags)
  deriving DecidableEq, Repr, Inhabited

def isHelpWord (s : String) : Bool := s = "help" || s = "h"

/-- Help about the words after a word that asks for it; `known` are the topics that exist. -/
def helpAbout (known : String → Bool) : List String → Invocation
  | topic :: _ => if topic = "" || known topic then .help else .unknownTopic topic
  | [] => .help

def isCommandWord (s : String) : Bool :=
  isHelpWord s || (CommandName.all.any fun c => c.text = s)

def readCommand (name : CommandName) (globals : Flags) (arguments : List String) :
    Except FlagError Invocation :=
  match readFlags name.flags arguments with
  | .error e => .error e
  | .ok locals =>
    if locals.isOn helpFlag then .ok .help
    else
      match locals.rest with
      | word :: more =>
        if isHelpWord word then .ok (helpAbout isHelpWord more)
        else .ok (.command name globals locals)
      | [] => .ok (.command name globals locals)

def readCommandLine (arguments : List String) : Except FlagError Invocation :=
  match readFlags globalFlags arguments with
  | .error e => .error e
  | .ok globals =>
    if globals.isOn helpFlag then .ok .help
    else if globals.isOn versionFlag then .ok .version
    else
      match globals.rest with
      | [] => .ok .help
      | word :: more =>
        if isHelpWord word then .ok (helpAbout isCommandWord more)
        else
          match CommandName.all.find? fun c => c.text = word with
          | some name => readCommand name globals more
          | none => .ok (if word = "" then .help else .unknownTopic word)

end KestrelLang
