import KestrelLang.Settings.Config

/-! # Sections and fields

* `Section`, `Field` — the sections of a settings file and the fields in them, in the order in which
  they are written.
* `Setting` — the value of a field.
* `Field.get`, `Field.set?` — reads and changes a field; a value of the wrong type changes nothing.
* `sectionOf?`, `Section.fieldOf?` — look-up by key. -/

namespace KestrelLang

inductive Section where
  | engine | log | parallel
  deriving DecidableEq, Repr, Inhabited

inductive Field where
  | maxCallDepth | checkpointInterval | cacheSize
  | level | format | file | maxSizeMB | maxBackups | maxAgeDays | compress
  | workers
  deriving DecidableEq, Repr, Inhabited

inductive FieldType where
  | int | text | flag
  deriving DecidableEq, Repr, Inhabited

def FieldType.typeText : FieldType → String
  | .int => "int"
  | .text => "string"
  | .flag => "bool"

inductive Setting where
  | int (value : Int)
  | text (value : String)
  | flag (value : Bool)
  deriving DecidableEq, Repr, Inhabited

namespace Section

def all : List Section := [.engine, .log, .parallel]

def key : Section → String
  | .engine => "engine"
  | .log => "log"
  | .parallel => "parallel"

def typeText : Section → String
  | .engine => "config.Engine"
  | .log => "config.Log"
  | .parallel => "config.Parallel"

def fields : Section → List Field
  | .engine => [.maxCallDepth, .checkpointInterval, .cacheSize]
  | .log => [.level, .format, .file, .maxSizeMB, .maxBackups, .maxAgeDays, .compress]
  | .parallel => [.workers]

end Section

def configTypeText : String := "config.Config"

namespace Field

def key : Field → String
  | .maxCallDepth => "max_call_depth"
  | .checkpointInterval => "checkpoint_interval"
  | .cacheSize => "cache_size"
  | .level => "level"
  | .format => "format"
  | .file => "file"
  | .maxSizeMB => "max_size_mb"
  | .maxBackups => "max_backups"
  | .maxAgeDays => "max_age_days"
  | .compress => "compress"
  | .workers => "workers"

def get (c : Config) : Field → Setting
  | .maxCallDepth => .int c.engine.maxCallDepth
  | .checkpointInterval => .int c.engine.checkpointInterval
  | .cacheSize => .int c.engine.cacheSize
  | .level => .text c.log.level
  | .format => .text c.log.format
  | .file => .text c.log.file
  | .maxSizeMB => .int c.log.maxSizeMB
  | .maxBackups => .int c.log.maxBackups
  | .maxAgeDays => .int c.log.maxAgeDays
  | .compress => .flag c.log.compress
  | .workers => .int c.parallel.workers

def type : Field → FieldType
  | .level | .format | .file => .text
  | .compress => .flag
  | .maxCallDepth | .checkpointInterval | .cacheSize | .maxSizeMB | .maxBackups | .maxAgeDays
  | .workers => .int

/-- Changes a field; a value of the wrong type does not fit. -/
def set? (c : Config) : Field → Setting → Option Config
  | .maxCallDepth, .int n => some { c with engine := { c.engine with maxCallDepth := n } }
  | .checkpointInterval, .int n =>
    some { c with engine := { c.engine with checkpointInterval := n } }
  | .cacheSize, .int n => some { c with engine := { c.engine with cacheSize := n } }
  | .level, .text s => some { c with log := { c.log with level := s } }
  | .format, .text s => some { c with log := { c.log with format := s } }
  | .file, .text s => some { c with log := { c.log with file := s } }
  | .maxSizeMB, .int n => some { c with log := { c.log with maxSizeMB := n } }
  | .maxBackups, .int n => some { c with log := { c.log with maxBackups := n } }
  | .maxAgeDays, .int n => some { c with log := { c.log with maxAgeDays := n } }
  | .compress, .flag b => some { c with log := { c.log with compress := b } }
  | .workers, .int n => some { c with parallel := { c.parallel with workers := n } }
  | _, _ => none

end Field

def sectionOf? (key : String) : Option Section := Section.all.find? fun s => s.key = key

def Section.fieldOf? (s : Section) (key : String) : Option Field := s.fields.find? fun f => f.key = key

end KestrelLang
