import KestrelLang.Host.Options
import KestrelLang.Text.Strings

/-! # Settings

* `Config` — all settings: of the engine, of the log and of parallel runs.
* `Config.usual` — the settings without a file.
* `Config.fault?` — the first setting that nothing can run with.
* `Config.options` — the part that an interpreter needs. -/

namespace KestrelLang

/-- Settings of the engine. A negative depth lifts the limit. -/
structure EngineSettings where
  maxCallDepth : Int
  checkpointInterval : Int
  cacheSize : Int
  deriving DecidableEq, Repr, Inhabited

/-- Settings of the log. An empty file stands for the standard error stream. -/
structure LogSettings where
  level : String
  format : String
  file : String
  maxSizeMB : Int
  maxBackups : Int
  maxAgeDays : Int
  compress : Bool
  deriving DecidableEq, Repr, Inhabited

structure ParallelSettings where
  workers : Int
  deriving DecidableEq, Repr, Inhabited

structure Config where
  engine : EngineSettings
  log : LogSettings
  parallel : ParallelSettings
  deriving DecidableEq, Repr, Inhabited

inductive ConfigFault where
  /-- A setting that has to be positive is not. -/
  | notPositive (key : String) (given : Int)
  /-- A log format that does not exist. -/
  | logFormat (given : String)
  deriving DecidableEq, Repr, Inhabited

def ConfigFault.message : ConfigFault → String
  | .notPositive key given => key ++ s!" must be positive, got {given}"
  | .logFormat given => "log.format must be auto, text or json, got " ++ Text.quote given

namespace Config

def usual : Config where
  engine := ⟨Options.usualDepth, Options.usualInterval, Options.usualCacheSize⟩
  log := ⟨"warn", "auto", "", 16, 3, 28, false⟩
  parallel := ⟨4⟩

def fault? (c : Config) : Option ConfigFault :=
  if c.engine.checkpointInterval ≤ 0 then
    some (.notPositive "engine.checkpoint_interval" c.engine.checkpointInterval)
  else if c.engine.cacheSize ≤ 0 then some (.notPositive "engine.cache_size" c.engine.cacheSize)
  else if c.parallel.workers ≤ 0 then some (.notPositive "parallel.workers" c.parallel.workers)
  else if c.log.format = "auto" || c.log.format = "text" || c.log.format = "json" then none
  else some (.logFormat c.log.format)

def options (c : Config) : Options :=
  ⟨c.engine.maxCallDepth, c.engine.checkpointInterval, c.engine.cacheSize⟩

end Config

end KestrelLang
