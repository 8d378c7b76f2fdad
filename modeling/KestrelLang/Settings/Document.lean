import KestrelLang.Settings.Toml.Apply
import KestrelLang.Settings.Yaml.Apply
import KestrelLang.Settings.Yaml.Tree
import KestrelLang.Settings.Yaml.Writer
import KestrelLang.Text.Strings
import KestrelLang.Workspace.Path

/-! # Settings files

* `SettingsFormat` — the formats of settings files; `SettingsFormat.nameOf` finds one by a path.
* `SettingsError` — why a text holds no settings, with its wording.
* `Config.read` — the settings of a text over the usual ones.
* `Config.text` — settings as a text. -/

namespace KestrelLang

inductive SettingsFormat where
  | yaml | toml
  deriving DecidableEq, Repr, Inhabited

namespace SettingsFormat

def ofName? : String → Option SettingsFormat
  | "yaml" => some .yaml
  | "toml" => some .toml
  | _ => none

def nameOf (path : String) : String :=
  let extension := Path.extension path
  match Text.lowerAscii extension with
  | ".toml" => "toml"
  | ".yaml" | ".yml" => "yaml"
  | _ => String.ofList (extension.toList.drop 1)

end SettingsFormat

inductive SettingsError where
  | unsupported (format : String)
  | yamlSyntax (error : Yaml.SyntaxError)
  | yamlContents (error : Yaml.ContentError)
  | tomlSyntax (error : Toml.SyntaxError)
  | tomlContents (complaint : Toml.Complaint)
  | faulty (fault : ConfigFault)
  deriving Inhabited

def unsupportedText (format : String) : String := "unsupported config format " ++ Text.quote format

def SettingsError.message : SettingsError → String
  | .unsupported format => unsupportedText format
  | .yamlSyntax error => error.message
  | .yamlContents error => error.message
  | .tomlSyntax error => s!"line {error.line}: " ++ error.message
  | .tomlContents complaint => s!"line {complaint.line}: " ++ complaint.problem.message
  | .faulty fault => fault.message

namespace Config

def decode (format : SettingsFormat) (text : String) : Except SettingsError Config :=
  match format with
  | .yaml =>
    match Yaml.read text with
    | .error e => .error (.yamlSyntax e)
    | .ok none => .ok usual
    | .ok (some document) => (Yaml.apply document usual).mapError .yamlContents
  | .toml =>
    match Toml.read text with
    | .error e => .error (.tomlSyntax e)
    | .ok fields => (Toml.apply fields usual).mapError .tomlContents

def checked (c : Config) : Except SettingsError Config :=
  match c.fault? with
  | some fault => .error (.faulty fault)
  | none => .ok c

def read (format text : String) : Except SettingsError Config :=
  match SettingsFormat.ofName? format with
  | none => .error (.unsupported format)
  | some f =>
    match decode f text with
    | .ok c => c.checked
    | .error e => .error e

def text (c : Config) : SettingsFormat → String
  | .yaml => Yaml.configText c
  | .toml => Toml.configText c

end Config

end KestrelLang
