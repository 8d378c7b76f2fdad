import KestrelLang.Settings.Yaml.Cursor

/-! # YAML tokens

* `Yaml.TokenKind` — what a token is: marks of structure, names, tags, scalars.
* `Yaml.Token` — a token with both its ends. -/

namespace KestrelLang.Yaml

/-- What a token is. Collections in blocks have a start and an end of their own, although only the
    indentation shows them. -/
inductive TokenKind where
  | streamStart
  | streamEnd
  | versionDirective (major minor : Nat)
  | tagDirective (handle expansion : String)
  | documentStart
  | documentEnd
  | blockSequenceStart
  | blockMappingStart
  | blockEnd
  | flowSequenceStart
  | flowSequenceEnd
  | flowMappingStart
  | flowMappingEnd
  | blockEntry
  | flowEntry
  | key
  | value
  | alias (name : String)
  | anchor (name : String)
  /-- A tag as a handle, which may be empty, and what follows it. -/
  | tag (handle suffix : String)
  | scalar (text : String) (plain : Bool)
  deriving DecidableEq, Repr, Inhabited

structure Token where
  kind : TokenKind
  start : Mark
  stop : Mark
  deriving DecidableEq, Repr, Inhabited

end KestrelLang.Yaml
