import KestrelLang.Settings.Yaml.Meaning

/-! # YAML documents

* `Yaml.Node` — a document as a tree with line numbers and tags.
* `Yaml.Document` — the root with the nodes that aliases stand for. -/

namespace KestrelLang.Yaml

/-- A part of a document. Every node but an alias has a tag, given or implied. -/
inductive Node where
  | scalar (line : Nat) (tag value : String)
  | mapping (line : Nat) (tag : String) (entries : List (Node × Node))
  | sequence (line : Nat) (tag : String) (items : List Node)
  /-- Stands for the node with an anchor. `number` tells aliases apart, and `target` is the place of
      the node in the document. -/
  | alias (line : Nat) (name : String) (number target : Nat)
  deriving Inhabited

namespace Node

def line : Node → Nat
  | .scalar line _ _ | .mapping line _ _ | .sequence line _ _ | .alias line _ _ _ => line

def tag : Node → String
  | .scalar _ tag _ | .mapping _ tag _ | .sequence _ tag _ => tag
  | .alias .. => ""

def value : Node → String
  | .scalar _ _ value => value
  | .alias _ name _ _ => name
  | _ => ""

def sameKind : Node → Node → Bool
  | .scalar .., .scalar .. | .mapping .., .mapping .. | .sequence .., .sequence ..
  | .alias .., .alias .. => true
  | _, _ => false

def null (line : Nat) : Node := .scalar line Meaning.null.tag ""

def isMergeKey : Node → Bool
  | .scalar _ tag value => tag = "!!merge" && value = "<<"
  | _ => false

end Node

/-- A document: its root, the nodes that aliases stand for, and a bound for the number of its nodes. -/
structure Document where
  root : Node
  anchored : Array Node
  size : Nat
  deriving Inhabited

def Document.target (d : Document) (i : Nat) : Node := (d.anchored[i]?).getD default

end KestrelLang.Yaml
