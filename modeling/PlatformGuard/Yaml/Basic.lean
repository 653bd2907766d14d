/-!
# YAML values

The tree of a YAML document: scalars, sequences and mappings, where a key may be any value. A value
may have an anchor, and be referred to by it from further down in the document.
-/

namespace PlatformGuard

namespace Yaml

/-- How a scalar is written. -/
inductive ScalarStyle where
  /-- Without quotes. -/
  | plain
  | quoted
  /-- Indented, with the line breaks kept. -/
  | literal
  /-- Indented, with lines joined. -/
  | folded
deriving Repr, DecidableEq

end Yaml

open Yaml in
/-- A YAML value. Tags matter for scalars only. -/
inductive Yaml where
  /-- A text; a plain one may stand for a number, a truth value or nothing. -/
  | scalar (style : ScalarStyle) (tag : Option String) (text : String)
  | sequence (items : List Yaml)
  | mapping (entries : List (Yaml × Yaml))
  /-- A value with the number of its anchor. -/
  | anchored (number : Nat) (value : Yaml)
  /-- The value with an anchor. -/
  | reference (number : Nat)

namespace Yaml

/-- The value where none is written. -/
def blank : Yaml :=
  scalar .plain none ""

mutual
def anchors : Yaml → List (Nat × Yaml)
  | scalar _ _ _ | reference _ => []
  | sequence items => anchorsAll items
  | mapping entries => anchorsEntries entries
  | anchored number value => (number, value) :: anchors value

def anchorsAll : List Yaml → List (Nat × Yaml)
  | [] => []
  | v :: rest => anchors v ++ anchorsAll rest

def anchorsEntries : List (Yaml × Yaml) → List (Nat × Yaml)
  | [] => []
  | (k, v) :: rest => anchors k ++ anchors v ++ anchorsEntries rest
end

/-- What a document is made of, besides blanks and comments. -/
inductive Token where
  | directive
  | documentStart
  | documentEnd
  /-- Indentation starts a sequence. -/
  | sequenceStart
  /-- Indentation starts a mapping. -/
  | mappingStart
  /-- Indentation ends a sequence or mapping. -/
  | blockEnd
  /-- An item of an indented sequence follows. -/
  | entry
  /-- A key follows. -/
  | key
  /-- The value of a key follows. -/
  | value
  | openBracket
  | closeBracket
  | openBrace
  | closeBrace
  | comma
  | scalar (style : ScalarStyle) (text : String)
  /-- The value that follows has an anchor. -/
  | anchor (number : Nat)
  /-- The value that follows has a tag. -/
  | tag (name : String)
  | reference (number : Nat)
deriving Repr, DecidableEq

end Yaml

end PlatformGuard
