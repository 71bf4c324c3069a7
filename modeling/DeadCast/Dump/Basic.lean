import DeadCast.Finding.Basic

/-!
# Dumps

Cppcheck writes a dump of what it knows about a source file: for each configuration the list of
tokens, the scopes, and what its value analysis found out about the value of a token on a path.
This is the model of a parsed dump.

Attributes may be missing, and those that are there may hold anything, so an attribute is an
optional `Datum`.  Only the name of a class is known to be a label.  Tokens and scopes point at each other by their position in the configuration.
-/

namespace DeadCast

/-- One thing that the value analysis says about a token. -/
structure Fact where
  value : Option Datum := none
  kind : Option Datum := none
  bound : Option Datum := none
  path : Option Datum := none

/-- The type of the value of a token; `scope` is the scope that declares it. -/
structure ValueType where
  type : Option Datum := none
  pointer : Option Datum := none
  scope : Option Nat := none

/-- A token. -/
structure Token where
  str : Option Datum := none
  file : Option Datum := none
  line : Option Datum := none
  column : Option Datum := none
  isName : Option Datum := none
  isNumber : Option Datum := none
  isCast : Option Datum := none
  /-- What the token answers when it is asked for its known integer value. -/
  knownValue : Option Datum := none
  next : Option Nat := none
  link : Option Nat := none
  operand1 : Option Nat := none
  operand2 : Option Nat := none
  valueType : Option ValueType := none
  facts : List Fact := []

/-- A scope.  `address` tells it from all other scopes, whatever its attributes say. -/
structure Scope where
  address : Nat := 0
  id : Option Datum := none
  type : Option Datum := none
  className : Option Label := none
  bodyStart : Option Nat := none
  bodyEnd : Option Nat := none
  /-- The name tokens of the variables of the scope. -/
  nameTokens : List (Option Nat) := []

/-- A configuration: the code under one choice of preprocessor symbols.  `listed` are the tokens
that are looked at for casts, in order. -/
structure Configuration where
  name : Option Datum := none
  tokens : Array Token := #[]
  scopes : Array Scope := #[]
  listed : List Nat := []

namespace Configuration

/-- The token at a position. -/
def token? (c : Configuration) (k : Nat) : Option Token := c.tokens[k]?

/-- The token that an optional position leads to. -/
def follow? (c : Configuration) (k : Option Nat) : Option Token := k.bind c.token?

end Configuration

namespace Token

/-- What is written in the source; the empty text if that is not known. -/
def text (t : Token) : Datum := (t.str.getD (.text "")).orElse (.text "")

/-- The text of a token that may be missing. -/
def textOf : Option Token → Datum
  | some t => t.text
  | none => .text ""

/-- Where the token stands. -/
def location (t : Token) : Location where
  file := (t.file.getD (.text "")).orElse (.text "")
  line := (t.line.getD (.int 0)).orElse (.int 0)
  column := (t.column.getD (.int 0)).orElse (.int 0)

end Token

end DeadCast
