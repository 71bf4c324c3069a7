import DeadCast.Dump.Known

/-!
# The enumerators of an enumeration

The enumerators are read off the tokens of the body.  `walk` follows the tokens from the opening
brace on and says what part each of them plays: the name of an enumerator, a comma after which the
next name is expected, a bracket whose contents are skipped, or nothing.  `constants` then gives the
enumerators their values by the rules of C: the known value of the name, else that of its
initializer, else one more than the enumerator before it.

Links may lead anywhere, so a walk need not end.  A position is left in one of two states, with a
name expected or not; a walk that takes more steps than there are such states repeats itself
forever, and is cut off there (`Walk.ended`).
-/

namespace DeadCast

/-! ## The walk -/

/-- The part that a token of an enumeration body plays. -/
inductive Role where
  | name
  /-- A bracket that is linked to the given position. -/
  | bracket (link : Nat)
  | comma
  | other
  deriving DecidableEq, Repr

/-- A token that was visited, and its part. -/
structure Visit where
  position : Nat
  role : Role
  deriving DecidableEq, Repr

/-- The tokens that a walk visited, and whether it came to an end. -/
structure Walk where
  visits : List Visit
  ended : Bool
  deriving DecidableEq, Repr

namespace EnumBody

/-- Is the text an opening bracket? -/
def opens (d : Datum) : Bool := d.isText "(" || d.isText "[" || d.isText "\x7b"

/-- The part of a token; `expecting` says whether the name of an enumerator may come. -/
def roleOf (expecting : Bool) (t : Token) : Role :=
  if expecting && (t.isName.getD (.bool false)).isTrue then .name
  else
    match opens t.text, t.link with
    | true, some link => .bracket link
    | _, _ => if t.text.isText "," then .comma else .other

/-- Is a name expected after a token of this part? -/
def expectingAfter (expecting : Bool) : Role → Bool
  | .name => false
  | .comma => true
  | _ => expecting

/-- The position after a token of this part. -/
def positionAfter (c : Configuration) (t : Token) : Role → Option Nat
  | .bracket link => (c.token? link).bind Token.next
  | _ => t.next

/-- Follows the tokens until the end of the body, the end of the tokens, or the last step. -/
def walkFrom (c : Configuration) (stop : Nat) : Nat → Bool → Option Nat → Walk
  | _, _, none => ⟨[], true⟩
  | 0, _, some position => ⟨[], position == stop⟩
  | steps + 1, expecting, some position =>
    if position = stop then ⟨[], true⟩
    else
      match c.token? position with
      | none => ⟨[], true⟩
      | some t =>
        let role := roleOf expecting t
        let rest := walkFrom c stop steps (expectingAfter expecting role) (positionAfter c t role)
        ⟨⟨position, role⟩ :: rest.visits, rest.ended⟩

/-- The walk through a body, from the token after its opening brace. -/
def walk (c : Configuration) (start stop : Nat) : Walk :=
  walkFrom c stop (2 * c.tokens.size + 1) true ((c.token? start).bind Token.next)

/-! ## Values -/

/-- The value of the initializer behind an equals sign: that of its expression, or, without one,
that of a single token. -/
def initializerValue (c : Configuration) (equals : Token) : Except Fault (Option Int) :=
  match c.follow? equals.operand2 with
  | some root => root.knownInteger
  | none =>
    let first := c.follow? equals.next
    let after := Token.textOf (c.follow? (first.bind Token.next))
    if after.isText "," || after.isText "\x7d" then Token.knownIntegerOf first else .ok none

/-- The value of an enumerator that comes after an enumerator of value `previous`. -/
def enumeratorValue (c : Configuration) (previous : Option Int) (name : Token) :
    Except Fault (Option Int) := do
  match ← name.knownInteger with
  | some n => return some n
  | none =>
    match c.follow? name.next with
    | some next =>
      if next.text.isText "=" then initializerValue c next else return previous.map (· + 1)
    | none => return previous.map (· + 1)

/-- The values of the enumerators among the visited tokens, after one of value `previous`. -/
def valuesFrom (c : Configuration) (previous : Option Int) :
    List Visit → Except Fault (List (Option Int))
  | [] => .ok []
  | v :: rest =>
    match v.role, c.token? v.position with
    | .name, some t => do
      let value ← enumeratorValue c previous t
      return value :: (← valuesFrom c value rest)
    | _, _ => valuesFrom c previous rest

/-- The values of the enumerators between two braces; the first is `0` if nothing else is known. -/
def constants (c : Configuration) (start stop : Nat) : Except Fault (List (Option Int)) := do
  let w := walk c start stop
  let values ← valuesFrom c (some (-1)) w.visits
  if w.ended then return values else throw .endlessBody

end EnumBody

namespace Scope

/-- The values of the enumerators that a scope declares, in order.  Without a body they are the
known values of the variables of the scope. -/
def constants (c : Configuration) (s : Scope) : Except Fault (List (Option Int)) :=
  match s.bodyStart, s.bodyEnd with
  | some start, some stop => EnumBody.constants c start stop
  | _, _ => s.nameTokens.mapM fun name => Token.knownIntegerOf (c.follow? name)

end Scope

end DeadCast
