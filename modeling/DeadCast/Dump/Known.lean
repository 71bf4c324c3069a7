import DeadCast.Dump.Basic
import DeadCast.Dump.Literal

/-!
# Known values

The value of a token may be known in three ways, of which the first that applies counts: the token
answers when it is asked, the value analysis has a fact of the kind `known`, or the token is a
number literal.
-/

namespace DeadCast

/-- Turns a failed conversion into a fallback.  Only an infinity is not forgiven. -/
def forgiving {α : Type} (fallback : α) : Except Fault α → Except Fault α
  | .ok a => .ok a
  | .error .infiniteInteger => .error .infiniteInteger
  | .error _ => .ok fallback

namespace Fact

/-- The path on which the fact holds; `0` is every path, and so is what is no number. -/
def pathId (f : Fact) : Except Fault Int :=
  forgiving 0 ((f.path.getD (.int 0)).orElse (.int 0)).toInteger

/-- The integer that the fact is about, if there is one. -/
def integer (f : Fact) : Except Fault (Option Int) :=
  match f.value with
  | none => .ok none
  | some .nothing => .ok none
  | some (.bool _) => .ok none
  | some d => forgiving none (d.toInteger.map some)

/-- The kind of the fact. -/
def kindOf (f : Fact) : Datum := f.kind.getD (.text "")

end Fact

/-- The integer of the first fact of the kind `known` that has one. -/
def firstKnown : List Fact → Except Fault (Option Int)
  | [] => .ok none
  | f :: rest =>
    if f.kindOf.isText "known" then do
      match ← f.integer with
      | some n => return some n
      | none => firstKnown rest
    else
      firstKnown rest

namespace Token

/-- Is an attribute exactly the truth value `true`? -/
def isSet : Option Datum → Bool
  | some (.bool b) => b
  | _ => false

/-- The value of a token as a literal. -/
def literalValue (t : Token) : Except Fault (Option Int) :=
  match t.text with
  | .text s => .ok (Literal.value? s)
  | d => .error (.noAttribute d.kind "rstrip")

/-- The known integer value of a token. -/
def knownInteger (t : Token) : Except Fault (Option Int) :=
  match t.knownValue with
  | some (.int n) => .ok (some n)
  | _ => do
    match ← firstKnown t.facts with
    | some n => return some n
    | none => if isSet t.isNumber then t.literalValue else return none

/-- The known integer value of a token that may be missing. -/
def knownIntegerOf : Option Token → Except Fault (Option Int)
  | some t => t.knownInteger
  | none => .ok none

end Token

end DeadCast
