import DeadCast.IntervalSet.Basic
import DeadCast.Number.Shortest
import DeadCast.Severity
import DeadCast.Text.Quoted

/-!
# Values of attributes, options and reports

The attributes of a dump, the options of a run and the fields of a finding are not typed: a
collaborator may put anything there, and the checker has to say what it makes of it.  `Datum` is
any such value.

* `Datum.same` is equality of values: numbers of all kinds are equal if they are worth the same,
  truth values count as `0` and `1`, lists and tuples are equal item by item.
* `Datum.sameKey` is equality of keys and items.  It differs only for what is not a number: that
  equals nothing, but it is found again where it was put.
* `Datum.isTrue` says which values count as true.
* `Datum.literal` writes a value so that its kind can be seen, `Datum.display` as plain text.
  `Datum.isWritable` says whether that is possible: a value with too long an integer in it cannot be
  written, and asking for it is a fault.
* `Datum.kind` is the word for its kind in messages.
-/

namespace DeadCast

/-- A value as it stands in an attribute, an option or a report. -/
inductive Datum where
  /-- The value that stands for no value. -/
  | nothing
  | bool (b : Bool)
  | int (n : Int)
  | real (x : Binary64)
  | text (s : String)
  | list (items : List Datum)
  | tuple (items : List Datum)
  /-- The edge below all integers. -/
  | belowAll
  /-- The edge above all integers. -/
  | aboveAll
  /-- What a range query answers about an operand that it does not track. -/
  | unavailable
  | interval (i : Interval)
  | ranges (r : IntervalSet)
  | severity (s : Severity)
  /-- The identity of an object that has no identifier of its own. -/
  | address (n : Nat)

namespace Datum

instance : Inhabited Datum := ⟨.nothing⟩

/-! ## Kinds -/

/-- The word for the kind of a value. -/
def kind : Datum → String
  | .nothing => "NoneType"
  | .bool _ => "bool"
  | .int _ => "int"
  | .real _ => "float"
  | .text _ => "str"
  | .list _ => "list"
  | .tuple _ => "tuple"
  | .belowAll => "_Unbounded"
  | .aboveAll => "_Unbounded"
  | .unavailable => "_Unavailable"
  | .interval _ => "Interval"
  | .ranges _ => "RangeSet"
  | .severity _ => "DiagnosticSeverity"
  | .address _ => "int"

/-- Is this the value that stands for nothing? -/
def isNothing : Datum → Bool
  | .nothing => true
  | _ => false

/-- What a number is worth; truth values are numbers too. -/
def numeric? : Datum → Option Numeric
  | .bool b => some (.exact (if b then 1 else 0))
  | .int n => some (.exact n)
  | .real x => some x.numeric
  | _ => none

/-! ## Equality and truth -/

/-- Are both the one value that is not a number with the same mark? -/
def sameUndefined : Datum → Datum → Bool
  | .real (.undefined m), .real (.undefined n) => m == n
  | _, _ => false

mutual

/-- Equality of values. -/
def same : Datum → Datum → Bool
  | .nothing, .nothing => true
  | .text s, .text t => s == t
  | .list xs, .list ys => sameItems xs ys
  | .tuple xs, .tuple ys => sameItems xs ys
  | .belowAll, .belowAll => true
  | .aboveAll, .aboveAll => true
  | .unavailable, .unavailable => true
  | .interval i, .interval j => i == j
  | .ranges r, .ranges s => r == s
  | .severity s, .severity t => s == t
  | .address m, .address n => m == n
  | a, b =>
    match a.numeric?, b.numeric? with
    | some x, some y => x.same y
    | _, _ => false

/-- Equality of values, item by item. -/
def sameItems : List Datum → List Datum → Bool
  | [], [] => true
  | x :: xs, y :: ys => (sameUndefined x y || same x y) && sameItems xs ys
  | _, _ => false

end

/-- Equality of keys and items: equal values, or one and the same value that is not a number. -/
def sameKey (a b : Datum) : Bool := sameUndefined a b || same a b

/-- Which values count as true: all but nothing, zero, and the empty text, list and tuple. -/
def isTrue : Datum → Bool
  | .nothing => false
  | .bool b => b
  | .int n => n != 0
  | .real x => !(x.numeric.same (.exact 0))
  | .text s => s != ""
  | .list items => !items.isEmpty
  | .tuple items => !items.isEmpty
  | _ => true

/-- The value itself if it counts as true, else another one. -/
def orElse (d fallback : Datum) : Datum := if d.isTrue then d else fallback

/-- Is `d` one of the values? -/
def isAmong (d : Datum) (ds : List Datum) : Bool := ds.any (·.sameKey d)

/-- Is the value this very text? -/
def isText (d : Datum) (s : String) : Bool := d.same (.text s)

/-! ## Text -/

/-- A lower edge as a value. -/
def ofLower : Lower → Datum
  | .unbounded => .belowAll
  | .limit n => .int n

/-- An upper edge as a value. -/
def ofUpper : Upper → Datum
  | .unbounded => .aboveAll
  | .limit n => .int n

/-- Items of a tuple; a single one is followed by a comma. -/
def tupleText : List String → String
  | [item] => "(" ++ item ++ ",)"
  | items => "(" ++ ", ".intercalate items ++ ")"

mutual

/-- The value as it is written in messages, text in quotes. -/
def literal : Datum → String
  | .nothing => "None"
  | .bool b => if b then "True" else "False"
  | .int n => decimal n
  | .real x => x.text
  | .text s => Text.quoted s
  | .list items => "[" ++ ", ".intercalate (literals items) ++ "]"
  | .tuple items => tupleText (literals items)
  | .belowAll => Lower.text .unbounded
  | .aboveAll => Upper.text .unbounded
  | .unavailable => "UNAVAILABLE"
  | .interval i => "Interval(lo=" ++ i.lo.text ++ ", hi=" ++ i.hi.text ++ ")"
  | .ranges r => "RangeSet(" ++ r.text ++ ")"
  | .severity s => "<" ++ s.constant ++ ": " ++ Text.quoted s.word ++ ">"
  | .address n => decimal n

/-- The values of a list as they are written in messages. -/
def literals : List Datum → List String
  | [] => []
  | d :: ds => literal d :: literals ds

end

mutual

/-- May all integers of the value be written? -/
def isWritable : Datum → Bool
  | .int n => DeadCast.isWritable n
  | .list items => areWritable items
  | .tuple items => areWritable items
  | .interval i => i.isWritable
  | .ranges r => r.isWritable
  | _ => true

/-- May all integers of the values be written? -/
def areWritable : List Datum → Bool
  | [] => true
  | d :: ds => isWritable d && areWritable ds

end

/-- The value as plain text. -/
def display : Datum → String
  | .text s => s
  | .interval i => i.text
  | .severity s => s.constant
  | d => d.literal

end Datum

end DeadCast
