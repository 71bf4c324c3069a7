import DeadCast.Datum.Order
import DeadCast.Text.Numeral

/-!
# Using values

What can be done with a value besides comparing it: take its items, look for a member, use it as a
key, make it an integer, shift it.  Each is possible for some kinds only and a fault for the
others.
-/

namespace DeadCast

namespace Datum

/-- The characters of a text, as texts. -/
def characters (s : String) : List Datum := s.toList.map fun c => .text (String.ofList [c])

/-- The items of a value: those of a list or tuple, the characters of a text, the intervals of a
set. -/
def items : Datum → Except Fault (List Datum)
  | .list ds => .ok ds
  | .tuple ds => .ok ds
  | .text s => .ok (characters s)
  | .ranges r => .ok (r.parts.map .interval)
  | d => .error (.notIterable d.kind)

/-- Does one text occur inside another? -/
def occursIn (part : List Char) : List Char → Bool
  | [] => part.isEmpty
  | c :: cs => part.isPrefixOf (c :: cs) || occursIn part cs

/-- Is a text a member of a value: one of its items, or a part of a text? -/
def hasText (d : Datum) (s : String) : Except Fault Bool :=
  match d with
  | .text whole => .ok (occursIn s.toList whole.toList)
  | _ =>
    match d.items with
    | .ok ds => .ok ((Datum.text s).isAmong ds)
    | .error _ => .error (.notContainer d.kind)

mutual

/-- Can the value be a key?  A list cannot, nor can a tuple that holds one. -/
def isHashable : Datum → Bool
  | .list _ => false
  | .tuple ds => areHashable ds
  | _ => true

/-- Can all the values be keys? -/
def areHashable : List Datum → Bool
  | [] => true
  | d :: ds => isHashable d && areHashable ds

end

/-- Refuses a value that cannot be a key. -/
def asKey (d : Datum) : Except Fault Unit :=
  if d.isHashable then .ok () else .error (.unhashable "list")

/-- Adds a value that can be a key, unless one that equals it is kept already. -/
def keepOnce (kept : List Datum) (d : Datum) : Except Fault (List Datum) := do
  d.asKey
  return if d.isAmong kept then kept else kept ++ [d]

/-- The first of each group of equal values, in order, if all of them can be keys. -/
def distinct (ds : List Datum) : Except Fault (List Datum) := ds.foldlM keepOnce []

/-- A binary number without its fraction. -/
def truncate : Binary64 → Except Fault Int
  | .finite q => .ok (q.num.tdiv q.den)
  | .negativeZero => .ok 0
  | .infinite _ => .error .infiniteInteger
  | .undefined _ => .error .undefinedInteger

/-- The value as an integer: fractions are cut off, and a text is read as a decimal numeral. -/
def toInteger : Datum → Except Fault Int
  | .int n => .ok n
  | .bool b => .ok (if b then 1 else 0)
  | .real x => truncate x
  | .text s =>
    match Text.decimalNumeral s with
    | .ok n => .ok n
    | .error .malformed => .error (.badNumeral s)
    | .error (.tooLong digits) => .error (.longNumeral digits)
  | d => .error (.notInteger d.kind)

/-- The integer that a value is, if it is one; truth values are not integers here. -/
def integer? : Datum → Option Int
  | .int n => some n
  | _ => none

/-- A number moved by `1` to the right. -/
def successor (d : Datum) : Except Fault Datum :=
  match d with
  | .int n => .ok (.int (n + 1))
  | .bool b => .ok (.int (if b then 2 else 1))
  | .real x => .ok (.real (x.sub (.ofInt (-1))))
  | _ => .error (.notAddable "+" d.kind "int")

/-- A number moved by `1` to the left. -/
def predecessor (d : Datum) : Except Fault Datum :=
  match d with
  | .int n => .ok (.int (n - 1))
  | .bool b => .ok (.int (if b then 0 else -1))
  | .real x => .ok (.real (x.sub (.ofInt 1)))
  | _ => .error (.notAddable "-" d.kind "int")

end Datum

/-! ## Labels -/

/-- A value that names something in messages, so it can be written. -/
structure Label where
  datum : Datum
  isWritable : datum.isWritable = true

namespace Label

/-- A text as a label. -/
def text (s : String) : Label := ⟨.text s, rfl⟩

/-- The label itself if it counts as true, else another one. -/
def orElse (l fallback : Label) : Label := if l.datum.isTrue then l else fallback

end Label

end DeadCast
