import DeadCast.Fault

/-!
# The order of values

Numbers of all kinds are in one order, texts are in the order of their code points, lists and
tuples compare at the first place where they differ, and the two unbounded edges stand below and
above every integer.  Nothing else has an order, and asking for one is a fault that names both
kinds.
-/

namespace DeadCast

namespace Datum

/-- A place on the integer line with its two ends. -/
inductive Place where
  | left
  | whole (n : Int)
  | right

/-- Strictly to the left. -/
def Place.lt : Place → Place → Bool
  | .left, .left => false
  | .left, _ => true
  | .whole _, .left => false
  | .whole m, .whole n => m < n
  | .whole _, .right => true
  | .right, _ => false

/-- The place of an edge, an integer or a truth value. -/
def place? : Datum → Option Place
  | .belowAll => some .left
  | .aboveAll => some .right
  | .int n => some (.whole n)
  | .bool b => some (.whole (if b then 1 else 0))
  | _ => none

/-- Is the value one of the two unbounded edges? -/
def isEdge : Datum → Bool
  | .belowAll => true
  | .aboveAll => true
  | _ => false

end Datum

namespace Comparison

/-- The comparison, given whether the left side is less and whether the right side is less.  Of
two values that have an order without being less or greater, `equal` says whether they are
equal. -/
def decideBy (op : Comparison) (less greater equal : Bool) : Bool :=
  match op with
  | .less => less
  | .atMost => less || equal
  | .greater => greater
  | .atLeast => greater || equal

end Comparison

namespace Datum

/-- Compares two edges, integers or truth values. -/
def comparePlaces (op : Comparison) (a b : Place) : Bool :=
  op.decideBy (a.lt b) (b.lt a) (!a.lt b && !b.lt a)

mutual

/-- Compares two values, if they have an order. -/
def compare (op : Comparison) : Datum → Datum → Except Fault Bool
  | .text s, .text t => .ok (op.decideBy (s < t) (t < s) (s == t))
  | .list xs, .list ys => compareItems op xs ys
  | .tuple xs, .tuple ys => compareItems op xs ys
  | a, b =>
    if a.isEdge || b.isEdge then
      match a.place?, b.place? with
      | some p, some q => .ok (comparePlaces op p q)
      | _, _ => .error (.incomparable op a.kind b.kind)
    else
      match a.numeric?, b.numeric? with
      | some x, some y => .ok (op.decideBy (x.lt y) (y.lt x) (x.same y))
      | _, _ => .error (.incomparable op a.kind b.kind)

/-- Compares two lists at the first place where they differ, else by their lengths. -/
def compareItems (op : Comparison) : List Datum → List Datum → Except Fault Bool
  | x :: xs, y :: ys => if sameKey x y then compareItems op xs ys else compare op x y
  | xs, ys =>
    .ok (op.decideBy (decide (xs.length < ys.length)) (decide (ys.length < xs.length))
      (xs.length == ys.length))

end

/-- The greater of two values; the first unless the second is greater. -/
def maximum (a b : Datum) : Except Fault Datum := do
  if ← compare .greater b a then return b else return a

/-- The less of two values; the first unless the second is less. -/
def minimum (a b : Datum) : Except Fault Datum := do
  if ← compare .less b a then return b else return a

/-- Puts a value behind the values of a sorted list, given from the last to the first, that are not
greater. -/
def insertFromEnd (d : Datum) : List Datum → Except Fault (List Datum)
  | [] => .ok [d]
  | e :: rest => do
    if ← compare .less d e then
      return e :: (← insertFromEnd d rest)
    else
      return d :: e :: rest

/-- Sorts values; each is compared with the values in front of it, from the nearest on. -/
def sort (ds : List Datum) : Except Fault (List Datum) := do
  let reversed ← ds.foldlM (fun sorted d => insertFromEnd d sorted) []
  return reversed.reverse

end Datum

end DeadCast
