import DeadCast.Number.Decimal

/-!
# Closed integer intervals

What is known about an operand on one path is a set of integers, and the smallest piece of such a
set is a closed interval.  Either edge may be missing, and a missing edge is a constructor of its
own rather than a very large number, so nothing here depends on the width of an integer.

* `Lower` and `Upper` are the two edges.  They are different types: an interval cannot start at
  the far right or end at the far left.
* `Interval` carries the proof that its lower edge does not pass its upper edge, so an interval
  always holds at least one integer.
* `n ∈ i` is membership; `Interval.contains` is its boolean form.
* `Interval.Before` says that one interval ends below the start of the next, `Interval.touches`
  that no integer lies between them, and `Interval.join` is the interval that covers both.
-/

namespace DeadCast

/-! ## Edges -/

/-- The lower edge of an interval: missing, or the least integer of the interval. -/
inductive Lower where
  | unbounded
  | limit (n : Int)
  deriving DecidableEq, Repr

/-- The upper edge of an interval: missing, or the greatest integer of the interval. -/
inductive Upper where
  | unbounded
  | limit (n : Int)
  deriving DecidableEq, Repr

namespace Lower

/-- The integers on the right side of a lower edge. -/
def Admits : Lower → Int → Prop
  | .unbounded, _ => True
  | .limit a, n => a ≤ n

instance (l : Lower) (n : Int) : Decidable (l.Admits n) :=
  match l with
  | .unbounded => isTrue trivial
  | .limit a => Int.decLe a n

/-- Lower edges from left to right; a missing edge comes first. -/
def le : Lower → Lower → Bool
  | .unbounded, _ => true
  | .limit _, .unbounded => false
  | .limit a, .limit b => decide (a ≤ b)

/-- The lower edge that leaves out more: the right one of two. -/
def tighten : Lower → Int → Lower
  | .unbounded, n => .limit n
  | .limit a, n => if a < n then .limit n else .limit a

/-- May the edge be written? -/
def isWritable : Lower → Bool
  | .unbounded => true
  | .limit n => DeadCast.isWritable n

/-- The text of a lower edge. -/
def text : Lower → String
  | .unbounded => "-∞"
  | .limit a => decimal a

end Lower

namespace Upper

/-- The integers on the left side of an upper edge. -/
def Admits : Upper → Int → Prop
  | .unbounded, _ => True
  | .limit b, n => n ≤ b

instance (u : Upper) (n : Int) : Decidable (u.Admits n) :=
  match u with
  | .unbounded => isTrue trivial
  | .limit b => Int.decLe n b

/-- The right one of two upper edges. -/
def max : Upper → Upper → Upper
  | .unbounded, _ => .unbounded
  | .limit _, .unbounded => .unbounded
  | .limit a, .limit b => if a < b then .limit b else .limit a

/-- The upper edge that leaves out more: the left one of two. -/
def tighten : Upper → Int → Upper
  | .unbounded, n => .limit n
  | .limit b, n => if n < b then .limit n else .limit b

/-- May the edge be written? -/
def isWritable : Upper → Bool
  | .unbounded => true
  | .limit n => DeadCast.isWritable n

/-- The text of an upper edge. -/
def text : Upper → String
  | .unbounded => "+∞"
  | .limit b => decimal b

end Upper

/-- A lower edge does not pass an upper edge: some integer lies between them. -/
def Lower.Below : Lower → Upper → Prop
  | .limit a, .limit b => a ≤ b
  | _, _ => True

instance (l : Lower) (u : Upper) : Decidable (l.Below u) :=
  match l, u with
  | .limit a, .limit b => Int.decLe a b
  | .unbounded, .limit _ => isTrue trivial
  | .unbounded, .unbounded => isTrue trivial
  | .limit _, .unbounded => isTrue trivial

/-! ## Intervals -/

/-- A closed interval of integers; it is never empty. -/
structure Interval where
  lo : Lower
  hi : Upper
  ordered : lo.Below hi
  deriving DecidableEq, Repr

namespace Interval

instance : Membership Int Interval where
  mem i n := i.lo.Admits n ∧ i.hi.Admits n

instance (n : Int) (i : Interval) : Decidable (n ∈ i) :=
  inferInstanceAs (Decidable (i.lo.Admits n ∧ i.hi.Admits n))

/-- The interval that holds one integer. -/
def point (n : Int) : Interval := ⟨.limit n, .limit n, Int.le_refl n⟩

/-- The interval of all integers. -/
def full : Interval := ⟨.unbounded, .unbounded, trivial⟩

/-- Does the interval hold exactly one integer? -/
def isPoint (i : Interval) : Bool :=
  match i.lo, i.hi with
  | .limit a, .limit b => a == b
  | _, _ => false

/-- Are both edges missing? -/
def isFull (i : Interval) : Bool :=
  match i.lo, i.hi with
  | .unbounded, .unbounded => true
  | _, _ => false

/-- Membership as a boolean. -/
def contains (i : Interval) (n : Int) : Bool := decide (n ∈ i)

/-- `a` ends below the start of `b`, so they are disjoint and in order. -/
def Before (a b : Interval) : Prop :=
  match a.hi, b.lo with
  | .limit h, .limit l => h < l
  | _, _ => False

instance (a b : Interval) : Decidable (a.Before b) := by
  unfold Before
  split
  · exact Int.decLt _ _
  · exact isFalse id

/-- Given that `b` does not start left of `a`: no integer lies between them. -/
def touches (a b : Interval) : Bool :=
  match a.hi, b.lo with
  | .limit h, .limit l => decide (l ≤ h + 1)
  | _, _ => true

theorem below_max {l : Lower} {u v : Upper} (h : l.Below u) : l.Below (u.max v) := by
  cases l with
  | unbounded => cases u.max v <;> exact trivial
  | limit a =>
    cases u with
    | unbounded => exact trivial
    | limit b =>
      cases v with
      | unbounded => exact trivial
      | limit c =>
        have hab : a ≤ b := h
        simp only [Upper.max]
        split
        · rename_i hbc
          exact Int.le_trans hab (Int.le_of_lt hbc)
        · exact hab

/-- The interval from the start of `a` to the further end of the two. -/
def join (a b : Interval) : Interval := ⟨a.lo, a.hi.max b.hi, below_max a.ordered⟩

/-- May both edges be written? -/
def isWritable (i : Interval) : Bool := i.lo.isWritable && i.hi.isWritable

/-- The interval in mathematical notation, such as `[0, +∞]`. -/
def text (i : Interval) : String := "[" ++ i.lo.text ++ ", " ++ i.hi.text ++ "]"

end Interval

end DeadCast
