/-!
# Ascending lists of integers

A set of integers is kept as the list of its members from least to greatest, each once.
`ascending` brings any list into that form.
-/

namespace DeadCast

/-- Puts an integer at its place in an ascending list, unless it is there already. -/
def insertAscending (n : Int) : List Int → List Int
  | [] => [n]
  | m :: rest =>
    if n < m then n :: m :: rest
    else if n = m then m :: rest
    else m :: insertAscending n rest

/-- The distinct members of a list, from least to greatest. -/
def ascending (ns : List Int) : List Int := ns.foldr insertAscending []

end DeadCast
