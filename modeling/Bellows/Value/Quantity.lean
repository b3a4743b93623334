import Bellows.Binary64.Basic

/-!
Numbers as documents hold them: whole numbers of any size and binary64 numbers, compared by value.
-/
namespace Bellows

/-- A whole number of any size, or a binary64 number. -/
inductive Quantity
  | whole (n : Int)
  | real (x : Binary64)
  deriving DecidableEq

namespace Quantity

/-- How two numbers compare by value; `none` where one of them is not a number. -/
def order? : Quantity → Quantity → Option Ordering
  | .whole m, .whole n => some (compare m n)
  | .real x, .real y => if x.isNan || y.isNan then none else some (compare x.rank y.rank)
  | .whole m, .real y => wholeToReal m y
  | .real x, .whole n => (wholeToReal n x).map Ordering.swap
where
  /-- A whole number against a binary64 number; every whole number lies between the infinities. -/
  wholeToReal (m : Int) : Binary64 → Option Ordering
    | .nan => none
    | .infinite negative => some (if negative then .gt else .lt)
    | .finite s n _ => some (compare (m * Binary64.unit) (Binary64.signed s n))

def lt (a b : Quantity) : Bool := order? a b = some .lt

def le (a b : Quantity) : Bool := order? a b = some .lt || order? a b = some .eq

def same (a b : Quantity) : Bool := order? a b = some .eq

/-- The nearest binary64 number; a whole number that is too large has none. -/
def toBinary64? : Quantity → Option Binary64
  | .whole n => Binary64.ofInt? n
  | .real x => some x

end Quantity
end Bellows
