import Bellows.Binary64.Rounding

/-!
Binary64 numbers. A finite one is a sign and an exact count of grains, so that order, differences
and rounding are facts about whole numbers; negative zero is kept apart from zero.
-/
namespace Bellows

/-- A binary64 number: not a number, an infinity, or a finite number of grains. -/
inductive Binary64
  | nan
  | infinite (negative : Bool)
  | finite (negative : Bool) (grains : Nat) (representable : Binary64.Representable grains)
  deriving DecidableEq

/-- Why a number has no whole part. -/
inductive NotFinite
  | nan
  | infinite
  deriving DecidableEq, Repr

namespace Binary64

variable {x y : Binary64}

/-- The grains in one. -/
def unit : Nat := Nat.pow 2 grainBits

/-- Zero, without a sign. -/
def zero : Binary64 := .finite false 0 representable_zero

instance : Inhabited Binary64 := ⟨zero⟩

/-- The number nearest to `num / den` grains; from the ceiling on it is infinite. -/
def ofGrains (negative : Bool) (num den : Nat) : Binary64 :=
  if h : nearest num den < ceiling then .finite negative (nearest num den) (representable_nearest h)
  else .infinite negative

/-- The number nearest to `num / den`. -/
def ofRatio (negative : Bool) (num den : Nat) : Binary64 := ofGrains negative (num * unit) den

def isNan : Binary64 → Bool
  | .nan => true
  | _ => false

def isFinite : Binary64 → Bool
  | .finite .. => true
  | _ => false

/-- The number itself, unless it was too large to be finite. -/
def finite? (x : Binary64) : Option Binary64 := if x.isFinite then some x else none

/-- The finite number nearest to a rational. -/
def ofRat? (q : Rat) : Option Binary64 := (ofRatio (q < 0) q.num.natAbs q.den).finite?

/-- The finite number nearest to a whole number. -/
def ofInt? (n : Int) : Option Binary64 := (ofRatio (n < 0) n.natAbs 1).finite?

/-- Whole numbers below `2 ^ 53` are exact. -/
def ofNat (n : Nat) : Binary64 := ofRatio false n 1

/-- A magnitude with its sign. -/
def signed (negative : Bool) (n : Nat) : Int := if negative then -(n : Int) else n

/-- The place of a number in the order: its grains, the infinities at the ceiling. -/
def rank : Binary64 → Int
  | .nan => 0
  | .infinite s => signed s ceiling
  | .finite s n _ => signed s n

/-- The exact value of a finite number. -/
def toRat? : Binary64 → Option Rat
  | .finite s n _ => some (mkRat (signed s n) unit)
  | _ => none

/-- Strictly below; never with something that is not a number. -/
def lt (x y : Binary64) : Bool := !x.isNan && !y.isNan && x.rank < y.rank

/-- At most; never with something that is not a number. -/
def le (x y : Binary64) : Bool := !x.isNan && !y.isNan && x.rank ≤ y.rank

/-- The order for sorting: by rank, what is not a number last. -/
def sortsBefore (x y : Binary64) : Bool := y.isNan || (!x.isNan && x.rank ≤ y.rank)

/-- Equality of values: zero equals negative zero, and `nan` equals nothing. -/
def same (x y : Binary64) : Bool := !x.isNan && !y.isNan && x.rank == y.rank

/-- The same magnitude with the other sign. -/
def neg : Binary64 → Binary64
  | .nan => .nan
  | .infinite s => .infinite !s
  | .finite s n h => .finite (!s) n h

/-- The sum, rounded once. An exact zero is negative only for two negative zeros. -/
def add : Binary64 → Binary64 → Binary64
  | .nan, _ | _, .nan => .nan
  | .infinite s, .infinite t => if s = t then .infinite s else .nan
  | .infinite s, .finite .. => .infinite s
  | .finite .., .infinite t => .infinite t
  | .finite s m _, .finite t n _ =>
    let sum := signed s m + signed t n
    if sum = 0 then .finite (s && t) 0 representable_zero
    else ofGrains (sum < 0) sum.natAbs 1

/-- The difference, rounded once. -/
def sub (x y : Binary64) : Binary64 := add x (neg y)

/-- The product with a whole number, rounded once. -/
def times : Binary64 → Nat → Binary64
  | .finite s n _, k => ofGrains s (n * k) 1
  | .infinite s, k => if k = 0 then .nan else .infinite s
  | .nan, _ => .nan

/-- The quotient by a positive whole number, rounded once. -/
def dividedBy : Binary64 → Nat → Binary64
  | .finite s n _, d => ofGrains s n d
  | x, _ => x

/-- The nearest multiple of a thousandth, a half to the even one, as the nearest number to it. -/
def roundThousandths : Binary64 → Binary64
  | .finite s n _ => ofRatio s (roundHalfEven (n * 1000) unit) 1000
  | x => x

/-- The greatest whole number not above a finite number. -/
def floor : Binary64 → Except NotFinite Int
  | .nan => .error .nan
  | .infinite _ => .error .infinite
  | .finite s n _ => .ok (Int.fdiv (signed s n) unit)

theorem sortsBefore_total (x y : Binary64) : (sortsBefore x y || sortsBefore y x) = true := by
  unfold sortsBefore
  cases hx : x.isNan <;> cases hy : y.isNan <;> simp
  omega

theorem sortsBefore_trans (x y z : Binary64) (hxy : sortsBefore x y = true)
    (hyz : sortsBefore y z = true) : sortsBefore x z = true := by
  unfold sortsBefore at *
  cases hx : x.isNan <;> cases hy : y.isNan <;> cases hz : z.isNan <;> simp_all
  omega

end Binary64
end Bellows
