import StackScript.Floating.Basic

/-!
# Floating-point arithmetic

The four operations, negation and comparison. Sums, products and quotients of finite values are
computed exactly and rounded once. The invalid operations give the NaN, and the NaN compares with
nothing.

## Main definitions

* `Floating.neg`, `Floating.add`, `Floating.sub`, `Floating.mul`, `Floating.div`: the operations.
* `Floating.compare?`: the order of two values, none when one of them is the NaN.
-/

namespace StackScript

namespace Floating

variable {fmt : Format}

/-- A magnitude with a sign. -/
def signed (negative : Bool) (magnitude : Nat) : Int :=
  if negative then -(magnitude : Int) else magnitude

/-- The value with the opposite sign. -/
def neg : Floating fmt → Floating fmt
  | .nan => .nan
  | .infinite negative => .infinite (!negative)
  | .finite negative m e h => .finite (!negative) m e h

/-- The rounded sum. Opposite values give the positive zero. -/
def add : Floating fmt → Floating fmt → Floating fmt
  | .nan, _ => .nan
  | _, .nan => .nan
  | .infinite s, .infinite t => if s = t then .infinite s else .nan
  | .infinite s, .finite .. => .infinite s
  | .finite .., .infinite t => .infinite t
  | .finite s m e _, .finite t n f _ =>
    -- in units of the smaller last place both terms are whole
    let place := min e f
    let sum := signed s (m * powNum 2 (e - place)) + signed t (n * powNum 2 (f - place))
    -- a zero sum is negative only if both terms are
    if sum = 0 then zero (s && t) else ofDyadic (decide (sum < 0)) sum.natAbs place

/-- The rounded difference. -/
def sub (x y : Floating fmt) : Floating fmt :=
  add x (neg y)

/-- The rounded product. -/
def mul : Floating fmt → Floating fmt → Floating fmt
  | .nan, _ => .nan
  | _, .nan => .nan
  | .infinite s, .infinite t => .infinite (s != t)
  | .infinite s, .finite t n _ _ => if n = 0 then .nan else .infinite (s != t)
  | .finite s m _ _, .infinite t => if m = 0 then .nan else .infinite (s != t)
  | .finite s m e _, .finite t n f _ => ofDyadic (s != t) (m * n) (e + f)

/-- The rounded quotient. A nonzero value over zero is infinite. -/
def div : Floating fmt → Floating fmt → Floating fmt
  | .nan, _ => .nan
  | _, .nan => .nan
  | .infinite _, .infinite _ => .nan
  | .infinite s, .finite t _ _ _ => .infinite (s != t)
  | .finite s _ _ _, .infinite t => zero (s != t)
  | .finite s m e _, .finite t n f _ =>
    if n = 0 then if m = 0 then .nan else .infinite (s != t)
    else ofRatio (s != t) (m * powNum 2 (e - f)) (n * powDen 2 (e - f))

/-- The order of two values; the NaN has none. The two zeros are equal. -/
def compare? : Floating fmt → Floating fmt → Option Ordering
  | .nan, _ => none
  | _, .nan => none
  | .infinite s, .infinite t => some (compare t s)
  | .infinite s, .finite .. => some (if s then .lt else .gt)
  | .finite .., .infinite t => some (if t then .gt else .lt)
  | .finite s m e _, .finite t n f _ =>
    let place := min e f
    some (compare (signed s (m * powNum 2 (e - place))) (signed t (n * powNum 2 (f - place))))

end Floating

end StackScript
