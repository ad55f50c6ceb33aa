/-
The shortest decimal that reads back to a float, written positionally.

A finite float stands for an interval of reals: those that round to it, the ends
included exactly when its significand is even.  On the decimal grid with `n` digits
the value has two neighbours; the first grid, from one digit upwards, on which one
of them lies in the interval gives the digits.  If both do, the nearer is taken,
and the upper one on a tie.  All of it is exact arithmetic on natural numbers.

The layout never uses an exponent: large values are filled up with zeros, small ones
start with `0.`, and an integral value has no point.  The sign of zero is kept.
-/
namespace Interception.Decimal

/-- A positive value with the ends of its rounding interval, over one denominator. -/
structure Interval where
  low : Nat
  value : Nat
  high : Nat
  den : Nat
  /-- The ends themselves round to the value. -/
  closed : Bool

namespace Interval

/-- The interval of the finite non-zero float with this stored exponent and fraction.
A power of two has a lower neighbour at half the usual distance. -/
def ofParts (exponent fraction : Nat) : Interval :=
  let significand := if exponent = 0 then fraction else fraction + Nat.pow 2 52
  let below := if fraction = 0 ∧ 1 < exponent then 1 else 2
  let up := Nat.pow 2 (max exponent 1 - 1077)
  { low := (4 * significand - below) * up
    value := 4 * significand * up
    high := (4 * significand + 2) * up
    den := Nat.pow 2 (1077 - max exponent 1)
    closed := significand % 2 = 0 }

/-- `d` grid steps, each worth `num / den'` of a unit, lie in the interval. -/
def holds (i : Interval) (up down d : Nat) : Bool :=
  let x := d * i.den * down
  if i.closed then i.low * up ≤ x && x ≤ i.high * up
  else i.low * up < x && x < i.high * up

/-- The power of ten just above the value. -/
def magnitude (i : Interval) : Int :=
  if i.den ≤ i.value then ((Nat.toDigits 10 (i.value / i.den)).length : Int)
  else
    match (List.range 400).find? fun j => i.den ≤ i.value * Nat.pow 10 (j + 1) with
    | some j => -(j : Int)
    | none => -400

/-- The neighbour of the value on a grid of this step that reads back to it. -/
def onGrid (i : Interval) (step : Int) : Option Nat :=
  let up := Nat.pow 10 (-step).toNat
  let down := Nat.pow 10 step.toNat
  let unit := i.den * down
  let d := i.value * up / unit
  match i.holds up down d, i.holds up down (d + 1) with
  | true, true => if unit ≤ 2 * (i.value * up - d * unit) then some (d + 1) else some d
  | true, false => some d
  | false, true => some (d + 1)
  | false, false => none

/-- Digits and decimal exponent of the shortest decimal in the interval. -/
def shortest (i : Interval) : Nat × Int :=
  let top := i.magnitude
  let found := (List.range 17).findSome? fun (n : Nat) =>
    let step := top - ((n + 1 : Nat) : Int)
    (i.onGrid step).map (·, step)
  found.getD (0, 0)

end Interval

/-- Write `d` times ten to the `exponent`, `d` not zero, without an exponent. -/
def positional (d : Nat) (exponent : Int) : String :=
  let all := Nat.toDigits 10 d
  let digits := (all.reverse.dropWhile (· == '0')).reverse
  let exponent := exponent + (all.length - digits.length : Nat)
  let point := (digits.length : Int) + exponent
  let zeros (n : Int) : List Char := List.replicate n.toNat '0'
  String.ofList <|
    if 0 ≤ exponent then digits ++ zeros exponent
    else if 0 < point then
      digits.take point.toNat ++ '.' :: digits.drop point.toNat
    else '0' :: '.' :: (zeros (-point) ++ digits)

/-- The text of a float. -/
def ofFloat (x : Float) : String :=
  let bits := x.toBits.toNat
  let exponent := bits / Nat.pow 2 52 % Nat.pow 2 11
  let fraction := bits % Nat.pow 2 52
  let sign := if bits / Nat.pow 2 63 = 1 then "-" else ""
  if exponent = 2047 then
    if fraction = 0 then sign ++ "inf" else "NaN"
  else if exponent = 0 ∧ fraction = 0 then sign ++ "0"
  else
    let (d, e) := (Interval.ofParts exponent fraction).shortest
    sign ++ positional d e

end Interception.Decimal
