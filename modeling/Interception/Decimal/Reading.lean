/-
Reading numbers from text.

An integer is an optional sign and at least one digit, and must fit.  A float is an
optional sign and either digits with at most one point among or around them and an
optional exponent, or one of the words for infinity and for the value that is not a
number, in any case.  Nothing may precede or follow.  A decimal is rounded once, to
the nearest float; magnitudes far outside the range are decided before any power of
ten is formed.
-/
namespace Interception.Decimal

/-- The value of a list of digits. -/
def ofDigits (ds : List Char) : Nat := ds.foldl (fun n c => 10 * n + (c.toNat - '0'.toNat)) 0

/-- One or more digits and nothing else. -/
def digits? (cs : List Char) : Option Nat :=
  if !cs.isEmpty && cs.all Char.isDigit then some (ofDigits cs) else none

/-- A sign, if there is one, and the rest. -/
def splitSign : List Char → Bool × List Char
  | '-' :: cs => (true, cs)
  | '+' :: cs => (false, cs)
  | cs => (false, cs)

/-- A signed integer of any size. -/
def integer? (cs : List Char) : Option Int :=
  let (negative, rest) := splitSign cs
  (digits? rest).map fun n => if negative then -(n : Int) else n

/-- A 64-bit signed integer. -/
def int64? (text : String) : Option Int64 :=
  (integer? text.toList).bind fun n =>
    if Int64.minValue.toInt ≤ n ∧ n ≤ Int64.maxValue.toInt then some (Int64.ofInt n) else none

/-- A 64-bit count: no minus sign, but a plus sign is allowed. -/
def count? (text : String) : Option Nat :=
  let rest := match text.toList with
    | '+' :: cs => cs
    | cs => cs
  (digits? rest).bind fun n => if n < UInt64.size then some n else none

/-- The float nearest to `d` times ten to the `exponent`. -/
def nearestFloat (d : Nat) (exponent : Int) : Float :=
  let size := ((Nat.toDigits 10 d).length : Int) + exponent
  if d = 0 ∨ size < -400 then 0
  else if 400 < size then 1 / 0
  else Float.ofScientific d (exponent < 0) exponent.natAbs

/-- The exponent after the mark, or zero where there is no mark. -/
def exponent? : List Char → Option Int
  | [] => some 0
  | c :: cs => if c = 'e' ∨ c = 'E' then integer? cs else none

/-- An unsigned decimal. -/
def decimal? (cs : List Char) : Option Float :=
  let whole := cs.takeWhile Char.isDigit
  let rest := cs.dropWhile Char.isDigit
  let (fraction, rest) := match rest with
    | '.' :: more => (more.takeWhile Char.isDigit, more.dropWhile Char.isDigit)
    | _ => ([], rest)
  if whole.isEmpty && fraction.isEmpty then none
  else (exponent? rest).map fun e =>
    nearestFloat (ofDigits (whole ++ fraction)) (e - fraction.length)

/-- A float. -/
def float? (text : String) : Option Float :=
  let (negative, rest) := splitSign text.toList
  let word := String.ofList (rest.map Char.toLower)
  let magnitude :=
    if word = "inf" ∨ word = "infinity" then some (1 / 0)
    else if word = "nan" then some (0 / 0)
    else decimal? rest
  magnitude.map fun x => if negative then -x else x

end Interception.Decimal
