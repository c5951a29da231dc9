/-!
The decimal text of a binary floating-point number: the fewest significant digits that read back as
the same number, and of those the nearest to it.

A finite positive number is `m * 2 ^ q`.  The reals that round to it form an interval whose ends
belong to it exactly when `m` is even.  `shortestDigits` tries one digit, then two, and so on.
-/

namespace ReactMigration.Decimal

/-- A positive real `numerator / denominator`. -/
structure Ratio where
  numerator : Nat
  denominator : Nat

/-- `m * 2 ^ q` as a ratio. -/
def Ratio.ofBinary (m : Nat) (q : Int) : Ratio :=
  if 0 ≤ q then ⟨m * Nat.pow 2 q.toNat, 1⟩ else ⟨m, Nat.pow 2 (-q).toNat⟩

/-- `r * 10 ^ e`. -/
def Ratio.scale (r : Ratio) (e : Int) : Ratio :=
  if 0 ≤ e then ⟨r.numerator * Nat.pow 10 e.toNat, r.denominator⟩
  else ⟨r.numerator, r.denominator * Nat.pow 10 (-e).toNat⟩

/-- Whether one ratio is less than another. -/
def Ratio.lt (a b : Ratio) : Bool :=
  a.numerator * b.denominator < b.numerator * a.denominator

/-- Whether one ratio is at most another. -/
def Ratio.le (a b : Ratio) : Bool :=
  a.numerator * b.denominator ≤ b.numerator * a.denominator

/-- The interval of reals that round to one floating-point number. -/
structure Rounding where
  low : Ratio
  value : Ratio
  high : Ratio
  /-- Whether the ends round to the number too. -/
  closed : Bool

/-- Whether a ratio rounds to the value. -/
def Rounding.holds (r : Rounding) (x : Ratio) : Bool :=
  if r.closed then r.low.le x && x.le r.high else r.low.lt x && x.lt r.high

/-- The interval around `m * 2 ^ q`; below a power of two the gap is half as wide. -/
def Rounding.ofBinary (m : Nat) (q : Int) (narrowBelow : Bool) : Rounding where
  low := if narrowBelow then .ofBinary (4 * m - 1) (q - 2) else .ofBinary (2 * m - 1) (q - 1)
  value := .ofBinary m q
  high := .ofBinary (2 * m + 1) (q - 1)
  closed := m % 2 == 0

/-- The decimal exponent `e` with `10 ^ e ≤ x < 10 ^ (e + 1)`, searched downwards from `e`. -/
def leadingExponent (x : Ratio) : Nat → Int → Int
  | 0, e => e
  | fuel + 1, e => if (Ratio.scale ⟨1, 1⟩ e).le x then e else leadingExponent x fuel (e - 1)

/-- Of the two neighbours of the value on the grid of `10 ^ e`, the one that reads back; the nearer
when both do. -/
def neighbour? (r : Rounding) (e : Int) : Option Nat :=
  let scaled := r.value.scale (-e)
  let below := scaled.numerator / scaled.denominator
  let at' (n : Nat) : Ratio := Ratio.scale ⟨n, 1⟩ e
  let lowOk := 0 < below && r.holds (at' below)
  let highOk := r.holds (at' (below + 1))
  let twice := 2 * (scaled.numerator - below * scaled.denominator)
  if lowOk && highOk then
    if twice < scaled.denominator then some below
    else if scaled.denominator < twice then some (below + 1)
    else if below % 2 == 0 then some below else some (below + 1)
  else if lowOk then some below
  else if highOk then some (below + 1)
  else none

/-- The digits as a number and the decimal exponent of its last digit, from `count` digits up. -/
def shortestFrom (r : Rounding) (lead : Int) : Nat → Nat → Nat × Int
  | 0, count => (r.value.numerator / r.value.denominator, lead - count)
  | fuel + 1, count =>
      let e := lead - (count : Int) + 1
      match neighbour? r e with
      | some n => (n, e)
      | none => shortestFrom r lead fuel (count + 1)

/-- The fewest digits that read back as `m * 2 ^ q`, with the exponent of the last one. -/
def shortestDigits (m : Nat) (q : Int) (narrowBelow : Bool) : Nat × Int :=
  let r := Rounding.ofBinary m q narrowBelow
  shortestFrom r (leadingExponent r.value 700 310) 18 1

/-- How a floating-point number is written: positional for leading exponents from `least` up to but
not including `limit`, with a fraction always, and otherwise with a signed exponent. -/
structure Format where
  least : Int
  limit : Int
  infinity : String
  notANumber : String

/-- Zeros removed from the end of a digit text, at least one digit staying. -/
def trimZeros (digits : List Char) : List Char :=
  match (digits.reverse.dropWhile (· == '0')).reverse with
  | [] => ['0']
  | ds => ds

/-- The text of `digits * 10 ^ e` for a positive number. -/
def Format.positive (f : Format) (n : Nat) (e : Int) : String :=
  let all := Nat.toDigits 10 n
  let lead := e + (all.length : Int) - 1
  let digits := trimZeros all
  if f.least ≤ lead && lead < f.limit then
    if lead < 0 then
      "0." ++ String.ofList (List.replicate (-lead - 1).toNat '0' ++ digits)
    else
      let width := lead.toNat + 1
      let whole := digits.take width ++ List.replicate (width - digits.length) '0'
      let part := digits.drop width
      String.ofList (whole ++ '.' :: (if part.isEmpty then ['0'] else part))
  else
    let mantissa :=
      match digits with
      | d :: d' :: ds => d :: '.' :: d' :: ds
      | ds => ds
    let size := lead.natAbs
    let pad := if size < 10 then ['0'] else []
    String.ofList (mantissa ++ 'e' :: (if lead < 0 then '-' else '+') :: pad ++ Nat.toDigits 10 size)

/-- The text of a floating-point number. -/
def Format.text (f : Format) (x : Float) : String :=
  let bits := x.toBits.toNat
  let sign := if bits / Nat.pow 2 63 == 1 then "-" else ""
  let exponent : Nat := bits / Nat.pow 2 52 % 2048
  let fraction : Nat := bits % Nat.pow 2 52
  if exponent == 2047 then
    if fraction == 0 then sign ++ f.infinity else f.notANumber
  else if exponent == 0 && fraction == 0 then sign ++ "0.0"
  else
    let m := if exponent == 0 then fraction else fraction + Nat.pow 2 52
    let q : Int := (if exponent == 0 then 1 else Int.ofNat exponent) - 1075
    let (n, e) := shortestDigits m q (fraction == 0 && 1 < exponent)
    sign ++ f.positive n e

/-- A decimal `digits * 10 ^ e` as the nearest floating-point number. -/
def toFloat (digits : Nat) (e : Int) : Float :=
  let size := (Nat.toDigits 10 digits).length
  if digits == 0 then 0.0
  else if (size : Int) + e < -400 then 0.0
  else if 400 < (size : Int) + e then 1.0 / 0.0
  else if 0 ≤ e then Float.ofScientific (digits * Nat.pow 10 e.toNat) false 0
  else Float.ofScientific digits true (-e).toNat

end ReactMigration.Decimal
