/-!
# Decimals

A decimal is read as the floating point number nearest to it, and written with the fewest digits that
read back. A number is a significand times a power of two; the decimals that read back as it lie
between the midpoints to its neighbours, ends included when the significand is even. Everything is
decided in exact natural arithmetic.
-/
namespace ToolRoster.Decimal

/-- The number `digits · 10 ^ exponent`, rounded once. Exponents that only leave zero or infinity
are cut short. -/
def nearest (digits : Nat) (exponent : Int) : Float :=
  if digits = 0 then 0.0
  else if 400 < exponent then Float.ofScientific 1 false 400
  else
    let size : Int := (Nat.toDigits 10 digits).length
    if size + exponent < -400 then 0.0
    else if exponent < 0 then Float.ofScientific digits true (-exponent).toNat
    else Float.ofScientific digits false exponent.toNat

structure Numeral where
  digits : Nat
  scale : Int
deriving DecidableEq, Repr

def scaled (base : Nat) (n : Nat) (power : Int) : Nat × Nat :=
  if 0 ≤ power then (n * Nat.pow base power.toNat, 1) else (n, Nat.pow base (-power).toNat)

/-- A positive binary number `significand · 2 ^ power` with the numbers that read back as it,
in units of a quarter of its last place. -/
structure Interval where
  low : Nat
  value : Nat
  high : Nat
  power : Int
  closed : Bool

def Interval.ofBinary (significand : Nat) (power : Int) : Interval where
  low := 4 * significand - (if significand = Nat.pow 2 52 && -1074 < power then 1 else 2)
  value := 4 * significand
  high := 4 * significand + 2
  power := power - 2
  closed := significand % 2 = 0

def Interval.contains (i : Interval) (d : Numeral) : Bool :=
  let (dn, dd) := scaled 10 d.digits d.scale
  let (un, ud) := scaled 2 1 i.power
  let left := dn * ud
  let low := i.low * un * dd
  let high := i.high * un * dd
  if i.closed then low ≤ left && left ≤ high else low < left && left < high

def Interval.distance (i : Interval) (d : Numeral) : Nat :=
  let (dn, dd) := scaled 10 d.digits d.scale
  let (un, ud) := scaled 2 1 i.power
  let left := dn * ud
  let right := i.value * un * dd
  (left - right) + (right - left)

def Interval.floor (i : Interval) (scale : Int) : Nat :=
  let (un, ud) := scaled 2 i.value i.power
  let (gn, gd) := scaled 10 1 scale
  un * gd / (ud * gn)

def Interval.magnitude (i : Interval) (start : Int) : Nat → Int
  | 0 => start
  | fuel + 1 => if i.floor start = 0 then start else i.magnitude (start + 1) fuel

/-- The better of the value's two neighbours on a grid, if one lies in the interval. -/
def Interval.onGrid (i : Interval) (scale : Int) : Option Numeral :=
  let below : Numeral := ⟨i.floor scale, scale⟩
  let above : Numeral := ⟨below.digits + 1, scale⟩
  match i.contains below, i.contains above with
  | true, true =>
    let b := i.distance below
    let a := i.distance above
    if b < a || (b = a && below.digits % 2 = 0) then some below else some above
  | true, false => some below
  | false, true => some above
  | false, false => none

def Interval.search (i : Interval) (magnitude : Int) : Nat → Nat → Numeral
  | _, 0 => ⟨i.floor (magnitude - 17), magnitude - 17⟩
  | count, fuel + 1 =>
    match i.onGrid (magnitude - count) with
    | some d => d
    | none => i.search magnitude (count + 1) fuel

def Numeral.trimZeros (d : Numeral) : Nat → Numeral
  | 0 => d
  | fuel + 1 =>
    if d.digits ≠ 0 && d.digits % 10 = 0 then Numeral.trimZeros ⟨d.digits / 10, d.scale + 1⟩ fuel
    else d

def shortest (significand : Nat) (power : Int) : Numeral :=
  let i := Interval.ofBinary significand power
  let guess := ((significand.log2 : Int) + power) * 30103 / 100000 - 1
  (i.search (i.magnitude guess 5) 1 17).trimZeros 20

inductive Parts where
  | nan
  | infinite (negative : Bool)
  | finite (negative : Bool) (significand : Nat) (power : Int)
deriving DecidableEq, Repr

def Parts.ofFloat (x : Float) : Parts :=
  let bits := x.toBits.toNat
  let negative := bits / Nat.pow 2 63 == 1
  let field : Nat := bits / Nat.pow 2 52 % 2048
  let fraction : Nat := bits % Nat.pow 2 52
  if field = 2047 then if fraction = 0 then .infinite negative else .nan
  else if field = 0 then .finite negative fraction (-1074)
  else .finite negative (Nat.pow 2 52 + fraction) ((field : Int) - 1075)

end ToolRoster.Decimal
