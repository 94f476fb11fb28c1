import ToolRoster.Decimal.Shortest
/-!
# Decimal notation

How the digits of a floating point number are laid out: in place, or as digits times a power of ten.
-/
namespace ToolRoster.Decimal

structure Layout where
  inPlace : Option (Int × Int)
  exponentWidth : Nat

def zeros (n : Nat) : List Char := List.replicate n '0'

def placed (ds : List Char) (scale : Int) : List Char :=
  if 0 ≤ scale then ds ++ zeros scale.toNat ++ ['.', '0']
  else
    let places := (-scale).toNat
    if places < ds.length then ds.take (ds.length - places) ++ '.' :: ds.drop (ds.length - places)
    else '0' :: '.' :: zeros (places - ds.length) ++ ds

def scientific (width : Nat) (ds : List Char) (exponent : Int) : List Char :=
  let mantissa := if ds.length ≤ 1 then ds else ds.take 1 ++ '.' :: ds.drop 1
  let e := Nat.toDigits 10 exponent.natAbs
  mantissa ++ 'e' :: (if exponent < 0 then '-' else '+') :: zeros (width - e.length) ++ e

def Layout.render (l : Layout) (d : Numeral) : List Char :=
  let ds := Nat.toDigits 10 d.digits
  let exponent := d.scale + ds.length - 1
  match l.inPlace with
  | none => placed ds d.scale
  | some (low, high) =>
    if low ≤ exponent && exponent ≤ high then placed ds d.scale
    else scientific l.exponentWidth ds exponent

def Layout.text (l : Layout) (x : Float) : String :=
  let signed (negative : Bool) (cs : List Char) : String :=
    .ofList (if negative then '-' :: cs else cs)
  match Parts.ofFloat x with
  | .nan => "NaN"
  | .infinite negative => signed negative "inf".toList
  | .finite negative 0 _ => signed negative "0.0".toList
  | .finite negative significand power =>
    signed negative (l.render (shortest significand power))

end ToolRoster.Decimal
