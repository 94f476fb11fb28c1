import ToolRoster.Yaml.Token
import ToolRoster.Decimal.Shortest
import ToolRoster.Decode.Problem
/-!
# What scalars mean

A plain scalar without a tag is null, a truth value or a number if it is spelled like one, and text
otherwise. A record takes the text of a scalar where it wants text, so most of this matters only for
messages about values that are of the wrong type.
-/
namespace ToolRoster.Yaml
open Decode (Expected Found Problem)

def isNull (cs : List Char) : Bool :=
  ["null", "Null", "NULL", "~"].any fun s => s.toList = cs

def bool? (cs : List Char) : Option Bool :=
  if ["true", "True", "TRUE"].any (fun s => s.toList = cs) then some true
  else if ["false", "False", "FALSE"].any (fun s => s.toList = cs) then some false
  else none

def digits? (base : Nat) (cs : List Char) : Option Nat :=
  if cs.isEmpty then none
  else
    cs.foldl
      (fun n? c => do
        let d ← Text.digitIn? base c
        some ((← n?) * base + d))
      (some 0)

def baseOf? : List Char → Option (Nat × List Char)
  | '0' :: 'x' :: r => some (16, r)
  | '0' :: 'o' :: r => some (8, r)
  | '0' :: 'b' :: r => some (2, r)
  | _ => none

def isPadded : List Char → Bool
  | '0' :: r => !r.isEmpty && r.all Char.isDigit
  | _ => false

def magnitude? (cs : List Char) : Option Nat :=
  match baseOf? cs with
  | some (base, r) => digits? base r
  | none => if isPadded cs then none else digits? 10 cs

def integer? : List Char → Option Int
  | '-' :: r => (magnitude? r).map fun n => -n
  | '+' :: r => (magnitude? r).map fun n => n
  | r => (magnitude? r).map fun n => n

/-- Integers by the width that holds them: those of 64 bits first, then those of 128. -/
def sized? (n : Int) : Option Found :=
  match n with
  | .ofNat m =>
    if m < Nat.pow 2 64 then some (.integer n)
    else if m < Nat.pow 2 128 then some (.wideInteger n "u128")
    else none
  | .negSucc m =>
    if m < Nat.pow 2 63 then some (.integer n)
    else if m < Nat.pow 2 127 then some (.wideInteger n "i128")
    else none

def sizedInteger? (cs : List Char) : Option Found := (integer? cs).bind sized?

def exponent? : List Char → Option Int
  | '-' :: r => (digits? 10 r).map fun n => -n
  | '+' :: r => (digits? 10 r).map fun n => n
  | r => (digits? 10 r).map fun n => n

def decimal? (cs : List Char) : Option Float := do
  let (whole, r) := (cs.takeWhile Char.isDigit, cs.dropWhile Char.isDigit)
  let (places, r) :=
    match r with
    | '.' :: r => (r.takeWhile Char.isDigit, r.dropWhile Char.isDigit)
    | _ => ([], r)
  let digits ← digits? 10 (whole ++ places)
  let exponent ←
    match r with
    | [] => some 0
    | c :: r => if c = 'e' || c = 'E' then exponent? r else none
  some (Decimal.nearest digits (exponent - places.length))

def finite? (cs : List Char) : Option Float :=
  let x :=
    match cs with
    | '-' :: r => (decimal? r).map fun x => -x
    | '+' :: r => decimal? r
    | r => decimal? r
  x.filter Float.isFinite

def infinities : List String := [".inf", ".Inf", ".INF"]

def float? (cs : List Char) : Option Float :=
  if infinities.any fun s => s.toList = cs || '+' :: s.toList = cs then some (1.0 / 0.0)
  else if infinities.any fun s => '-' :: s.toList = cs then some (-1.0 / 0.0)
  else if [".nan", ".NaN", ".NAN"].any fun s => s.toList = cs then some (0.0 / 0.0)
  else finite? cs

def isPaddedNumber : List Char → Bool
  | '-' :: r => isPadded r
  | '+' :: r => isPadded r
  | r => isPadded r

def plainFound (cs : List Char) : Found :=
  if cs.isEmpty || isNull cs then .nothing
  else
    match bool? cs with
    | some b => .bool b
    | none =>
      match sizedInteger? cs with
      | some n => n
      | none =>
        match if isPaddedNumber cs then none else float? cs with
        | some x => .float x
        | none => .text (.ofList cs)

def tagOf (name : String) : List Char := "tag:yaml.org,2002:".toList ++ name.toList

def isLocal (tag : List Char) : Bool := tag.head? = some '!'

def mismatch (tag : Option (List Char)) (style : Style) (cs : List Char) (expected : Expected) :
    Problem :=
  let text : Found := .text (.ofList cs)
  let fitting (found : Option Found) (wanted : Expected) : Problem :=
    match found with
    | some f => .type f expected
    | none => .value text wanted
  match tag with
  | none => .type (if style = .plain then plainFound cs else text) expected
  | some t =>
    if t = tagOf "bool" then fitting ((bool? cs).map .bool) .bool
    else if t = tagOf "int" then fitting (sizedInteger? cs) .integer
    else if t = tagOf "float" then fitting ((float? cs).map .float) .float
    else if t = tagOf "null" then fitting (if isNull cs then some .nothing else none) .null
    else .type (if isLocal t && style = .plain then plainFound cs else text) expected

end ToolRoster.Yaml
