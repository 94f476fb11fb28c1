import ToolRoster.Decimal.Shortest
import ToolRoster.Toml.Literal
/-!
# Numbers and dates of TOML

No field of a record is a number or a date; they are read so that a message can name them. A text
that is both the start of a date and a number is a date if the date is complete.
-/
namespace ToolRoster.Toml

def readDigits (base : Nat) : List Char → List Nat × List Char
  | [] => ([], [])
  | c :: cs =>
    match Text.digitIn? base c with
    | some d =>
      let (ds, r) := readDigits base cs
      (d :: ds, r)
    | none =>
      match c, cs with
      | '_', x :: _ => if (Text.digitIn? base x).isSome then readDigits base cs else ([], c :: cs)
      | _, _ => ([], c :: cs)

def digits? (base : Nat) (cs : List Char) : Option (List Nat × List Char) :=
  match cs with
  | c :: _ => if (Text.digitIn? base c).isSome then some (readDigits base cs) else none
  | [] => none

def valueOf (base : Nat) (ds : List Nat) : Nat := ds.foldl (fun n d => n * base + d) 0

def takeSign : List Char → Bool × List Char
  | '+' :: r => (false, r)
  | '-' :: r => (true, r)
  | r => (false, r)

def whole? (cs : List Char) : Option (List Nat × List Char) :=
  match cs with
  | '0' :: r => some ([0], r)
  | _ => digits? 10 cs

def integer? (cs : List Char) : Option (Int × List Char) := do
  let (negative, ds, base, r) ←
    match cs with
    | '0' :: 'x' :: r => (digits? 16 r).map fun p => (false, p.1, 16, p.2)
    | '0' :: 'o' :: r => (digits? 8 r).map fun p => (false, p.1, 8, p.2)
    | '0' :: 'b' :: r => (digits? 2 r).map fun p => (false, p.1, 2, p.2)
    | _ =>
      let (negative, r) := takeSign cs
      (whole? r).map fun p => (negative, p.1, 10, p.2)
  let n := valueOf base ds
  if negative then if n ≤ Nat.pow 2 63 then some (-n, r) else none
  else if n < Nat.pow 2 63 then some (n, r) else none

def startsExponent : List Char → Option (List Char)
  | 'e' :: r => some r
  | 'E' :: r => some r
  | _ => none

def exponent? (cs : List Char) : Option (Int × List Char) := do
  let (negative, r) := takeSign (← startsExponent cs)
  let (ds, r) ← digits? 10 r
  let n : Int := valueOf 10 ds
  some (if negative then -n else n, r)

def fraction? : List Char → Option (List Nat × List Char)
  | '.' :: r => digits? 10 r
  | _ => none

/-- A number with a fraction or an exponent. One too large to hold is refused, unless it is
negative. -/
def float? (cs : List Char) : Option (Float × List Char) := do
  let (negative, r) := takeSign cs
  let (whole, r) ← whole? r
  let (places, exponent, r) ←
    match fraction? r with
    | some (places, r) =>
      match exponent? r with
      | some (e, r) => some (places, e, r)
      | none => some (places, 0, r)
    | none => (exponent? r).map fun p => ([], p.1, p.2)
  let x := Decimal.nearest (valueOf 10 (whole ++ places)) (exponent - places.length)
  if negative then some (-x, r) else if x.isInf then none else some (x, r)

def special? (cs : List Char) : Option (Float × List Char) :=
  let (negative, r) := takeSign cs
  let signed (x : Float) : Float := if negative then -x else x
  match r with
  | 'i' :: 'n' :: 'f' :: r => some (signed (1.0 / 0.0), r)
  | 'n' :: 'a' :: 'n' :: r => some (0.0 / 0.0, r)
  | _ => none

def fixed? (count low high : Nat) (cs : List Char) : Option (Nat × List Char) :=
  let ds := (cs.take count).filterMap (Text.digitIn? 10)
  let n := valueOf 10 ds
  if ds.length = count && low ≤ n && n ≤ high then some (n, cs.drop count) else none

def take? (c : Char) : List Char → Option (List Char)
  | x :: r => if x = c then some r else none
  | [] => none

def daysIn (year month : Nat) : Nat :=
  if month = 2 then
    if year % 4 = 0 && (year % 100 ≠ 0 || year % 400 = 0) then 29 else 28
  else if month = 4 || month = 6 || month = 9 || month = 11 then 30
  else 31

def date? (cs : List Char) : Option (List Char) := do
  let (year, r) ← fixed? 4 0 9999 cs
  let (month, r) ← fixed? 2 1 12 (← take? '-' r)
  let (_, r) ← fixed? 2 1 (daysIn year month) (← take? '-' r)
  some r

def time? (cs : List Char) : Option (List Char) := do
  let (_, r) ← fixed? 2 0 23 cs
  let (_, r) ← fixed? 2 0 59 (← take? ':' r)
  let (_, r) ← fixed? 2 0 60 (← take? ':' r)
  match r with
  | '.' :: x :: r' => some (if x.isDigit then (x :: r').dropWhile Char.isDigit else r)
  | _ => some r

def skipOffset (cs : List Char) : List Char :=
  match cs with
  | 'Z' :: r => r
  | 'z' :: r => r
  | c :: r =>
    if c = '+' || c = '-' then
      let distance := do
        let (_, r) ← fixed? 2 0 23 r
        fixed? 2 0 59 (← take? ':' r)
      (distance.map Prod.snd).getD cs
    else cs
  | [] => []

def moment? (cs : List Char) : Option (List Char) :=
  match date? cs with
  | some r =>
    match r with
    | c :: r' =>
      if c = 'T' || c = 't' || c = ' ' then
        match time? r' with
        | some r => some (skipOffset r)
        | none => some r
      else some r
    | [] => some r
  | none => time? cs

end ToolRoster.Toml
