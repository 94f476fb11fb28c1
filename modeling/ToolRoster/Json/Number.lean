import ToolRoster.Json.Literal
/-!
# Numbers of JSON

No field of a record is a number. A number is read only to be named in a message, so what counts is
which value the message shows and which digits are a fault.
-/
namespace ToolRoster.Json

def digit? (c : Char) : Option Nat := Text.digitIn? 10 c

def startsWithDigit : List Char → Bool
  | c :: _ => (digit? c).isSome
  | [] => false

def skipDigits (cs : List Char) : List Char := cs.dropWhile fun c => (digit? c).isSome

def wholeLimit : Nat := Nat.pow 2 64 - 1

def takeDigits (limit : Nat) : Nat → Nat → List Char → Nat × Nat × List Char
  | n, count, [] => (n, count, [])
  | n, count, c :: cs =>
    match digit? c with
    | some d =>
      if limit < n * 10 + d then (n, count, c :: cs)
      else takeDigits limit (n * 10 + d) (count + 1) cs
    | none => (n, count, c :: cs)

/-- A number `significand · 10 ^ exponent` in floating point, rounded after each step. Exponents
beyond the range of exact powers go down by 308 at a time. -/
def ofParts (negative : Bool) (significand : Nat) (exponent : Int) (rest : List Char) :
    Except Fault Float :=
  let start := Float.ofScientific significand false 0
  let signed (x : Float) : Float := if negative then -x else x
  if 0 ≤ exponent then
    if exponent ≤ 308 then
      let x := start * Float.ofScientific 1 false exponent.toNat
      if x.isInf then .error (.here .numberTooLarge rest) else .ok (signed x)
    else if significand = 0 then .ok (signed start)
    else .error (.here .numberTooLarge rest)
  else
    let down := (-exponent).toNat
    -- three steps of 308 leave nothing of any whole number within the limit
    let steps := min ((down - 1) / 308) 3
    let lowered := steps.repeat (fun x => x / Float.ofScientific 1 false 308) start
    .ok (signed (lowered / Float.ofScientific 1 false (min (down - 308 * steps) 308)))

def readExponent (negative : Bool) (significand : Nat) (start : Int) (cs : List Char) :
    Except Fault (Float × List Char) :=
  let (down, cs) :=
    match cs with
    | '+' :: r => (false, r)
    | '-' :: r => (true, r)
    | _ => (false, cs)
  match cs with
  | [] => .error (.here .endInValue [])
  | c :: r =>
    match digit? c with
    | none => .error (.beyond .invalidNumber 1 cs)
    | some d =>
      let (n, _, r) := takeDigits (Nat.pow 2 31 - 1) d 0 r
      match r with
      | x :: r' =>
        if (digit? x).isSome then
          if significand ≠ 0 && !down then .error (.here .numberTooLarge r')
          else .ok (if negative then -0.0 else 0.0, skipDigits r')
        else do
          .ok (← ofParts negative significand (if down then start - n else start + n) r, r)
      | [] => do .ok (← ofParts negative significand (if down then start - n else start + n) r, r)

def readScaled (negative : Bool) (significand : Nat) (exponent : Int) (cs : List Char) :
    Except Fault (Float × List Char) :=
  match cs with
  | 'e' :: r => readExponent negative significand exponent r
  | 'E' :: r => readExponent negative significand exponent r
  | _ => do .ok (← ofParts negative significand exponent cs, cs)

def readFraction (negative : Bool) (significand : Nat) (exponent : Int) (cs : List Char) :
    Except Fault (Float × List Char) :=
  let (n, count, r) := takeDigits wholeLimit significand 0 cs
  if startsWithDigit r then readScaled negative n (exponent - count) (skipDigits r)
  else if count = 0 then
    .error (if r.isEmpty then .here .endInValue r else .next .invalidNumber r)
  else readScaled negative n (exponent - count) r

def wholeNumber (negative : Bool) (n : Nat) : Decode.Found :=
  if !negative then .integer n
  else if n = 0 || Nat.pow 2 63 < n then .float (-(Float.ofScientific n false 0))
  else .integer (-n)

def readNumber (negative : Bool) (cs : List Char) : Except Fault (Decode.Found × List Char) :=
  match cs with
  | [] => .error (.here .endInValue [])
  | c :: r =>
    match digit? c with
    | none => .error (.beyond .invalidNumber 1 cs)
    | some d =>
      if d = 0 && startsWithDigit r then .error (.next .invalidNumber r)
      else
        let (n, _, r) := takeDigits wholeLimit d 0 r
        let more := r.length - (skipDigits r).length
        let r := skipDigits r
        match r with
        | '.' :: r' => do
          let (x, rest) ← readFraction negative n more r'
          .ok (.float x, rest)
        | 'e' :: r' => do
          let (x, rest) ← readExponent negative n more r'
          .ok (.float x, rest)
        | 'E' :: r' => do
          let (x, rest) ← readExponent negative n more r'
          .ok (.float x, rest)
        | _ =>
          if more = 0 then .ok (wholeNumber negative n, r)
          else do .ok (.float (← ofParts negative n more r), r)

def skipExponent (cs : List Char) : Except Fault (List Char) :=
  let cs :=
    match cs with
    | '+' :: r => r
    | '-' :: r => r
    | _ => cs
  if startsWithDigit cs then .ok (skipDigits cs) else .error (.beyond .invalidNumber 1 cs)

def skipScale (cs : List Char) : Except Fault (List Char) :=
  match cs with
  | 'e' :: r => skipExponent r
  | 'E' :: r => skipExponent r
  | _ => .ok cs

def skipNumber (cs : List Char) : Except Fault (List Char) :=
  match cs with
  | [] => .error (.here .invalidNumber [])
  | c :: r =>
    match digit? c with
    | none => .error (.beyond .invalidNumber 1 cs)
    | some d =>
      if d = 0 && startsWithDigit r then .error (.next .invalidNumber r)
      else
        match skipDigits r with
        | '.' :: r' =>
          if startsWithDigit r' then skipScale (skipDigits r') else .error (.next .invalidNumber r')
        | r' => skipScale r'

end ToolRoster.Json
