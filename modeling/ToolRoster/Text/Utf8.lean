/-! Text as bytes, and bytes read as text with a replacement character for what is not UTF-8.
Each maximal part that could still have begun a character becomes one U+FFFD. -/
namespace ToolRoster.Text.Utf8

def encode (cs : List Char) : List UInt8 := cs.flatMap String.utf8EncodeChar

def replacement : Char := '\uFFFD'

def within (low high : Nat) (b : UInt8) : Bool := low ≤ b.toNat && b.toNat ≤ high

def tail (b : UInt8) : Bool := within 0x80 0xBF b

def join (parts : List UInt8) (lead : Nat) : Char :=
  Char.ofNat (parts.foldl (fun n b => n * 64 + (b.toNat - 0x80)) lead)

def second3 (a b : UInt8) : Bool :=
  if a = 0xE0 then within 0xA0 0xBF b
  else if a = 0xED then within 0x80 0x9F b
  else tail b

def second4 (a b : UInt8) : Bool :=
  if a = 0xF0 then within 0x90 0xBF b
  else if a = 0xF4 then within 0x80 0x8F b
  else tail b

/-- The first character of a byte text that starts with `a`, and how many bytes after `a` it takes.
-/
def decodeHead (a : UInt8) (rest : List UInt8) : Char × Nat :=
  let n := a.toNat
  if n < 0x80 then (Char.ofNat n, 0)
  else if 0xC2 ≤ n && n ≤ 0xDF then
    match rest with
    | b :: _ => if tail b then (join [b] (n - 0xC0), 1) else (replacement, 0)
    | [] => (replacement, 0)
  else if 0xE0 ≤ n && n ≤ 0xEF then
    match rest with
    | b :: more =>
      if second3 a b then
        match more with
        | c :: _ => if tail c then (join [b, c] (n - 0xE0), 2) else (replacement, 1)
        | [] => (replacement, 1)
      else (replacement, 0)
    | [] => (replacement, 0)
  else if 0xF0 ≤ n && n ≤ 0xF4 then
    match rest with
    | b :: more =>
      if second4 a b then
        match more with
        | c :: last =>
          if tail c then
            match last with
            | d :: _ => if tail d then (join [b, c, d] (n - 0xF0), 3) else (replacement, 2)
            | [] => (replacement, 2)
          else (replacement, 1)
        | [] => (replacement, 1)
      else (replacement, 0)
    | [] => (replacement, 0)
  else (replacement, 0)

def decodeLossy : List UInt8 → List Char
  | [] => []
  | a :: rest =>
    let head := decodeHead a rest
    head.1 :: decodeLossy (rest.drop head.2)
termination_by bytes => bytes.length
decreasing_by simp only [List.length_drop, List.length_cons]; omega

end ToolRoster.Text.Utf8
