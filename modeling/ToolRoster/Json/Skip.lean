import ToolRoster.Json.Number
/-!
# Passing over JSON values

The value of an unknown key is passed over, whatever it is, as long as it is well formed.
-/
namespace ToolRoster.Json

inductive Frame where
  | list
  | object
deriving DecidableEq, Repr

namespace Frame

def closing : Frame → Char
  | list => ']'
  | object => '}'

def unended : Frame → Cause
  | list => .endInList
  | object => .endInObject

def separator : Frame → Cause
  | list => .expectedListSeparator
  | object => .expectedObjectSeparator

end Frame

def skipKey (cs : List Char) : Except Fault (List Char) :=
  match skipBlank cs with
  | [] => .error (.here .endInObject [])
  | '"' :: r => do
    let r ← skipString r
    match skipBlank r with
    | [] => .error (.here .endInObject [])
    | ':' :: r => .ok r
    | r => .error (.next .expectedColon r)
  | r => .error (.next .keyNotString r)

def skipIntro : Frame → List Char → Except Fault (List Char)
  | .list, cs => .ok cs
  | .object, cs => skipKey cs

inductive Skipped where
  | value (rest : List Char)
  | opened (frame : Frame) (rest : List Char)

def skipHead (cs : List Char) : Except Fault Skipped :=
  match skipBlank cs with
  | [] => .error (.here .endInValue [])
  | 'n' :: r => .value <$> skipWord "ull".toList r
  | 't' :: r => .value <$> skipWord "rue".toList r
  | 'f' :: r => .value <$> skipWord "alse".toList r
  | '-' :: r => .value <$> skipNumber r
  | '"' :: r => .value <$> skipString r
  | '[' :: r => .ok (.opened .list r)
  | '{' :: r => .ok (.opened .object r)
  | c :: r =>
    if (digit? c).isSome then .value <$> skipNumber (c :: r)
    else .error (.next .expectedValue (c :: r))

inductive Next where
  | more (frames : List Frame) (rest : List Char)
  | finished (rest : List Char)

/-- Closes frames until one goes on or all are closed. Each frame has had a value. -/
def closeFrames : List Frame → List Char → Except Fault Next
  | [], cs => .ok (.finished cs)
  | f :: fs, cs =>
    match skipBlank cs with
    | [] => .error (.here f.unended [])
    | ',' :: r => .ok (.more (f :: fs) r)
    | c :: r => if c = f.closing then closeFrames fs r else .error (.next f.separator (c :: r))

def skipInside : Nat → List Frame → List Char → Except Fault (List Char)
  | 0, _, cs => .error (.here .endInValue cs)
  | fuel + 1, fs, cs => do
    let next ←
      match ← skipHead cs with
      | .value r => closeFrames fs r
      | .opened f r =>
        match skipBlank r with
        | [] => .error (.here f.unended [])
        | c :: r' => if c = f.closing then closeFrames fs r' else .ok (.more (f :: fs) (c :: r'))
    match next with
    | .finished r => .ok r
    | .more fs r => do skipInside fuel fs (← skipIntro (fs.headD .list) r)

def skipValue (cs : List Char) : Except Fault (List Char) := skipInside (cs.length + 1) [] cs

end ToolRoster.Json
