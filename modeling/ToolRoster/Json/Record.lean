import ToolRoster.Json.Skip
import ToolRoster.Decode.Draft
/-!
# Records and registry files in JSON

Reading stops at the first fault, be it of the text or of the value. A problem with a whole record
is placed where the reader stands after its attempt to close the record.
-/
namespace ToolRoster.Json
open Decode (Draft Expected Field Found Problem Setting)

/-- The fault of a value that is not of the expected type. Simple values are read first; a list or
an object is named without a look inside. -/
def wrongType (expected : Expected) (cs : List Char) : Fault :=
  let found (result : Except Fault (Found × List Char)) : Fault :=
    match result with
    | .ok (f, rest) => .ofProblem (.type f expected) rest
    | .error e => e
  match cs with
  | 'n' :: r => found ((Found.nothing, ·) <$> skipWord "ull".toList r)
  | 't' :: r => found ((Found.bool true, ·) <$> skipWord "rue".toList r)
  | 'f' :: r => found ((Found.bool false, ·) <$> skipWord "alse".toList r)
  | '-' :: r => found (readNumber true r)
  | '"' :: r => found ((fun p => (Found.text p.1, p.2)) <$> readString r)
  | '[' :: _ => .ofProblem (.type .list expected) cs
  | '{' :: _ => .ofProblem (.type .map expected) cs
  | c :: _ => if (digit? c).isSome then found (readNumber false cs) else .next .expectedValue cs
  | [] => .here .endInValue []

def readText : Read String := fun cs =>
  match skipBlank cs with
  | [] => .error (.here .endInValue [])
  | '"' :: r => readString r
  | r => .error (wrongType .text r)

def readBool : Read Bool := fun cs =>
  match skipBlank cs with
  | [] => .error (.here .endInValue [])
  | 't' :: r => (true, ·) <$> skipWord "rue".toList r
  | 'f' :: r => (false, ·) <$> skipWord "alse".toList r
  | r => .error (wrongType .bool r)

def readOptionalText : Read (Option String) := fun cs =>
  match skipBlank cs with
  | 'n' :: r => (none, ·) <$> skipWord "ull".toList r
  | r => do
    let (s, rest) ← readText r
    .ok (some s, rest)

def readNull (cs : List Char) : Except Fault (List Char) :=
  match skipBlank cs with
  | [] => .error (.here .endInValue [])
  | 'n' :: r => skipWord "ull".toList r
  | r => .error (wrongType .nothing r)

def colon (cs : List Char) : Except Fault (List Char) :=
  match skipBlank cs with
  | [] => .error (.here .endInObject [])
  | ':' :: r => .ok r
  | r => .error (.next .expectedColon r)

def readCapabilityWord : Read Capability := fun cs => do
  let (word, rest) ← readString cs
  match Decode.capability word with
  | .ok c => .ok (c, rest)
  | .error p => .error (.ofProblem p rest)

def readCapability : Read Capability := fun cs =>
  match skipBlank cs with
  | [] => .error (.here .endInValue [])
  | '"' :: r => readCapabilityWord r
  | '{' :: r =>
    match skipBlank r with
    | [] => .error (.here .endInValue [])
    | '"' :: r => do
      let (c, r) ← readCapabilityWord r
      let r ← readNull (← colon r)
      match skipBlank r with
      | [] => .error (.here .endInObject [])
      | '}' :: r => .ok (c, r)
      | r => .error (.here .expectedValue r)
    | '}' :: r => .error (.next .expectedValue ('}' :: r))
    | r => .error (.next .keyNotString r)
  | r => .error (.next .expectedValue r)

def nextElement (first : Bool) (cs : List Char) : Except Fault (Bool × List Char) :=
  match skipBlank cs with
  | [] => .error (.here .endInList [])
  | ']' :: r => .ok (false, ']' :: r)
  | c :: r =>
    if first then .ok (true, c :: r)
    else if c = ',' then
      match skipBlank r with
      | [] => .error (.here .endInValue [])
      | ']' :: r => .error (.next .trailingComma (']' :: r))
      | r => .ok (true, r)
    else .error (.next .expectedListSeparator (c :: r))

def nextKey (first : Bool) (cs : List Char) : Except Fault (Option String × List Char) :=
  let key (cs : List Char) : Except Fault (Option String × List Char) := do
    let (s, rest) ← readString cs
    .ok (some s, rest)
  match skipBlank cs with
  | [] => .error (.here .endInObject [])
  | '}' :: r => .ok (none, '}' :: r)
  | c :: r =>
    if first then
      if c = '"' then key r else .error (.next .keyNotString (c :: r))
    else if c = ',' then
      match skipBlank r with
      | [] => .error (.here .endInValue [])
      | '"' :: r => key r
      | '}' :: r => .error (.next .trailingComma ('}' :: r))
      | r => .error (.next .keyNotString r)
    else .error (.next .expectedObjectSeparator (c :: r))

def endList (cs : List Char) : Except Fault (List Char) :=
  match skipBlank cs with
  | [] => .error (.here .endInList [])
  | ']' :: r => .ok r
  | ',' :: r =>
    match skipBlank r with
    | ']' :: r => .error (.next .trailingComma (']' :: r))
    | r => .error (.next .trailingCharacters r)
  | r => .error (.next .trailingCharacters r)

def endObject (cs : List Char) : Except Fault (List Char) :=
  match skipBlank cs with
  | [] => .error (.here .endInObject [])
  | '}' :: r => .ok r
  | ',' :: r => .error (.next .trailingComma (',' :: r))
  | r => .error (.next .trailingCharacters r)

def afterObject (cs : List Char) : List Char :=
  match skipBlank cs with
  | '}' :: r => r
  | r => r

def readElements {α : Type} (item : Read α) : Nat → Bool → Read (List α)
  | 0, _, cs => .error (.here .endInList cs)
  | fuel + 1, first, cs => do
    match ← nextElement first cs with
    | (false, r) => .ok ([], r)
    | (true, r) => do
      let (x, r) ← item r
      let (xs, r) ← readElements item fuel false r
      .ok (x :: xs, r)

def readList {α : Type} (item : Read α) : Read (List α) := fun cs =>
  match skipBlank cs with
  | [] => .error (.here .endInValue [])
  | '[' :: r => do
    let (xs, r) ← readElements item (r.length + 1) true r
    .ok (xs, ← endList r)
  | r => .error (wrongType .list r)

def readField (f : Field) : Read Setting := fun cs =>
  match f with
  | .name => do
    let (s, r) ← readText cs
    .ok (.name s, r)
  | .available => do
    let (b, r) ← readBool cs
    .ok (.available b, r)
  | .capability => do
    let (c, r) ← readCapability cs
    .ok (.capability c, r)
  | .fallback => do
    let (o, r) ← readOptionalText cs
    .ok (.fallback o, r)
  | .useCases => do
    let (us, r) ← readList readText cs
    .ok (.useCases us, r)

def readMembers : Nat → Bool → Draft → Read Draft
  | 0, _, _, cs => .error (.here .endInObject cs)
  | fuel + 1, first, d, cs => do
    match ← nextKey first cs with
    | (none, r) => .ok (d, r)
    | (some key, r) =>
      match Field.ofKey? key with
      | none => do readMembers fuel false d (← skipValue (← colon r))
      | some f =>
        if d.holds f then .error (.ofProblem (.duplicate key) (afterObject r))
        else do
          let (x, r) ← readField f (← colon r)
          readMembers fuel false (d.set x) r

def readPositions : List Field → Bool → Draft → Read Draft
  | [], _, d, cs => .ok (d, cs)
  | f :: fs, first, d, cs => do
    match ← nextElement first cs with
    | (false, r) => .ok (d, r)
    | (true, r) => do
      let (x, r) ← readField f r
      readPositions fs false (d.set x) r

def readRecord : Read Tool := fun cs =>
  match skipBlank cs with
  | [] => .error (.here .endInValue [])
  | '[' :: r => do
    let (d, r) ← readPositions Field.all true {} r
    match d.finishList with
    | .ok t => .ok (t, ← endList r)
    | .error p => .error (.ofProblem p (r.drop 1))
  | '{' :: r => do
    let (d, r) ← readMembers (r.length + 1) true {} r
    match d.finish with
    | .ok t => .ok (t, ← endObject r)
    | .error p => .error (.ofProblem p (afterObject r))
  | r => .error (wrongType .record r)

def readFileMembers : Nat → Bool → Option (List Tool) → Read (List Tool)
  | 0, _, _, cs => .error (.here .endInObject cs)
  | fuel + 1, first, tools, cs => do
    match ← nextKey first cs with
    | (none, r) => .ok (tools.getD [], r)
    | (some key, r) =>
      if key = Decode.toolKey then
        match tools with
        | some _ => .error (.ofProblem (.duplicate key) (afterObject r))
        | none => do
          let (ts, r) ← readList readRecord (← colon r)
          readFileMembers fuel false (some ts) r
      else do readFileMembers fuel false tools (← skipValue (← colon r))

/-- A registry file: an object with the list of records, or a list that holds nothing else. -/
def readFile : Read (List Tool) := fun cs =>
  match skipBlank cs with
  | [] => .error (.here .endInValue [])
  | '[' :: r => do
    match ← nextElement true r with
    | (false, r) => .ok ([], ← endList r)
    | (true, r) => do
      let (ts, r) ← readList readRecord r
      .ok (ts, ← endList r)
  | '{' :: r => do
    let (ts, r) ← readFileMembers (r.length + 1) true none r
    .ok (ts, ← endObject r)
  | r => .error (wrongType .registryFile r)

def whole {α : Type} (read : Read α) (text : List Char) : Except Fault α := do
  let (a, rest) ← read text
  match skipBlank rest with
  | [] => .ok a
  | r => .error (.next .trailingCharacters r)

def decode {α : Type} (read : Read α) (text : List Char) : Except String α :=
  (whole read text).mapError fun f => f.message text

end ToolRoster.Json
