import ToolRoster.Toml.Node
import ToolRoster.Toml.Number
/-!
# Values of TOML

Lists may run over several lines, hold comments and end in a comma; inline tables may not.
-/
namespace ToolRoster.Toml

abbrev Read (α : Type) := List Char → Except Fault (α × List Char)

/-- A value without brackets or braces. Where several kinds fit the start of the text, a date is
tried before a number with a fraction and that before an integer. -/
def readScalar : Read Node := fun cs =>
  let read : Option (Node × List Char) :=
    match cs with
    | '"' :: _ => (readString cs).map fun p => (.text (.ofList p.1), p.2)
    | '\x27' :: _ => (readString cs).map fun p => (.text (.ofList p.1), p.2)
    | 't' :: 'r' :: 'u' :: 'e' :: r => some (.bool true, r)
    | 'f' :: 'a' :: 'l' :: 's' :: 'e' :: r => some (.bool false, r)
    | _ =>
      ((moment? cs).map fun r => (.moment, r)) <|>
      ((float? cs).map fun p => (.float p.1, p.2)) <|>
      ((special? cs).map fun p => (.float p.1, p.2)) <|>
      ((integer? cs).map fun p => (.integer p.1, p.2))
  match read with
  | some p => .ok p
  | none => .error (.here .malformed cs)

def readItems (item : Read Node) : Nat → Read (List Node)
  | 0, cs => .error (.here .malformed cs)
  | fuel + 1, cs => do
    match skipLines false cs with
    | ']' :: r => .ok ([], r)
    | r => do
      let (n, r) ← item r
      match skipLines false r with
      | ']' :: r => .ok ([n], r)
      | ',' :: r => do
        let (ns, r) ← readItems item fuel r
        .ok (n :: ns, r)
      | r => .error (.here .malformed r)

def readMember (item : Read Node) : Read (Key × Node) := fun cs => do
  let (k, r) ← readKey cs
  match r with
  | '=' :: r => do
    let (n, r) ← item (skipBlank r)
    .ok ((k, n), r)
  | r => .error (.here .malformed r)

def addMember (es : Entries) (k : Key) (n : Node) (cs : List Char) : Except Fault Entries :=
  (es.addKey k n).mapError fun cause => .here cause cs

def readMembers (item : Read Node) : Nat → Entries → Read Entries
  | 0, _, cs => .error (.here .malformed cs)
  | fuel + 1, es, cs => do
    let ((k, n), r) ← readMember item cs
    let es ← addMember es k n cs
    match skipBlank r with
    | '}' :: r => .ok (es, r)
    | ',' :: r => readMembers item fuel es r
    | r => .error (.here .malformed r)

def readNested (item : Read Node) : Read Node := fun cs =>
  match cs with
  | '[' :: r => do
    let (ns, r) ← readItems item (r.length + 1) r
    .ok (.list ns, r)
  | '{' :: r =>
    match skipBlank r with
    | '}' :: r => .ok (.table .inline [], r)
    | r => do
      let (es, r) ← readMembers item (r.length + 1) [] r
      .ok (.table .inline es, r)
  | _ => .error (.here .malformed cs)

def opens : List Char → Bool
  | c :: _ => c = '[' || c = '{'
  | [] => false

def readValue : Nat → Read Node
  | 0, cs => if opens cs then .error (.here .tooDeep cs) else readScalar cs
  | depth + 1, cs => if opens cs then readNested (readValue depth) cs else readScalar cs

end ToolRoster.Toml
