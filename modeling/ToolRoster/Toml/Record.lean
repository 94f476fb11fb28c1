import ToolRoster.Toml.Document
import ToolRoster.Decode.Draft
/-!
# Records and registry files in TOML

The values of a document are looked at in the order in which its keys were first written.
-/
namespace ToolRoster.Toml
open Decode (Draft Expected Field Found Problem Setting)

inductive Refused where
  | problem (p : Problem)
  | notVariant

def Refused.message : Refused → String
  | problem p => p.message .inPlace
  | notVariant => "wanted string or table"

def Node.found : Node → Found
  | text s => .text s
  | integer n => .integer n
  | float x => .float x
  | bool b => .bool b
  | moment => .map
  | list _ => .list
  | table _ _ => .map
  | tables _ => .list

def Node.wrong {α : Type} (n : Node) (expected : Expected) : Except Refused α :=
  .error (.problem (.type n.found expected))

def Node.items? : Node → Option (List Node)
  | list ns => some ns
  | tables ts => some (ts.map (.table .header))
  | _ => none

def Node.entries? : Node → Option Entries
  | table _ es => some es
  | moment => some []
  | _ => none

def Node.text? (n : Node) : Except Refused String :=
  match n with
  | text s => .ok s
  | _ => n.wrong .text

def Node.bool? (n : Node) : Except Refused Bool :=
  match n with
  | bool b => .ok b
  | _ => n.wrong .bool

def Node.texts? (n : Node) : Except Refused (List String) :=
  match n.items? with
  | some ns => ns.mapM Node.text?
  | none => n.wrong .list

def Node.isBare : Node → Bool
  | list ns => ns.isEmpty
  | tables ts => ts.isEmpty
  | table _ es => es.isEmpty
  | _ => false

def capabilityOf (word : String) : Except Refused Capability :=
  (Decode.capability word).mapError .problem

/-- A capability: its word, or a table that maps its word to an empty list or table. A table between
braces may hold nothing else. -/
def Node.capability? (n : Node) : Except Refused Capability :=
  match n with
  | text s => capabilityOf s
  | table origin ((key, value) :: more) =>
    if origin = .inline && !more.isEmpty then .error .notVariant
    else do
      let c ← capabilityOf key
      if value.isBare then .ok c else .error .notVariant
  | _ => .error .notVariant

def Node.setting? (n : Node) : Field → Except Refused Setting
  | .name => .name <$> n.text?
  | .available => .available <$> n.bool?
  | .capability => .capability <$> n.capability?
  | .fallback => (fun s => .fallback (some s)) <$> n.text?
  | .useCases => .useCases <$> n.texts?

def draftOf (d : Draft) : Entries → Except Refused Draft
  | [] => .ok d
  | (key, n) :: es =>
    match Field.ofKey? key with
    | none => draftOf d es
    | some f => do draftOf (d.set (← n.setting? f)) es

def draftOfList (d : Draft) : List (Field × Node) → Except Refused Draft
  | [] => .ok d
  | (f, n) :: more => do draftOfList (d.set (← n.setting? f)) more

def recordOf (es : Entries) : Except Refused Tool := do
  (← draftOf {} es).finish.mapError .problem

def Node.record? (n : Node) : Except Refused Tool :=
  match n.entries? with
  | some es => recordOf es
  | none =>
    match n.items? with
    | some ns => do (← draftOfList {} (Field.all.zip ns)).finishList.mapError .problem
    | none => n.wrong .record

def fileOf (es : Entries) : Except Refused (List Tool) :=
  match es.lookup Decode.toolKey with
  | none => .ok []
  | some n =>
    match n.items? with
    | some ns => ns.mapM Node.record?
    | none => n.wrong .list

def decode {α : Type} (value : Entries → Except Refused α) (text : List Char) :
    Except String α := do
  let es ← (readDocument text).mapError fun f => f.message text
  (value es).mapError Refused.message

end ToolRoster.Toml
