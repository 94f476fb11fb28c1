import ToolRoster.CommandLine.Choice
import ToolRoster.Artifact.Generate
/-!
# Reading arguments

Arguments are read from left to right. The value of a setting that stands in an argument of its own
is looked at only when the next option or the end of the arguments is reached, so an unknown
argument comes before a bad value. A double hyphen ends the options, and no command takes anything
else.
-/
namespace ToolRoster.CommandLine

inductive Command where
  | generate (outputDir : String) (registry : Option String)
  | list (registry : Option String) (capability : Option Capability)
  | check (registry : Option String)
deriving DecidableEq, Repr

structure Invocation where
  verbose : Bool
  command : Option Command
deriving DecidableEq, Repr

inductive Topic where
  | scope (s : Scope)
  | help
deriving DecidableEq, Repr

inductive Request where
  | run (i : Invocation)
  | help (topic : Topic) (long : Bool)
  | version
deriving DecidableEq, Repr

inductive Halt where
  | usage (e : UsageError)
  | shown (r : Request)

structure Given where
  verbose : Bool := false
  outputDir : Option String := none
  registry : Option String := none
  capability : Option Capability := none

namespace Given

def holds (g : Given) : Setting → Bool
  | .outputDir => g.outputDir.isSome
  | .registry => g.registry.isSome
  | .capability => g.capability.isSome

def set (g : Given) (s : Setting) (value : String) : Except UsageError Given :=
  if g.holds s then .error (.repeated (.setting s))
  else
    match s with
    | .outputDir =>
      if value.isEmpty then .error (.missingValue s) else .ok { g with outputDir := some value }
    | .registry =>
      if value.isEmpty then .error (.missingValue s) else .ok { g with registry := some value }
    | .capability =>
      match Capability.parse value with
      | .ok c => .ok { g with capability := some c }
      | .error e => .error (.badCapability e)

def command? (g : Given) : Scope → Option Command
  | .program => none
  | .generate => some (.generate (g.outputDir.getD Artifact.defaultDirectory) g.registry)
  | .list => some (.list g.registry g.capability)
  | .check => some (.check g.registry)

end Given

structure Reading where
  given : Given := {}
  pending : Option (Setting × Option String) := none

namespace Reading

def settle (r : Reading) : Except Halt Given :=
  match r.pending with
  | none => .ok r.given
  | some (s, none) => .error (.usage (.missingValue s))
  | some (s, some value) => (r.given.set s value).mapError .usage

def flip (r : Reading) (scope : Scope) (long : Bool) (s : Switch) : Except Halt Reading := do
  let g ← r.settle
  match s with
  | .verbose =>
    if g.verbose then .error (.usage (.repeated (.switch s)))
    else .ok { given := { g with verbose := true } }
  | .help => .error (.shown (.help (.scope scope) long))
  | .version => .error (.shown .version)

def assign (r : Reading) (s : Setting) (value : Option (List Char)) : Except Halt Reading := do
  let g ← r.settle
  match value with
  | some v => do
    let g ← (g.set s (.ofList v)).mapError Halt.usage
    .ok { given := g }
  | none => .ok { given := g, pending := some (s, none) }

end Reading

inductive Shape where
  | separator
  | long (name : List Char) (value : Option (List Char))
  | short (letters : List Char)
  | word

def afterEquals? (cs : List Char) : Option (List Char) :=
  match cs.dropWhile (· ≠ '=') with
  | _ :: value => some value
  | [] => none

def Shape.of : List Char → Shape
  | ['-', '-'] => separator
  | '-' :: '-' :: cs => long (cs.takeWhile (· ≠ '=')) (afterEquals? cs)
  | '-' :: c :: cs => short (c :: cs)
  | _ => word

/-- The value that follows the letter of a setting, with or without an equals sign. -/
def attached? : List Char → Option (List Char)
  | [] => none
  | '=' :: value => some value
  | value => some value

def readLetters (scope : Scope) : Reading → List Char → Except Halt Reading
  | r, [] => .ok r
  | r, c :: cs =>
    match scope.short? c with
    | none => .error (.usage (.unexpected (.ofList ['-', c])))
    | some (.switch s) => do readLetters scope (← r.flip scope false s) cs
    | some (.setting s) => r.assign s (attached? cs)

def readName (scope : Scope) (r : Reading) (name : List Char) (value : Option (List Char)) :
    Except Halt Reading :=
  match scope.long? name with
  | none => .error (.usage (.unexpected ("--" ++ .ofList name)))
  | some (.setting s) => r.assign s value
  | some (.switch s) =>
    match value with
    | some v => .error (.usage (.unwantedValue s (.ofList v)))
    | none => r.flip scope true s

def stray (scope : Scope) (word : String) : UsageError :=
  if scope = .program then .unknownCommand word else .unexpected word

/-- What is wrong with a word behind a double hyphen, where not even a command may stand. -/
def strayBehind (scope : Scope) (word : String) : UsageError :=
  if isCommand word then .unexpected word else stray scope word

def readArgument (scope : Scope) (r : Reading) (argument : String) : Except Halt Reading :=
  match Shape.of argument.toList with
  | .separator => .ok r
  | .long name value => readName scope r name value
  | .short letters => readLetters scope r letters
  | .word =>
    match r.pending with
    | some (s, none) => .ok { r with pending := some (s, some argument) }
    | _ => .error (.usage (stray scope argument))

def readBehind (scope : Scope) (r : Reading) : List String → Except Halt Given
  | [] => r.settle
  | word :: _ => .error (.usage (strayBehind scope word))

def readOptions (scope : Scope) : Reading → List String → Except Halt Given
  | r, [] => r.settle
  | r, a :: as =>
    if a = "--" then readBehind scope r as
    else do readOptions scope (← readArgument scope r a) as

/-- Reads the words after the command for help: at most one command, and none below it. -/
def readTopic : List String → Halt
  | [] => .shown (.help (.scope .program) true)
  | word :: more =>
    if !isCommand word then .usage (.unknownCommand word)
    else
      match more with
      | next :: _ => .usage (.unknownCommand next)
      | [] =>
        match Scope.ofCommand? word with
        | some s => .shown (.help (.scope s) true)
        | none => .shown (.help .help true)

def readProgram : Reading → List String → Except Halt Invocation
  | r, [] => do
    let g ← r.settle
    .ok ⟨g.verbose, none⟩
  | r, a :: as =>
    match Scope.ofCommand? a with
    | some s => do
      let g ← readOptions s {} as
      .ok ⟨r.given.verbose || g.verbose, g.command? s⟩
    | none =>
      if a = helpCommand then .error (readTopic as)
      else if a = "--" then do
        let g ← readBehind .program r as
        .ok ⟨g.verbose, none⟩
      else do readProgram (← readArgument .program r a) as

def Request.ofArguments (args : List String) : Except UsageError Request :=
  match readProgram {} args with
  | .ok i => .ok (.run i)
  | .error (.shown r) => .ok r
  | .error (.usage e) => .error e

end ToolRoster.CommandLine
