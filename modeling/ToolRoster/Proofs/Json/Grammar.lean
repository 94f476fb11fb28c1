import Mathlib.Data.List.DropRight
import ToolRoster.Proofs.Json.Lists
/-!
# Texts of JSON

The grammar of JSON, apart from any reader: a text spells a value, with white space around its parts.
It says which texts are well formed and what they hold. A string may hold half of a surrogate pair,
which is well formed and stands for no characters.
-/
namespace ToolRoster.Json

inductive Escape where
  | quotationMark
  | backslash
  | slash
  | backspace
  | formFeed
  | lineFeed
  | carriageReturn
  | tab

def Escape.letter : Escape → Char
  | quotationMark => '"'
  | backslash => '\\'
  | slash => '/'
  | backspace => 'b'
  | formFeed => 'f'
  | lineFeed => 'n'
  | carriageReturn => 'r'
  | tab => 't'

def Escape.char : Escape → Char
  | quotationMark => '"'
  | backslash => '\\'
  | slash => '/'
  | backspace => '\x08'
  | formFeed => '\x0c'
  | lineFeed => '\n'
  | carriageReturn => '\r'
  | tab => '\t'

structure Digit where
  char : Char
  value : Nat
  spelled : Text.hexValue? char = some value

/-- Four digits: a character, or half of a surrogate pair. -/
structure CodeUnit where
  first : Digit
  second : Digit
  third : Digit
  fourth : Digit

namespace CodeUnit

def text (u : CodeUnit) : List Char :=
  [u.first.char, u.second.char, u.third.char, u.fourth.char]

def value (u : CodeUnit) : Nat :=
  ((u.first.value * 16 + u.second.value) * 16 + u.third.value) * 16 + u.fourth.value

def isHigh (u : CodeUnit) : Bool := 0xD800 ≤ u.value && u.value ≤ 0xDBFF

def isLow (u : CodeUnit) : Bool := 0xDC00 ≤ u.value && u.value ≤ 0xDFFF

def paired (high low : CodeUnit) : Char :=
  Char.ofNat (0x10000 + (high.value - 0xD800) * 0x400 + (low.value - 0xDC00))

end CodeUnit

inductive Piece where
  | plain (c : Char) (allowed : c ≠ '"' ∧ c ≠ '\\' ∧ 0x20 ≤ c.toNat)
  | escape (e : Escape)
  | unit (u : CodeUnit)

def Piece.text : Piece → List Char
  | plain c _ => [c]
  | escape e => ['\\', e.letter]
  | unit u => '\\' :: 'u' :: u.text

def quoted (ps : List Piece) : List Char := '"' :: ps.flatMap Piece.text ++ ['"']

/-- The characters of a string, unless half of a surrogate pair stands alone in it. -/
def content? : List Piece → Option (List Char)
  | [] => some []
  | .plain c _ :: ps => (content? ps).map (c :: ·)
  | .escape e :: ps => (content? ps).map (e.char :: ·)
  | .unit u :: ps =>
    if u.isLow then none
    else if u.isHigh then
      match ps with
      | .unit v :: ps => if v.isLow then (content? ps).map (u.paired v :: ·) else none
      | _ => none
    else (content? ps).map (Char.ofNat u.value :: ·)

def string? (ps : List Piece) : Option String := (content? ps).map String.ofList

structure IsDigits (ds : List Char) : Prop where
  ne_nil : ds ≠ []
  isDigit : ∀ d ∈ ds, d.isDigit

inductive IsWhole : List Char → Prop where
  | zero : IsWhole ['0']
  | digits {d : Char} {ds : List Char} (h : IsDigits (d :: ds)) (hd : d ≠ '0') : IsWhole (d :: ds)

inductive IsFraction : List Char → Prop where
  | none : IsFraction []
  | digits {ds : List Char} (h : IsDigits ds) : IsFraction ('.' :: ds)

inductive IsExponent : List Char → Prop where
  | none : IsExponent []
  | digits {e : Char} {sign ds : List Char} (he : e = 'e' ∨ e = 'E')
    (hsign : sign = [] ∨ sign = ['+'] ∨ sign = ['-']) (h : IsDigits ds) : IsExponent (e :: sign ++ ds)

inductive IsNumber : List Char → Prop where
  | parts {sign whole fraction exponent : List Char} (hsign : sign = [] ∨ sign = ['-'])
    (hwhole : IsWhole whole) (hfraction : IsFraction fraction) (hexponent : IsExponent exponent) :
    IsNumber (sign ++ (whole ++ (fraction ++ exponent)))

inductive Value where
  | null
  | bool (b : Bool)
  | number (numeral : List Char)
  | text (content : Option String)
  | list (items : List Value)
  | object (members : List (Option String × Value))

/-- A key, which has no content if it holds half of a surrogate pair, and a value. -/
abbrev Member := Option String × Value

inductive Part where
  | value (v : Value)
  | item (v : Value)
  | items (vs : List Value)
  | member (m : Member)
  | members (ms : List Member)

def Blank (cs : List Char) : Prop := ∀ c ∈ cs, isBlank c

/-- Which texts spell a part. Commas stand between items and between members, never after the last. -/
inductive Spells : Part → List Char → Prop where
  | null : Spells (.value .null) "null".toList
  | bool (b : Bool) : Spells (.value (.bool b)) (writeBool b)
  | number {cs : List Char} (h : IsNumber cs) : Spells (.value (.number cs)) cs
  | text (ps : List Piece) : Spells (.value (.text (string? ps))) (quoted ps)
  | emptyList {b : List Char} (hb : Blank b) : Spells (.value (.list [])) ('[' :: (b ++ [']']))
  | list {vs : List Value} {cs : List Char} (h : Spells (.items vs) cs) :
    Spells (.value (.list vs)) ('[' :: (cs ++ [']']))
  | emptyObject {b : List Char} (hb : Blank b) :
    Spells (.value (.object [])) ('{' :: (b ++ ['}']))
  | object {ms : List Member} {cs : List Char} (h : Spells (.members ms) cs) :
    Spells (.value (.object ms)) ('{' :: (cs ++ ['}']))
  | item {v : Value} {b cs b' : List Char} (hb : Blank b) (h : Spells (.value v) cs)
    (hb' : Blank b') : Spells (.item v) (b ++ (cs ++ b'))
  | lastItem {v : Value} {cs : List Char} (h : Spells (.item v) cs) : Spells (.items [v]) cs
  | moreItems {v : Value} {vs : List Value} {cs cs' : List Char} (h : Spells (.item v) cs)
    (hmore : Spells (.items vs) cs') : Spells (.items (v :: vs)) (cs ++ ',' :: cs')
  | member {v : Value} {b b' cs : List Char} (ps : List Piece) (hb : Blank b) (hb' : Blank b')
    (h : Spells (.item v) cs) :
    Spells (.member (string? ps, v)) (b ++ (quoted ps ++ (b' ++ ':' :: cs)))
  | lastMember {m : Member} {cs : List Char} (h : Spells (.member m) cs) : Spells (.members [m]) cs
  | moreMembers {m : Member} {ms : List Member} {cs cs' : List Char} (h : Spells (.member m) cs)
    (hmore : Spells (.members ms) cs') : Spells (.members (m :: ms)) (cs ++ ',' :: cs')

theorem enclosed_append (opening closing : Char) (cs rest : List Char) :
    opening :: (cs ++ [closing]) ++ rest = opening :: (cs ++ closing :: rest) := by
  simp

theorem skipBlank_append {b : List Char} (hb : Blank b) (cs : List Char) :
    skipBlank (b ++ cs) = skipBlank cs := by
  rw [skipBlank, List.dropWhile_append_of_pos hb, skipBlank]

theorem skipBlank_skipBlank (cs : List Char) : skipBlank (skipBlank cs) = skipBlank cs :=
  List.dropWhile_idempotent _ _

def Ends (rest : List Char) : Prop :=
  ∀ c ∈ rest.head?, isBlank c ∨ c = ',' ∨ c = ']' ∨ c = '}'

theorem ends_nil : Ends [] := fun _ hc => by contradiction

theorem ends_cons {c : Char} (hc : c = ',' ∨ c = ']' ∨ c = '}') (rest : List Char) :
    Ends (c :: rest) := by
  intro x hx
  obtain rfl : c = x := Option.some.inj hx
  exact Or.inr hc

theorem Ends.append {b rest : List Char} (hb : Blank b) (h : Ends rest) : Ends (b ++ rest) := by
  cases b with
  | nil => exact h
  | cons c b =>
    intro x hx
    obtain rfl : c = x := Option.some.inj hx
    exact Or.inl (hb c List.mem_cons_self)

def Value.StartsWith : Value → Char → Prop
  | null, c => c = 'n'
  | bool b, c => c = if b then 't' else 'f'
  | number _, c => c = '-' ∨ c.isDigit
  | text _, c => c = '"'
  | list _, c => c = '['
  | object _, c => c = '{'

theorem IsWhole.start {cs : List Char} (h : IsWhole cs) : ∃ d ds, cs = d :: ds ∧ d.isDigit := by
  cases h with
  | zero => exact ⟨_, _, rfl, by decide⟩
  | digits h hd => exact ⟨_, _, rfl, h.isDigit _ List.mem_cons_self⟩

theorem IsNumber.start {cs : List Char} (h : IsNumber cs) :
    ∃ c r, cs = c :: r ∧ (c = '-' ∨ c.isDigit) := by
  obtain ⟨hsign, hwhole, -, -⟩ := h
  rcases hsign with rfl | rfl
  · obtain ⟨d, ds, rfl, hd⟩ := hwhole.start
    exact ⟨d, _, rfl, Or.inr hd⟩
  · exact ⟨'-', _, rfl, Or.inl rfl⟩

theorem Spells.start {v : Value} {cs : List Char} (h : Spells (.value v) cs) :
    ∃ c r, cs = c :: r ∧ v.StartsWith c := by
  cases h with
  | null => exact ⟨_, _, rfl, rfl⟩
  | bool b => cases b <;> exact ⟨_, _, rfl, rfl⟩
  | number h => exact h.start
  | text ps => exact ⟨_, _, rfl, rfl⟩
  | emptyList hb => exact ⟨_, _, rfl, rfl⟩
  | list h => exact ⟨_, _, rfl, rfl⟩
  | emptyObject hb => exact ⟨_, _, rfl, rfl⟩
  | object h => exact ⟨_, _, rfl, rfl⟩

theorem number_start_ne {c x : Char} (h : c = '-' ∨ c.isDigit) (hx : x ≠ '-' ∧ x.isDigit = false) :
    c ≠ x := by
  rintro rfl
  rcases h with rfl | h
  · exact hx.1 rfl
  · simp [h] at hx

structure Value.ToldBy (v : Value) (c : Char) : Prop where
  null : c = 'n' → v = .null
  bool : c = 't' ∨ c = 'f' → ∃ b, v = .bool b
  text : c = '"' → ∃ s, v = .text s
  list : c = '[' → ∃ vs, v = .list vs
  object : c = '{' → ∃ ms, v = .object ms

theorem Value.StartsWith.told {v : Value} {c : Char} (h : v.StartsWith c) : v.ToldBy c := by
  cases v with
  | number cs =>
    have hne : ∀ x : Char, x ≠ '-' ∧ x.isDigit = false → c ≠ x := fun x => number_start_ne h
    constructor <;> simp [hne]
  | bool b =>
    obtain rfl : c = if b then 't' else 'f' := h
    cases b <;> constructor <;> simp
  | _ =>
    obtain rfl := h
    constructor <;> simp

theorem Value.StartsWith.visible {v : Value} {c : Char} (h : v.StartsWith c) :
    isBlank c = false ∧ c ≠ ']' ∧ c ≠ '}' ∧ c ≠ ',' := by
  cases v with
  | null =>
    obtain rfl : c = 'n' := h
    decide
  | bool b =>
    obtain rfl : c = if b then 't' else 'f' := h
    cases b <;> decide
  | number cs =>
    have hne : ∀ x : Char, x ≠ '-' ∧ x.isDigit = false → c ≠ x := fun x => number_start_ne h
    simp [isBlank, hne]
  | text s =>
    obtain rfl : c = '"' := h
    decide
  | list vs =>
    obtain rfl : c = '[' := h
    decide
  | object ms =>
    obtain rfl : c = '{' := h
    decide

end ToolRoster.Json
