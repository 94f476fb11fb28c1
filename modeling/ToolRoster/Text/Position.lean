/-!
# Positions in a text

A place in a text is known by the number of bytes that are left after it. Its line counts from one
and its column is the number of bytes since the start of the line.
-/
namespace ToolRoster.Text

def byteCount : List Char → Nat
  | [] => 0
  | c :: cs => c.utf8Size + byteCount cs

structure Position where
  line : Nat
  column : Nat
deriving DecidableEq, Repr

/-- The position after a number of bytes of a text; a place inside a character is allowed. -/
def Position.after : Nat → List Char → Position → Position
  | _, [], p => p
  | n, c :: cs, p =>
    if n < c.utf8Size then { p with column := p.column + n }
    else if c = '\n' then Position.after (n - 1) cs ⟨p.line + 1, 0⟩
    else Position.after (n - c.utf8Size) cs { p with column := p.column + c.utf8Size }

def Position.leaving (text : List Char) (left : Nat) : Position :=
  .after (byteCount text - left) text ⟨1, 0⟩

end ToolRoster.Text
