import ToolRoster.Yaml.Place
/-!
# Folded lines

Between two words of a scalar that goes over several lines, the line ends fold: a lone one becomes a
space, and of several the first is dropped.
-/
namespace ToolRoster.Yaml

structure Gap where
  blanks : List Char := []
  first : List Char := []
  others : List Char := []
  broken : Bool := false

def Gap.text (g : Gap) : List Char :=
  if !g.broken then g.blanks
  else if g.first = ['\n'] then if g.others.isEmpty then [' '] else g.others
  else g.first ++ g.others

/-- Takes blanks and line ends. A tab may not stand in the indentation of a further line; without
that rule the limit is zero. -/
def readGap (tabLimit : Nat) : Nat → Gap → Place → Except Fault (Gap × Place)
  | 0, g, p => .ok (g, p)
  | fuel + 1, g, p =>
    match p.rest with
    | [] => .ok (g, p)
    | c :: _ =>
      if isBlank c then
        if g.broken then
          if c = '\t' && p.column < tabLimit then .error ⟨.badPlain, p.mark⟩
          else readGap tabLimit fuel g p.skip
        else readGap tabLimit fuel { g with blanks := g.blanks ++ [c] } p.skip
      else if isBreak c then
        let (text, next) := p.takeBreak
        if g.broken then readGap tabLimit fuel { g with others := g.others ++ text } next
        else readGap tabLimit fuel { g with blanks := [], first := text, broken := true } next
      else .ok (g, p)

end ToolRoster.Yaml
