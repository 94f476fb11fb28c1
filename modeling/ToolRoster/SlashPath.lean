import ToolRoster.Text.Utf8
/-!
# Slash paths

Paths as they are reported: text in which a slash separates names. A backslash counts as a slash
when text comes in, and none is left afterwards.
-/
namespace ToolRoster

structure SlashPath where
  chars : List Char
deriving DecidableEq, Repr

namespace SlashPath

def normalize (cs : List Char) : List Char := cs.map fun c => if c = '\\' then '/' else c

def ofChars (cs : List Char) : SlashPath := ⟨normalize cs⟩

def ofString (s : String) : SlashPath := ofChars s.toList

def ofBytes (bs : List UInt8) : SlashPath := ofChars (Text.Utf8.decodeLossy bs)

def toString (p : SlashPath) : String := .ofList p.chars

def toBytes (p : SlashPath) : List UInt8 := Text.Utf8.encode p.chars

/-- The path with a segment below it. The empty path has nothing to go below, so the segment itself
comes out; otherwise one slash separates the two, unless the path ends in one. -/
def join (p : SlashPath) (segment : List Char) : SlashPath :=
  if p.chars.isEmpty then ofChars segment
  else if p.chars.getLast? = some '/' then ⟨p.chars ++ normalize segment⟩
  else ⟨p.chars ++ '/' :: normalize segment⟩

def joinString (p : SlashPath) (segment : String) : SlashPath := p.join segment.toList

theorem normalize_of_not_mem {cs : List Char} (h : '\\' ∉ cs) : normalize cs = cs := by
  induction cs with
  | nil => rfl
  | cons c cs ih =>
    simp only [List.mem_cons, not_or] at h
    simp [normalize, Ne.symm h.1, show cs.map _ = cs from ih h.2]

theorem not_mem_normalize (cs : List Char) : '\\' ∉ normalize cs := by
  intro h
  obtain ⟨c, _, hc⟩ := List.mem_map.1 h
  split at hc
  · exact absurd hc (by decide)
  · contradiction

@[simp] theorem normalize_normalize (cs : List Char) : normalize (normalize cs) = normalize cs :=
  normalize_of_not_mem (not_mem_normalize cs)

def fileName? (p : SlashPath) : Option (List Char) :=
  let name := ((p.chars.reverse.dropWhile (· = '/')).takeWhile (· ≠ '/')).reverse
  if name.isEmpty then none else some name

/-- The part of a file name after its last dot. A dot at the start of the name does not count. -/
def extensionOf? (name : List Char) : Option (List Char) :=
  match name.reverse.dropWhile (· ≠ '.') with
  | [] => none
  | _ :: stem => if stem.isEmpty then none else some (name.reverse.takeWhile (· ≠ '.')).reverse

def extension? (p : SlashPath) : Option (List Char) := p.fileName?.bind extensionOf?

end SlashPath
end ToolRoster
