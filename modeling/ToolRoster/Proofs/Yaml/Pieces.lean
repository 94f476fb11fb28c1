import Mathlib.Tactic.Choose
import ToolRoster.Proofs.Json.Printable
import ToolRoster.Proofs.Yaml.Events
/-!
# Registry files of compact JSON as pieces

A text of compact JSON spells its pieces part by part, from strings up to the whole file.
-/
namespace ToolRoster.Yaml
open Decode (Setting)

def textPiece (s : String) : Piece := .scalar none .double s.toList

theorem isAllowed_of_isPrintable {c : Char} (h : Text.isPrintable c) : isAllowed c := by
  obtain ⟨hlow, hhigh⟩ := Text.isPrintable_iff.mp h
  simp [isAllowed, hlow, hhigh]

theorem isAllowed_escape {c : Char} (h : Text.isPrintable c) : ∀ x ∈ Json.escape c, isAllowed x := by
  have hbackslash : isAllowed '\\' := by decide
  rw [Json.escape_of_printable h]
  split_ifs
  · simp [isAllowed_of_isPrintable h, hbackslash]
  · simp [isAllowed_of_isPrintable h]

theorem isAllowed_writeString {s : String} (hs : Text.Printable s) :
    ∀ c ∈ Json.writeString s, isAllowed c := by
  have hquote : isAllowed '"' := by decide
  intro c hc
  simp only [Json.writeString, List.mem_cons, List.mem_append, List.mem_flatMap, List.not_mem_nil,
    or_false] at hc
  rcases hc with (rfl | ⟨x, hx, hc⟩) | rfl
  · exact hquote
  · exact isAllowed_escape (hs x hx) c hc
  · exact hquote

theorem spells_string {s : String} (hs : Text.Printable s) :
    Spells (Json.writeString s) [textPiece s] :=
  ⟨isAllowed_writeString hs, _, lexes_string hs, walks_scalar _ _⟩

theorem spells_word {word : List Char} (hallowed : ∀ c ∈ word, isAllowed c) (hne : word ≠ [])
    (hword : ∀ c ∈ word, c.isAlpha) : Spells word [.scalar none .plain word] :=
  ⟨hallowed, _, lexes_word hne hword, walks_scalar _ _⟩

theorem spells_bool (b : Bool) :
    Spells (Json.writeBool b) [.scalar none .plain (Json.writeBool b)] :=
  spells_word (List.all_eq_true.mp (by cases b <;> decide)) (by cases b <;> decide)
    (List.all_eq_true.mp (by cases b <;> decide))

theorem spells_null : Spells "null".toList [.scalar none .plain "null".toList] :=
  spells_word (List.all_eq_true.mp (by decide)) (by decide) (List.all_eq_true.mp (by decide))

theorem isAllowed_collection {first last : Char} (hfirst : isAllowed first) (hlast : isAllowed last)
    {texts : List (List Char)} (h : ∀ text ∈ texts, ∀ c ∈ text, isAllowed c) :
    ∀ c ∈ first :: Json.separated texts ++ [last], isAllowed c := by
  have hcomma : isAllowed ',' := by decide
  rw [List.cons_append, List.forall_mem_cons, List.forall_mem_append, List.forall_mem_singleton]
  refine ⟨hfirst, ?_, hlast⟩
  cases texts with
  | nil => exact List.forall_mem_nil _
  | cons x xs =>
    obtain ⟨hx, hxs⟩ := List.forall_mem_cons.mp h
    rw [Json.separated_cons, List.forall_mem_append, List.forall_mem_flatMap]
    exact ⟨hx, fun text htext => List.forall_mem_cons.mpr ⟨hcomma, hxs text htext⟩⟩

section
variable {β : Type} {write : β → List Char} {pieces : β → List Piece} {xs : List β}

theorem spells_list (h : ∀ x ∈ xs, Spells (write x) (pieces x)) :
    Spells ('[' :: Json.separated (xs.map write) ++ [']'])
      (.list none :: xs.flatMap pieces ++ [.listEnd]) := by
  choose! tokens hlexes hwalks using fun x hx => (h x hx).2
  refine ⟨isAllowed_collection (by decide) (by decide) ?_, _,
    lexes_collection (Or.inl rfl) fun x hx => Lexes.inside (hlexes x hx),
    walks_collection listLoop fun x hx => walksPart_item (hwalks x hx)⟩
  exact List.forall_mem_map.mpr fun x hx => (h x hx).1

theorem spells_map {key : β → String} (hkey : ∀ x ∈ xs, Text.Printable (key x))
    (hshort : ∀ x ∈ xs, (Json.writeString (key x)).length ≤ keyLimit)
    (h : ∀ x ∈ xs, Spells (write x) (pieces x)) :
    Spells ('{' :: Json.separated (xs.map fun x => Json.writeMember (key x) (write x)) ++ ['}'])
      (.map none :: xs.flatMap (fun x => textPiece (key x) :: pieces x) ++ [.mapEnd]) := by
  have hcolon : isAllowed ':' := by decide
  choose! tokens hlexes hwalks using fun x hx => (h x hx).2
  refine ⟨isAllowed_collection (by decide) (by decide) ?_, _,
    lexes_collection (Or.inr rfl) fun x hx => lexes_entry (hkey x hx) (hshort x hx) (hlexes x hx),
    walks_collection mapLoop fun x hx => walksPart_entry _ (hwalks x hx)⟩
  refine List.forall_mem_map.mpr fun x hx => ?_
  rw [Json.writeMember, List.forall_mem_append, List.forall_mem_cons]
  exact ⟨isAllowed_writeString (hkey x hx), hcolon, (h x hx).1⟩

end

def valuePieces : Setting → List Piece
  | .name s => [textPiece s]
  | .available b => [.scalar none .plain (Json.writeBool b)]
  | .capability c => [textPiece c.word]
  | .fallback none => [.scalar none .plain "null".toList]
  | .fallback (some s) => [textPiece s]
  | .useCases us => .list none :: us.flatMap (fun u => [textPiece u]) ++ [.listEnd]

def entryPieces (x : Setting) : List Piece := textPiece x.field.key :: valuePieces x

def objectPieces (xs : List Setting) : List Piece := .map none :: xs.flatMap entryPieces ++ [.mapEnd]

def filePieces (xss : List (List Setting)) : List Piece :=
  .map none :: textPiece Decode.toolKey ::
    (.list none :: xss.flatMap objectPieces ++ [.listEnd]) ++ [.mapEnd]

/-- A setting of printable strings, or a null in the place of a fallback. -/
def Spellable (x : Setting) : Prop := x = .fallback none ∨ x.Printable

theorem spells_value {x : Setting} (h : Spellable x) :
    Spells (Json.writeValue x) (valuePieces x) := by
  rcases h with rfl | h
  · exact spells_null
  cases x with
  | name s => exact spells_string h
  | available b => exact spells_bool b
  | capability c => exact spells_string (Decode.printable_word c)
  | fallback f =>
    obtain ⟨s, rfl, hs⟩ := h
    exact spells_string hs
  | useCases us => exact spells_list fun u hu => spells_string (h u hu)

theorem spells_object {xs : List Setting} (h : ∀ x ∈ xs, Spellable x) :
    Spells (Json.writeObject xs) (objectPieces xs) := by
  have hshort : ∀ f : Decode.Field, (Json.writeString f.key).length ≤ keyLimit := fun f => by
    cases f <;> decide
  exact spells_map (fun x _ => Decode.printable_key x.field) (fun x _ => hshort x.field)
    fun x hx => spells_value (h x hx)

theorem spells_objects {xss : List (List Setting)} (h : ∀ xs ∈ xss, ∀ x ∈ xs, Spellable x) :
    Spells (Json.writeObjects xss) (filePieces xss) := by
  have hlist := spells_list fun xs hxs => spells_object (h xs hxs)
  have hfile := @spells_map Unit _ _ [()] (fun _ => Decode.toolKey) (fun _ _ => by decide)
    (fun _ _ => by decide) fun _ _ => hlist
  rwa [List.flatMap_singleton] at hfile

end ToolRoster.Yaml
