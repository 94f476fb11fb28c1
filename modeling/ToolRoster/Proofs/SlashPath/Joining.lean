import Mathlib.Data.List.Basic
import ToolRoster.Files.Temporary
import ToolRoster.Proofs.Text.Utf8
/-!
# Joining paths

It does not matter whether a path is extended in one step or in several. What a segment comes to is
decided by its own text, and the path before it only tells whether a slash goes between the two. No
backslash is ever left, so the bytes of a path give the path back.
-/
namespace ToolRoster

namespace Files

theorem exists_pushName {path : List Char} (h : path ≠ []) :
    ∃ before, before.getLast? = some '/' ∧ ∀ rest, pushName path rest = before ++ rest := by
  by_cases hs : path.getLast? = some '/'
  · exact ⟨path, hs, fun rest => by simp [pushName, hs]⟩
  · exact ⟨path ++ ['/'], List.getLast?_concat, fun rest => by simp [pushName, h, hs]⟩

theorem pushName_nil (rest : List Char) : pushName [] rest = rest := rfl

theorem pushName_assoc (path middle rest : List Char) :
    pushName (pushName path middle) rest = pushName path (pushName middle rest) := by
  by_cases h : path = []
  · rw [h, pushName_nil, pushName_nil]
  · obtain ⟨before, hlast, hpush⟩ := exists_pushName h
    rw [hpush, hpush]
    by_cases hm : middle = []
    · simp [hm, pushName, hlast]
    · have hend : (before ++ middle).getLast? = middle.getLast? :=
        List.getLast?_append_of_ne_nil _ hm
      by_cases hs : middle.getLast? = some '/'
      · simp [pushName, hend, hs]
      · simp [pushName, hend, hs, hm]

theorem prefix_pushName (path rest : List Char) : path <+: pushName path rest := by
  unfold pushName
  split_ifs
  · exact List.prefix_append _ _
  · exact List.prefix_append _ _

theorem mem_pushName_iff {c : Char} (hc : c ≠ '/') {path rest : List Char} :
    c ∈ pushName path rest ↔ c ∈ path ∨ c ∈ rest := by
  unfold pushName
  split_ifs
  · exact List.mem_append
  · rw [List.mem_append, List.mem_cons, or_iff_right hc]

end Files

namespace SlashPath

theorem chars_join (p : SlashPath) (segment : List Char) :
    (p.join segment).chars = Files.pushName p.chars (normalize segment) := by
  unfold join Files.pushName
  by_cases he : p.chars.isEmpty
  · simp [ofChars, List.isEmpty_iff.mp he]
  · by_cases hs : p.chars.getLast? = some '/'
    · simp [he, hs]
    · simp [he, hs]

theorem normalize_pushName {path : List Char} (h : '\\' ∉ path) (rest : List Char) :
    normalize (Files.pushName path rest) = Files.pushName path (normalize rest) := by
  have hpath : path.map (fun c => if c = '\\' then '/' else c) = path := normalize_of_not_mem h
  unfold Files.pushName
  split_ifs
  · rw [normalize, List.map_append, hpath, normalize]
  · rw [normalize, List.map_append, hpath, List.map_cons, normalize, if_neg (by decide)]

theorem eq_of_chars {p q : SlashPath} (h : p.chars = q.chars) : p = q := congrArg mk h

theorem ofChars_of_notMem {p : SlashPath} (h : '\\' ∉ p.chars) : ofChars p.chars = p :=
  eq_of_chars (normalize_of_not_mem h)

theorem notMem_join {p : SlashPath} (h : '\\' ∉ p.chars) (segment : List Char) :
    '\\' ∉ (p.join segment).chars := by
  rw [chars_join, Files.mem_pushName_iff (by decide), not_or]
  exact ⟨h, not_mem_normalize segment⟩

theorem join_normalize (p : SlashPath) (segment : List Char) :
    p.join (normalize segment) = p.join segment := by
  apply eq_of_chars
  rw [chars_join, chars_join, normalize_normalize]

theorem ofChars_chars_join (first second : List Char) :
    ofChars ((ofChars first).join second).chars = (ofChars first).join second :=
  ofChars_of_notMem (notMem_join (not_mem_normalize first) second)

theorem join_join (p : SlashPath) (first second : List Char) :
    (p.join first).join second = p.join ((ofChars first).join second).chars := by
  have hclean : normalize ((ofChars first).join second).chars =
      ((ofChars first).join second).chars :=
    congrArg chars (ofChars_chars_join first second)
  apply eq_of_chars
  calc ((p.join first).join second).chars
      = Files.pushName (Files.pushName p.chars (normalize first)) (normalize second) := by
        rw [chars_join, chars_join]
    _ = Files.pushName p.chars ((ofChars first).join second).chars := by
        rw [Files.pushName_assoc, chars_join, ofChars]
    _ = (p.join ((ofChars first).join second).chars).chars := by
        rw [chars_join p, hclean]

theorem foldl_join (p : SlashPath) (first : List Char) (segments : List (List Char)) :
    segments.foldl join (p.join first) = p.join (segments.foldl join (ofChars first)).chars := by
  induction segments generalizing first with
  | nil => exact (join_normalize p first).symm
  | cons second segments ih =>
    rw [List.foldl_cons, List.foldl_cons, join_join, ih, ofChars_chars_join]

inductive Reachable : SlashPath → Prop
  | ofBytes (bytes : List UInt8) : Reachable (ofBytes bytes)
  | join {p : SlashPath} (hp : Reachable p) (segment : List Char) : Reachable (p.join segment)

theorem ofBytes_encode (cs : List Char) : ofBytes (Text.Utf8.encode cs) = ofChars cs := by
  rw [ofBytes, Text.Utf8.decodeLossy_encode]

theorem ofBytes_toBytes {p : SlashPath} (h : '\\' ∉ p.chars) : ofBytes p.toBytes = p := by
  rw [toBytes, ofBytes_encode, ofChars_of_notMem h]

theorem reachable_iff {p : SlashPath} : Reachable p ↔ '\\' ∉ p.chars := by
  constructor
  · intro h
    induction h with
    | ofBytes bytes => exact not_mem_normalize _
    | join hp segment ih => exact notMem_join ih segment
  · intro h
    rw [← ofBytes_toBytes h]
    exact .ofBytes p.toBytes

/-- Segments act on paths. Two of them, or any number, can be joined to one another first; below the
empty path a segment is itself; and a path stays the beginning of what is joined to it. The paths
that arise are those without a backslash. The bytes of such a path give it back, from whatever bytes
it was made, and a segment joins as its own path does. -/
theorem join_action :
    (∀ (p : SlashPath) (a b : List Char), (p.join a).join b = p.join ((ofChars a).join b).chars) ∧
    (∀ (p : SlashPath) (a : List Char) (segments : List (List Char)),
      segments.foldl join (p.join a) = p.join (segments.foldl join (ofChars a)).chars) ∧
    (∀ a : List Char, (ofChars []).join a = ofChars a) ∧
    (∀ (p : SlashPath) (a : List Char), p.chars <+: (p.join a).chars) ∧
    (∀ p : SlashPath, Reachable p ↔ '\\' ∉ p.chars) ∧
    (∀ p : SlashPath, Reachable p → ofBytes p.toBytes = p) ∧
    (∀ a : List Char, ofBytes (Text.Utf8.encode a) = ofChars a) ∧
    (∀ a : List Char, ofChars (ofChars a).chars = ofChars a) ∧
    ∀ (p : SlashPath) (a : List Char), p.join (ofChars a).chars = p.join a := by
  refine ⟨join_join, foldl_join, fun a => rfl, fun p a => ?_, fun p => reachable_iff,
    fun p hp => ofBytes_toBytes (reachable_iff.mp hp), ofBytes_encode,
    fun a => ofChars_of_notMem (not_mem_normalize a), join_normalize⟩
  rw [chars_join]
  exact Files.prefix_pushName _ _

theorem join_action_no_text :
    let p := (ofBytes [0x6F, 0xFF, 0x5C]).join "\\a/".toList
    p.chars = "o\uFFFD//a/".toList ∧ Reachable p ∧ '\\' ∉ p.chars ∧ ofBytes p.toBytes = p ∧
      (p.join "b\\".toList).join [] = p.join "b/".toList := by
  intro p
  have hread : Text.Utf8.decodeLossy [0x6F, 0xFF, 0x5C] = ['o', '\uFFFD', '\\'] := by
    simp [Text.Utf8.decodeLossy, Text.Utf8.decodeHead, Text.Utf8.replacement]
  have hp : Reachable p := .join (.ofBytes _) _
  obtain ⟨hassoc, -, -, -, hclean, hback, -⟩ := join_action
  refine ⟨?_, hp, (hclean p).mp hp, hback p hp, ?_⟩
  · rw [chars_join, ofBytes, hread]
    decide
  · rw [hassoc]
    rfl

end SlashPath
end ToolRoster
