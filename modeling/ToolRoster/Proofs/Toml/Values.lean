import ToolRoster.Proofs.Json.Printable
import ToolRoster.Toml.Record
/-!
# Values of TOML read back

A printable string means the same in TOML as in JSON, and so does a list of such strings.
-/
namespace ToolRoster.Toml
open Decode (Setting)

/-- A reader takes just this text and makes this value of it, whatever follows but a quotation mark.
-/
def Reads {α : Type} (read : Read α) (text : List Char) (a : α) : Prop :=
  ∀ rest, rest.head? ≠ some '"' → read (text ++ rest) = .ok (a, rest)

theorem isPlain_of_isPrintable {c : Char} (h : Text.isPrintable c) : isPlain c = true := by
  obtain ⟨hlow, hhigh⟩ := Text.isPrintable_iff.mp h
  simp [isPlain, hlow, hhigh]

theorem readBasic_backslash {c : Char} (hc : c = '"' ∨ c = '\\') (fuel : Nat) (rest : List Char) :
    readBasic (fuel + 1) ('\\' :: c :: rest) =
      (readBasic fuel rest).map fun p => (c :: p.1, p.2) := by
  have hescape : readEscape (c :: rest) = some (c, rest) := by
    rcases hc with rfl | rfl
    · rfl
    · rfl
  simp only [readBasic, hescape, bind, Option.bind]
  cases readBasic fuel rest <;> rfl

theorem readBasic_plain {c : Char} (hq : c ≠ '"') (hb : c ≠ '\\') (hc : Text.isPrintable c)
    (fuel : Nat) (rest : List Char) :
    readBasic (fuel + 1) (c :: rest) = (readBasic fuel rest).map fun p => (c :: p.1, p.2) := by
  simp only [readBasic, isPlain_of_isPrintable hc, if_true, bind, Option.bind]
  cases readBasic fuel rest <;> rfl

theorem readBasic_escape {c : Char} (hc : Text.isPrintable c) (fuel : Nat) (rest : List Char) :
    readBasic (fuel + 1) (Json.escape c ++ rest) =
      (readBasic fuel rest).map fun p => (c :: p.1, p.2) := by
  rw [Json.escape_of_printable hc]
  split_ifs with hself
  · exact readBasic_backslash hself fuel rest
  · obtain ⟨hq, hb⟩ := not_or.mp hself
    exact readBasic_plain hq hb hc fuel rest

theorem readBasic_flatMap_escape {fuel : Nat} {cs : List Char} (hcs : ∀ c ∈ cs, Text.isPrintable c)
    (h : cs.length < fuel) (rest : List Char) :
    readBasic fuel (cs.flatMap Json.escape ++ '"' :: rest) = some (cs, rest) := by
  induction cs generalizing fuel with
  | nil =>
    obtain ⟨n, rfl⟩ := Nat.exists_eq_succ_of_ne_zero (Nat.ne_zero_of_lt h)
    rfl
  | cons c cs ih =>
    obtain ⟨n, rfl⟩ := Nat.exists_eq_succ_of_ne_zero (Nat.ne_zero_of_lt h)
    obtain ⟨hc, hcs⟩ := List.forall_mem_cons.mp hcs
    rw [List.flatMap_cons, List.append_assoc, readBasic_escape hc, ih hcs (Nat.lt_of_succ_lt_succ h)]
    rfl

theorem readString_eq_readBasic {cs : List Char} (h : ∀ r, cs ≠ '"' :: '"' :: r) :
    readString ('"' :: cs) = readBasic (cs.length + 1) cs := by
  unfold readString
  split
  · rename_i r he
    exact absurd (List.cons.inj he).2 (h r)
  · rename_i he
    rw [(List.cons.inj he).2]
  · rename_i he
    cases (List.cons.inj he).1
  · rename_i he
    cases (List.cons.inj he).1
  · rename_i he _ _
    exact absurd rfl (he cs)

theorem ne_quotes {cs rest : List Char} (hcs : ∀ c ∈ cs, Text.isPrintable c)
    (hrest : rest.head? ≠ some '"') (r : List Char) :
    cs.flatMap Json.escape ++ '"' :: rest ≠ '"' :: '"' :: r := by
  intro he
  cases cs with
  | nil =>
    rw [(List.cons.inj he).2] at hrest
    exact hrest rfl
  | cons c cs =>
    rw [List.flatMap_cons, Json.escape_of_printable (hcs c List.mem_cons_self)] at he
    split_ifs at he with hself
    · cases (List.cons.inj he).1
    · exact hself (Or.inl (List.cons.inj he).1)

theorem readString_written {s : String} (hs : Text.Printable s) {rest : List Char}
    (hrest : rest.head? ≠ some '"') :
    readString (Json.writeString s ++ rest) = some (s.toList, rest) := by
  rw [Json.writeString_append, readString_eq_readBasic (ne_quotes hs hrest)]
  apply readBasic_flatMap_escape hs
  have hlen := Json.length_le_length_flatMap_escape s.toList
  rw [List.length_append]
  omega

theorem readValue_of_opens {cs : List Char} (h : opens cs = false) (depth : Nat) :
    readValue depth cs = readScalar cs := by
  cases depth with
  | zero => rw [readValue, h, if_neg Bool.false_ne_true]
  | succ depth => rw [readValue, h, if_neg Bool.false_ne_true]

theorem reads_string {s : String} (hs : Text.Printable s) (depth : Nat) :
    Reads (readValue depth) (Json.writeString s) (.text s) := by
  intro rest hrest
  have hread := readString_written hs hrest
  rw [Json.writeString_append] at hread ⊢
  rw [readValue_of_opens rfl]
  simp only [readScalar, hread, Option.map_some, String.ofList_toList]

theorem reads_bool (b : Bool) (depth : Nat) :
    Reads (readValue depth) (Json.writeBool b) (.bool b) := by
  intro rest hrest
  cases b with
  | false =>
    rw [readValue_of_opens rfl]
    rfl
  | true =>
    rw [readValue_of_opens rfl]
    rfl

theorem skipLines_mark {c : Char} (hc : c = '"' ∨ c = ',' ∨ c = ']') (rest : List Char) :
    skipLines false (c :: rest) = c :: rest := by
  rcases hc with rfl | rfl | rfl
  · rfl
  · rfl
  · rfl

theorem readItems_close (item : Read Node) (fuel : Nat) (rest : List Char) :
    readItems item (fuel + 1) (']' :: rest) = .ok ([], rest) := by
  rw [readItems, skipLines_mark (by simp)]
  rfl

theorem readItems_last {s : String} (hs : Text.Printable s) (depth fuel : Nat) (rest : List Char) :
    readItems (readValue depth) (fuel + 1) (Json.writeString s ++ ']' :: rest) =
      .ok ([.text s], rest) := by
  have hread := reads_string hs depth (']' :: rest) (by simp)
  rw [Json.writeString_append] at hread ⊢
  rw [readItems, skipLines_mark (by simp)]
  simp [bind, Except.bind, hread, skipLines_mark]

theorem readItems_more {s : String} (hs : Text.Printable s) (depth fuel : Nat) (rest : List Char) :
    readItems (readValue depth) (fuel + 1) (Json.writeString s ++ ',' :: rest) =
      (readItems (readValue depth) fuel rest).map fun p => (.text s :: p.1, p.2) := by
  have hread := reads_string hs depth (',' :: rest) (by simp)
  rw [Json.writeString_append] at hread ⊢
  rw [readItems, skipLines_mark (by simp)]
  simp only [bind, Except.bind]
  cases hmore : readItems (readValue depth) fuel rest <;>
    simp [hread, skipLines_mark, hmore, Except.map]

theorem readItems_separated {us : List String} (hus : ∀ u ∈ us, Text.Printable u) (depth : Nat)
    {fuel : Nat} (hfuel : (Json.separated (us.map Json.writeString)).length < fuel)
    (rest : List Char) :
    readItems (readValue depth) fuel (Json.separated (us.map Json.writeString) ++ ']' :: rest) =
      .ok (us.map .text, rest) := by
  induction us generalizing fuel with
  | nil =>
    obtain ⟨n, rfl⟩ := Nat.exists_eq_succ_of_ne_zero (Nat.ne_zero_of_lt hfuel)
    exact readItems_close _ n rest
  | cons u us ih =>
    obtain ⟨n, rfl⟩ := Nat.exists_eq_succ_of_ne_zero (Nat.ne_zero_of_lt hfuel)
    obtain ⟨hu, hus⟩ := List.forall_mem_cons.mp hus
    cases us with
    | nil =>
      exact readItems_last hu depth n rest
    | cons v vs =>
      have hsplit : Json.separated ((u :: v :: vs).map Json.writeString) =
        Json.writeString u ++ ',' :: Json.separated ((v :: vs).map Json.writeString) := rfl
      rw [hsplit, List.length_append, List.length_cons] at hfuel
      have hmore := ih hus (show _ < n by omega)
      rw [hsplit, List.append_assoc, List.cons_append, readItems_more hu depth n, hmore]
      rfl

theorem reads_strings {us : List String} (hus : ∀ u ∈ us, Text.Printable u) (depth : Nat) :
    Reads (readValue (depth + 1)) (Json.writeStrings us) (.list (us.map .text)) := by
  intro rest hrest
  have hfuel : (Json.separated (us.map Json.writeString)).length <
      (Json.separated (us.map Json.writeString) ++ ']' :: rest).length + 1 := by
    rw [List.length_append]
    omega
  rw [Json.writeStrings, List.append_assoc, List.cons_append, List.singleton_append, readValue,
    if_pos (show opens ('[' :: _) = true from rfl)]
  simp only [readNested, bind, Except.bind, readItems_separated hus depth hfuel rest]

def nodeOf : Setting → Node
  | .name s => .text s
  | .available b => .bool b
  | .capability c => .text c.word
  | .fallback f => .text (f.getD "")
  | .useCases us => .list (us.map .text)

theorem reads_value {x : Setting} (hx : x.Printable) (depth : Nat) :
    Reads (readValue (depth + 1)) (Json.writeValue x) (nodeOf x) := by
  cases x with
  | name s => exact reads_string hx _
  | available b => exact reads_bool b _
  | capability c => exact reads_string (Decode.printable_word c) _
  | fallback f =>
    obtain ⟨s, hf, hs⟩ := hx
    obtain rfl : f = some s := hf
    exact reads_string hs _
  | useCases us => exact reads_strings hx depth

theorem mapM_text? (us : List String) : (us.map Node.text).mapM Node.text? = .ok us := by
  have htexts : us.mapM (Node.text? ∘ Node.text) = .ok (us.map id) :=
    Decode.mapM_eq_ok fun u _ => rfl
  rw [List.mapM_map, htexts, List.map_id]

theorem setting?_nodeOf {x : Setting} (hx : x.Printable) : (nodeOf x).setting? x.field = .ok x := by
  cases x with
  | name s => rfl
  | available b => rfl
  | capability c =>
    simp only [nodeOf, Node.setting?, Setting.field, Node.capability?, capabilityOf,
      Decode.capability, Capability.ofWord?_word]
    rfl
  | fallback f =>
    obtain ⟨s, hf, -⟩ := hx
    obtain rfl : f = some s := hf
    rfl
  | useCases us =>
    simp only [nodeOf, Node.setting?, Setting.field, Node.texts?, Node.items?, mapM_text?]
    rfl

end ToolRoster.Toml
