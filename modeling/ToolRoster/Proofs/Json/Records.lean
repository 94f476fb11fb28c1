import ToolRoster.Proofs.Json.Lists
/-!
# Records of JSON read back

A record is written as the settings of its draft, and every setting reads as itself. What reading
makes of a written record is therefore the draft of its settings: the record, but for an empty
fallback, which declares none.
-/
namespace ToolRoster

/-- A record as a file can hold it. -/
def Tool.normalized (t : Tool) : Tool :=
  { t with fallback := t.fallback.filter fun f => !f.isEmpty }

namespace Decode

def Setting.field : Setting → Field
  | .name _ => .name
  | .available _ => .available
  | .capability _ => .capability
  | .fallback _ => .fallback
  | .useCases _ => .useCases

theorem Field.ofKey?_key (f : Field) : ofKey? f.key = some f := by cases f <;> decide

theorem Field.key_of_ofKey? {key : String} {f : Field} (h : ofKey? key = some f) : f.key = key := by
  simpa using List.find?_some h

theorem Field.key_injective : Function.Injective key := by
  intro f g h
  have hf := ofKey?_key f
  rw [h, ofKey?_key] at hf
  exact (Option.some.inj hf).symm

theorem Draft.holds_set (d : Draft) (x : Setting) (f : Field) :
    (d.set x).holds f = (decide (f = x.field) || d.holds f) := by
  cases x <;> cases f <;> simp [set, holds, Setting.field]

theorem Draft.holds_set_of_fresh {d : Draft} {x : Setting} {xs : List Setting}
    (hd : ∀ y ∈ xs, d.holds y.field = false) (hx : x.field ∉ xs.map Setting.field) :
    ∀ y ∈ xs, (d.set x).holds y.field = false := by
  intro y hy
  have hne : y.field ≠ x.field := fun he => hx (he ▸ List.mem_map_of_mem hy)
  rw [holds_set, hd y hy, decide_eq_false hne, Bool.or_false]

theorem Draft.finish_eq_ok_iff {d : Draft} {t : Tool} :
    d.finish = .ok t ↔ d.name = some t.name ∧ d.capability = some t.capability ∧
      t.available = d.available.getD false ∧ t.fallback = d.fallback.getD none ∧
      t.useCases = d.useCases.getD [] := by
  obtain ⟨n, c, a, f, us⟩ := t
  cases hn : d.name <;> cases hc : d.capability <;> simp [finish, record, hn, hc]
  grind

/-- Settings of different fields that make up a record. -/
structure Makes (xs : List Setting) (t : Tool) : Prop where
  nodup : (xs.map Setting.field).Nodup
  finish : (xs.foldl Draft.set {}).finish = .ok t

def settings (t : Tool) : List Setting :=
  [.name t.name, .available t.available, .capability t.capability] ++
    (match t.fallback with
     | some f => [.fallback (some f)]
     | none => []) ++
    (if t.useCases.isEmpty then [] else [.useCases t.useCases])

theorem nodup_settings (t : Tool) : ((settings t).map Setting.field).Nodup := by
  unfold settings
  cases t.fallback <;> cases t.useCases <;> simp [Setting.field]

theorem finish_settings (t : Tool) :
    ((settings t).foldl Draft.set {}).finish = .ok t.normalized := by
  obtain ⟨n, c, a, f, us⟩ := t
  cases f <;> cases us <;>
    simp [settings, Draft.set, Draft.finish, Draft.record, Tool.normalized]

theorem makes_settings (t : Tool) : Makes (settings t) t.normalized :=
  ⟨nodup_settings t, finish_settings t⟩

end Decode

namespace Json
open Decode (Draft Field Setting)

theorem opens_string (s : String) : Opens (writeString s) := ⟨'"', _, rfl, by decide, by decide⟩

theorem reads_text (s : String) : Reads readText (writeString s) s := by
  intro rest
  rw [readText, writeString_append, skipBlank_cons (by decide)]
  exact readString_escaped s rest

def writeValue : Setting → List Char
  | .name s => writeString s
  | .available b => writeBool b
  | .capability c => writeString c.word
  | .fallback none => "null".toList
  | .fallback (some f) => writeString f
  | .useCases us => writeStrings us

theorem reads_bool (b : Bool) : Reads readBool (writeBool b) b := by
  intro rest
  cases b <;> rfl

theorem reads_capability (c : Capability) : Reads readCapability (writeString c.word) c := by
  intro rest
  rw [readCapability, writeString_append, skipBlank_cons (by decide)]
  simp only [readCapabilityWord, readString_escaped, bind, Except.bind, Decode.capability,
    Capability.ofWord?_word]

theorem reads_optionalText (f : Option String) :
    Reads readOptionalText (writeValue (.fallback f)) f := by
  intro rest
  cases f with
  | none => rfl
  | some s =>
    have hs := reads_text s rest
    rw [writeString_append] at hs
    rw [readOptionalText, writeValue, writeString_append, skipBlank_cons (by decide)]
    change (readText _ >>= fun p => Except.ok (some p.1, p.2)) = _
    rw [hs]
    rfl

theorem reads_strings (ss : List String) : Reads (readList readText) (writeStrings ss) ss := by
  have hss : Reads (readList readText) (writeStrings ss) (ss.map id) :=
    reads_list (fun s _ => opens_string s) (fun s _ => reads_text s)
  rwa [List.map_id] at hss

theorem reads_value (x : Setting) : Reads (readField x.field) (writeValue x) x := by
  intro rest
  cases x with
  | name s => simp only [readField, Setting.field, writeValue, reads_text s _, bind, Except.bind]
  | available b =>
    simp only [readField, Setting.field, writeValue, reads_bool b _, bind, Except.bind]
  | capability c =>
    simp only [readField, Setting.field, writeValue, reads_capability c _, bind, Except.bind]
  | fallback f => simp only [readField, Setting.field, reads_optionalText f _, bind, Except.bind]
  | useCases us =>
    simp only [readField, Setting.field, writeValue, reads_strings us _, bind, Except.bind]

section
variable {first : Bool} {text r : List Char}

theorem nextKey_leads (h : Leads first text ('"' :: r)) :
    nextKey first text = readString r >>= fun p => .ok (some p.1, p.2) := by
  cases first with
  | true => simp [nextKey, show skipBlank text = '"' :: r from h]
  | false =>
    obtain ⟨t, htext, ht⟩ := h
    simp [nextKey, htext, ht]

theorem nextKey_end (first : Bool) (h : skipBlank text = '}' :: r) :
    nextKey first text = .ok (none, '}' :: r) := by
  rw [nextKey, h]
  rfl

theorem readMembers_end (first : Bool) {d : Draft} (h : skipBlank text = '}' :: r) (fuel : Nat) :
    readMembers (fuel + 1) first d text = .ok (d, '}' :: r) := by
  rw [readMembers, nextKey_end first h]
  rfl

end

theorem skipBlank_writeString (s : String) (rest : List Char) :
    skipBlank (writeString s ++ rest) = '"' :: (s.toList.flatMap escape ++ '"' :: rest) := by
  rw [writeString_append, skipBlank_cons (by decide)]

theorem nextKey_first (key : String) (rest : List Char) :
    nextKey true (writeString key ++ rest) = .ok (some key, rest) := by
  have hlead : Leads true (writeString key ++ rest) _ := skipBlank_writeString key rest
  rw [nextKey_leads hlead, readString_escaped]
  rfl

theorem nextKey_more (key : String) (rest : List Char) :
    nextKey false (',' :: writeString key ++ rest) = .ok (some key, rest) := by
  have hlead : Leads false (',' :: writeString key ++ rest) _ :=
    ⟨_, skipBlank_cons (by decide) _, skipBlank_writeString key rest⟩
  rw [nextKey_leads hlead, readString_escaped]
  rfl

theorem colon_cons (rest : List Char) : colon (':' :: rest) = .ok rest := by
  rw [colon, skipBlank_cons (by decide)]
  rfl

theorem endObject_close (rest : List Char) : endObject ('}' :: rest) = .ok rest := by
  rw [endObject, skipBlank_cons (by decide)]
  rfl

def writeSetting (x : Setting) : List Char := writeMember x.field.key (writeValue x)

theorem writeSetting_ne_nil (x : Setting) : writeSetting x ≠ [] := by
  rw [writeSetting, writeMember, writeString_append]
  exact List.cons_ne_nil _ _

theorem members_eq (t : Tool) : members t = (Decode.settings t).map writeSetting := by
  obtain ⟨n, c, a, f, us⟩ := t
  cases f <;> cases us <;> rfl

theorem readMembers_setting {d : Draft} {x : Setting} (hd : d.holds x.field = false)
    {first : Bool} {cs rest : List Char}
    (hkey : nextKey first cs = .ok (some x.field.key, ':' :: writeValue x ++ rest)) (fuel : Nat) :
    readMembers (fuel + 1) first d cs = readMembers fuel false (d.set x) rest := by
  rw [readMembers, hkey]
  simp only [bind, Except.bind, Field.ofKey?_key, hd, List.cons_append, colon_cons, reads_value x _]
  rfl

theorem readMembers_more {xs : List Setting} {d : Draft} (hd : ∀ x ∈ xs, d.holds x.field = false)
    (hnodup : (xs.map Setting.field).Nodup) (rest : List Char) {fuel : Nat}
    (hfuel : ((xs.map writeSetting).flatMap (',' :: ·)).length < fuel) :
    readMembers fuel false d ((xs.map writeSetting).flatMap (',' :: ·) ++ '}' :: rest) =
      .ok (xs.foldl Draft.set d, '}' :: rest) := by
  -- The draft grows along the text, and what it holds stays apart from the fields to come.
  induction xs generalizing d fuel with
  | nil =>
    obtain ⟨n, rfl⟩ := Nat.exists_eq_succ_of_ne_zero (Nat.ne_zero_of_lt hfuel)
    exact readMembers_end false (skipBlank_cons (by decide) rest) n
  | cons x xs ih =>
    obtain ⟨n, rfl, hn⟩ := fuel_more (writeSetting x) (xs.map writeSetting) hfuel
    obtain ⟨hx, hxs⟩ := List.forall_mem_cons.mp hd
    rw [List.map_cons] at hnodup
    obtain ⟨hfresh, hnodup⟩ := List.nodup_cons.mp hnodup
    have hset := Draft.holds_set_of_fresh hxs hfresh
    rw [List.map_cons, List.flatMap_cons]
    have hkey := nextKey_more x.field.key (':' :: writeValue x ++
      ((xs.map writeSetting).flatMap (',' :: ·) ++ '}' :: rest))
    rw [List.foldl_cons, ← ih hset hnodup hn]
    refine readMembers_setting hx ?_ n
    rw [← hkey]
    simp [writeSetting, writeMember]

theorem readMembers_separated {xs : List Setting} (hnodup : (xs.map Setting.field).Nodup)
    (rest : List Char) {fuel : Nat} (hfuel : (separated (xs.map writeSetting)).length < fuel) :
    readMembers fuel true {} (separated (xs.map writeSetting) ++ '}' :: rest) =
      .ok (xs.foldl Draft.set {}, '}' :: rest) := by
  cases xs with
  | nil =>
    obtain ⟨n, rfl⟩ := Nat.exists_eq_succ_of_ne_zero (Nat.ne_zero_of_lt hfuel)
    exact readMembers_end true (skipBlank_cons (by decide) rest) n
  | cons x xs =>
    obtain ⟨n, rfl, hn⟩ := fuel_separated (writeSetting_ne_nil x) (xs.map writeSetting) hfuel
    have hnone : ∀ f, ({} : Draft).holds f = false := fun f => by cases f <;> rfl
    rw [List.map_cons] at hnodup
    obtain ⟨hfresh, hnodup⟩ := List.nodup_cons.mp hnodup
    have hset := Draft.holds_set_of_fresh (fun y (_ : y ∈ xs) => hnone y.field) hfresh
    rw [List.map_cons, separated_cons]
    have hkey := nextKey_first x.field.key (':' :: writeValue x ++
      ((xs.map writeSetting).flatMap (',' :: ·) ++ '}' :: rest))
    rw [List.foldl_cons, ← readMembers_more hset hnodup rest hn]
    refine readMembers_setting (hnone _) ?_ n
    rw [← hkey]
    simp [writeSetting, writeMember]

def writeObject (xs : List Setting) : List Char := '{' :: separated (xs.map writeSetting) ++ ['}']

def writeObjects (xss : List (List Setting)) : List Char :=
  '{' :: writeMember Decode.toolKey ('[' :: separated (xss.map writeObject) ++ [']']) ++ ['}']

theorem writeRecord_eq (t : Tool) : writeRecord t = writeObject (Decode.settings t) := by
  rw [writeRecord, members_eq, writeObject]

theorem writeFile_eq (ts : List Tool) : writeFile ts = writeObjects (ts.map Decode.settings) := by
  have hrecords : ts.map writeRecord = ts.map (writeObject ∘ Decode.settings) :=
    List.map_congr_left fun t _ => writeRecord_eq t
  rw [writeFile, writeObjects, List.map_map, hrecords]
  rfl

theorem opens_object (xs : List Setting) : Opens (writeObject xs) :=
  ⟨'{', _, rfl, by decide, by decide⟩

theorem reads_object {xs : List Setting} {t : Tool} (h : Decode.Makes xs t) :
    Reads readRecord (writeObject xs) t := by
  intro rest
  have hfuel : (separated (xs.map writeSetting)).length <
      (separated (xs.map writeSetting) ++ '}' :: rest).length + 1 := by
    rw [List.length_append]
    omega
  rw [writeObject, List.append_assoc, List.cons_append, List.singleton_append, readRecord,
    skipBlank_cons (by decide)]
  simp only [bind, Except.bind, readMembers_separated h.nodup rest hfuel, h.finish, endObject_close]

theorem reads_record (t : Tool) : Reads readRecord (writeRecord t) t.normalized := by
  rw [writeRecord_eq]
  exact reads_object (Decode.makes_settings t)

theorem readFileMembers_tool {text : List Char} {ts : List Tool}
    (h : Reads (readList readRecord) text ts) (fuel : Nat) (rest : List Char) :
    readFileMembers (fuel + 2) true none
      (writeString Decode.toolKey ++ (':' :: (text ++ '}' :: rest))) = .ok (ts, '}' :: rest) := by
  have hend := nextKey_end false (skipBlank_cons (show isBlank '}' = false by decide) rest)
  rw [readFileMembers, nextKey_first]
  simp only [bind, Except.bind, colon_cons, h _, readFileMembers, hend, if_true, Option.getD_some]

theorem reads_objects {β : Type} {settings : β → List Setting} {value : β → Tool} {bs : List β}
    (h : ∀ b ∈ bs, Decode.Makes (settings b) (value b)) :
    Reads readFile (writeObjects (bs.map settings)) (bs.map value) := by
  intro rest
  have hlist := reads_list (fun b (_ : b ∈ bs) => opens_object (settings b))
    fun b hb => reads_object (h b hb)
  have htext : writeObjects (bs.map settings) ++ rest = '{' :: (writeString Decode.toolKey ++
      (':' :: ('[' :: separated (bs.map fun b => writeObject (settings b)) ++ [']'] ++
        '}' :: rest))) := by
    simp [writeObjects, writeMember, Function.comp_def]
  rw [htext, readFile, skipBlank_cons (by decide)]
  simp only [bind, Except.bind]
  rw [writeString_append, List.length_cons, ← writeString_append, readFileMembers_tool hlist]
  simp only [endObject_close]

theorem reads_file (ts : List Tool) : Reads readFile (writeFile ts) (ts.map Tool.normalized) := by
  rw [writeFile_eq]
  exact reads_objects fun t _ => Decode.makes_settings t

theorem decode_of_reads {α : Type} {read : Read α} {text : List Char} {a : α}
    (h : Reads read text a) : decode read text = .ok a := by
  have ha := h []
  rw [List.append_nil] at ha
  simp only [decode, whole, ha, bind, Except.bind, skipBlank, List.dropWhile_nil]
  rfl

end Json
end ToolRoster
