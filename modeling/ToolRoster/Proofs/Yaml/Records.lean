import ToolRoster.Proofs.Yaml.Pieces
import ToolRoster.Yaml.Record
/-!
# Records read back from their pieces

Reading stops at the end of the pieces that stand for a value, so a list is read item by item and a
mapping entry by entry. The places of the pieces do not matter, since no message is made of them.
-/
namespace ToolRoster.Yaml
open Decode (Draft Field Setting)

def Reads {α : Type} (read : Read α) (pieces : List Piece) (a : α) : Prop :=
  ∀ (spots rest : List Spot) (jumps : Nat), spots.map Spot.piece = pieces →
    read ⟨spots ++ rest, jumps⟩ = .ok (a, ⟨rest, jumps⟩)

section
variable {d : Document} {path : Path}

theorem reads_piece {α : Type} {read : Read α} {p : Piece} {a : α}
    (h : ∀ m rest jumps, read ⟨⟨p, m⟩ :: rest, jumps⟩ = .ok (a, ⟨rest, jumps⟩)) :
    Reads read [p] a := by
  intro spots rest jumps hspots
  obtain ⟨s, rfl, rfl⟩ := List.map_eq_singleton_iff.mp hspots
  exact h s.mark rest jumps

theorem readString_text (expected : Decode.Expected) (s : String) (m : Mark) (rest : List Spot)
    (jumps : Nat) :
    d.readString path expected ⟨⟨textPiece s, m⟩ :: rest, jumps⟩ = .ok (s, ⟨rest, jumps⟩) := by
  change Except.ok (String.ofList s.toList, _) = _
  rw [String.ofList_toList]

theorem reads_string (expected : Decode.Expected) (s : String) :
    Reads (d.readString path expected) [textPiece s] s :=
  reads_piece (readString_text expected s)

theorem reads_bool (b : Bool) :
    Reads (d.readBool path) [.scalar none .plain (Json.writeBool b)] b :=
  reads_piece fun m rest jumps => by cases b <;> rfl

theorem reads_capability (c : Capability) : Reads (d.readCapability path) [textPiece c.word] c := by
  have hword : Decode.capability (.ofList c.word.toList) = .ok c := by
    rw [String.ofList_toList, Decode.capability, Capability.ofWord?_word]
  refine reads_piece fun m rest jumps => ?_
  change (((Decode.capability (.ofList c.word.toList)).mapError fun p =>
    Refused.problem p (some ⟨path, m⟩)) >>= fun c => Except.ok (c, _)) = _
  rw [hword]
  rfl

theorem reads_optional (f : Option String) :
    Reads (d.readOptional path) (valuePieces (.fallback f)) f := by
  cases f with
  | none => exact reads_piece fun m rest jumps => rfl
  | some s =>
    refine reads_piece fun m rest jumps => ?_
    change (d.readString path .text ⟨⟨textPiece s, m⟩ :: rest, jumps⟩ >>=
      fun p => Except.ok (some p.1, p.2)) = _
    rw [readString_text]
    rfl

theorem reads_key (key : String) : Reads (d.readKey path) [textPiece key] (key, .key key) := by
  refine reads_piece fun m rest jumps => ?_
  change (d.readString path .field ⟨⟨textPiece key, m⟩ :: rest, jumps⟩ >>=
    fun p => Except.ok ((p.1, Part.key p.1), p.2)) = _
  rw [readString_text]
  rfl

def Opens (pieces : List Piece) : Prop := ∃ p ps, pieces = p :: ps ∧ p ≠ .listEnd

section
variable {α β : Type} {item : Path → Read α} {pieces : β → List Piece} {value : β → α} {xs : List β}

theorem readItems_end {last : Spot} (hlast : last.piece = .listEnd) (fuel index : Nat)
    (rest : List Spot) (jumps : Nat) :
    d.readItems path item (fuel + 1) index ⟨last :: rest, jumps⟩ = .ok ([], ⟨rest, jumps⟩) := by
  simp only [Document.readItems, Document.next, hlast, bind, Except.bind]

theorem readItems_item {ps : List Piece} (hopens : Opens ps) {a : α}
    (h : ∀ path, Reads (item path) ps a) (fuel index : Nat) {spots : List Spot}
    (hspots : spots.map Spot.piece = ps) (rest : List Spot) (jumps : Nat) :
    d.readItems path item (fuel + 1) index ⟨spots ++ rest, jumps⟩ = (do
      let (xs, c) ← d.readItems path item fuel (index + 1) ⟨rest, jumps⟩
      .ok (a :: xs, c)) := by
  have hitem := h (.item index :: path) spots rest jumps hspots
  obtain ⟨p, ps, rfl, hp⟩ := hopens
  obtain ⟨s, spots, rfl, rfl, -⟩ := List.map_eq_cons_iff.mp hspots
  rw [List.cons_append] at hitem ⊢
  simp only [Document.readItems, Document.next, hitem, bind, Except.bind]

theorem readItems_flatMap (hopens : ∀ x ∈ xs, Opens (pieces x))
    (h : ∀ x ∈ xs, ∀ path, Reads (item path) (pieces x) (value x)) {last : Spot}
    (hlast : last.piece = .listEnd) (rest : List Spot) (jumps index : Nat) {spots : List Spot}
    (hspots : spots.map Spot.piece = xs.flatMap pieces) {fuel : Nat} (hfuel : spots.length < fuel) :
    d.readItems path item fuel index ⟨spots ++ last :: rest, jumps⟩ =
      .ok (xs.map value, ⟨rest, jumps⟩) := by
  obtain ⟨fuel, rfl⟩ := Nat.exists_eq_succ_of_ne_zero (Nat.ne_zero_of_lt hfuel)
  induction xs generalizing index spots fuel with
  | nil =>
    obtain rfl : spots = [] := List.map_eq_nil_iff.mp hspots
    exact readItems_end hlast fuel index rest jumps
  | cons x xs ih =>
    obtain ⟨hx, hxs⟩ := List.forall_mem_cons.mp h
    obtain ⟨hopen, hopens⟩ := List.forall_mem_cons.mp hopens
    rw [List.flatMap_cons] at hspots
    obtain ⟨here, later, rfl, hhere, hlater⟩ := List.map_eq_append_iff.mp hspots
    -- An item has a piece at least, so the fuel for the later ones is there.
    have hpos : 0 < here.length := by
      obtain ⟨p, ps, hps, -⟩ := hopen
      rw [← List.length_map Spot.piece, hhere, hps]
      exact Nat.succ_pos _
    have hmore : later.length < fuel := by
      rw [List.length_append] at hfuel
      omega
    obtain ⟨fuel, rfl⟩ := Nat.exists_eq_succ_of_ne_zero (Nat.ne_zero_of_lt hmore)
    rw [List.append_assoc, readItems_item hopen hx _ _ hhere,
      ih hopens hxs (index + 1) hlater fuel hmore]
    rfl

theorem reads_list (hopens : ∀ x ∈ xs, Opens (pieces x))
    (h : ∀ x ∈ xs, ∀ path, Reads (item path) (pieces x) (value x)) :
    Reads (d.readList path item) (.list none :: xs.flatMap pieces ++ [.listEnd])
      (xs.map value) := by
  intro spots rest jumps hspots
  obtain ⟨first, items, last, rfl, hfirst, hitems, hlast⟩ := map_eq_enclosed hspots
  have hfuel : items.length < (items ++ last :: rest).length + 1 := by
    rw [List.length_append]
    omega
  rw [List.cons_append, List.cons_append, List.append_assoc, List.singleton_append]
  simp only [Document.readList, Document.node, Document.next, hfirst, bind, Except.bind]
  exact readItems_flatMap hopens h hlast rest jumps 0 hitems hfuel

end

theorem reads_strings (us : List String) :
    Reads (d.readList path fun path => d.readString path .text) (valuePieces (.useCases us)) us := by
  have hus : Reads (d.readList path fun path => d.readString path .text)
      (valuePieces (.useCases us)) (us.map id) :=
    reads_list (fun u _ => ⟨textPiece u, [], rfl, nofun⟩) fun u _ _ => reads_string .text u
  rwa [List.map_id] at hus

def ReadsEntries {α : Type} (d : Document) (path : Path) (entry : α → String → Path → Read α)
    (start : α) (pieces : List Piece) (final : α) : Prop :=
  ∀ (spots rest : List Spot) (last : Spot) (jumps fuel : Nat), spots.map Spot.piece = pieces →
    last.piece = .mapEnd → spots.length < fuel →
      d.readEntries path entry fuel start ⟨spots ++ last :: rest, jumps⟩ =
        .ok (final, ⟨rest, jumps⟩)

section
variable {α : Type} {entry : α → String → Path → Read α}

theorem ReadsEntries.nil (a : α) : ReadsEntries d path entry a [] a := by
  intro spots rest last jumps fuel hspots hlast hfuel
  obtain rfl : spots = [] := List.map_eq_nil_iff.mp hspots
  obtain ⟨fuel, rfl⟩ := Nat.exists_eq_succ_of_ne_zero (Nat.ne_zero_of_lt hfuel)
  simp only [List.nil_append, Document.readEntries, Document.next, hlast, bind, Except.bind]

theorem ReadsEntries.cons {a a' b : α} {key : String} {ps qs : List Piece}
    (h : ∀ path, Reads (entry a key path) ps a') (hmore : ReadsEntries d path entry a' qs b) :
    ReadsEntries d path entry a (textPiece key :: ps ++ qs) b := by
  intro spots rest last jumps fuel hspots hlast hfuel
  rw [List.cons_append] at hspots
  obtain ⟨s, spots, rfl, hs, hspots⟩ := List.map_eq_cons_iff.mp hspots
  obtain ⟨value, later, rfl, hvalue, hlater⟩ := List.map_eq_append_iff.mp hspots
  obtain ⟨fuel, rfl⟩ := Nat.exists_eq_succ_of_ne_zero (Nat.ne_zero_of_lt hfuel)
  have hkey : d.readKey path ⟨[s] ++ (value ++ (later ++ last :: rest)), jumps⟩ =
      .ok ((key, .key key), ⟨value ++ (later ++ last :: rest), jumps⟩) :=
    reads_key key _ _ _ (by rw [List.map_singleton, hs])
  have hlaterFuel : later.length < fuel := by
    rw [List.length_cons, List.length_append] at hfuel
    omega
  rw [List.singleton_append] at hkey
  rw [List.cons_append, List.append_assoc]
  simp only [Document.readEntries, Document.next, hs, textPiece, hkey, bind, Except.bind,
    h (.key key :: path) value (later ++ last :: rest) jumps hvalue]
  exact hmore later rest last jumps fuel hlater hlast hlaterFuel

theorem reads_mapping {β : Type} {start final : α} {pieces : List Piece}
    (h : ReadsEntries d path entry start pieces final) {finish : α → Except Decode.Problem β} {b : β}
    (hfinish : finish final = .ok b) (expected : Decode.Expected) :
    Reads (d.readMapping path expected entry start finish) (.map none :: pieces ++ [.mapEnd]) b := by
  intro spots rest jumps hspots
  obtain ⟨first, entries, last, rfl, hfirst, hentries, hlast⟩ := map_eq_enclosed hspots
  have hfuel : entries.length < (entries ++ last :: rest).length + 1 := by
    rw [List.length_append]
    omega
  have hread := h entries rest last jumps _ hentries hlast hfuel
  rw [List.cons_append, List.cons_append, List.append_assoc, List.singleton_append]
  simp only [Document.readMapping, Document.node, Document.next, hfirst, hread, hfinish, bind,
    Except.bind]
  rfl

end

theorem reads_value (x : Setting) : Reads (d.readField path x.field) (valuePieces x) x := by
  intro spots rest jumps hspots
  cases x with
  | name s =>
    simp only [Document.readField, Setting.field, reads_string _ s _ _ _ hspots, bind, Except.bind]
  | available b =>
    simp only [Document.readField, Setting.field, reads_bool b _ _ _ hspots, bind, Except.bind]
  | capability c =>
    simp only [Document.readField, Setting.field, reads_capability c _ _ _ hspots, bind, Except.bind]
  | fallback f =>
    simp only [Document.readField, Setting.field, reads_optional f _ _ _ hspots, bind, Except.bind]
  | useCases us =>
    simp only [Document.readField, Setting.field, reads_strings us _ _ _ hspots, bind, Except.bind]

theorem reads_entry {draft : Draft} {x : Setting} (hx : draft.holds x.field = false) :
    Reads (d.readRecordEntry draft x.field.key path) (valuePieces x) (draft.set x) := by
  intro spots rest jumps hspots
  simp only [Document.readRecordEntry, Field.ofKey?_key, hx, reads_value x _ _ _ hspots, bind,
    Except.bind]
  rfl

theorem readsEntries_settings {xs : List Setting} {draft : Draft}
    (hfresh : ∀ x ∈ xs, draft.holds x.field = false) (hnodup : (xs.map Setting.field).Nodup) :
    ReadsEntries d path d.readRecordEntry draft (xs.flatMap entryPieces)
      (xs.foldl Draft.set draft) := by
  induction xs generalizing draft with
  | nil => exact .nil draft
  | cons x xs ih =>
    obtain ⟨hx, hxs⟩ := List.forall_mem_cons.mp hfresh
    rw [List.map_cons] at hnodup
    obtain ⟨hnew, hnodup⟩ := List.nodup_cons.mp hnodup
    exact .cons (fun _ => reads_entry hx) (ih (Draft.holds_set_of_fresh hxs hnew) hnodup)

theorem reads_object {xs : List Setting} {t : Tool} (h : Decode.Makes xs t) :
    Reads (d.readRecord path) (objectPieces xs) t := by
  have hnone : ∀ f, ({} : Draft).holds f = false := fun f => by cases f <;> rfl
  exact reads_mapping (readsEntries_settings (fun x _ => hnone x.field) h.nodup) h.finish .record

theorem reads_objects {β : Type} {settings : β → List Setting} {value : β → Tool} {bs : List β}
    (h : ∀ b ∈ bs, Decode.Makes (settings b) (value b)) :
    Reads (d.readFile path) (filePieces (bs.map settings)) (bs.map value) := by
  have hlist : ∀ path, Reads (d.readFileEntry none Decode.toolKey path)
      (.list none :: (bs.map settings).flatMap objectPieces ++ [.listEnd])
      (some (bs.map value)) := by
    intro path spots rest jumps hspots
    have hread : Reads (d.readList path d.readRecord)
        (.list none :: bs.flatMap (fun b => objectPieces (settings b)) ++ [.listEnd])
        (bs.map value) :=
      reads_list (fun b _ => ⟨.map none, _, rfl, nofun⟩) fun b hb _ => reads_object (h b hb)
    rw [List.flatMap_map] at hspots
    simp only [Document.readFileEntry, hread spots rest jumps hspots, bind, Except.bind]
    rfl
  have hentries :=
    ReadsEntries.cons hlist (@ReadsEntries.nil d path _ d.readFileEntry (some (bs.map value)))
  rw [List.append_nil] at hentries
  refine reads_mapping hentries ?_ .registryFile
  rw [Option.getD_some]

end

theorem decode_of_spells {α : Type} {read : Document → Path → Read α} {text : List Char}
    {pieces : List Piece} {a : α} (htext : Spells text pieces)
    (hread : ∀ d : Document, Reads (read d []) pieces a) : decode read text = .ok a := by
  obtain ⟨spots, hdocument, hspots⟩ := ofText_of_spells htext
  have ha := hread ⟨spots, [], none⟩ spots [] 0 hspots
  rw [List.append_nil] at ha
  simp only [decode, hdocument, Document.decode, ha, bind, Except.bind]
  rfl

theorem decode_writeObjects {β : Type} {settings : β → List Setting} {value : β → Tool} {bs : List β}
    (h : ∀ b ∈ bs, Decode.Makes (settings b) (value b))
    (hspellable : ∀ b ∈ bs, ∀ x ∈ settings b, Spellable x) :
    decode Document.readFile (Json.writeObjects (bs.map settings)) = .ok (bs.map value) :=
  decode_of_spells (spells_objects (List.forall_mem_map.mpr hspellable)) fun _ => reads_objects h

theorem decode_writeFile {ts : List Tool} (hts : ∀ t ∈ ts, t.Printable) :
    decode Document.readFile (Json.writeFile ts) = .ok (ts.map Tool.normalized) := by
  rw [Json.writeFile_eq]
  exact decode_writeObjects (fun t _ => Decode.makes_settings t)
    fun t ht x hx => Or.inr (Decode.printable_settings (hts t ht) x hx)

end ToolRoster.Yaml
