import ToolRoster.RegistryFile.Load
/-!
# What decoders yield

Every record comes out of a draft, and a draft keeps no empty fallback. So no decoder yields a record
with one, whatever the text is and however its fields are spelled.
-/
namespace ToolRoster
open Decode (Draft Field Problem Setting)

/-- The result is like this, if there is one. -/
def Yields {ε α : Type} (x : Except ε α) (P : α → Prop) : Prop := ∀ a, x = .ok a → P a

section
variable {ε ε' α β : Type} {P : α → Prop} {x : Except ε α}

theorem yields_error (e : ε) : Yields (.error e) P := fun _ h => by contradiction

theorem yields_ok {a : α} (h : P a) : Yields (.ok a : Except ε α) P := by
  intro b hb
  obtain rfl := Except.ok.inj hb
  exact h

theorem yields_any (x : Except ε α) : Yields x fun _ => True := fun _ _ => trivial

theorem Yields.bind {Q : β → Prop} {f : α → Except ε β} (h : Yields x P)
    (hf : ∀ a, P a → Yields (f a) Q) : Yields (x >>= f) Q := by
  cases x with
  | error e => exact yields_error e
  | ok a => exact hf a (h a rfl)

theorem Yields.mapError (h : Yields x P) (f : ε → ε') : Yields (x.mapError f) P := by
  cases x with
  | error e => exact yields_error (f e)
  | ok a => exact yields_ok (h a rfl)

theorem yields_mapM {f : β → Except ε α} (h : ∀ b, Yields (f b) P) (bs : List β) :
    Yields (bs.mapM f) fun as => ∀ a ∈ as, P a := by
  induction bs with
  | nil => exact yields_ok (List.forall_mem_nil P)
  | cons b bs ih =>
    rw [List.mapM_cons]
    refine (h b).bind fun a ha => ih.bind fun as has => ?_
    exact yields_ok (List.forall_mem_cons.mpr ⟨ha, has⟩)

end

/-- A fallback that is declared is not empty. -/
def Tool.Sound (t : Tool) : Prop := t.fallback ≠ some ""

namespace Decode

def Draft.Sound (d : Draft) : Prop := d.fallback ≠ some (some "")

theorem Draft.sound_empty : ({} : Draft).Sound := nofun

theorem Draft.Sound.set {d : Draft} (h : d.Sound) (x : Setting) : (d.set x).Sound := by
  cases x with
  | fallback f =>
    intro hempty
    obtain ⟨-, hne⟩ := Option.filter_eq_some_iff.mp (Option.some.inj hempty)
    contradiction
  | _ => exact h

theorem Draft.Sound.record {d : Draft} (h : d.Sound) (name : String) (c : Capability) :
    (d.record name c).Sound := by
  intro hempty
  cases hd : d.fallback with
  | none => simp [Draft.record, hd] at hempty
  | some f =>
    obtain rfl : f = some "" := by simpa [Draft.record, hd] using hempty
    exact h hd

theorem Draft.Sound.finish {d : Draft} (h : d.Sound) : Yields d.finish Tool.Sound := by
  unfold Draft.finish
  split
  · exact yields_error _
  · exact yields_error _
  · exact yields_ok (h.record _ _)

theorem Draft.Sound.finishList {d : Draft} (h : d.Sound) : Yields d.finishList Tool.Sound := by
  unfold Draft.finishList
  split
  · exact yields_error _
  · exact yields_error _
  · exact yields_ok (h.record _ _)

end Decode

namespace Json

theorem yields_readElements {α : Type} {item : Read α} {P : α → Prop}
    (h : ∀ cs, Yields (item cs) fun p => P p.1) (fuel : Nat) (first : Bool) (cs : List Char) :
    Yields (readElements item fuel first cs) fun p => ∀ a ∈ p.1, P a := by
  induction fuel generalizing first cs with
  | zero => exact yields_error _
  | succ fuel ih =>
    refine (yields_any (nextElement first cs)).bind fun (more, r) _ => ?_
    cases more with
    | false => exact yields_ok (List.forall_mem_nil P)
    | true =>
      refine (h r).bind fun x hx => (ih false x.2).bind fun xs hxs => ?_
      exact yields_ok (List.forall_mem_cons.mpr ⟨hx, hxs⟩)

theorem yields_readList {α : Type} {item : Read α} {P : α → Prop}
    (h : ∀ cs, Yields (item cs) fun p => P p.1) (cs : List Char) :
    Yields (readList item cs) fun p => ∀ a ∈ p.1, P a := by
  unfold readList
  split
  · exact yields_error _
  · refine (yields_readElements h _ true _).bind fun xs hxs => ?_
    exact (yields_any (endList xs.2)).bind fun r _ => yields_ok hxs
  · exact yields_error _

theorem yields_readMembers (fuel : Nat) (first : Bool) {d : Draft} (hd : d.Sound)
    (cs : List Char) : Yields (readMembers fuel first d cs) fun p => p.1.Sound := by
  induction fuel generalizing first d cs with
  | zero => exact yields_error _
  | succ fuel ih =>
    refine (yields_any (nextKey first cs)).bind fun (key, r) _ => ?_
    cases key with
    | none => exact yields_ok hd
    | some key =>
      dsimp only
      split
      · refine (yields_any (colon r)).bind fun r _ => (yields_any (skipValue r)).bind fun r _ => ?_
        exact ih false hd r
      · split
        · exact yields_error _
        · refine (yields_any (colon r)).bind fun r _ => ?_
          exact (yields_any (readField _ r)).bind fun x _ => ih false (hd.set x.1) x.2

theorem yields_readPositions (fs : List Field) (first : Bool) {d : Draft} (hd : d.Sound)
    (cs : List Char) : Yields (readPositions fs first d cs) fun p => p.1.Sound := by
  induction fs generalizing first d cs with
  | nil => exact yields_ok hd
  | cons f fs ih =>
    refine (yields_any (nextElement first cs)).bind fun (more, r) _ => ?_
    cases more with
    | false => exact yields_ok hd
    | true => exact (yields_any (readField f r)).bind fun x _ => ih false (hd.set x.1) x.2

theorem yields_readRecord (cs : List Char) : Yields (readRecord cs) fun p => p.1.Sound := by
  unfold readRecord
  split
  · exact yields_error _
  · refine (yields_readPositions Field.all true Draft.sound_empty _).bind fun d hd => ?_
    dsimp only
    split
    · rename_i t ht
      exact (yields_any (endList d.2)).bind fun r _ => yields_ok (hd.finishList t ht)
    · exact yields_error _
  · refine (yields_readMembers _ true Draft.sound_empty _).bind fun d hd => ?_
    dsimp only
    split
    · rename_i t ht
      exact (yields_any (endObject d.2)).bind fun r _ => yields_ok (hd.finish t ht)
    · exact yields_error _
  · exact yields_error _

theorem yields_readFileMembers (fuel : Nat) (first : Bool) {tools : Option (List Tool)}
    (htools : ∀ ts ∈ tools, ∀ t ∈ ts, t.Sound) (cs : List Char) :
    Yields (readFileMembers fuel first tools cs) fun p => ∀ t ∈ p.1, t.Sound := by
  induction fuel generalizing first tools cs with
  | zero => exact yields_error _
  | succ fuel ih =>
    refine (yields_any (nextKey first cs)).bind fun (key, r) _ => ?_
    cases key with
    | none =>
      cases tools with
      | none => exact yields_ok (List.forall_mem_nil _)
      | some ts => exact yields_ok (htools ts rfl)
    | some key =>
      dsimp only
      split
      · split
        · exact yields_error _
        · refine (yields_any (colon r)).bind fun r _ => ?_
          refine (yields_readList yields_readRecord r).bind fun ts hts => ih false ?_ ts.2
          rintro _ ⟨⟩
          exact hts
      · refine (yields_any (colon r)).bind fun r _ => (yields_any (skipValue r)).bind fun r _ => ?_
        exact ih false htools r

theorem yields_readFile (cs : List Char) : Yields (readFile cs) fun p => ∀ t ∈ p.1, t.Sound := by
  unfold readFile
  split
  · exact yields_error _
  · refine (yields_any (nextElement true _)).bind fun (more, r) _ => ?_
    cases more with
    | false =>
      exact (yields_any (endList r)).bind fun r _ => yields_ok (List.forall_mem_nil _)
    | true =>
      refine (yields_readList yields_readRecord r).bind fun ts hts => ?_
      exact (yields_any (endList ts.2)).bind fun r _ => yields_ok hts
  · refine (yields_readFileMembers _ true (fun _ h => by cases h) _).bind fun ts hts => ?_
    exact (yields_any (endObject ts.2)).bind fun r _ => yields_ok hts
  · exact yields_error _

theorem yields_decode {α : Type} {read : Read α} {P : α → Prop}
    (h : ∀ cs, Yields (read cs) fun p => P p.1) (text : List Char) :
    Yields (decode read text) P := by
  have hwhole : Yields (whole read text) P := by
    refine (h text).bind fun a ha => ?_
    dsimp only
    split
    · exact yields_ok ha
    · exact yields_error _
  exact hwhole.mapError _

end Json

namespace Toml

theorem yields_draftOf {d : Draft} (hd : d.Sound) (es : Entries) :
    Yields (draftOf d es) Draft.Sound := by
  induction es generalizing d with
  | nil => exact yields_ok hd
  | cons e es ih =>
    obtain ⟨key, n⟩ := e
    unfold draftOf
    split
    · exact ih hd
    · exact (yields_any (n.setting? _)).bind fun x _ => ih (hd.set x)

theorem yields_draftOfList {d : Draft} (hd : d.Sound) (items : List (Field × Node)) :
    Yields (draftOfList d items) Draft.Sound := by
  induction items generalizing d with
  | nil => exact yields_ok hd
  | cons item items ih =>
    exact (yields_any (item.2.setting? item.1)).bind fun x _ => ih (hd.set x)

theorem yields_record? (n : Node) : Yields n.record? Tool.Sound := by
  unfold Node.record?
  split
  · exact (yields_draftOf Draft.sound_empty _).bind fun d hd => hd.finish.mapError _
  · split
    · exact (yields_draftOfList Draft.sound_empty _).bind fun d hd => hd.finishList.mapError _
    · exact yields_error _

theorem yields_fileOf (es : Entries) : Yields (fileOf es) fun ts => ∀ t ∈ ts, t.Sound := by
  unfold fileOf
  split
  · exact yields_ok (List.forall_mem_nil _)
  · split
    · exact yields_mapM yields_record? _
    · exact yields_error _

theorem yields_decode {α : Type} {value : Entries → Except Refused α} {P : α → Prop}
    (h : ∀ es, Yields (value es) P) (text : List Char) : Yields (decode value text) P :=
  (yields_any _).bind fun es _ => (h es).mapError _

end Toml

namespace Yaml
namespace Document

variable {α β : Type} {d : Document} {path : Path} {P : α → Prop} {c : Cursor}

theorem yields_node {read : Spot → Read α} (h : ∀ s c, Yields (read s c) fun p => P p.1)
    (c : Cursor) : Yields (d.node read c) fun p => P p.1 := by
  refine (yields_any (d.next c)).bind fun (s, c) _ => ?_
  dsimp only
  split
  · unfold jump
    split
    · exact yields_error _
    · split
      · exact yields_error _
      · refine Yields.bind (P := fun p => P p.1) ?_ fun a ha => yields_ok ha
        exact (yields_any (d.next _)).bind fun s _ => h s.1 s.2
  · exact h s c

theorem yields_readItems {item : Path → Read α}
    (h : ∀ path c, Yields (item path c) fun p => P p.1) (fuel index : Nat) (c : Cursor) :
    Yields (d.readItems path item fuel index c) fun p => ∀ a ∈ p.1, P a := by
  induction fuel generalizing index c with
  | zero => exact yields_error _
  | succ fuel ih =>
    refine (yields_any (d.next c)).bind fun (s, r) _ => ?_
    dsimp only
    split
    · exact yields_ok (List.forall_mem_nil P)
    · refine (h _ c).bind fun x hx => (ih _ x.2).bind fun xs hxs => ?_
      exact yields_ok (List.forall_mem_cons.mpr ⟨hx, hxs⟩)

theorem yields_wrong (s : Spot) (expected : Decode.Expected) :
    Yields (d.wrong path s expected) P := by
  unfold wrong
  dsimp only
  split <;> exact yields_error _

theorem yields_readList {item : Path → Read α}
    (h : ∀ path c, Yields (item path c) fun p => P p.1) (c : Cursor) :
    Yields (d.readList path item c) fun p => ∀ a ∈ p.1, P a := by
  refine yields_node (P := fun as => ∀ a ∈ as, P a) (fun s c => ?_) c
  split
  · exact yields_readItems h _ 0 c
  · split
    · exact yields_ok (List.forall_mem_nil P)
    · exact yields_wrong s .list

theorem yields_readEntries {entry : α → String → Path → Read α}
    (h : ∀ a key path c, P a → Yields (entry a key path c) fun p => P p.1) (fuel : Nat)
    {a : α} (ha : P a) (c : Cursor) :
    Yields (d.readEntries path entry fuel a c) fun p => P p.1 := by
  induction fuel generalizing a c with
  | zero => exact yields_error _
  | succ fuel ih =>
    refine (yields_any (d.next c)).bind fun (s, r) _ => ?_
    dsimp only
    split
    · exact yields_ok ha
    · refine (yields_any (d.readKey path c)).bind fun key _ => ?_
      exact (h a _ _ _ ha).bind fun a ha => ih ha a.2

theorem yields_readMapping {entry : α → String → Path → Read α} {Q : β → Prop}
    (h : ∀ a key path c, P a → Yields (entry a key path c) fun p => P p.1) {start : α}
    (hstart : P start) {finish : α → Except Problem β}
    (hfinish : ∀ a, P a → Yields (finish a) Q) (expected : Decode.Expected) (c : Cursor) :
    Yields (d.readMapping path expected entry start finish c) fun p => Q p.1 := by
  refine yields_node (fun s c => Yields.mapError ?_ _) c
  have hend : ∀ a c, P a → Yields (do
      let b ← (finish a).mapError fun p => Refused.problem p none
      .ok (b, c)) fun (p : β × Cursor) => Q p.1 :=
    fun a c ha => ((hfinish a ha).mapError _).bind fun b hb => yields_ok hb
  dsimp only
  split
  · exact (yields_readEntries h _ hstart c).bind fun a ha => hend a.1 a.2 ha
  · split
    · exact hend start c hstart
    · exact Yields.bind (yields_wrong (P := fun p => P p.1) s expected) fun a ha => hend a.1 a.2 ha

theorem yields_readRecordEntry (draft : Draft) (key : String) (path : Path) (c : Cursor)
    (hd : draft.Sound) : Yields (d.readRecordEntry draft key path c) fun p => p.1.Sound := by
  unfold readRecordEntry
  split
  · exact (yields_any (d.skipNode c)).bind fun r _ => yields_ok hd
  · split
    · exact yields_error _
    · exact (yields_any (d.readField path _ c)).bind fun x _ => yields_ok (hd.set x.1)

theorem yields_readRecord (path : Path) (c : Cursor) :
    Yields (d.readRecord path c) fun p => p.1.Sound :=
  yields_readMapping yields_readRecordEntry Draft.sound_empty (fun _ hd => hd.finish) .record c

theorem yields_readFileEntry (tools : Option (List Tool)) (key : String) (path : Path) (c : Cursor)
    (htools : ∀ ts ∈ tools, ∀ t ∈ ts, t.Sound) :
    Yields (d.readFileEntry tools key path c) fun p => ∀ ts ∈ p.1, ∀ t ∈ ts, t.Sound := by
  unfold readFileEntry
  split
  · exact (yields_any (d.skipNode c)).bind fun r _ => yields_ok htools
  · split
    · exact yields_error _
    · refine (yields_readList yields_readRecord c).bind fun ts hts => yields_ok ?_
      rintro _ ⟨⟩
      exact hts

theorem yields_readFile (path : Path) (c : Cursor) :
    Yields (d.readFile path c) fun p => ∀ t ∈ p.1, t.Sound := by
  have hstart : ∀ ts ∈ (none : Option (List Tool)), ∀ t ∈ ts, t.Sound := fun ts hts => by cases hts
  have hfinish : ∀ tools : Option (List Tool), (∀ ts ∈ tools, ∀ t ∈ ts, t.Sound) →
      Yields (.ok (tools.getD []) : Except Problem (List Tool)) fun ts => ∀ t ∈ ts, t.Sound := by
    intro tools htools
    cases tools with
    | none => exact yields_ok (List.forall_mem_nil _)
    | some ts => exact yields_ok (htools ts rfl)
  exact yields_readMapping yields_readFileEntry hstart hfinish .registryFile c

end Document

theorem yields_decode {α : Type} {read : Document → Path → Read α} {P : α → Prop}
    (h : ∀ d path c, Yields (read d path c) fun p => P p.1) (text : List Char) :
    Yields (decode read text) P := by
  refine Yields.mapError ?_ _
  refine (h _ [] _).bind fun a ha => ?_
  dsimp only
  split
  · exact yields_error _
  · exact yields_ok ha

end Yaml

theorem yields_fileDecoders (format : Format) (text : List Char) :
    Yields (fileDecoders.of format text) fun ts => ∀ t ∈ ts, t.Sound := by
  cases format with
  | toml => exact Toml.yields_decode Toml.yields_fileOf text
  | json => exact Json.yields_decode Json.yields_readFile text
  | yaml => exact Yaml.yields_decode (fun d => Yaml.Document.yields_readFile) text

end ToolRoster
