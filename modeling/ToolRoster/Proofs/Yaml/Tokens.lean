import ToolRoster.Proofs.Yaml.Steps
/-!
# Tokens of compact JSON

Reading goes step by step, and steps compose along the text: a string or a word is one token, and a
collection is what its parts are between signs of its own.
-/
namespace ToolRoster.Yaml
open Lexing (At Brackets Next Seen Steps)

def Ends (flow : Nat) (rest : List Char) : Prop := ∀ c ∈ rest.head?, flow ≠ 0 ∧ isFlowIndicator c

/-- This text comes to these tokens wherever it stands. -/
def Lexes (text : List Char) (new : List Token) : Prop :=
  ∀ {l : Lexing} {flow : Nat} {ts : List Token} {rest : List Char}, l.At flow ts (text ++ rest) →
    Ends flow rest → ∃ l', Steps l l' ∧ l'.At flow (ts ++ new) rest

def LexesInside (text : List Char) (new : List Token) : Prop :=
  ∀ {l : Lexing} {flow : Nat} {ts : List Token} {rest : List Char}, flow ≠ 0 → l.keyAllowed →
    l.At flow ts (text ++ rest) → Ends flow rest → ∃ l', Steps l l' ∧ l'.At flow (ts ++ new) rest

section
variable {text : List Char} {new : List Token}

theorem Lexes.inside (h : Lexes text new) : LexesInside text new := fun _ _ hat hends => h hat hends

theorem lexes_string {s : String} (hs : Text.Printable s) :
    Lexes (Json.writeString s) [.scalar .double s.toList] := by
  intro l flow ts rest hat _
  obtain ⟨l', hnext, hat', -⟩ := Lexing.next_string hs hat
  exact ⟨l', .single hnext, hat'⟩

theorem lexes_word {word : List Char} (hne : word ≠ []) (hword : ∀ c ∈ word, c.isAlpha) :
    Lexes word [.scalar .plain word] := by
  intro l flow ts rest hat hends
  obtain ⟨l', hnext, hat'⟩ := Lexing.next_word hne hword hends hat
  exact ⟨l', .single hnext, hat'⟩

theorem lexes_entry {key : String} (hkey : Text.Printable key)
    (hshort : (Json.writeString key).length ≤ keyLimit) (h : Lexes text new) :
    LexesInside (Json.writeMember key text) (.key :: .scalar .double key.toList :: .value :: new) := by
  intro l flow ts rest hflow hallowed hat hends
  rw [Json.writeMember, List.append_assoc] at hat
  obtain ⟨l₁, hnext₁, hat₁, hremembered⟩ := Lexing.next_string hkey hat
  obtain ⟨hkey?, hcount, hplace⟩ := hremembered hallowed
  -- At the colon the key has not gone out of reach, because it is short.
  have hfresh : PossibleKey.isStale ⟨false, l.count, l.place.index, l.place.mark⟩ l₁.place = false := by
    rw [hplace]
    simp [PossibleKey.isStale, Place.advance, hshort]
  obtain ⟨l₂, hnext₂, hat₂⟩ := Lexing.next_colon hflow hkey? hfresh hcount.symm hat₁
  obtain ⟨l₃, hsteps, hat₃⟩ := h hat₂ hends
  exact ⟨l₃, .head hnext₁ (.head hnext₂ hsteps), by simpa using hat₃⟩

def commas : List (List Token) → List Token
  | [] => []
  | x :: xs => x ++ xs.flatMap (.flowEntry :: ·)

section
variable {β : Type} {write : β → List Char} {tokens : β → List Token} {b : Brackets}
  (hb : b = Lexing.lists ∨ b = Lexing.maps)
include hb

theorem ends_more (xs : List β) (flow : Nat) (rest : List Char) :
    Ends (flow + 1) ((xs.map write).flatMap (',' :: ·) ++ b.closer :: rest) := by
  intro c hc
  refine ⟨Nat.succ_ne_zero flow, ?_⟩
  cases xs with
  | nil =>
    obtain rfl : b.closer = c := by simpa using hc
    rcases hb with rfl | rfl <;> decide
  | cons x xs =>
    obtain rfl : ',' = c := by simpa using hc
    decide

theorem lexes_more {xs : List β} (hparts : ∀ x ∈ xs, LexesInside (write x) (tokens x))
    {l : Lexing} {flow : Nat} {ts : List Token} {rest : List Char}
    (hat : l.At (flow + 1) ts ((xs.map write).flatMap (',' :: ·) ++ b.closer :: rest)) :
    ∃ l', Steps l l' ∧
      l'.At (flow + 1) (ts ++ (xs.map tokens).flatMap (.flowEntry :: ·)) (b.closer :: rest) := by
  induction xs generalizing l ts with
  | nil => exact ⟨l, .refl, by simpa using hat⟩
  | cons x xs ih =>
    obtain ⟨hx, hxs⟩ := List.forall_mem_cons.mp hparts
    rw [List.map_cons, List.flatMap_cons, List.append_assoc, List.cons_append] at hat
    obtain ⟨l₁, hnext, hat₁, hallowed⟩ := Lexing.next_comma hat
    obtain ⟨l₂, hsteps₂, hat₂⟩ :=
      hx (Nat.succ_ne_zero flow) hallowed hat₁ (ends_more hb xs flow rest)
    obtain ⟨l₃, hsteps₃, hat₃⟩ := ih hxs hat₂
    exact ⟨l₃, .head hnext (hsteps₂.trans hsteps₃), by simpa using hat₃⟩

theorem lexes_collection {xs : List β} (hparts : ∀ x ∈ xs, LexesInside (write x) (tokens x)) :
    Lexes (b.opener :: Json.separated (xs.map write) ++ [b.closer])
      (b.start :: commas (xs.map tokens) ++ [b.stop]) := by
  intro l flow ts rest hat _
  rw [List.append_assoc, List.cons_append, List.singleton_append] at hat
  obtain ⟨l₁, hopen, hat₁, hallowed⟩ := Lexing.next_open hb hat
  cases xs with
  | nil =>
    obtain ⟨l₂, hclose, hat₂⟩ := Lexing.next_close hb hat₁
    exact ⟨l₂, .head hopen (.single hclose), by simpa [commas] using hat₂⟩
  | cons x xs =>
    obtain ⟨hx, hxs⟩ := List.forall_mem_cons.mp hparts
    rw [List.map_cons, Json.separated_cons, List.append_assoc] at hat₁
    obtain ⟨l₂, hsteps₂, hat₂⟩ :=
      hx (Nat.succ_ne_zero flow) hallowed hat₁ (ends_more hb xs flow rest)
    obtain ⟨l₃, hsteps₃, hat₃⟩ := lexes_more hb hxs hat₂
    obtain ⟨l₄, hclose, hat₄⟩ := Lexing.next_close hb hat₃
    exact ⟨l₄, .head hopen ((hsteps₂.trans hsteps₃).tail hclose), by simpa [commas] using hat₄⟩

end

end

theorem read_steps {l l' : Lexing} (h : Steps l l') {fuel : Nat} (settled : Nat)
    (hfuel : l.place.rest.length + 1 < fuel) :
    ∃ fuel' settled', l'.place.rest.length + 1 < fuel' ∧
      Tokens.read fuel settled l = Tokens.read fuel' settled' l' := by
  -- Every step shortens the text, and the fuel stays above its length.
  induction h using Relation.ReflTransGen.head_induction_on generalizing fuel settled with
  | refl => exact ⟨fuel, settled, hfuel, rfl⟩
  | head hnext _ ih =>
    obtain ⟨n, rfl⟩ := Nat.exists_eq_succ_of_ne_zero (Nat.ne_zero_of_lt hfuel)
    obtain ⟨d, hdrop, hunfinished, hfetch, hshorter⟩ := hnext
    obtain ⟨fuel', settled', hfuel', hread⟩ := ih d.settled (show _ < n by omega)
    refine ⟨fuel', settled', hfuel', ?_⟩
    rw [← hread, Tokens.read]
    simp [hdrop, hunfinished, hfetch]

theorem read_end {l : Lexing} {ts : List Token} {flow : Nat} (hat : l.At flow ts [])
    (fuel settled : Nat) : ∃ placed, Tokens.read (fuel + 2) settled l = ⟨placed, none⟩ ∧
      placed.map Placed.token = ts ++ [.streamEnd] := by
  have hseen : Seen [] := by simp [Seen]
  have htoken : l.fresh.fetchToken = l.fresh.fetchEnd := by
    simp [Lexing.fetchToken, hat.fresh.rest]
  obtain ⟨l', hend, hfinished, htokens, hoptional⟩ := hat.fresh.fetchEnd
  have hfetch := (hat.fetch_fresh hseen).trans (htoken.trans hend)
  have hfinished' : l'.fresh.finished = true := hfinished
  refine ⟨l'.fresh.tokens.reverse, ?_, ?_⟩
  · simp only [Tokens.read, Lexing.dropStale_eq hat.optional, hat.fresh.unfinished, hfetch,
      Lexing.dropStale_eq hoptional, hfinished', Bool.false_eq_true, if_false, if_true]
  · rw [List.map_reverse]
    exact (congrArg List.reverse htokens).trans (by simp)

theorem forbidden?_eq_none {text : List Char} (h : ∀ c ∈ text, isAllowed c) (p : Place) :
    Tokens.forbidden? p text = none := by
  induction text generalizing p with
  | nil => rfl
  | cons c text ih =>
    obtain ⟨hc, htext⟩ := List.forall_mem_cons.mp h
    rw [Tokens.forbidden?, if_pos hc, ih htext]

theorem ofText_of_lexes {text : List Char} {new : List Token} (hallowed : ∀ c ∈ text, isAllowed c)
    (h : Lexes text new) : ∃ placed, Tokens.ofText text = ⟨placed, none⟩ ∧
      placed.map Placed.token = .streamStart :: new ++ [.streamEnd] := by
  let start : Mark := ⟨0, 0⟩
  let l : Lexing := ({ place := ⟨text, 0, start⟩ } : Lexing).emit .streamStart start start
  have hat : l.At 0 [.streamStart] (text ++ []) :=
    ⟨rfl, (List.append_nil text).symm, rfl, rfl, rfl, by simp [l, Lexing.emit], rfl⟩
  obtain ⟨l', hsteps, hat'⟩ := h hat (by simp [Ends])
  obtain ⟨fuel, settled, hfuel, hread⟩ := read_steps hsteps 1 (Nat.lt_succ_self (text.length + 1))
  obtain ⟨n, rfl⟩ := Nat.exists_eq_add_of_le' (show 2 ≤ fuel by omega)
  obtain ⟨placed, hend, hplaced⟩ := read_end hat' n settled
  refine ⟨placed, ?_, by simpa using hplaced⟩
  rw [Tokens.ofText, forbidden?_eq_none hallowed]
  exact hread.trans hend

end ToolRoster.Yaml
