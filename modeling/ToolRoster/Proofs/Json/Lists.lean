import ToolRoster.Proofs.Json.Strings
/-!
# Lists of JSON read back
-/
namespace ToolRoster.Json

def Opens (text : List Char) : Prop := ∃ c cs, text = c :: cs ∧ isBlank c = false ∧ c ≠ ']'

theorem skipBlank_cons {c : Char} (hc : isBlank c = false) (cs : List Char) :
    skipBlank (c :: cs) = c :: cs := by
  rw [skipBlank, List.dropWhile_cons_of_neg (by simp [hc])]

section
variable {text r : List Char} {c : Char}

/-- The text comes to this part, behind a comma unless the part is the first. -/
def Leads (first : Bool) (text r : List Char) : Prop :=
  if first then skipBlank text = r else ∃ t, skipBlank text = ',' :: t ∧ skipBlank t = r

theorem leads_first (text : List Char) : Leads true text (skipBlank text) := rfl

theorem leads_more (h : skipBlank text = ',' :: r) : Leads false text (skipBlank r) := ⟨r, h, rfl⟩

theorem nextElement_leads {first : Bool} (h : Leads first text (c :: r)) (hc : c ≠ ']') :
    nextElement first text = .ok (true, c :: r) := by
  cases first with
  | true => simp [nextElement, show skipBlank text = c :: r from h]
  | false =>
    obtain ⟨t, htext, ht⟩ := h
    simp [nextElement, htext, ht, hc]

theorem nextElement_end (first : Bool) (h : skipBlank text = ']' :: r) :
    nextElement first text = .ok (false, ']' :: r) := by
  rw [nextElement, h]
  rfl

end

theorem nextElement_first {text : List Char} (h : Opens text) (rest : List Char) :
    nextElement true (text ++ rest) = .ok (true, text ++ rest) := by
  obtain ⟨c, cs, rfl, hblank, hclose⟩ := h
  exact nextElement_leads (skipBlank_cons hblank _) hclose

theorem nextElement_more {text : List Char} (h : Opens text) (rest : List Char) :
    nextElement false (',' :: text ++ rest) = .ok (true, text ++ rest) := by
  obtain ⟨c, cs, rfl, hblank, hclose⟩ := h
  exact nextElement_leads ⟨_, skipBlank_cons (by decide) _, skipBlank_cons hblank _⟩ hclose

theorem endList_close (rest : List Char) : endList (']' :: rest) = .ok rest := by
  rw [endList, skipBlank_cons (by decide)]
  rfl

theorem separated_cons (x : List Char) (xs : List (List Char)) :
    separated (x :: xs) = x ++ xs.flatMap (',' :: ·) := by
  induction xs generalizing x with
  | nil => simp [separated]
  | cons y ys ih => simp [separated, ih]

-- Readers of members count down from the length of the text, so one that takes an item from it
-- still has more left to count than what follows has characters.
theorem fuel_more (x : List Char) (xs : List (List Char)) {fuel : Nat}
    (h : ((x :: xs).flatMap (',' :: ·)).length < fuel) :
    ∃ n, fuel = n + 1 ∧ (xs.flatMap (',' :: ·)).length < n := by
  rw [List.flatMap_cons, List.length_append, List.length_cons] at h
  exact ⟨fuel - 1, by omega, by omega⟩

theorem fuel_separated {x : List Char} (hx : x ≠ []) (xs : List (List Char)) {fuel : Nat}
    (h : (separated (x :: xs)).length < fuel) :
    ∃ n, fuel = n + 1 ∧ (xs.flatMap (',' :: ·)).length < n := by
  have hpos : 0 < x.length := List.length_pos_iff.mpr hx
  rw [separated_cons, List.length_append] at h
  exact ⟨fuel - 1, by omega, by omega⟩

theorem Opens.ne_nil {text : List Char} (h : Opens text) : text ≠ [] := by
  obtain ⟨c, cs, rfl, -⟩ := h
  exact List.cons_ne_nil c cs

section
variable {α β : Type} {item : Read α} {write : β → List Char} {value : β → α}

theorem readElements_end (first : Bool) {text r : List Char} (h : skipBlank text = ']' :: r)
    (fuel : Nat) : readElements item (fuel + 1) first text = .ok ([], ']' :: r) := by
  rw [readElements, nextElement_end first h]
  rfl

theorem readElements_more {xs : List β} (hopens : ∀ x ∈ xs, Opens (write x))
    (hreads : ∀ x ∈ xs, Reads item (write x) (value x)) (rest : List Char) {fuel : Nat}
    (hfuel : ((xs.map write).flatMap (',' :: ·)).length < fuel) :
    readElements item fuel false ((xs.map write).flatMap (',' :: ·) ++ ']' :: rest) =
      .ok (xs.map value, ']' :: rest) := by
  induction xs generalizing fuel with
  | nil =>
    obtain ⟨n, rfl⟩ := Nat.exists_eq_succ_of_ne_zero (Nat.ne_zero_of_lt hfuel)
    exact readElements_end false (skipBlank_cons (by decide) rest) n
  | cons x xs ih =>
    obtain ⟨n, rfl, hn⟩ := fuel_more (write x) (xs.map write) hfuel
    obtain ⟨hx, hxs⟩ := List.forall_mem_cons.mp hopens
    obtain ⟨hr, hrs⟩ := List.forall_mem_cons.mp hreads
    rw [List.map_cons, List.flatMap_cons, List.append_assoc, readElements, nextElement_more hx]
    simp only [bind, Except.bind, hr _, ih hxs hrs hn, List.map_cons]

theorem readElements_separated {xs : List β} (hopens : ∀ x ∈ xs, Opens (write x))
    (hreads : ∀ x ∈ xs, Reads item (write x) (value x)) (rest : List Char) {fuel : Nat}
    (hfuel : (separated (xs.map write)).length < fuel) :
    readElements item fuel true (separated (xs.map write) ++ ']' :: rest) =
      .ok (xs.map value, ']' :: rest) := by
  cases xs with
  | nil =>
    obtain ⟨n, rfl⟩ := Nat.exists_eq_succ_of_ne_zero (Nat.ne_zero_of_lt hfuel)
    exact readElements_end true (skipBlank_cons (by decide) rest) n
  | cons x xs =>
    obtain ⟨hx, hxs⟩ := List.forall_mem_cons.mp hopens
    obtain ⟨hr, hrs⟩ := List.forall_mem_cons.mp hreads
    obtain ⟨n, rfl, hn⟩ := fuel_separated hx.ne_nil (xs.map write) hfuel
    rw [List.map_cons, separated_cons, List.append_assoc, readElements, nextElement_first hx]
    simp only [bind, Except.bind, hr _, readElements_more hxs hrs rest hn, List.map_cons]

theorem reads_list {xs : List β} (hopens : ∀ x ∈ xs, Opens (write x))
    (hreads : ∀ x ∈ xs, Reads item (write x) (value x)) :
    Reads (readList item) ('[' :: separated (xs.map write) ++ [']']) (xs.map value) := by
  intro rest
  have hfuel : (separated (xs.map write)).length <
      (separated (xs.map write) ++ ']' :: rest).length + 1 := by
    rw [List.length_append]
    omega
  rw [List.append_assoc, List.cons_append, List.singleton_append, readList,
    skipBlank_cons (by decide)]
  simp only [bind, Except.bind, readElements_separated hopens hreads rest hfuel, endList_close]

end

end ToolRoster.Json
