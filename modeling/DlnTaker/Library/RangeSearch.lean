import Mathlib.Data.List.Sort

/-! # The greatest key within a bound

A list is sorted by a key in descending order, and the first element whose key
is within a bound is taken. It is the element of the greatest such key; of
several ones it is the first in the given order, since the sort is stable.
-/

namespace RangeSearch

variable {α β : Type*}

section Definitions

variable (key : α → ℕ) (bound : ℕ)

/-- The stable sort by the key, in descending order. -/
def sortDesc (l : List α) : List α := l.insertionSort fun b a => key a ≤ key b

/-- The first element of the sorted list with a key within the bound. -/
def search (l : List α) : Option α := (sortDesc key l).find? (key · ≤ bound)

/-- An element goes before what is found after it, unless this has a greater key. -/
def prefer (a : α) : Option α → α
  | some b => if key a < key b then b else a
  | none => a

end Definitions

variable {key : α → ℕ} {bound : ℕ} {l : List α} {a b : α}

@[simp] theorem prefer_none : prefer key a none = a := rfl

@[simp] theorem prefer_some : prefer key a (some b) = if key a < key b then b else a := rfl

theorem sortDesc_sorted : (sortDesc key l).Pairwise fun b a => key a ≤ key b := by
  have htotal : Std.Total fun b a : α => key a ≤ key b := ⟨fun b a => le_total (key a) (key b)⟩
  have htrans : IsTrans α fun b a => key a ≤ key b := ⟨fun _ _ _ h h' => h'.trans h⟩
  exact List.pairwise_insertionSort _ l

/-- Sorting again changes nothing. -/
@[simp] theorem sortDesc_sortDesc : sortDesc key (sortDesc key l) = sortDesc key l :=
  sortDesc_sorted.insertionSort_eq

@[simp] theorem mem_sortDesc : a ∈ sortDesc key l ↔ a ∈ l := List.mem_insertionSort _

theorem find?_orderedInsert (hs : l.Pairwise fun b a => key a ≤ key b) :
    (l.orderedInsert (fun b a => key a ≤ key b) a).find? (key · ≤ bound) =
      if key a ≤ bound then some (prefer key a (l.find? (key · ≤ bound)))
      else l.find? (key · ≤ bound) := by
  induction l with
  | nil => by_cases ha : key a ≤ bound <;> simp [ha]
  | cons b l ih =>
    obtain ⟨hb, hs⟩ := List.pairwise_cons.mp hs
    rw [List.orderedInsert_cons]
    split
    · rename_i hle
      rw [List.find?_cons]
      by_cases ha : key a ≤ bound
      · have hkeep : prefer key a ((b :: l).find? (key · ≤ bound)) = a := by
          cases hf : (b :: l).find? (key · ≤ bound) with
          | none => rfl
          | some c =>
            have hc : key c ≤ key b := by
              rcases List.mem_cons.mp (List.mem_of_find?_eq_some hf) with rfl | hm
              · exact le_rfl
              · exact hb c hm
            exact if_neg (by omega)
        simp [ha, hkeep]
      · simp [ha]
    · rename_i hlt
      by_cases hbound : key b ≤ bound
      · have ha : key a ≤ bound := by omega
        have hab : key a < key b := by omega
        simp [hbound, ha, hab]
      · simpa [hbound] using ih hs

@[simp] theorem search_sortDesc : search key bound (sortDesc key l) = search key bound l := by
  rw [search, sortDesc_sortDesc, search]

@[simp] theorem search_nil : search key bound [] = none := rfl

/-- The search by recursion on the given list. -/
theorem search_cons : search key bound (a :: l) =
    if key a ≤ bound then some (prefer key a (search key bound l)) else search key bound l :=
  find?_orderedInsert sortDesc_sorted

theorem search_eq_none_iff : search key bound l = none ↔ ∀ a ∈ l, bound < key a := by
  simp [search]

theorem mem_of_search (h : search key bound l = some a) : a ∈ l :=
  mem_sortDesc.mp (List.mem_of_find?_eq_some h)

theorem key_le_of_search (h : search key bound l = some a) : key a ≤ bound := by
  simpa using List.find?_some h

/-- What is found has the greatest key within the bound. -/
theorem le_key_of_search (h : search key bound l = some a) (hb : b ∈ l) (hle : key b ≤ bound) :
    key b ≤ key a := by
  induction l generalizing a with
  | nil => cases hb
  | cons c l ih =>
    rw [search_cons] at h
    split at h
    · rename_i hc
      obtain rfl := Option.some.inj h
      cases hs : search key bound l with
      | none =>
        rcases List.mem_cons.mp hb with rfl | hb
        · exact le_rfl
        · exact absurd hle (not_le.mpr (search_eq_none_iff.mp hs b hb))
      | some d =>
        rw [prefer_some]
        split
        · rename_i hlt
          rcases List.mem_cons.mp hb with rfl | hb
          · exact hlt.le
          · exact ih hs hb
        · rename_i hge
          rcases List.mem_cons.mp hb with rfl | hb
          · exact le_rfl
          · exact (ih hs hb).trans (not_lt.mp hge)
    · rename_i hc
      rcases List.mem_cons.mp hb with rfl | hb
      · exact absurd hle hc
      · exact ih h hb

/-- Of several elements with the greatest key the first is found. -/
theorem first_of_search {weight : α → β} [Preorder β]
    (hs : l.Pairwise fun a b => weight a ≤ weight b) (h : search key bound l = some a)
    (hb : b ∈ l) (hk : key b = key a) : weight a ≤ weight b := by
  induction l generalizing a with
  | nil => cases hb
  | cons c l ih =>
    obtain ⟨hc, hs⟩ := List.pairwise_cons.mp hs
    have hhead : ∀ b ∈ c :: l, weight c ≤ weight b := by
      intro b hb
      rcases List.mem_cons.mp hb with rfl | hb
      · exact le_rfl
      · exact hc b hb
    rw [search_cons] at h
    split at h
    · obtain rfl := Option.some.inj h
      cases hf : search key bound l with
      | none => exact hhead b hb
      | some d =>
        rw [hf, prefer_some] at hk
        rw [prefer_some]
        split at hk
        · rename_i hlt
          rw [if_pos hlt]
          rcases List.mem_cons.mp hb with rfl | hb
          · exact absurd hk hlt.ne
          · exact ih hs hf hb hk
        · rename_i hge
          rw [if_neg hge]
          exact hhead b hb
    · rename_i hout
      rcases List.mem_cons.mp hb with rfl | hb
      · exact absurd (hk ▸ key_le_of_search h) hout
      · exact ih hs h hb hk

theorem search_concat_of_lt (ha : bound < key a) :
    search key bound (l ++ [a]) = search key bound l := by
  induction l with
  | nil => simp [search_cons, not_le.mpr ha]
  | cons b l ih => rw [List.cons_append, search_cons, search_cons, ih]

theorem search_concat_of_top (ha : key a ≤ bound) (htop : ∀ b ∈ l, key b < key a) :
    search key bound (l ++ [a]) = some a := by
  induction l with
  | nil => simp [search_cons, ha]
  | cons b l ih =>
    rw [List.cons_append, search_cons, ih fun c hc => htop c (List.mem_cons_of_mem _ hc)]
    have hlt : key b < key a := htop b List.mem_cons_self
    simp [hlt]

theorem search_map {f : β → α} {l : List β} :
    search key bound (l.map f) = (search (fun b => key (f b)) bound l).map f := by
  induction l with
  | nil => rfl
  | cons b l ih =>
    rw [List.map_cons, search_cons, search_cons, ih]
    split
    · cases search (fun b => key (f b)) bound l with
      | none => rfl
      | some c => simp [apply_ite f]
    · rfl

/-- The first element with a property, with its position. -/
theorem find?_zipIdx_eq_some_iff {p : α → Bool} {i : ℕ} :
    (l.zipIdx.find? fun x => p x.1) = some (a, i) ↔
      l[i]? = some a ∧ p a = true ∧ ∀ j b, j < i → l[j]? = some b → p b = false := by
  rw [List.find?_eq_some_iff_getElem]
  simp only [List.getElem_zipIdx, Nat.zero_add, List.length_zipIdx, Prod.mk.injEq,
    Bool.not_eq_true', List.getElem?_eq_some_iff]
  constructor
  · rintro ⟨hp, i, hi, ⟨ha, rfl⟩, hbefore⟩
    refine ⟨⟨hi, ha⟩, hp, ?_⟩
    rintro j b hj ⟨-, rfl⟩
    exact hbefore j hj
  · rintro ⟨⟨hi, ha⟩, hp, hbefore⟩
    exact ⟨hp, i, hi, ⟨ha, rfl⟩, fun j hj => hbefore j _ hj ⟨by omega, rfl⟩⟩

theorem map_find?_zipIdx (p : α → Bool) (i : ℕ) :
    ((l.zipIdx i).find? fun x => p x.1).map Prod.fst = l.find? p := by
  induction l generalizing i with
  | nil => rfl
  | cons a l ih =>
    rw [List.zipIdx_cons, List.find?_cons, List.find?_cons]
    cases hp : p a with
    | true => rfl
    | false => exact ih (i + 1)

end RangeSearch
