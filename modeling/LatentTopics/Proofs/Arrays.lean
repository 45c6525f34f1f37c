import Mathlib

/-! Reading arrays with a default after they were changed. -/
namespace LatentTopics.Arrays

variable {α : Type}

theorem getD_set_self (values : Array α) {position : Nat} (inside : position < values.size)
    (value fallback : α) :
    (values.setIfInBounds position value).getD position fallback = value := by
  rw [Array.getD_eq_getD_getElem?, Array.getElem?_setIfInBounds_self_of_lt inside]
  rfl

theorem getD_set_ne (values : Array α) {position other : Nat} (different : position ≠ other)
    (value fallback : α) :
    (values.setIfInBounds position value).getD other fallback = values.getD other fallback := by
  rw [Array.getD_eq_getD_getElem?, Array.getElem?_setIfInBounds_ne different,
    Array.getD_eq_getD_getElem?]

theorem getD_append_left (front rest : Array α) (fallback : α) {index : Nat}
    (inside : index < front.size) :
    (front ++ rest).getD index fallback = front.getD index fallback := by
  rw [Array.getD_eq_getD_getElem?, Array.getElem?_append_left inside, Array.getD_eq_getD_getElem?]

theorem getD_append_replicate (front : Array α) (count : Nat) (fallback : α) {index : Nat}
    (outside : front.size ≤ index) :
    (front ++ Array.replicate count fallback).getD index fallback = fallback := by
  rw [Array.getD_eq_getD_getElem?, Array.getElem?_append_right outside, Array.getElem?_replicate]
  split <;> rfl

theorem getD_replicate (count : Nat) (value : α) (index : Nat) :
    (Array.replicate count value).getD index value = value := by
  rw [Array.getD_eq_getD_getElem?, Array.getElem?_replicate]
  split <;> rfl

theorem getD_modify (values : Array α) {position : Nat} (inside : position < values.size)
    (change : α → α) (other : Nat) (fallback : α) :
    (values.modify position change).getD other fallback =
      if position = other then change (values.getD other fallback)
      else values.getD other fallback := by
  rw [Array.getD_eq_getD_getElem?, Array.getElem?_modify, Array.getD_eq_getD_getElem?]
  split
  · next same =>
    subst same
    rw [Array.getElem?_eq_getElem inside]
    rfl
  · rfl

theorem setIfInBounds_set (values : Array α) {position : Nat} (inside : position < values.size)
    (first second : α) :
    (values.set position first inside).setIfInBounds position second =
        values.setIfInBounds position second := by
  apply Array.ext_getElem?
  intro other
  by_cases same : position = other
  · subst same
    rw [Array.getElem?_setIfInBounds_self_of_lt (by simpa using inside),
      Array.getElem?_setIfInBounds_self_of_lt inside]
  · rw [Array.getElem?_setIfInBounds_ne same, Array.getElem?_setIfInBounds_ne same,
      Array.getElem?_set_ne inside same]

theorem getElem?_set_cases {values : Array α} {position other : Nat} {value found : α}
    (inside : position < values.size)
    (here : (values.setIfInBounds position value)[other]? = some found) :
    other = position ∧ found = value ∨ other ≠ position ∧ values[other]? = some found := by
  by_cases same : position = other
  · subst same
    rw [Array.getElem?_setIfInBounds_self_of_lt inside] at here
    exact Or.inl ⟨rfl, (Option.some.inj here).symm⟩
  · rw [Array.getElem?_setIfInBounds_ne same] at here
    exact Or.inr ⟨Ne.symm same, here⟩

theorem getElem?_appendList_left (front : Array α) (rest : List α) {index : Nat}
    (inside : index < front.size) :
    (front ++ rest)[index]? = front[index]? := by
  rw [← Array.getElem?_toList, Array.toList_appendList, List.getElem?_append_left inside,
    Array.getElem?_toList]

theorem getElem?_appendList_right (front : Array α) (rest : List α) (index : Nat) :
    (front ++ rest)[front.size + index]? = rest[index]? := by
  have beyond : front.toList.length ≤ front.size + index := by
    rw [Array.length_toList]
    exact Nat.le_add_right _ _
  rw [← Array.getElem?_toList, Array.toList_appendList, List.getElem?_append_right beyond,
    Array.length_toList, Nat.add_sub_cancel_left]

theorem getD_of_getElem? {values : Array α} {index : Nat} {value : α}
    (here : values[index]? = some value) (fallback : α) :
    values.getD index fallback = value := by
  rw [Array.getD_eq_getD_getElem?, here, Option.getD_some]

theorem getElem?_of_extract {values piece : Array α} {start stop index : Nat}
    (range : values.extract start stop = piece) (inside : index < piece.size) :
    values[start + index]? = piece[index]? := by
  subst range
  rw [Array.size_extract] at inside
  rw [Array.getElem?_extract, if_pos inside]

section Pieces

theorem ext_getD {values others : Array α} (size : values.size = others.size) (fallback : α)
    (same : ∀ index < values.size, values.getD index fallback = others.getD index fallback) :
    values = others := by
  apply Array.ext size
  intro index inside inside'
  have read := same index inside
  rwa [Array.getD_eq_getD_getElem?, Array.getElem?_eq_getElem inside, Array.getD_eq_getD_getElem?,
    Array.getElem?_eq_getElem inside'] at read

variable {values : Array α} {start count : Nat}

theorem size_piece (fits : start + count ≤ values.size) :
    (values.extract start (start + count)).size = count := by
  rw [Array.size_extract, Nat.min_eq_left fits, Nat.add_sub_cancel_left]

theorem getD_piece (fits : start + count ≤ values.size) {index : Nat} (inside : index < count)
    (fallback : α) :
    (values.extract start (start + count)).getD index fallback = values.getD (start + index)
        fallback := by
  rw [Array.getD_eq_getD_getElem?, Array.getD_eq_getD_getElem?, Array.getElem?_extract,
    if_pos (by omega)]

theorem piece_congr {others : Array α} (fits : start + count ≤ values.size)
    (fits' : start + count ≤ others.size) (fallback : α)
    (same : ∀ index < count, others.getD (start + index) fallback =
      values.getD (start + index) fallback) :
    others.extract start (start + count) = values.extract start (start + count) := by
  apply ext_getD (by rw [size_piece fits', size_piece fits]) fallback
  intro index inside
  rw [size_piece fits'] at inside
  rw [getD_piece fits' inside, getD_piece fits inside, same index inside]

theorem piece_append (fits : start + count ≤ values.size) (more : Array α) :
    (values ++ more).extract start (start + count) = values.extract start (start + count) := by
  rw [Array.extract_append, Nat.sub_eq_zero_of_le fits, Array.extract_zero, Array.append_empty]

theorem piece_set (fits : start + count ≤ values.size) {offset : Nat} (inside : offset < count)
    (value : α) :
    (values.setIfInBounds (start + offset) value).extract start (start + count) =
      (values.extract start (start + count)).setIfInBounds offset value := by
  have fits' : start + count ≤ (values.setIfInBounds (start + offset) value).size := by
    rw [Array.size_setIfInBounds]
    exact fits
  apply ext_getD (by rw [size_piece fits', Array.size_setIfInBounds, size_piece fits]) value
  intro index below
  rw [size_piece fits'] at below
  rw [getD_piece fits' below]
  by_cases same : index = offset
  · subst same
    rw [getD_set_self values (by omega), getD_set_self _ (by rw [size_piece fits]; exact inside)]
  · rw [getD_set_ne values (by omega), getD_set_ne _ (Ne.symm same), getD_piece fits below]

end Pieces

end LatentTopics.Arrays
