import Mathlib.Data.List.Basic

/-! A list as a table of numbered slots. Slots are added at the end and replaced in
place, so a number keeps meaning the same slot. -/

namespace Slots

variable {α β : Type} {items : List α} {item updated added : α} {number other : Nat}

theorem getElem?_set (found : items[number]? = some item) :
    (items.set number updated)[other]? = if number = other then some updated else items[other]? := by
  rw [List.getElem?_set]
  split
  next same => subst same; simp [(List.getElem?_eq_some_iff.mp found).1]
  next => rfl

theorem getElem?_append (found : (items ++ [added])[number]? = some item) : items[number]? = some item ∨ item = added := by
  rw [List.getElem?_append] at found
  split at found
  · exact Or.inl found
  · exact Or.inr (List.mem_singleton.mp (List.mem_of_getElem? found))

/-- Replacing a slot is not seen by what the old and the new item agree on. -/
theorem map_set (found : items[number]? = some item) (value : α → β) (same : value updated = value item) :
    (items.set number updated).map value = items.map value := by
  apply List.ext_getElem?
  intro other
  rw [List.getElem?_map, List.getElem?_map, getElem?_set found]
  split
  next here => subst here; simp [found, same]
  next => rfl

theorem bind_append (items : List α) (value : α → Option β) (fresh : value added = none) (number : Nat) :
    (items ++ [added])[number]?.bind value = items[number]?.bind value := by
  rw [List.getElem?_append]
  split
  · rfl
  · rw [List.getElem?_eq_none (by omega : items.length ≤ number)]
    cases position : number - items.length <;> simp [fresh]

theorem bind_set (found : items[number]? = some item) (value : α → Option β) (other : Nat) :
    (items.set number updated)[other]?.bind value = if number = other then value updated else items[other]?.bind value := by
  rw [getElem?_set found]
  split
  · rfl
  · rfl

theorem bind_set_same (found : items[number]? = some item) (value : α → Option β) (same : value updated = value item)
    (other : Nat) : (items.set number updated)[other]?.bind value = items[other]?.bind value := by
  rw [bind_set found]
  split
  next here => subst here; simp [found, same]
  next => rfl

theorem forall_set {holds : α → Prop} (found : items[number]? = some item) (kept : holds item) :
    (∀ current ∈ items.set number updated, holds current) ↔ (∀ current ∈ items, holds current) ∧ holds updated := by
  refine ⟨?_, ?_⟩
  · intro all
    refine ⟨?_, all updated (List.mem_of_getElem? (by rw [getElem?_set found, if_pos rfl]))⟩
    intro current member
    obtain ⟨other, held⟩ := List.mem_iff_getElem?.mp member
    by_cases here : number = other
    · subst here
      obtain rfl := Option.some.inj (found.symm.trans held)
      exact kept
    · exact all current (List.mem_of_getElem? (by rw [getElem?_set found, if_neg here, held]))
  · intro ⟨all, new⟩ current member
    rcases List.mem_or_eq_of_mem_set member with old | rfl
    · exact all current old
    · exact new

end Slots
