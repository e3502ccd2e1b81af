import Mathlib.Logic.Function.Basic

/-!
# Tables of objects by key

A table `ι → Option β` in which every object is filed under its own key, and what
inserting and erasing one entry does to the set of filed objects.
-/

namespace TarmIo.Foundation

variable {ι β : Type*} [DecidableEq ι] {key : β → ι} {table : ι → Option β}

def Keyed (key : β → ι) (table : ι → Option β) : Prop :=
  ∀ i b, table i = some b → key b = i

theorem Keyed.insert (h : Keyed key table) (b : β) :
    Keyed key (Function.update table (key b) (some b)) := by
  intro i c hc
  by_cases hi : i = key b
  · subst hi
    rw [Function.update_self] at hc
    cases hc
    rfl
  · rw [Function.update_of_ne hi] at hc
    exact h i c hc

theorem Keyed.erase (h : Keyed key table) (i : ι) : Keyed key (Function.update table i none) := by
  intro j c hc
  by_cases hj : j = i
  · subst hj
    rw [Function.update_self] at hc
    cases hc
  · rw [Function.update_of_ne hj] at hc
    exact h j c hc

theorem filed_insert_iff (key : β → ι) {b : β} (hfree : table (key b) = none) (c : β) :
    Function.update table (key b) (some b) (key c) = some c ↔
      c = b ∨ table (key c) = some c := by
  by_cases hkey : key c = key b
  · rw [hkey, Function.update_self, hfree, Option.some_inj]
    constructor
    · exact fun h => Or.inl h.symm
    · rintro (h | h)
      · exact h.symm
      · cases h
  · rw [Function.update_of_ne hkey]
    constructor
    · exact Or.inr
    · rintro (rfl | h)
      · exact absurd rfl hkey
      · exact h

theorem filed_erase_iff (key : β → ι) {b : β} (hfiled : table (key b) = some b) (c : β) :
    Function.update table (key b) none (key c) = some c ↔ c ≠ b ∧ table (key c) = some c := by
  by_cases hkey : key c = key b
  · rw [hkey, Function.update_self, hfiled, Option.some_inj]
    constructor
    · nofun
    · exact fun h => absurd h.2.symm h.1
  · rw [Function.update_of_ne hkey]
    constructor
    · intro h
      refine ⟨?_, h⟩
      rintro rfl
      exact hkey rfl
    · exact And.right

end TarmIo.Foundation
