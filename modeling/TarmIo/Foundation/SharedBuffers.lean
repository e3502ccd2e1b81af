import Mathlib.Data.List.Basic
import Mathlib.Logic.Function.Basic

/-!
# Buffers that are shared by counted references

An owner writes to a buffer, passes a reference to it to a callback, and afterwards asks the use
count whether somebody has kept a reference. If so it gives the buffer up; if not it writes to the
buffer again. References are made from references only, so a count of one before the callback makes
the answer right. A reference carries what it says about the memory behind it; `Holds` compares the
two.
-/

namespace TarmIo.Foundation

/-- Buffers have numbers, in the order of their allocation. `pointer` is the owner's reference,
`argument` the one that a running callback was given, and `kept` lists the others. -/
structure SharedBuffers (δ γ : Type*) where
  memory : Nat → δ
  allocated : Nat := 0
  pointer : Option Nat := none
  argument : Option (Nat × γ) := none
  kept : List (Nat × γ) := []

/-- What is done with references. `keep` copies the argument of the callback. -/
inductive Use
  | keep
  | copy (index : Nat)
  | drop (index : Nat)
deriving DecidableEq

namespace SharedBuffers

variable {δ γ : Type*}

def useCount (s : SharedBuffers δ γ) (buffer : Nat) : Nat :=
  (if s.pointer = some buffer then 1 else 0) +
    ((s.argument.toList ++ s.kept).map Prod.fst).count buffer

def pointerCount (s : SharedBuffers δ γ) : Nat := s.pointer.elim 0 s.useCount

def allocate (s : SharedBuffers δ γ) : SharedBuffers δ γ :=
  { s with pointer := some s.allocated, allocated := s.allocated + 1 }

def release (s : SharedBuffers δ γ) : SharedBuffers δ γ := { s with pointer := none }

def write (s : SharedBuffers δ γ) (buffer : Nat) (content : δ) : SharedBuffers δ γ :=
  { s with memory := Function.update s.memory buffer content }

def deliver (s : SharedBuffers δ γ) (info : γ) : SharedBuffers δ γ :=
  { s with argument := s.pointer.map (·, info) }

def returned (s : SharedBuffers δ γ) : SharedBuffers δ γ := { s with argument := none }

def use (s : SharedBuffers δ γ) : Use → Option (SharedBuffers δ γ)
  | .keep => s.argument.map fun c => { s with kept := s.kept ++ [c] }
  | .copy index => s.kept[index]?.map fun c => { s with kept := s.kept ++ [c] }
  | .drop index =>
      if index < s.kept.length then some { s with kept := s.kept.eraseIdx index } else none

/-- Nobody but the owner refers to the owner's buffer, unless a callback runs. -/
structure Separate (Holds : γ → δ → Prop) (s : SharedBuffers δ γ) : Prop where
  holds : ∀ c ∈ s.argument.toList ++ s.kept, Holds c.2 (s.memory c.1)
  known : ∀ c ∈ s.argument.toList ++ s.kept, c.1 < s.allocated
  allocated : ∀ buffer ∈ s.pointer, buffer < s.allocated
  argument : ∀ c ∈ s.argument, s.pointer = some c.1
  apart : s.argument = none → ∀ buffer ∈ s.pointer, ∀ c ∈ s.kept, c.1 ≠ buffer

variable {Holds : γ → δ → Prop} {s s' : SharedBuffers δ γ} {buffer : Nat}

section

variable (h : s.Separate Holds)
include h

theorem Separate.mem_kept {c : Nat × γ} (hc : c ∈ s.kept) :
    Holds c.2 (s.memory c.1) ∧ c.1 < s.allocated :=
  ⟨h.holds c (List.mem_append_right _ hc), h.known c (List.mem_append_right _ hc)⟩

section

variable (hno : s.argument = none)
include hno

/-- Between callbacks the owner's reference is the only one. -/
theorem Separate.useCount_eq_one (hpointer : s.pointer = some buffer) : s.useCount buffer = 1 := by
  rw [useCount, if_pos hpointer, hno, Option.toList_none, List.nil_append, List.count_eq_zero.mpr]
  intro hmem
  obtain ⟨c, hc, rfl⟩ := List.mem_map.mp hmem
  exact h.apart hno c.1 hpointer c hc rfl

theorem Separate.pointerCount_eq_one (hpointer : s.pointer = some buffer) : s.pointerCount = 1 := by
  rw [pointerCount, hpointer, Option.elim_some]
  exact h.useCount_eq_one hno hpointer

theorem Separate.allocate :
    s.allocate.Separate Holds where
  holds := h.holds
  known c hc := Nat.lt_succ_of_lt (h.known c hc)
  allocated buffer hbuffer := by
    obtain rfl := Option.mem_some_iff.mp hbuffer
    exact Nat.lt_succ_self _
  argument c hc := by
    change c ∈ s.argument at hc
    rw [hno] at hc
    cases hc
  apart _ buffer hbuffer c hc := by
    obtain rfl := Option.mem_some_iff.mp hbuffer
    exact Nat.ne_of_lt (h.mem_kept hc).2

theorem Separate.write (hpointer : s.pointer = some buffer) (content : δ) :
    (s.write buffer content).Separate Holds where
  holds c hc := by
    simp only [SharedBuffers.write, hno, Option.toList_none, List.nil_append] at hc ⊢
    rw [Function.update_of_ne (h.apart hno buffer hpointer c hc)]
    exact (h.mem_kept hc).1
  known := h.known
  allocated := h.allocated
  argument := h.argument
  apart := h.apart

end

theorem Separate.deliver (hpointer : s.pointer = some buffer) {info : γ}
    (hholds : Holds info (s.memory buffer)) : (s.deliver info).Separate Holds := by
  have hargument : (s.deliver info).argument = some (buffer, info) := by
    simp [SharedBuffers.deliver, hpointer]
  have hmem {c : Nat × γ} (hc : c ∈ (s.deliver info).argument.toList ++ (s.deliver info).kept) :
      c = (buffer, info) ∨ c ∈ s.kept := by
    rw [hargument] at hc
    exact List.mem_cons.mp hc
  refine ⟨fun c hc => ?_, fun c hc => ?_, h.allocated, fun c hc => ?_, fun hnone => ?_⟩
  · rcases hmem hc with rfl | hc
    · exact hholds
    · exact (h.mem_kept hc).1
  · rcases hmem hc with rfl | hc
    · exact h.allocated buffer hpointer
    · exact (h.mem_kept hc).2
  · rw [hargument] at hc
    obtain rfl := Option.mem_some_iff.mp hc
    exact hpointer
  · rw [hargument] at hnone
    cases hnone

end

/-- References are made from references. -/
theorem use_subset {u : Use} (huse : s.use u = some s') :
    ∃ kept, s' = { s with kept } ∧ (∀ c ∈ kept, c ∈ s.argument.toList ++ s.kept) ∧
      (s.argument = none → ∀ c ∈ kept, c ∈ s.kept) := by
  have hsnoc {c : Nat × γ} (hc : c ∈ s.argument.toList ++ s.kept) :
      ∀ x ∈ s.kept ++ [c], x ∈ s.argument.toList ++ s.kept := by
    intro x hx
    rcases List.mem_append.mp hx with hold | hnew
    · exact List.mem_append_right _ hold
    · rwa [List.mem_singleton.mp hnew]
  have hnone (hno : s.argument = none) {kept : List (Nat × γ)}
      (hall : ∀ c ∈ kept, c ∈ s.argument.toList ++ s.kept) : ∀ c ∈ kept, c ∈ s.kept := by
    intro c hc
    simpa [hno] using hall c hc
  cases u with
  | keep =>
      obtain ⟨c, hc, rfl⟩ := Option.map_eq_some_iff.mp huse
      have hall := hsnoc (List.mem_append_left _ (Option.mem_toList.mpr hc))
      exact ⟨_, rfl, hall, fun hno => hnone hno hall⟩
  | copy index =>
      obtain ⟨c, hc, rfl⟩ := Option.map_eq_some_iff.mp huse
      have hall := hsnoc (List.mem_append_right _ (List.mem_of_getElem? hc))
      exact ⟨_, rfl, hall, fun hno => hnone hno hall⟩
  | drop index =>
      rw [use] at huse
      split at huse
      · cases huse
        exact ⟨_, rfl, fun c hc => List.mem_append_right _ (List.mem_of_mem_eraseIdx hc),
          fun _ c hc => List.mem_of_mem_eraseIdx hc⟩
      · cases huse

theorem Separate.use (h : s.Separate Holds) {u : Use} (huse : s.use u = some s') :
    s'.Separate Holds := by
  obtain ⟨kept, rfl, hall, hnone⟩ := use_subset huse
  have hmem {c : Nat × γ} (hc : c ∈ s.argument.toList ++ kept) :
      c ∈ s.argument.toList ++ s.kept := by
    rcases List.mem_append.mp hc with hargument | hkept
    · exact List.mem_append_left _ hargument
    · exact hall c hkept
  refine ⟨fun c hc => h.holds c (hmem hc), fun c hc => h.known c (hmem hc), h.allocated,
    h.argument, fun hno buffer hbuffer c hc => ?_⟩
  exact h.apart hno buffer hbuffer c (hnone hno c hc)

/-- After a callback that has kept nothing. -/
theorem Separate.reuse (h : s.Separate Holds) (hone : s.returned.pointerCount = 1) :
    s.returned.Separate Holds where
  holds _ hc := (h.mem_kept hc).1
  known _ hc := (h.mem_kept hc).2
  allocated := h.allocated
  argument _ hc := by cases hc
  apart _ buffer hbuffer c hc heq := by
    have hpointer : s.pointer = some buffer := hbuffer
    have hcount : 0 < (s.kept.map Prod.fst).count buffer :=
      List.count_pos_iff.mpr (List.mem_map.mpr ⟨c, hc, heq⟩)
    simp only [returned, pointerCount, hpointer, Option.elim_some, useCount, if_true,
      Option.toList_none, List.nil_append] at hone
    omega

/-- After any callback the owner may give its buffer up. -/
theorem Separate.giveUp (h : s.Separate Holds) : s.returned.release.Separate Holds where
  holds _ hc := (h.mem_kept hc).1
  known _ hc := (h.mem_kept hc).2
  allocated _ hb := by cases hb
  argument _ hc := by cases hc
  apart _ _ hb := by cases hb

end SharedBuffers

end TarmIo.Foundation
