import Mathlib.Data.List.Basic

/-!
# Feeding a stateful handler

A handler takes one input and returns its next state with what it put out. The
same fold serves a machine that reads single bytes and a callback that is given
whole chunks, so a chunked run is compared with a bytewise one through
`feed_append` and nothing else.
-/

namespace TarmIo.Foundation

variable {σ ι ω : Type*} {stream : List ι} {pieces : List (List ι)} {ps qs : List (List ι)}

def feed (handle : σ → ι → σ × List ω) : σ → List ι → σ × List ω
  | s, [] => (s, [])
  | s, i :: is =>
      let r := handle s i
      let q := feed handle r.1 is
      (q.1, r.2 ++ q.2)

@[simp] theorem feed_nil (handle : σ → ι → σ × List ω) (s : σ) :
    feed handle s [] = (s, []) := rfl

theorem feed_cons (handle : σ → ι → σ × List ω) (s : σ) (i : ι) (is : List ι) :
    feed handle s (i :: is) =
      ((feed handle (handle s i).1 is).1,
        (handle s i).2 ++ (feed handle (handle s i).1 is).2) := rfl

theorem feed_append (handle : σ → ι → σ × List ω) (s : σ) (xs ys : List ι) :
    feed handle s (xs ++ ys) =
      ((feed handle (feed handle s xs).1 ys).1,
        (feed handle s xs).2 ++ (feed handle (feed handle s xs).1 ys).2) := by
  induction xs generalizing s with
  | nil => simp
  | cons i is ih => simp [feed_cons, ih]

/-- A stream cut into non-empty pieces, in order. -/
structure IsCut (stream : List ι) (pieces : List (List ι)) : Prop where
  flatten_eq : pieces.flatten = stream
  nonempty : ∀ p ∈ pieces, p ≠ []

theorem IsCut.whole (h : stream ≠ []) : IsCut stream [stream] := by
  constructor
  · simp
  · intro p hp
    rw [List.mem_singleton.mp hp]
    exact h

/-- The finest cut: one input a piece. -/
theorem IsCut.singletons (stream : List ι) : IsCut stream (stream.map fun i => [i]) := by
  constructor
  · induction stream with
    | nil => rfl
    | cons i is ih => simpa using ih
  · intro p hp
    obtain ⟨i, _, rfl⟩ := List.mem_map.mp hp
    simp

theorem IsCut.eq_nil (h : IsCut [] pieces) : pieces = [] := by
  cases pieces with
  | nil => rfl
  | cons p ps =>
      have hp := List.append_eq_nil_iff.mp h.flatten_eq
      exact absurd hp.1 (h.nonempty p List.mem_cons_self)

theorem IsCut.eq_singleton {i : ι} (h : IsCut [i] pieces) : pieces = [[i]] := by
  cases pieces with
  | nil => cases h.flatten_eq
  | cons p ps =>
      have hne := h.nonempty p List.mem_cons_self
      have hflat : p ++ ps.flatten = [i] := h.flatten_eq
      rcases List.append_eq_singleton_iff.mp hflat with ⟨hp, _⟩ | ⟨rfl, hrest⟩
      · exact absurd hp hne
      · have hps := @IsCut.eq_nil ι ps ⟨hrest, fun q hq => h.nonempty q (List.mem_cons_of_mem _ hq)⟩
        rw [hps]

theorem IsCut.unique (hp : IsCut stream ps) (hq : IsCut stream qs) (hshort : stream.length ≤ 1) :
    ps = qs := by
  cases stream with
  | nil => rw [hp.eq_nil, hq.eq_nil]
  | cons i rest =>
      rw [List.length_cons] at hshort
      have hrest : rest = [] := List.eq_nil_of_length_eq_zero (by omega)
      subst hrest
      rw [hp.eq_singleton, hq.eq_singleton]

theorem IsCut.append {xs ys : List ι} (hp : IsCut xs ps) (hq : IsCut ys qs) :
    IsCut (xs ++ ys) (ps ++ qs) := by
  constructor
  · rw [List.flatten_append, hp.flatten_eq, hq.flatten_eq]
  · intro p hmem
    rcases List.mem_append.mp hmem with h | h
    · exact hp.nonempty p h
    · exact hq.nonempty p h

end TarmIo.Foundation
