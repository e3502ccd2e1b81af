import TarmIo.Foundation.Execution
import Mathlib.Logic.Function.Iterate
import Mathlib.Order.Nat
import Mathlib.Tactic.ByContra

/-!
# Cycles of a loop

A machine that is left to a loop. A cycle takes the turns that were scheduled before it, and then
one of the requests completes, or none. A rank that no cycle raises and that falls in the cycles
with a completion brings the machine to its end, however late the completions come.
-/

namespace TarmIo.Foundation

variable {σ ε α β : Type*} {step : σ → ε → Option σ}

def attempt (step : σ → ε → Option σ) (s : σ) (e : ε) : σ := (step s e).getD s

theorem attempt_of_some {s s' : σ} {e : ε} (h : step s e = some s') : attempt step s e = s' := by
  rw [attempt, h, Option.getD_some]

theorem attempt_of_none {s : σ} {e : ε} (h : step s e = none) : attempt step s e = s := by
  rw [attempt, h, Option.getD_none]

/-- What every event keeps is kept where the event is not possible, too. -/
theorem attempt_invariant {Inv : σ → Prop} {s : σ} {e : ε}
    (keep : ∀ s', step s e = some s' → Inv s') (h : Inv s) : Inv (attempt step s e) := by
  cases hstep : step s e with
  | none => rwa [attempt_of_none hstep]
  | some s' =>
      rw [attempt_of_some hstep]
      exact keep s' hstep

def Reaches (step : σ → ε → Option σ) (s t : σ) : Prop := ∃ es, exec step s es = some t

theorem Reaches.attempt {s t : σ} (h : Reaches step s t) (e : ε) :
    Reaches step s (attempt step t e) := by
  refine attempt_invariant (fun t' hstep => ?_) h
  obtain ⟨es, hes⟩ := h
  exact ⟨es ++ [e], by rw [exec_append_of_exec hes, exec_cons_of_step hstep, exec]⟩

/-- The state after `n` cycles, where the surroundings answer `answers i` in cycle `i`. -/
def cycles (cycle : α → σ → σ) (answers : Nat → α) (s : σ) : Nat → σ
  | 0 => s
  | n + 1 => cycle (answers n) (cycles cycle answers s n)

section Rank

variable {cycle : α → σ → σ} (answers : Nat → α) {Inv Done : σ → Prop} {Answered : α → Prop} {s : σ}

  {rank : σ → Nat}

section

variable (keep : ∀ a s, Inv s → Inv (cycle a s))
include keep

theorem cycles_invariant (h : Inv s) (n : Nat) : Inv (cycles cycle answers s n) := by
  induction n with
  | zero => exact h
  | succ n ih => exact keep _ _ ih

/-- What a cycle keeps is kept from the cycle on in which it is reached. -/
theorem cycles_keep {m n : Nat} (hle : m ≤ n) (h : Inv (cycles cycle answers s m)) :
    Inv (cycles cycle answers s n) := by
  induction hle with
  | refl => exact h
  | step _ ih => exact keep _ _ ih

theorem cycles_rank_le (mono : ∀ a s, Inv s → rank (cycle a s) ≤ rank s) (h : Inv s) {m n : Nat}
    (hle : m ≤ n) : rank (cycles cycle answers s n) ≤ rank (cycles cycle answers s m) := by
  induction hle with
  | refl => rfl
  | step _ ih => exact (mono _ _ (cycles_invariant answers keep h _)).trans ih

theorem eventually_done {answers : Nat → α} (mono : ∀ a s, Inv s → rank (cycle a s) ≤ rank s)
    (less : ∀ a s, Inv s → ¬ Done s → Answered a → rank (cycle a s) < rank s)
    (fair : ∀ n, ∃ m, n ≤ m ∧ Answered (answers m)) (h : Inv s) :
    ∃ n, Done (cycles cycle answers s n) := by
  by_contra hnever
  -- After enough cycles the rank has fallen by any number.
  have hfall : ∀ k, ∃ n, rank (cycles cycle answers s n) + k ≤ rank s := by
    intro k
    induction k with
    | zero => exact ⟨0, le_rfl⟩
    | succ k ih =>
        obtain ⟨n, hn⟩ := ih
        obtain ⟨m, hle, hanswered⟩ := fair n
        have hm := cycles_rank_le answers keep mono h hle
        have hless := less (answers m) _ (cycles_invariant answers keep h m)
          (fun hdone => hnever ⟨m, hdone⟩) hanswered
        exact ⟨m + 1, by rw [cycles]; omega⟩
  obtain ⟨n, hn⟩ := hfall (rank s + 1)
  omega

end

end Rank

/-- The turns of a loop, which may depend on `β`, and the completion of a request with `α`. -/
structure LoopTurns (σ β α : Type*) where
  jobs : σ → Nat
  turn : β → σ → σ
  complete : α → σ → σ

namespace LoopTurns

variable {l : LoopTurns σ β α} {Inv Pending Done : σ → Prop} {rank : σ → Nat}

def cycle (l : LoopTurns σ β α) (answer : β × Option α) (s : σ) : σ :=
  let s := (l.turn answer.1)^[l.jobs s] s
  match answer.2 with
  | none => s
  | some a => l.complete a s

/-- No turn makes more work, or takes a pending request away. With no request pending there is a
turn to take, which leaves less to do, and so does a completion. -/
structure Ranked (l : LoopTurns σ β α) (Inv Pending Done : σ → Prop) (rank : σ → Nat) : Prop where
  turn : ∀ b s, Inv s →
    Inv (l.turn b s) ∧ rank (l.turn b s) ≤ rank s ∧ (Pending s → Pending (l.turn b s))
  ready : ∀ b s, Inv s → ¬ Pending s → ¬ Done s → l.jobs s ≠ 0 ∧ rank (l.turn b s) < rank s
  complete : ∀ a s, Inv s → Inv (l.complete a s) ∧ rank (l.complete a s) ≤ rank s ∧
    (Pending s → rank (l.complete a s) < rank s)

namespace Ranked

variable {s : σ}

section

variable (h : l.Ranked Inv Pending Done rank)
include h

theorem turns (hs : Inv s) (b : β) (n : Nat) :
    Inv ((l.turn b)^[n] s) ∧ rank ((l.turn b)^[n] s) ≤ rank s ∧
      (Pending s → Pending ((l.turn b)^[n] s)) := by
  induction n generalizing s with
  | zero => exact ⟨hs, le_rfl, id⟩
  | succ n ih =>
      obtain ⟨hinv, hrank, hkeep⟩ := h.turn b s hs
      obtain ⟨hinv', hrank', hkeep'⟩ := ih hinv
      exact ⟨hinv', hrank'.trans hrank, fun hpending => hkeep' (hkeep hpending)⟩

theorem cycle (hs : Inv s) (answer : β × Option α) :
    Inv (l.cycle answer s) ∧ rank (l.cycle answer s) ≤ rank s := by
  obtain ⟨hinv, hrank, -⟩ := h.turns hs answer.1 (l.jobs s)
  unfold LoopTurns.cycle
  dsimp only
  split
  · exact ⟨hinv, hrank⟩
  next a _ =>
    obtain ⟨hinv', hrank', -⟩ := h.complete a _ hinv
    exact ⟨hinv', hrank'.trans hrank⟩

theorem cycle_lt (hs : Inv s) (hdone : ¬ Done s) {answer : β × Option α}
    (hanswer : answer.2 ≠ none) : rank (l.cycle answer s) < rank s := by
  obtain ⟨a, ha⟩ := Option.ne_none_iff_exists'.mp hanswer
  unfold LoopTurns.cycle
  simp only [ha]
  by_cases hpending : Pending s
  · obtain ⟨hinv, hrank, hkeep⟩ := h.turns hs answer.1 (l.jobs s)
    exact ((h.complete a _ hinv).2.2 (hkeep hpending)).trans_le hrank
  · -- The first turn already leaves less to do.
    obtain ⟨hjobs, hless⟩ := h.ready answer.1 s hs hpending hdone
    obtain ⟨n, hn⟩ := Nat.exists_eq_succ_of_ne_zero hjobs
    rw [hn, Function.iterate_succ_apply]
    obtain ⟨hinv, hrank, -⟩ := h.turns (h.turn answer.1 s hs).1 answer.1 n
    exact ((h.complete a _ hinv).2.1.trans hrank).trans_lt hless

/-- With a completion again and again, the loop brings the machine to its end. -/
theorem eventually {answers : Nat → β × Option α} (fair : ∀ n, ∃ m, n ≤ m ∧ (answers m).2 ≠ none)
    (hs : Inv s) : ∃ n, Done (cycles l.cycle answers s n) :=
  eventually_done (fun answer _ hs => (h.cycle hs answer).1)
    (fun answer _ hs => (h.cycle hs answer).2)
    (fun answer _ hs hdone (hanswer : answer.2 ≠ none) => h.cycle_lt hs hdone hanswer) fair hs

end

end Ranked

end LoopTurns

end TarmIo.Foundation
