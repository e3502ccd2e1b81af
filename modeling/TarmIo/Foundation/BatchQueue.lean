import Mathlib.Data.List.Basic

/-!
# A queue that is emptied in batches

New entries wait at the end of the queue. The worker takes all that wait at once, and works
through this batch while others come in behind it. What entered is kept as well, and with it the
fact that nothing is lost, doubled or overtaken: it is a field, so every queue has it.
-/

namespace TarmIo.Foundation

/-- What entered is what was worked on, the rest of the batch and what waits, in this order. An
entry is worked on with a stamp of the worker. -/
structure BatchQueue (α β : Type*) where
  entered : List α := []
  waiting : List α := []
  batch : List α := []
  done : List (α × β) := []
  conserved : done.map Prod.fst ++ (batch ++ waiting) = entered := by rfl

namespace BatchQueue

variable {α β : Type*}

def push (q : BatchQueue α β) (a : α) : BatchQueue α β where
  entered := q.entered ++ [a]
  waiting := q.waiting ++ [a]
  batch := q.batch
  done := q.done
  conserved := by simp [← q.conserved]

def swap (q : BatchQueue α β) : BatchQueue α β where
  entered := q.entered
  waiting := []
  batch := q.batch ++ q.waiting
  done := q.done
  conserved := by simp [← q.conserved]

def next (q : BatchQueue α β) (stamp : β) : Option (BatchQueue α β) :=
  match h : q.batch with
  | [] => none
  | a :: rest =>
      some
        { entered := q.entered
          waiting := q.waiting
          batch := rest
          done := q.done ++ [(a, stamp)]
          conserved := by simp [← q.conserved, h] }

theorem next_eq_some {q r : BatchQueue α β} {stamp : β} (h : q.next stamp = some r) :
    ∃ a, q.batch = a :: r.batch ∧ r.done = q.done ++ [(a, stamp)] ∧ r.waiting = q.waiting ∧
      r.entered = q.entered := by
  rw [next] at h
  split at h
  · cases h
  · rename_i a rest hbatch
    cases h
    exact ⟨a, hbatch, rfl, rfl, rfl⟩

/-- Each entry is worked on at most once, and in the order in which they entered. -/
theorem done_prefix (q : BatchQueue α β) : q.done.map Prod.fst <+: q.entered :=
  ⟨_, q.conserved⟩

theorem length_entered (q : BatchQueue α β) :
    q.done.length + (q.batch.length + q.waiting.length) = q.entered.length := by
  simpa using congrArg List.length q.conserved

end BatchQueue

end TarmIo.Foundation
