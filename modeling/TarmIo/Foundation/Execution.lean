import Mathlib.Data.List.Basic

/-!
# Runs of partial step functions

A system is a partial step function: `step s e = none` says that the event `e`
cannot happen in state `s`. A run is a list of events. `Along` speaks about the
steps of a run, `Throughout` about the states it passes, and the rules below
derive the second from the first by one induction over the run.
-/

namespace TarmIo.Foundation

variable {σ ε : Type*}

variable {step : σ → ε → Option σ} {s t : σ} {es : List ε} {Inv P : σ → Prop} {good : σ → ε → Prop}

/-- The state a run ends in, when each of its events can happen in its turn. -/
def exec (step : σ → ε → Option σ) : σ → List ε → Option σ
  | s, [] => some s
  | s, e :: es =>
      match step s e with
      | none => none
      | some s' => exec step s' es

/-- The system in which only the steps of a domain can happen. -/
def restrict (domain : σ → ε → Prop) [∀ s e, Decidable (domain s e)] (step : σ → ε → Option σ) :
    σ → ε → Option σ :=
  fun s e => if domain s e then step s e else none

/-- Every step of the run meets `good`, judged on the state before the step. -/
def Along (step : σ → ε → Option σ) (good : σ → ε → Prop) : σ → List ε → Prop
  | _, [] => True
  | s, e :: es => good s e ∧ ∀ s', step s e = some s' → Along step good s' es

/-- Every state of the run, the first and the last included, meets `P`. -/
def Throughout (step : σ → ε → Option σ) (P : σ → Prop) : σ → List ε → Prop
  | s, [] => P s
  | s, e :: es => P s ∧ ∀ s', step s e = some s' → Throughout step P s' es

/-- The steps of a given run can be checked by running it. -/
instance Along.decidable (step : σ → ε → Option σ) (good : σ → ε → Prop)
    [∀ s e, Decidable (good s e)] : ∀ s es, Decidable (Along step good s es)
  | _, [] => .isTrue trivial
  | s, e :: es =>
      match h : step s e with
      | none => decidable_of_iff (good s e) (by simp [Along, h])
      | some s' =>
          have := Along.decidable step good s' es
          decidable_of_iff (good s e ∧ Along step good s' es) (by simp [Along, h])

@[simp] theorem restrict_eq_some {domain : σ → ε → Prop} [∀ s e, Decidable (domain s e)] {s s' : σ}
    {e : ε} : restrict domain step s e = some s' ↔ domain s e ∧ step s e = some s' := by
  rw [restrict]
  split <;> simp [*]

theorem exec_cons_some {e : ε} (h : exec step s (e :: es) = some t) :
    ∃ s', step s e = some s' ∧ exec step s' es = some t := by
  cases hs : step s e with
  | none => simp [exec, hs] at h
  | some s' => exact ⟨s', rfl, by simpa [exec, hs] using h⟩

theorem exec_cons_of_step {s s' : σ} {e : ε} (h : step s e = some s') (es : List ε) :
    exec step s (e :: es) = exec step s' es := by
  rw [exec, h]

theorem exec_append_of_exec {xs : List ε} (h : exec step s xs = some t) (ys : List ε) :
    exec step s (xs ++ ys) = exec step t ys := by
  induction xs generalizing s with
  | nil =>
      cases h
      rfl
  | cons e xs ih =>
      obtain ⟨s', hstep, htail⟩ := exec_cons_some h
      rw [List.cons_append, exec_cons_of_step hstep]
      exact ih htail

/-- Renamed events are steps of a renamed system. -/
theorem exec_map {ε' : Type*} (step : σ → ε → Option σ) (f : ε' → ε) (s : σ) (es : List ε') :
    exec step s (es.map f) = exec (fun s e => step s (f e)) s es := by
  induction es generalizing s with
  | nil => rfl
  | cons e es ih =>
      rw [List.map_cons, exec, exec]
      cases step s (f e) with
      | none => rfl
      | some s' => exact ih s'

/-- Invariant rule: what every possible step keeps holds where a run ends. -/
theorem exec_invariant {Inv : σ → Prop} (keep : ∀ s e s', Inv s → step s e = some s' → Inv s')
    (hs : Inv s) (h : exec step s es = some t) : Inv t := by
  induction es generalizing s with
  | nil =>
      cases h
      exact hs
  | cons e es ih =>
      obtain ⟨s', hstep, htail⟩ := exec_cons_some h
      exact ih (keep s e s' hs hstep) htail

/-- What the steps of a run put out, each with the state before it. -/
def outputs {β : Type*} (step : σ → ε → Option σ) (out : σ → ε → List β) : σ → List ε → List β
  | _, [] => []
  | s, e :: es =>
      match step s e with
      | none => []
      | some s' => out s e ++ outputs step out s' es

/-- A log to which every step adds what it puts out holds the outputs of the run. -/
theorem exec_outputs {β : Type*} {out : σ → ε → List β} {log : σ → List β}
    (hlog : ∀ s e s', step s e = some s' → log s' = log s ++ out s e)
    (h : exec step s es = some t) : log t = log s ++ outputs step out s es := by
  induction es generalizing s with
  | nil =>
      cases h
      exact (List.append_nil _).symm
  | cons e es ih =>
      obtain ⟨s', hstep, htail⟩ := exec_cons_some h
      rw [ih htail, hlog s e s' hstep, outputs, hstep, List.append_assoc]

/-- Termination rule: a rank that falls in every step bounds the length of a run. -/
theorem exec_length_le {Inv : σ → Prop} {rank : σ → Nat}
    (keep : ∀ s e s', Inv s → step s e = some s' → Inv s')
    (fall : ∀ s e s', Inv s → step s e = some s' → rank s' < rank s) (hs : Inv s)
    (h : exec step s es = some t) : es.length + rank t ≤ rank s := by
  induction es generalizing s with
  | nil =>
      cases h
      simp
  | cons e es ih =>
      obtain ⟨s', hstep, htail⟩ := exec_cons_some h
      have hlength := ih (keep s e s' hs hstep) htail
      have hfall := fall s e s' hs hstep
      rw [List.length_cons]
      omega

theorem Throughout.last {P : σ → Prop} (hall : Throughout step P s es)
    (h : exec step s es = some t) : P t := by
  induction es generalizing s with
  | nil =>
      cases h
      exact hall
  | cons e es ih =>
      obtain ⟨s', hstep, htail⟩ := exec_cons_some h
      exact ih (hall.2 s' hstep) htail

/-- Guarded invariant rule for every state that a run passes. -/
theorem throughout_of_along (holds : ∀ s, Inv s → P s)
    (keep : ∀ s e s', Inv s → good s e → step s e = some s' → Inv s') {s : σ} (hs : Inv s)
    (hgood : Along step good s es) : Throughout step P s es := by
  induction es generalizing s with
  | nil => exact holds s hs
  | cons e es ih =>
      refine ⟨holds s hs, ?_⟩
      intro s' hstep
      exact ih (keep s e s' hs hgood.1 hstep) (hgood.2 s' hstep)

/-- Invariant rule for every state that a run passes. -/
theorem throughout_of_invariant (holds : ∀ s, Inv s → P s)
    (keep : ∀ s e s', Inv s → step s e = some s' → Inv s') {s : σ} (hs : Inv s) (es : List ε) :
    Throughout step P s es := by
  induction es generalizing s with
  | nil => exact holds s hs
  | cons e es ih => exact ⟨holds s hs, fun s' hstep => ih (keep s e s' hs hstep)⟩

/-- Simulation rule: a second system that answers every good step follows a run of good steps. -/
theorem exec_simulates {τ : Type*} {step : σ → ε → Option σ} {step' : τ → ε → Option τ}
    {R : σ → τ → Prop} {good : σ → ε → Prop}
    (sim : ∀ s t e s', R s t → good s e → step s e = some s' →
      ∃ t', step' t e = some t' ∧ R s' t')
    {s s' : σ} {t : τ} {es : List ε} (hR : R s t) (hgood : Along step good s es)
    (h : exec step s es = some s') : ∃ t', exec step' t es = some t' ∧ R s' t' := by
  induction es generalizing s t with
  | nil =>
      cases h
      exact ⟨t, rfl, hR⟩
  | cons e es ih =>
      obtain ⟨u, hstep, htail⟩ := exec_cons_some h
      obtain ⟨v, hstep', hR'⟩ := sim s t e u hR hgood.1 hstep
      obtain ⟨t', htail', hend⟩ := ih hR' (hgood.2 u hstep) htail
      exact ⟨t', (exec_cons_of_step hstep' es).trans htail', hend⟩

theorem Along.take {s : σ} (h : Along step good s es) (n : Nat) :
    Along step good s (es.take n) := by
  induction es generalizing s n with
  | nil => rwa [List.take_nil]
  | cons e es ih =>
      cases n with
      | zero => exact trivial
      | succ n => exact ⟨h.1, fun s' hstep => ih (h.2 s' hstep) n⟩

/-- Steps may be judged by their events alone. -/
theorem along_of_forall {good : ε → Prop} {s : σ} (h : ∀ e ∈ es, good e) :
    Along step (fun _ => good) s es := by
  induction es generalizing s with
  | nil => exact trivial
  | cons e es ih =>
      exact ⟨h e List.mem_cons_self, fun _ _ => ih fun e' he' => h e' (List.mem_cons_of_mem e he')⟩

/-- Two systems side by side, which take their steps together. -/
def sideBySide {τ : Type*} (step : σ → ε → Option σ) (step' : τ → ε → Option τ) (p : σ × τ)
    (e : ε) : Option (σ × τ) :=
  match step p.1 e, step' p.2 e with
  | some s, some t => some (s, t)
  | _, _ => none

/-- Lockstep rule: two systems that can take the same good steps, and stay related in them, end
related. -/
theorem exec_lockstep {τ : Type*} {step' : τ → ε → Option τ} {R : σ → τ → Prop}
    {good : σ × τ → ε → Prop}
    (sim : ∀ s t e, R s t → good (s, t) e → Option.Rel R (step s e) (step' t e)) {s : σ} {t : τ}
    (hR : R s t) (hgood : Along (sideBySide step step') good (s, t) es) :
    Option.Rel R (exec step s es) (exec step' t es) := by
  induction es generalizing s t with
  | nil => exact .some hR
  | cons e es ih =>
      rw [exec, exec]
      match hs : step s e, ht : step' t e, sim s t e hR hgood.1 with
      | none, none, _ => exact .none
      | some s', some t', .some hR' =>
          exact ih hR' (hgood.2 (s', t') (by simp [sideBySide, hs, ht]))

/-- Related results look the same to functions that agree on related values. -/
theorem map_eq_of_rel {τ υ : Type*} {R : σ → τ → Prop} {f : σ → υ} {g : τ → υ}
    (hfg : ∀ s t, R s t → f s = g t) {a : Option σ} {b : Option τ} (h : Option.Rel R a b) :
    a.map f = b.map g := by
  cases h with
  | some hR => exact congrArg some (hfg _ _ hR)
  | none => rfl

/-- Under an invariant of the system, steps may be judged by any property that is the same
there. -/
theorem along_congr {Inv : σ → Prop} {good good' : σ → ε → Prop}
    (keep : ∀ s e s', Inv s → step s e = some s' → Inv s')
    (same : ∀ s e, Inv s → (good s e ↔ good' s e)) {s : σ} (hs : Inv s) (es : List ε) :
    Along step good s es ↔ Along step good' s es := by
  induction es generalizing s with
  | nil => exact Iff.rfl
  | cons e es ih =>
      refine and_congr (same s e hs) (forall_congr' fun s' => imp_congr_right fun hstep => ?_)
      exact ih (keep s e s' hs hstep)

/-- Exactness rule. Under an invariant that good steps keep and that gives `P`,
and when a step that is not good leads out of `P`, a possible run stays in `P`
exactly when all its steps are good. -/
theorem throughout_iff_along (holds : ∀ s, Inv s → P s)
    (keep : ∀ s e s', Inv s → good s e → step s e = some s' → Inv s')
    (leave : ∀ s e s', Inv s → ¬ good s e → step s e = some s' → ¬ P s') (hs : Inv s)
    (h : exec step s es = some t) : Throughout step P s es ↔ Along step good s es := by
  induction es generalizing s with
  | nil => simpa [Throughout, Along] using holds s hs
  | cons e es ih =>
      obtain ⟨s', hstep, htail⟩ := exec_cons_some h
      constructor
      · intro hall
        have hnext := hall.2 s' hstep
        have hp : P s' := by
          cases es with
          | nil => exact hnext
          | cons _ _ => exact hnext.1
        have hgood : good s e := by
          by_contra hbad
          exact leave s e s' hs hbad hstep hp
        refine ⟨hgood, ?_⟩
        intro u hu
        rw [hstep] at hu
        cases hu
        exact (ih (keep s e s' hs hgood hstep) htail).mp hnext
      · exact throughout_of_along holds keep hs

/-- Point of no return: when a step that is not good leads into `Bad`, and nothing leads out of
it, a possible run ends in `Inv` when all its steps are good and in `Bad` when not. -/
theorem along_or_bad {Inv Bad : σ → Prop}
    (keep : ∀ s e s', Inv s → good s e → step s e = some s' → Inv s')
    (fall : ∀ s e s', Inv s → ¬ good s e → step s e = some s' → Bad s')
    (stay : ∀ s e s', Bad s → step s e = some s' → Bad s') (hs : Inv s)
    (h : exec step s es = some t) :
    (Along step good s es ∧ Inv t) ∨ (¬ Along step good s es ∧ Bad t) := by
  induction es generalizing s with
  | nil =>
      cases h
      exact .inl ⟨trivial, hs⟩
  | cons e es ih =>
      obtain ⟨s', hstep, htail⟩ := exec_cons_some h
      by_cases hgood : good s e
      · refine (ih (keep s e s' hs hgood hstep) htail).imp ?_ ?_
        · rintro ⟨hall, hend⟩
          refine ⟨⟨hgood, fun u hu => ?_⟩, hend⟩
          cases hstep.symm.trans hu
          exact hall
        · rintro ⟨hnot, hend⟩
          exact ⟨fun hall => hnot (hall.2 s' hstep), hend⟩
      · refine .inr ⟨fun hall => hgood hall.1, ?_⟩
        exact exec_invariant stay (fall s e s' hs hgood hstep) htail

/-- Reckoning rule: when, under an invariant, a step ends in `P` exactly if it starts in `P` and is
good, so does a run whose steps are all good. -/
theorem exec_iff_along (keep : ∀ s e s', Inv s → step s e = some s' → Inv s')
    (hstep : ∀ s e s', Inv s → step s e = some s' → (P s' ↔ P s ∧ good s e)) (hs : Inv s)
    (h : exec step s es = some t) : P t ↔ P s ∧ Along step good s es := by
  induction es generalizing s with
  | nil =>
      cases h
      exact (and_iff_left trivial).symm
  | cons e es ih =>
      obtain ⟨s', hs', htail⟩ := exec_cons_some h
      rw [ih (keep s e s' hs hs') htail, hstep s e s' hs hs', and_assoc]
      refine and_congr_right fun _ => and_congr_right fun _ => ?_
      constructor
      · intro hall u hu
        cases hs'.symm.trans hu
        exact hall
      · exact fun hall => hall s' hs'

end TarmIo.Foundation
