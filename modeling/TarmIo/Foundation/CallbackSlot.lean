import Mathlib.Data.List.Nodup

/-!
# One slot for the callbacks of all requests

A service that ends once keeps the callback of a request in a slot, and every new request
overwrites it. The request that starts the end leaves its callback for the end to take out of
the slot and to call. Each later one is answered by a reader: a deferred call of what the slot
holds when the reader runs.

`Fair` says which steps answer every callback once: no request overwrites a callback that waits,
and the end takes only a callback that waits for it. A step that is not fair is never made good
(`Doomed`).
-/

namespace TarmIo.Foundation

inductive Stage
  | serving
  | ending
  | finished
deriving DecidableEq

/-- The slot with the readers to come and the callbacks taken out of it; then the callbacks that
were passed, those that were called, and how often a reader found the slot empty. -/
structure CallbackSlot (α : Type*) where
  slot : Option α
  stage : Stage
  readers : Nat
  taken : List α
  passed : List α
  called : List α
  nullCalls : Nat

namespace CallbackSlot

inductive Act (α : Type*)
  | stay
  | put (callback : Option α)
  | read
  | take
  | deliver (callback : α)

variable {α : Type*}

/-- A request. Readers are not deferred for an empty callback. -/
def put (s : CallbackSlot α) (callback : Option α) : CallbackSlot α :=
  { s with
    slot := callback
    passed := s.passed ++ callback.toList
    stage := if s.stage = .serving then .ending else s.stage
    readers := if s.stage = .serving then s.readers else s.readers + callback.toList.length }

def read (s : CallbackSlot α) : CallbackSlot α :=
  match s.slot with
  | none => { s with readers := s.readers - 1, nullCalls := s.nullCalls + 1 }
  | some a => { s with readers := s.readers - 1, called := s.called ++ [a] }

def take (s : CallbackSlot α) : CallbackSlot α :=
  { s with slot := none, stage := .finished, taken := s.taken ++ s.slot.toList }

def Waits (s : CallbackSlot α) (a : α) : Prop := s.slot = some a ∧ a ∈ s.passed ∧ a ∉ s.called

theorem not_waits_take (s : CallbackSlot α) (a : α) : ¬ s.take.Waits a := by
  rintro ⟨hslot, -⟩
  cases hslot

variable [DecidableEq α]

instance (s : CallbackSlot α) (a : α) : Decidable (s.Waits a) :=
  inferInstanceAs (Decidable (_ ∧ _ ∧ _))

def deliver (s : CallbackSlot α) (a : α) : CallbackSlot α :=
  { s with taken := s.taken.erase a, called := s.called ++ [a] }

def apply (s : CallbackSlot α) : Act α → CallbackSlot α
  | .stay => s
  | .put callback => s.put callback
  | .read => s.read
  | .take => s.take
  | .deliver a => s.deliver a

def Enabled (s : CallbackSlot α) : Act α → Prop
  | .stay => True
  | .put callback => ∀ a ∈ callback, a ∉ s.passed
  | .read => 0 < s.readers
  | .take => s.stage = .ending
  | .deliver a => a ∈ s.taken

def Fair (s : CallbackSlot α) : Act α → Prop
  | .put _ => ∀ a, ¬ s.Waits a
  | .take => ∀ a, s.slot = some a → s.Waits a ∧ s.readers = 0
  | .stay | .read | .deliver _ => True

def Settled (s : CallbackSlot α) : Prop := s.stage = .finished ∧ s.readers = 0 ∧ s.taken = []

def Answered (s : CallbackSlot α) : Prop := (∀ a ∈ s.passed, s.called.count a = 1) ∧ s.nullCalls = 0

/-! ## Fair steps -/

/-- Each callback that was passed was called, was taken, or waits. One that waits has a reader,
or waits for the end; a reader has a callback that waits. -/
structure Accounted (s : CallbackSlot α) : Prop where
  distinct : s.passed.Nodup
  once : ∀ a, s.called.count a + s.taken.count a + (if s.Waits a then 1 else 0) = s.passed.count a
  held : s.stage ≠ .serving → ∀ a, s.slot = some a → a ∈ s.passed
  reader : ∀ a, s.Waits a → s.stage ≠ .ending → s.readers = 1
  readers : s.readers ≤ 1
  waiting : 0 < s.readers → ∃ a, s.Waits a
  nullCalls : s.nullCalls = 0

variable {s : CallbackSlot α} {a : α} {callback : Option α} {x : Act α}

section

variable (h : s.Accounted)
include h

theorem Accounted.not_mem (ha : a ∉ s.passed) : a ∉ s.called ∧ a ∉ s.taken := by
  have honce := h.once a
  rw [List.count_eq_zero.mpr ha] at honce
  exact ⟨List.count_eq_zero.mp (by omega), List.count_eq_zero.mp (by omega)⟩

theorem Accounted.put (hnew : ∀ a ∈ callback, a ∉ s.passed) (hfair : ∀ a, ¬ s.Waits a) :
    (s.put callback).Accounted := by
  have hreaders : s.readers = 0 := by
    by_contra hne
    obtain ⟨a, ha⟩ := h.waiting (Nat.pos_of_ne_zero hne)
    exact hfair a ha
  have hwaits (a : α) : (s.put callback).Waits a ↔ callback = some a := by
    constructor
    · exact fun hw => hw.1
    · rintro rfl
      exact ⟨rfl, by simp [CallbackSlot.put], (h.not_mem (hnew a rfl)).1⟩
  refine
    { distinct := ?_
      once := fun a => ?_
      held := fun _ a ha => ?_
      reader := fun a ha hstage => ?_
      readers := ?_
      waiting := fun hpos => ?_
      nullCalls := h.nullCalls }
  · cases callback with
    | none => simpa [CallbackSlot.put] using h.distinct
    | some a =>
        refine List.Nodup.append h.distinct (List.nodup_singleton a) ?_
        simpa using hnew a rfl
  · have honce := h.once a
    rw [if_neg (hfair a)] at honce
    simp only [hwaits]
    cases callback with
    | none => simpa [CallbackSlot.put] using honce
    | some b =>
        simp only [CallbackSlot.put, Option.some_inj, Option.toList_some, List.count_append,
          List.count_singleton, beq_iff_eq]
        omega
  · have hslot : callback = some a := ha
    subst hslot
    simp [CallbackSlot.put]
  · have hslot := (hwaits a).mp ha
    subst hslot
    by_cases hserving : s.stage = .serving
    · simp [CallbackSlot.put, hserving] at hstage
    · simp [CallbackSlot.put, hserving, hreaders]
  · simp only [CallbackSlot.put, hreaders]
    cases callback <;> split <;> simp
  · cases callback with
    | none =>
        simp only [CallbackSlot.put, hreaders, Option.toList_none, List.length_nil] at hpos
        split at hpos <;> omega
    | some a => exact ⟨a, (hwaits a).mpr rfl⟩

theorem Accounted.read (hpos : 0 < s.readers) : s.read.Accounted := by
  obtain ⟨a, ha⟩ := h.waiting hpos
  have hread : s.read = { s with readers := s.readers - 1, called := s.called ++ [a] } := by
    simp [CallbackSlot.read, ha.1]
  have hreaders : s.readers - 1 = 0 := by have := h.readers; omega
  have hwaits (b : α) : ¬ s.read.Waits b := by
    rw [hread]
    rintro ⟨hslot, -, hnot⟩
    cases ha.1.symm.trans hslot
    simp at hnot
  refine
    { distinct := ?_
      once := fun b => ?_
      held := ?_
      reader := fun b hb => absurd hb (hwaits b)
      readers := ?_
      waiting := ?_
      nullCalls := ?_ }
  · rw [hread]
    exact h.distinct
  · have honce := h.once b
    rw [if_neg (hwaits b), hread]
    simp only [List.count_append, List.count_singleton, beq_iff_eq]
    by_cases hab : a = b
    · subst hab
      rw [if_pos ha] at honce
      simp only [↓reduceIte]
      omega
    · have hnot : ¬ s.Waits b := fun hb => hab (Option.some.inj (ha.1.symm.trans hb.1))
      rw [if_neg hnot] at honce
      simp only [hab, ↓reduceIte]
      omega
  · rw [hread]
    exact h.held
  · rw [hread]
    exact Nat.le_trans (Nat.le_of_eq hreaders) (Nat.zero_le 1)
  · rw [hread]
    intro hagain
    exact absurd hagain (by simp [hreaders])
  · rw [hread]
    exact h.nullCalls

theorem Accounted.take (hfair : ∀ a, s.slot = some a → s.Waits a ∧ s.readers = 0) :
    s.take.Accounted where
  distinct := h.distinct
  once b := by
    have honce := h.once b
    rw [if_neg (not_waits_take s b)]
    simp only [CallbackSlot.take, List.count_append]
    cases hslot : s.slot with
    | none =>
        rw [if_neg (fun hw : s.Waits b => nomatch hslot.symm.trans hw.1)] at honce
        simpa using honce
    | some a =>
        simp only [Option.toList_some, List.count_singleton, beq_iff_eq]
        by_cases hab : a = b
        · subst hab
          rw [if_pos (hfair a hslot).1] at honce
          simp only [↓reduceIte]
          omega
        · have hnot : ¬ s.Waits b := fun hb => hab (Option.some.inj (hslot.symm.trans hb.1))
          rw [if_neg hnot] at honce
          simp only [hab, ↓reduceIte]
          omega
  held _ _ hslot := nomatch hslot
  reader a ha := absurd ha (not_waits_take s a)
  readers := h.readers
  waiting hpos := by
    obtain ⟨a, ha⟩ := h.waiting hpos
    exact absurd (hfair a ha.1).2 (Nat.pos_iff_ne_zero.mp hpos)
  nullCalls := h.nullCalls

theorem Accounted.deliver (ha : a ∈ s.taken) : (s.deliver a).Accounted := by
  have hcount := h.once a
  have hle := List.nodup_iff_count_le_one.mp h.distinct a
  have hpos := List.count_pos_iff.mpr ha
  have hnot : ¬ s.Waits a := by
    intro hw
    rw [if_pos hw] at hcount
    omega
  have hwaits (b : α) : (s.deliver a).Waits b ↔ s.Waits b := by
    constructor
    · rintro ⟨hslot, hpassed, hcalled⟩
      exact ⟨hslot, hpassed, fun hb => hcalled (List.mem_append_left _ hb)⟩
    · intro hw
      refine ⟨hw.1, hw.2.1, fun hb => ?_⟩
      rcases List.mem_append.mp hb with hb | hb
      · exact hw.2.2 hb
      · exact hnot (List.mem_singleton.mp hb ▸ hw)
  refine
    { distinct := h.distinct
      once := fun b => ?_
      held := h.held
      reader := fun b hb => h.reader b ((hwaits b).mp hb)
      readers := h.readers
      waiting := fun hreader => ?_
      nullCalls := h.nullCalls }
  · have honce := h.once b
    simp only [hwaits]
    simp only [CallbackSlot.deliver, List.count_append, List.count_singleton, List.count_erase,
      beq_iff_eq]
    by_cases hab : a = b
    · subst hab
      simp only [↓reduceIte]
      omega
    · simp only [hab, ↓reduceIte]
      omega
  · obtain ⟨b, hb⟩ := h.waiting hreader
    exact ⟨b, (hwaits b).mpr hb⟩

theorem Accounted.apply (henabled : s.Enabled x) (hfair : s.Fair x) : (s.apply x).Accounted := by
  cases x with
  | stay => exact h
  | put callback => exact h.put henabled hfair
  | read => exact h.read henabled
  | take => exact h.take hfair
  | deliver a => exact h.deliver henabled

end

/-! ## Steps that are not fair -/

/-- A callback is nowhere any more and was not called; or it is called twice; or the empty slot
was called; or the service is over and there are more readers than callbacks that wait. -/
inductive Doomed (s : CallbackSlot α) : Prop
  | lost (a : α) (passed : a ∈ s.passed) (called : a ∉ s.called) (taken : a ∉ s.taken)
      (slot : s.slot ≠ some a)
  | repeated (a : α) (passed : a ∈ s.passed) (twice : 2 ≤ s.called.count a + s.taken.count a)
  | null (called : 0 < s.nullCalls)
  | surplus (finished : s.stage = .finished) (held : ∀ a, s.slot = some a → a ∈ s.passed)
      (readers : 0 < s.readers) (more : ∀ a, s.Waits a → 1 < s.readers)

theorem Accounted.doomed_put (h : s.Accounted) (hnew : ∀ a ∈ callback, a ∉ s.passed)
    (ha : s.Waits a) : (s.put callback).Doomed := by
  have honce := h.once a
  have hle := List.nodup_iff_count_le_one.mp h.distinct a
  rw [if_pos ha] at honce
  have htaken : a ∉ s.taken := List.count_eq_zero.mp (by omega)
  exact .lost a (List.mem_append_left _ ha.2.1) ha.2.2 htaken
    (fun hslot => hnew a hslot ha.2.1)

theorem Accounted.doomed_take (h : s.Accounted) (hending : s.stage = .ending)
    (hslot : s.slot = some a) (hnot : ¬ (s.Waits a ∧ s.readers = 0)) : s.take.Doomed := by
  have hpassed : a ∈ s.passed := h.held (by simp [hending]) a hslot
  by_cases hcalled : a ∈ s.called
  · have hone := List.count_pos_iff.mpr hcalled
    refine .repeated a hpassed ?_
    simp only [CallbackSlot.take, hslot, Option.toList_some, List.count_append,
      List.count_singleton_self]
    omega
  · have hreaders : s.readers ≠ 0 := fun hzero => hnot ⟨⟨hslot, hpassed, hcalled⟩, hzero⟩
    exact .surplus rfl (fun _ hb => nomatch hb) (Nat.pos_of_ne_zero hreaders)
      (fun b hb => absurd hb (not_waits_take s b))

theorem Accounted.doomed (h : s.Accounted) (henabled : s.Enabled x) (hunfair : ¬ s.Fair x) :
    (s.apply x).Doomed := by
  cases x with
  | stay | read | deliver _ => exact absurd trivial hunfair
  | put callback =>
      simp only [Fair, not_forall, not_not] at hunfair
      obtain ⟨a, ha⟩ := hunfair
      exact h.doomed_put henabled ha
  | take =>
      simp only [Fair, not_forall] at hunfair
      obtain ⟨a, hslot, hnot⟩ := hunfair
      exact h.doomed_take henabled hslot hnot

theorem Doomed.put (h : s.Doomed) (hnew : ∀ a ∈ callback, a ∉ s.passed) :
    (s.put callback).Doomed := by
  cases h with
  | lost a hpassed hcalled htaken _ =>
      exact .lost a (List.mem_append_left _ hpassed) hcalled htaken
        (fun hslot => hnew a hslot hpassed)
  | repeated a hpassed htwice => exact .repeated a (List.mem_append_left _ hpassed) htwice
  | null hnull => exact .null hnull
  | surplus hover hheld hreaders hmore =>
      -- A callback that waits is overwritten and lost; otherwise the new one gets its own reader.
      by_cases hwaits : ∃ a, s.Waits a ∧ a ∉ s.taken
      · obtain ⟨a, ha, htaken⟩ := hwaits
        exact .lost a (List.mem_append_left _ ha.2.1) ha.2.2 htaken
          (fun hslot => hnew a hslot ha.2.1)
      · have hserving : s.stage ≠ .serving := by simp [hover]
        refine .surplus (by simp [CallbackSlot.put, hover]) (fun a ha => ?_) ?_ (fun a ha => ?_)
        · have hslot : callback = some a := ha
          subst hslot
          simp [CallbackSlot.put]
        · simp only [CallbackSlot.put, if_neg hserving]
          omega
        · have hslot : callback = some a := ha.1
          subst hslot
          simp only [CallbackSlot.put, if_neg hserving, Option.toList_some, List.length_singleton]
          omega

theorem Doomed.read (h : s.Doomed) : s.read.Doomed := by
  cases hslot : s.slot with
  | none =>
      refine .null ?_
      simp [CallbackSlot.read, hslot]
  | some b =>
      have hread : s.read = { s with readers := s.readers - 1, called := s.called ++ [b] } := by
        simp [CallbackSlot.read, hslot]
      rw [hread]
      cases h with
      | lost a hpassed hcalled htaken hne =>
          refine .lost a hpassed ?_ htaken hne
          have hba : a ≠ b := fun hab => hne (hab ▸ hslot)
          simp [hcalled, hba]
      | repeated a hpassed htwice =>
          refine .repeated a hpassed ?_
          simp only [List.count_append]
          omega
      | null hnull => exact .null hnull
      | surplus hover hheld hreaders hmore =>
          by_cases hcalled : b ∈ s.called
          · have hone := List.count_pos_iff.mpr hcalled
            refine .repeated b (hheld b hslot) ?_
            simp only [List.count_append, List.count_singleton_self]
            omega
          · have hmany := hmore b ⟨hslot, hheld b hslot, hcalled⟩
            refine .surplus hover hheld ?_ (fun a ha => ?_)
            · exact Nat.sub_pos_of_lt hmany
            · obtain rfl : b = a := Option.some.inj (hslot.symm.trans ha.1)
              exact absurd (List.mem_append_right _ (List.mem_singleton_self b)) ha.2.2

theorem Doomed.take (h : s.Doomed) (hending : s.stage = .ending) : s.take.Doomed := by
  cases h with
  | lost a hpassed hcalled htaken hne =>
      refine .lost a hpassed hcalled ?_ (fun hslot => nomatch hslot)
      intro hmem
      rcases List.mem_append.mp hmem with hmem | hmem
      · exact htaken hmem
      · exact hne (Option.mem_toList.mp hmem)
  | repeated a hpassed htwice =>
      refine .repeated a hpassed ?_
      simp only [CallbackSlot.take, List.count_append]
      omega
  | null hnull => exact .null hnull
  | surplus hover => exact nomatch hover.symm.trans hending

theorem Doomed.deliver (h : s.Doomed) (hb : a ∈ s.taken) : (s.deliver a).Doomed := by
  cases h with
  | lost b hpassed hcalled htaken hne =>
      refine .lost b hpassed ?_ (fun hmem => htaken (List.mem_of_mem_erase hmem)) hne
      have hba : b ≠ a := fun hab => htaken (hab ▸ hb)
      simp [CallbackSlot.deliver, hcalled, hba]
  | repeated b hpassed htwice =>
      refine .repeated b hpassed ?_
      simp only [CallbackSlot.deliver, List.count_append, List.count_singleton, List.count_erase,
        beq_iff_eq]
      split <;> omega
  | null hnull => exact .null hnull
  | surplus hover hheld hreaders hmore =>
      refine .surplus hover hheld hreaders (fun b hw => hmore b ⟨hw.1, hw.2.1, ?_⟩)
      exact fun hcalled => hw.2.2 (List.mem_append_left _ hcalled)

/-- Nothing leads out. -/
theorem Doomed.apply (h : s.Doomed) (henabled : s.Enabled x) : (s.apply x).Doomed := by
  cases x with
  | stay => exact h
  | put callback => exact h.put henabled
  | read => exact h.read
  | take => exact h.take henabled
  | deliver a => exact h.deliver henabled

/-! ## The settled service -/

theorem Accounted.answered (h : s.Accounted) (hsettled : s.Settled) : s.Answered := by
  obtain ⟨hover, hreaders, htaken⟩ := hsettled
  refine ⟨fun a ha => ?_, h.nullCalls⟩
  have hnot : ¬ s.Waits a := by
    intro hw
    have hone := h.reader a hw (by simp [hover])
    omega
  have honce := h.once a
  rw [if_neg hnot, htaken, List.count_nil, List.count_eq_one_of_mem h.distinct ha] at honce
  exact honce

theorem Doomed.not_answered (h : s.Doomed) (hsettled : s.Settled) : ¬ s.Answered := by
  obtain ⟨-, hreaders, htaken⟩ := hsettled
  rintro ⟨honce, hnull⟩
  cases h with
  | lost a hpassed hcalled _ _ =>
      have hone := honce a hpassed
      rw [List.count_eq_zero.mpr hcalled] at hone
      cases hone
  | repeated a hpassed htwice =>
      rw [honce a hpassed, htaken] at htwice
      simp at htwice
  | null hpos => omega
  | surplus _ _ hpos _ => omega

end CallbackSlot

end TarmIo.Foundation
