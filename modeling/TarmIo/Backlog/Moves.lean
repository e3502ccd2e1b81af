import Mathlib.Logic.Function.Basic
import TarmIo.Backlog.LiveBacklog

/-!
# Moving a backlog

Backlogs at addresses, and the timers of the loop. A timer does not belong to an address: a tick
reads the user data of the timer, and `on_timer` runs on the backlog that its pointer says.
Constructing and assigning by move hand the timers on and refresh their pointers; the timers of a
backlog that is overwritten, stopped or destroyed are stopped before they are removed, and tick no
more.

`std::move` of a `std::function` leaves an empty one, so the getters of a moved backlog are null.
-/

namespace TarmIo.BacklogWithTimeout

open Foundation

variable {α : Type*}

structure TimerData where
  index : Nat
  backlog : Nat
deriving DecidableEq

/-- A backlog with the calls of it that are running. `handles` names the timers of `m_timers`. -/
structure Object (α : Type*) where
  live : Live α
  handles : List Nat

def Object.movedFrom (o : Object α) : Object α where
  live :=
    { backlog := { o.live.backlog with timers := [], items := [], reported := [] }
      getters := false }
  handles := []

/-- `timers` holds the timers that can tick. `walking` is the backlog whose `on_timer` runs, and
`inside` lists the backlogs whose expired callbacks run, the innermost first. `reported` lists the
calls of the expired callbacks with the backlog they were given. -/
structure Heap (α : Type*) where
  objects : Nat → Option (Object α) := fun _ => none
  timers : Nat → Option TimerData := fun _ => none
  fresh : Nat := 0
  walking : Option Nat := none
  inside : List Nat := []
  reported : List (Nat × Report α) := []

inductive HeapCall (α : Type*)
  | create (address : Nat) (entityTimeout clock : UInt64) (itemTime : α → UInt64)
  | destroy (address : Nat)
  | moveConstruct (other this : Nat)
  | moveAssign (other this : Nat)
  | addItem (address : Nat) (x : α)
  | removeItem (address : Nat) (x : α)
  | stop (address : Nat)
  | onTimer (timer : Nat)
  | visit
  | leave
  | advance (address : Nat) (clock : UInt64) (itemTime : α → UInt64)

namespace Heap

def userRuns (h : Heap α) : Bool := h.walking.isNone || !h.inside.isEmpty

def AtRest (h : Heap α) : Prop := h.walking = none ∧ h.inside = []

instance (h : Heap α) : Decidable h.AtRest := inferInstanceAs (Decidable (_ ∧ _))

def removeTimers (h : Heap α) (handles : List Nat) : Heap α :=
  { h with timers := fun timer => if timer ∈ handles then none else h.timers timer }

/-! ## Construction and destruction -/

def create (h : Heap α) (address : Nat) (entityTimeout clock : UInt64)
    (itemTime : α → UInt64) : Heap α :=
  let backlog := BacklogWithTimeout.create entityTimeout clock itemTime
  let count := backlog.timers.length
  { h with
    objects := Function.update h.objects address
      (some { live := { backlog }, handles := List.range' h.fresh count })
    timers := fun timer =>
      if h.fresh ≤ timer ∧ timer < h.fresh + count then
        some { index := timer - h.fresh, backlog := address }
      else h.timers timer
    fresh := h.fresh + count }

def destroy (h : Heap α) (address : Nat) (o : Object α) : Heap α :=
  { h.removeTimers o.handles with objects := Function.update h.objects address none }

/-! ## Moves -/

def refreshTimerBacklogPointers (h : Heap α) (this : Nat) (handles : List Nat) : Heap α :=
  { h with
    timers := fun timer =>
      if timer ∈ handles then (h.timers timer).map fun data => { data with backlog := this }
      else h.timers timer }

def move (h : Heap α) (other this : Nat) (o : Object α) : Heap α :=
  { h with
    objects :=
      Function.update (Function.update h.objects this (some o)) other (some o.movedFrom)
    }.refreshTimerBacklogPointers this o.handles

/-! ## Calls -/

/-- The state after a call of one backlog, of which the callbacks and the loop go on in `s`. -/
def update (h : Heap α) (address : Nat) (o : Object α) (s : Live α) : Heap α :=
  let stopped := s.backlog.timers.isEmpty
  { if stopped then h.removeTimers o.handles else h with
    objects := Function.update h.objects address
      (some { live := s, handles := if stopped then [] else o.handles })
    walking :=
      if s.walk.isSome then some address
      else if h.walking = some address then none
      else h.walking
    inside :=
      if o.live.callbacks.length < s.callbacks.length then address :: h.inside
      else h.inside.drop (o.live.callbacks.length - s.callbacks.length)
    reported := h.reported ++
      (s.backlog.reported.drop o.live.backlog.reported.length).map fun r => (address, r) }

variable [DecidableEq α]

def call (h : Heap α) (address : Nat) (e : LiveCall α) : Option (Heap α) :=
  (h.objects address).bind fun o => (o.live.step e).map (h.update address o)

def step (h : Heap α) : HeapCall α → Option (Heap α)
  | .create address entityTimeout clock itemTime =>
      if h.userRuns ∧ (h.objects address).isNone then
        some (h.create address entityTimeout clock itemTime)
      else none
  | .destroy address =>
      if h.userRuns ∧ h.walking ≠ some address ∧ address ∉ h.inside then
        (h.objects address).map (h.destroy address)
      else none
  | .moveConstruct other this =>
      if h.AtRest ∧ other ≠ this ∧ (h.objects this).isNone then
        (h.objects other).map (h.move other this)
      else none
  | .moveAssign other this =>
      if h.AtRest ∧ other ≠ this then
        (h.objects this).bind fun old =>
          (h.objects other).map ((h.removeTimers old.handles).move other this)
      else none
  | .addItem address x => if h.userRuns then h.call address (.addItem x) else none
  | .removeItem address x => if h.userRuns then h.call address (.removeItem x) else none
  | .stop address => if h.userRuns then h.call address .stop else none
  | .onTimer timer =>
      if h.AtRest then
        (h.timers timer).bind fun data => h.call data.backlog (.onTimer data.index)
      else none
  | .visit =>
      match h.walking, h.inside with
      | some address, [] => h.call address .visit
      | _, _ => none
  | .leave =>
      match h.inside with
      | address :: _ => h.call address .leave
      | [] => none
  | .advance address clock itemTime => h.call address (.advance clock itemTime)

/-! ## The timers of a backlog -/

variable {h h' : Heap α} {address other this : Nat} {o old : Object α}

def Everywhere (Q : Nat → Object α → Prop) (objects : Nat → Option (Object α)) : Prop :=
  ∀ address o, objects address = some o → Q address o

section Everywhere

variable {Q : Nat → Object α → Prop} {objects : Nat → Option (Object α)}

omit [DecidableEq α] in
/-- After a write, only the other addresses are as they were. -/
theorem everywhere_set (ho : Q address o)
    (hother : ∀ address' o', address' ≠ address → objects address' = some o' → Q address' o') :
    Everywhere Q (Function.update objects address (some o)) := by
  intro address' o' ho'
  by_cases heq : address' = address
  · subst heq
    rw [Function.update_self] at ho'
    cases ho'
    exact ho
  · rw [Function.update_of_ne heq] at ho'
    exact hother address' o' heq ho'

omit [DecidableEq α] in
theorem everywhere_erase
    (hother : ∀ address' o', address' ≠ address → objects address' = some o' → Q address' o') :
    Everywhere Q (Function.update objects address none) := by
  intro address' o' ho'
  by_cases heq : address' = address
  · subst heq
    rw [Function.update_self] at ho'
    cases ho'
  · rw [Function.update_of_ne heq] at ho'
    exact hother address' o' heq ho'

omit [DecidableEq α] in
theorem Everywhere.set (hall : Everywhere Q objects) (ho : Q address o) :
    Everywhere Q (Function.update objects address (some o)) :=
  everywhere_set ho fun address' o' _ => hall address' o'

omit [DecidableEq α] in
theorem Everywhere.erase (hall : Everywhere Q objects) (address : Nat) :
    Everywhere Q (Function.update objects address none) :=
  everywhere_erase fun address' o' _ => hall address' o'

end Everywhere

/-- Every timer that can tick is in `m_timers` of the backlog that its pointer says, at its index;
and the timers in `m_timers` can tick. -/
structure Owned (h : Heap α) : Prop where
  owner : ∀ timer data, h.timers timer = some data →
    ∃ o, h.objects data.backlog = some o ∧ o.handles[data.index]? = some timer
  pointer : ∀ address o, h.objects address = some o → ∀ index timer,
    o.handles[index]? = some timer → h.timers timer = some { index, backlog := address }
  sized : Everywhere (fun _ o => o.handles.length = o.live.backlog.timers.length) h.objects
  fresh : ∀ timer data, h.timers timer = some data → timer < h.fresh

omit [DecidableEq α] in
theorem owned_empty : Owned ({} : Heap α) where
  owner _ _ hdata := by cases hdata
  pointer _ _ ho := by cases ho
  sized _ _ ho := by cases ho
  fresh _ _ hdata := by cases hdata

omit [DecidableEq α] in
/-- The pointers tell the timers of different backlogs apart. -/
theorem Owned.eq_of_mem (hh : Owned h) (ho : h.objects address = some o) {timer : Nat}
    (hmem : timer ∈ o.handles) {data : TimerData} (hdata : h.timers timer = some data) :
    data.backlog = address := by
  obtain ⟨index, hindex⟩ := List.mem_iff_getElem?.mp hmem
  have hpointer := hh.pointer address o ho index timer hindex
  cases hdata.symm.trans hpointer
  rfl

omit [DecidableEq α] in
theorem Owned.mem_of_eq (hh : Owned h) (ho : h.objects address = some o) {timer : Nat}
    {data : TimerData} (hdata : h.timers timer = some data) (heq : data.backlog = address) :
    timer ∈ o.handles := by
  obtain ⟨o', ho', hindex⟩ := hh.owner timer data hdata
  rw [heq] at ho'
  cases ho'.symm.trans ho
  exact List.mem_of_getElem? hindex

omit [DecidableEq α] in
theorem Owned.create (hh : Owned h) (hfree : h.objects address = none)
    (entityTimeout clock : UInt64) (itemTime : α → UInt64) :
    Owned (h.create address entityTimeout clock itemTime) := by
  constructor
  · intro timer data hdata
    simp only [Heap.create] at hdata ⊢
    split at hdata
    · rename_i hnew
      cases hdata
      refine ⟨_, Function.update_self .., ?_⟩
      dsimp only
      rw [List.getElem?_range' (by omega), Nat.one_mul, Nat.add_sub_of_le hnew.1]
    · obtain ⟨o', ho', hindex⟩ := hh.owner timer data hdata
      refine ⟨o', ?_, hindex⟩
      rwa [Function.update_of_ne]
      intro heq
      rw [heq, hfree] at ho'
      cases ho'
  · refine everywhere_set (fun index timer hindex => ?_)
      fun address' o' _ ho' index timer hindex => ?_
    · obtain ⟨hlt, htimer⟩ := List.getElem?_eq_some_iff.mp hindex
      rw [List.length_range'] at hlt
      rw [List.getElem_range'] at htimer
      simp only [Heap.create]
      rw [if_pos (by omega)]
      congr 2
      omega
    · have hpointer := hh.pointer address' o' ho' index timer hindex
      have hold := hh.fresh timer _ hpointer
      simp only [Heap.create]
      rwa [if_neg (by omega)]
  · exact hh.sized.set List.length_range'
  · intro timer data hdata
    simp only [Heap.create] at hdata ⊢
    split at hdata
    · omega
    · exact Nat.lt_add_right _ (hh.fresh timer data hdata)

omit [DecidableEq α] in
theorem Owned.destroy (hh : Owned h) (ho : h.objects address = some o) :
    Owned (h.destroy address o) := by
  constructor
  · intro timer data hdata
    simp only [Heap.destroy, removeTimers] at hdata ⊢
    split at hdata
    · cases hdata
    · rename_i hother
      obtain ⟨o', ho', hindex⟩ := hh.owner timer data hdata
      refine ⟨o', ?_, hindex⟩
      rwa [Function.update_of_ne]
      exact fun heq => hother (hh.mem_of_eq ho hdata heq)
  · refine everywhere_erase fun address' o' hne ho' index timer hindex => ?_
    have hpointer := hh.pointer address' o' ho' index timer hindex
    simp only [Heap.destroy, removeTimers]
    rwa [if_neg fun hmem => hne (hh.eq_of_mem ho hmem hpointer)]
  · exact hh.sized.erase address
  · intro timer data hdata
    simp only [Heap.destroy, removeTimers] at hdata ⊢
    split at hdata
    · cases hdata
    · exact hh.fresh timer data hdata

omit [DecidableEq α] in
theorem Owned.move (hh : Owned h) (hne : other ≠ this) (hfree : h.objects this = none)
    (ho : h.objects other = some o) : Owned (h.move other this o) := by
  constructor
  · intro timer data hdata
    simp only [Heap.move, refreshTimerBacklogPointers] at hdata ⊢
    split at hdata
    · rename_i hmem
      obtain ⟨index, hindex⟩ := List.mem_iff_getElem?.mp hmem
      rw [hh.pointer other o ho index timer hindex] at hdata
      cases hdata
      refine ⟨o, ?_, hindex⟩
      rw [Function.update_of_ne hne.symm, Function.update_self]
    · rename_i hmem
      obtain ⟨o', ho', hindex⟩ := hh.owner timer data hdata
      refine ⟨o', ?_, hindex⟩
      rw [Function.update_of_ne fun heq => hmem (hh.mem_of_eq ho hdata heq),
        Function.update_of_ne, ho']
      intro heq
      rw [heq, hfree] at ho'
      cases ho'
  · have hset : Everywhere (fun address o' => address ≠ other → ∀ index timer,
        o'.handles[index]? = some timer →
          (h.move other this o).timers timer = some { index, backlog := address })
        (Function.update h.objects this (some o)) := by
      refine everywhere_set (fun _ index timer hindex => ?_)
        fun address o' _ ho' hother index timer hindex => ?_
      · simp only [Heap.move, refreshTimerBacklogPointers]
        rw [if_pos (List.mem_of_getElem? hindex), hh.pointer other o ho index timer hindex]
        rfl
      · have hpointer := hh.pointer address o' ho' index timer hindex
        simp only [Heap.move, refreshTimerBacklogPointers]
        rwa [if_neg fun hmem => hother (hh.eq_of_mem ho hmem hpointer)]
    exact everywhere_set (fun _ _ hindex => by cases hindex)
      fun address o' hother ho' => hset address o' ho' hother
  · exact (hh.sized.set (hh.sized other o ho)).set rfl
  · intro timer data hdata
    simp only [Heap.move, refreshTimerBacklogPointers] at hdata ⊢
    split at hdata
    · obtain ⟨data', hdata', _⟩ := Option.map_eq_some_iff.mp hdata
      exact hh.fresh timer data' hdata'
    · exact hh.fresh timer data hdata

omit [DecidableEq α] in
/-- An assignment destroys what it overwrites. -/
theorem removeTimers_move :
    (h.removeTimers old.handles).move other this o = (h.destroy this old).move other this o := by
  simp only [Heap.move, Heap.destroy, removeTimers, Function.update_idem]

omit [DecidableEq α] in
theorem Owned.keep (hh : Owned h) (ho : h.objects address = some o) {s : Live α}
    (htimers : s.backlog.timers = o.live.backlog.timers) :
    Owned { h with
      objects :=
        Function.update h.objects address (some { live := s, handles := o.handles }) } := by
  constructor
  · intro timer data hdata
    obtain ⟨o', ho', hindex⟩ := hh.owner timer data hdata
    dsimp only
    by_cases heq : data.backlog = address
    · rw [heq] at ho' ⊢
      cases ho'.symm.trans ho
      exact ⟨_, Function.update_self .., hindex⟩
    · exact ⟨o', by rwa [Function.update_of_ne heq], hindex⟩
  · exact everywhere_set (hh.pointer address o ho) fun address' o' _ => hh.pointer address' o'
  · exact hh.sized.set ((hh.sized address o ho).trans (congrArg List.length htimers.symm))
  · exact hh.fresh

omit [DecidableEq α] in
theorem Owned.place (hh : Owned h) (hfree : h.objects address = none) {s : Live α}
    (hstopped : s.backlog.timers = []) :
    Owned { h with
      objects := Function.update h.objects address (some { live := s, handles := [] }) } := by
  constructor
  · intro timer data hdata
    obtain ⟨o', ho', hindex⟩ := hh.owner timer data hdata
    refine ⟨o', ?_, hindex⟩
    dsimp only
    rwa [Function.update_of_ne]
    intro heq
    rw [heq, hfree] at ho'
    cases ho'
  · exact everywhere_set (fun _ _ hindex => by cases hindex)
      fun address' o' _ => hh.pointer address' o'
  · exact hh.sized.set (congrArg List.length hstopped).symm
  · exact hh.fresh

omit [DecidableEq α] in
theorem Owned.update (hh : Owned h) (ho : h.objects address = some o) {s : Live α}
    (htimers : s.backlog.timers = o.live.backlog.timers ∨ s.backlog.timers = []) :
    Owned (h.update address o s) := by
  by_cases hstopped : s.backlog.timers = []
  · have hplaced := (hh.destroy ho).place (Function.update_self ..) hstopped
    simp only [Heap.destroy, Function.update_idem] at hplaced
    simp only [Heap.update, hstopped, List.isEmpty_nil, if_true]
    exact ⟨hplaced.owner, hplaced.pointer, hplaced.sized, hplaced.fresh⟩
  · have hkept := hh.keep ho (htimers.resolve_right hstopped)
    have hrunning : s.backlog.timers.isEmpty = false := by simpa using hstopped
    simp only [Heap.update, hrunning, if_neg Bool.false_ne_true]
    exact ⟨hkept.owner, hkept.pointer, hkept.sized, hkept.fresh⟩

/-! ## Steps -/

inductive Steps (h : Heap α) : HeapCall α → Heap α → Prop
  | create (address : Nat) (entityTimeout clock : UInt64) (itemTime : α → UInt64)
      (free : h.objects address = none) :
      Steps h (.create address entityTimeout clock itemTime)
        (h.create address entityTimeout clock itemTime)
  | destroy (address : Nat) (o : Object α) (object : h.objects address = some o) :
      Steps h (.destroy address) (h.destroy address o)
  | moveConstruct (other this : Nat) (o : Object α) (rest : h.AtRest) (ne : other ≠ this)
      (free : h.objects this = none) (object : h.objects other = some o) :
      Steps h (.moveConstruct other this) (h.move other this o)
  | moveAssign (other this : Nat) (o old : Object α) (rest : h.AtRest) (ne : other ≠ this)
      (overwritten : h.objects this = some old) (object : h.objects other = some o) :
      Steps h (.moveAssign other this) ((h.destroy this old).move other this o)
  | call {e : HeapCall α} (address : Nat) (o : Object α) (c : LiveCall α) (s : Live α)
      (object : h.objects address = some o) (called : o.live.step c = some s)
      (added : ∀ x, c = .addItem x → e = .addItem address x)
      (ticked : ∀ index, c = .onTimer index → h.AtRest) :
      Steps h e (h.update address o s)

theorem call_cases {e : HeapCall α} {c : LiveCall α} (hcall : h.call address c = some h')
    (hadded : ∀ x, c = .addItem x → e = .addItem address x)
    (hticked : ∀ index, c = .onTimer index → h.AtRest) : Steps h e h' := by
  obtain ⟨o, ho, hrest⟩ := Option.bind_eq_some_iff.mp hcall
  obtain ⟨s, hs, rfl⟩ := Option.map_eq_some_iff.mp hrest
  exact .call address o c s ho hs hadded hticked

theorem moveConstruct_cases (hstep : h.step (.moveConstruct other this) = some h') :
    h.AtRest ∧ other ≠ this ∧ h.objects this = none ∧
      ∃ o, h.objects other = some o ∧ h' = h.move other this o := by
  rw [step] at hstep
  split at hstep
  · rename_i hrest
    obtain ⟨o, ho, hmoved⟩ := Option.map_eq_some_iff.mp hstep
    exact ⟨hrest.1, hrest.2.1, Option.isNone_iff_eq_none.mp hrest.2.2, o, ho, hmoved.symm⟩
  · cases hstep

theorem moveAssign_cases (hstep : h.step (.moveAssign other this) = some h') :
    h.AtRest ∧ other ≠ this ∧ ∃ old, h.objects this = some old ∧
      ∃ o, h.objects other = some o ∧ h' = (h.destroy this old).move other this o := by
  rw [step] at hstep
  split at hstep
  · rename_i hrest
    obtain ⟨old, hold, hmoved⟩ := Option.bind_eq_some_iff.mp hstep
    obtain ⟨o, ho, hmoved⟩ := Option.map_eq_some_iff.mp hmoved
    rw [removeTimers_move] at hmoved
    exact ⟨hrest.1, hrest.2, old, hold, o, ho, hmoved.symm⟩
  · cases hstep

theorem step_cases {e : HeapCall α} (hstep : h.step e = some h') : Steps h e h' := by
  cases e with
  | create address entityTimeout clock itemTime =>
      rw [step] at hstep
      split at hstep
      · rename_i hfree
        cases hstep
        exact .create address entityTimeout clock itemTime (Option.isNone_iff_eq_none.mp hfree.2)
      · cases hstep
  | destroy address =>
      rw [step] at hstep
      split at hstep
      · obtain ⟨o, ho, rfl⟩ := Option.map_eq_some_iff.mp hstep
        exact .destroy address o ho
      · cases hstep
  | moveConstruct other this =>
      obtain ⟨hrest, hne, hfree, o, ho, rfl⟩ := moveConstruct_cases hstep
      exact .moveConstruct other this o hrest hne hfree ho
  | moveAssign other this =>
      obtain ⟨hrest, hne, old, hold, o, ho, rfl⟩ := moveAssign_cases hstep
      exact .moveAssign other this o old hrest hne hold ho
  | addItem address x =>
      rw [step] at hstep
      split at hstep
      · refine call_cases hstep (fun y hy => ?_) fun _ hy => by cases hy
        cases hy
        rfl
      · cases hstep
  | removeItem address x =>
      rw [step] at hstep
      split at hstep
      · exact call_cases hstep (fun _ hy => by cases hy) fun _ hy => by cases hy
      · cases hstep
  | stop address =>
      rw [step] at hstep
      split at hstep
      · exact call_cases hstep (fun _ hy => by cases hy) fun _ hy => by cases hy
      · cases hstep
  | onTimer timer =>
      rw [step] at hstep
      split at hstep
      · rename_i hrest
        obtain ⟨data, _, hcall⟩ := Option.bind_eq_some_iff.mp hstep
        exact call_cases hcall (fun _ hy => by cases hy) fun _ _ => hrest
      · cases hstep
  | visit =>
      rw [step] at hstep
      split at hstep
      · exact call_cases hstep (fun _ hy => by cases hy) fun _ hy => by cases hy
      · cases hstep
  | leave =>
      rw [step] at hstep
      split at hstep
      · exact call_cases hstep (fun _ hy => by cases hy) fun _ hy => by cases hy
      · cases hstep
  | advance address clock itemTime =>
      exact call_cases hstep (fun _ hy => by cases hy) fun _ hy => by cases hy

theorem Owned.step (hh : Owned h) {e : HeapCall α} (hstep : h.step e = some h') : Owned h' := by
  cases step_cases hstep with
  | create address entityTimeout clock itemTime hfree =>
      exact hh.create hfree entityTimeout clock itemTime
  | destroy address o ho => exact hh.destroy ho
  | moveConstruct other this o _ hne hfree ho => exact hh.move hne hfree ho
  | moveAssign other this o old _ hne hold ho =>
      refine (hh.destroy hold).move hne (Function.update_self ..) ?_
      exact (Function.update_of_ne hne ..).trans ho
  | call address o c s ho hcalled _ _ => exact hh.update ho (Live.timers_step hcalled)

theorem owned_of_exec {es : List (HeapCall α)} (hexec : exec step {} es = some h) : Owned h :=
  exec_invariant (fun _ _ _ hh hstep => hh.step hstep) owned_empty hexec

/-! ## Moved and unmoved -/

def Concerns (address : Nat) (handles : List Nat) : HeapCall α → Prop
  | .addItem address' _ | .removeItem address' _ | .stop address' | .advance address' _ _ =>
      address' = address
  | .onTimer timer => timer ∈ handles
  | .visit | .leave => True
  | .create .. | .destroy _ | .moveConstruct .. | .moveAssign .. => False

/-- The same call of the backlog at another address. A tick is the tick of the same timer. -/
def retarget (this : Nat) : HeapCall α → HeapCall α
  | .addItem _ x => .addItem this x
  | .removeItem _ x => .removeItem this x
  | .stop _ => .stop this
  | .advance _ clock itemTime => .advance this clock itemTime
  | .onTimer timer => .onTimer timer
  | .visit => .visit
  | .leave => .leave
  | .create address entityTimeout clock itemTime => .create address entityTimeout clock itemTime
  | .destroy address => .destroy address
  | .moveConstruct other this => .moveConstruct other this
  | .moveAssign other this => .moveAssign other this

/-- What the user sees of a backlog: the results of the calls, and the calls of the expired
callback. -/
def seen (address : Nat) (h : Heap α) : Option (List Bool × List (Report α)) :=
  (h.objects address).map fun o => (o.live.results, o.live.backlog.reported)

/-- The backlog at `other` here is the one at `this` there, with the same timers; no other backlog
is in use. -/
structure Alike (other this : Nat) (handles : List Nat) (h g : Heap α) : Prop where
  object : h.objects other = g.objects this
  walking : h.walking = none ∧ g.walking = none ∨ h.walking = some other ∧ g.walking = some this
  inside : ∃ n, h.inside = List.replicate n other ∧ g.inside = List.replicate n this
  timers : ∀ timer ∈ handles, h.timers timer = none ∧ g.timers timer = none ∨
    ∃ index, h.timers timer = some { index, backlog := other } ∧
      g.timers timer = some { index, backlog := this }

variable {handles : List Nat} {g : Heap α}

omit [DecidableEq α] in
theorem Alike.userRuns (hg : Alike other this handles h g) : h.userRuns = g.userRuns := by
  obtain ⟨n, hh, hgs⟩ := hg.inside
  rw [Heap.userRuns, Heap.userRuns, hh, hgs]
  rcases hg.walking with ⟨hw, hw'⟩ | ⟨hw, hw'⟩ <;> rw [hw, hw'] <;> cases n <;> rfl

omit [DecidableEq α] in
theorem Alike.atRest (hg : Alike other this handles h g) : h.AtRest ↔ g.AtRest := by
  obtain ⟨n, hh, hgs⟩ := hg.inside
  rw [AtRest, AtRest, hh, hgs]
  rcases hg.walking with ⟨hw, hw'⟩ | ⟨hw, hw'⟩ <;> simp [hw, hw']

omit [DecidableEq α] in
theorem Alike.update (hg : Alike other this handles h g) (o : Object α) (s : Live α) :
    Alike other this handles (h.update other o s) (g.update this o s) := by
  constructor
  · simp only [Heap.update, Function.update_self]
  · simp only [Heap.update]
    by_cases hwalk : s.walk.isSome
    · exact .inr ⟨if_pos hwalk, if_pos hwalk⟩
    · left
      rw [if_neg hwalk, if_neg hwalk]
      rcases hg.walking with ⟨hw, hw'⟩ | ⟨hw, hw'⟩
      · rw [hw, hw']
        exact ⟨rfl, rfl⟩
      · exact ⟨if_pos hw, if_pos hw'⟩
  · obtain ⟨n, hh, hgs⟩ := hg.inside
    simp only [Heap.update]
    split
    · exact ⟨n + 1, by rw [hh]; rfl, by rw [hgs]; rfl⟩
    · exact ⟨_, by rw [hh, List.drop_replicate], by rw [hgs, List.drop_replicate]⟩
  · intro timer htimer
    simp only [Heap.update]
    cases s.backlog.timers.isEmpty with
    | false => exact hg.timers timer htimer
    | true =>
        simp only [if_true, removeTimers]
        split
        · exact .inl ⟨rfl, rfl⟩
        · exact hg.timers timer htimer

theorem Alike.call (hg : Alike other this handles h g) (c : LiveCall α) :
    Option.Rel (Alike other this handles) (h.call other c) (g.call this c) := by
  rw [Heap.call, Heap.call, ← hg.object]
  cases h.objects other with
  | none => exact .none
  | some o =>
      simp only [Option.bind_some]
      cases o.live.step c with
      | none => exact .none
      | some s => exact .some (hg.update o s)

/-- Moved and unmoved, a backlog can take the same steps. -/
theorem Alike.step (hg : Alike other this handles h g) {e : HeapCall α}
    (he : Concerns other handles e) :
    Option.Rel (Alike other this handles) (h.step e) (g.step (retarget this e)) := by
  have hguarded (c : LiveCall α) {p q : Prop} [Decidable p] [Decidable q] (hpq : p ↔ q) :
      Option.Rel (Alike other this handles) (if p then h.call other c else none)
        (if q then g.call this c else none) := by
    by_cases hp : p
    · rw [if_pos hp, if_pos (hpq.mp hp)]
      exact hg.call c
    · rw [if_neg hp, if_neg fun hq => hp (hpq.mpr hq)]
      exact .none
  cases e with
  | create | destroy | moveConstruct | moveAssign => exact he.elim
  | addItem address x =>
      obtain rfl : address = other := he
      exact hguarded (.addItem x) (by rw [hg.userRuns])
  | removeItem address x =>
      obtain rfl : address = other := he
      exact hguarded (.removeItem x) (by rw [hg.userRuns])
  | stop address =>
      obtain rfl : address = other := he
      exact hguarded .stop (by rw [hg.userRuns])
  | onTimer timer =>
      rw [retarget, Heap.step, Heap.step]
      rcases hg.timers timer he with ⟨hnone, hnone'⟩ | ⟨index, hsome, hsome'⟩
      · rw [hnone, hnone', Option.bind_none, Option.bind_none, ite_self, ite_self]
        exact .none
      · rw [hsome, hsome', Option.bind_some, Option.bind_some]
        exact hguarded (.onTimer index) hg.atRest
  | visit =>
      obtain ⟨n, hh, hgs⟩ := hg.inside
      rw [retarget, Heap.step, Heap.step, hh, hgs]
      rcases hg.walking with ⟨hw, hw'⟩ | ⟨hw, hw'⟩
      · rw [hw, hw']
        exact .none
      · rw [hw, hw']
        cases n with
        | zero => exact hg.call .visit
        | succ n => exact .none
  | leave =>
      obtain ⟨n, hh, hgs⟩ := hg.inside
      rw [retarget, Heap.step, Heap.step, hh, hgs]
      cases n with
      | zero => exact .none
      | succ n => exact hg.call .leave
  | advance address clock itemTime =>
      obtain rfl : address = other := he
      exact hg.call (.advance clock itemTime)

/-- The heap without the backlog at `this`, before `o` is moved there. -/
structure Cleared (this : Nat) (o : Object α) (h g : Heap α) : Prop where
  objects : g.objects = Function.update h.objects this none
  timers : ∀ timer ∈ o.handles, g.timers timer = h.timers timer
  walking : g.walking = h.walking
  inside : g.inside = h.inside
  reported : g.reported = h.reported

omit [DecidableEq α] in
theorem Owned.cleared_destroy (hh : Owned h) (hne : other ≠ this) (ho : h.objects other = some o)
    (hold : h.objects this = some old) : Cleared this o h (h.destroy this old) := by
  refine ⟨rfl, fun timer htimer => if_neg fun hmem => ?_, rfl, rfl, rfl⟩
  obtain ⟨index, hindex⟩ := List.mem_iff_getElem?.mp htimer
  exact hne (hh.eq_of_mem hold hmem (hh.pointer other o ho index timer hindex))

/-- Both moves go to an address without a backlog; an assignment makes it so. -/
theorem Owned.move_cases (hh : Owned h) (ho : h.objects other = some o)
    (hmove : h.step (.moveConstruct other this) = some h' ∨
      h.step (.moveAssign other this) = some h') :
    h.AtRest ∧ other ≠ this ∧ ∃ g, h' = g.move other this o ∧ Cleared this o h g := by
  rcases hmove with hmove | hmove
  · obtain ⟨hrest, hne, hfree, o', ho', rfl⟩ := moveConstruct_cases hmove
    cases ho'.symm.trans ho
    refine ⟨hrest, hne, h, rfl, ?_, fun _ _ => rfl, rfl, rfl, rfl⟩
    rw [← hfree, Function.update_eq_self]
  · obtain ⟨hrest, hne, old, hold, o', ho', rfl⟩ := moveAssign_cases hmove
    cases ho'.symm.trans ho
    exact ⟨hrest, hne, _, rfl, hh.cleared_destroy hne ho hold⟩

omit [DecidableEq α] in
theorem Owned.alike_move (hh : Owned h) (hrest : h.AtRest) (hne : other ≠ this)
    (ho : h.objects other = some o) (hg : Cleared this o h g) :
    Alike other this o.handles h (g.move other this o) := by
  constructor
  · simp only [Heap.move, refreshTimerBacklogPointers]
    rw [Function.update_of_ne hne.symm, Function.update_self, ho]
  · exact .inl ⟨hrest.1, hg.walking.trans hrest.1⟩
  · exact ⟨0, hrest.2, hg.inside.trans hrest.2⟩
  · intro timer htimer
    obtain ⟨index, hindex⟩ := List.mem_iff_getElem?.mp htimer
    have hpointer := hh.pointer other o ho index timer hindex
    refine .inr ⟨index, hpointer, ?_⟩
    simp only [Heap.move, refreshTimerBacklogPointers]
    rw [if_pos htimer, hg.timers timer htimer, hpointer]
    rfl

end Heap

/-! ## The items of a backlog -/

structure Live.Holds (P : α → Prop) (s : Live α) : Prop where
  items : ∀ x ∈ s.backlog.items.flatten, P x
  kept : ∀ w, s.walk = some w → ∀ x ∈ w.kept, P x

section Holds

variable {P : α → Prop} {s s' : Live α}

/-- What `add_item` does with an item: it drops it, reports it or puts it into a bucket. -/
theorem addItem_ignoring_cases (b : BacklogWithTimeout α) (x : α) :
    (addItem ignoring b x).2 = b ∨
    (addItem ignoring b x).2 = callExpired ignoring true b x ∨
    (addItem ignoring b x).2 = { b with items := push b.items (b.bucketFor x) x } := by
  rw [addItem]
  split
  · exact .inl rfl
  · split
    · exact .inl rfl
    · split
      · exact .inr (.inl rfl)
      · exact .inr (.inr rfl)

theorem Live.walk_addItem (s : Live α) (x : α) : (s.addItem x).walk = s.walk := by
  rw [Live.addItem]
  dsimp only
  split
  · rfl
  · rfl

def ReportsOf (P : α → Prop) (b b' : BacklogWithTimeout α) : Prop :=
  ∃ new, b'.reported = b.reported ++ new ∧ ∀ r ∈ new, P r.item

theorem ReportsOf.of_eq {b b' : BacklogWithTimeout α} (h : b'.reported = b.reported) :
    ReportsOf P b b' :=
  ⟨[], h.trans (List.append_nil _).symm, fun _ hr => absurd hr List.not_mem_nil⟩

theorem reportsOf_callExpired {x : α} (hx : P x) (fromAddItem : Bool) (b : BacklogWithTimeout α) :
    ReportsOf P b (callExpired ignoring fromAddItem b x) := by
  refine ⟨_, rfl, fun r hr => ?_⟩
  obtain rfl := List.mem_singleton.mp hr
  exact hx

theorem Live.Holds.addItem (hs : s.Holds P) {x : α} (hx : P x) :
    (s.addItem x).Holds P ∧ ReportsOf P s.backlog (s.addItem x).backlog := by
  have hkept : ∀ w, (s.addItem x).walk = some w → ∀ y ∈ w.kept, P y := by
    rw [walk_addItem]
    exact hs.kept
  rcases addItem_ignoring_cases s.backlog x with hadd | hadd | hadd
  · rw [← backlog_addItem] at hadd
    exact ⟨⟨by rw [hadd]; exact hs.items, hkept⟩, .of_eq (by rw [hadd])⟩
  · rw [← backlog_addItem] at hadd
    refine ⟨⟨by rw [hadd]; exact hs.items, hkept⟩, ?_⟩
    rw [hadd]
    exact reportsOf_callExpired hx true s.backlog
  · rw [← backlog_addItem] at hadd
    refine ⟨⟨?_, hkept⟩, .of_eq (by rw [hadd])⟩
    rw [hadd]
    intro y hy
    rcases mem_flatten_push hy with rfl | hold
    · exact hx
    · exact hs.items y hold

theorem Live.Holds.visit (hs : s.Holds P) {w : Walk α} (hwalk : s.walk = some w) :
    (s.visit w).Holds P ∧ ReportsOf P s.backlog (s.visit w).backlog := by
  have hkept := hs.kept w hwalk
  have hnext {kept : List α} (hall : ∀ y ∈ kept, P y) :
      ∀ w', some { w with next := w.next + 1, kept } = some w' → ∀ y ∈ w'.kept, P y := by
    intro w' hw'
    cases hw'
    exact hall
  rw [Live.visit]
  dsimp only
  rw [Reentrant.visit]
  split
  · -- The loop has ended.
    refine ⟨⟨fun y hy => ?_, fun _ hw => by cases hw⟩, .of_eq rfl⟩
    rcases mem_flatten_set hy with hnew | hold
    · exact hkept y hnew
    · exact hs.items y hold
  · rename_i x hx
    have hP : P x := hs.items x (mem_flatten_iff.mpr ⟨w.index, List.mem_of_getElem? hx⟩)
    split
    · exact ⟨⟨hs.items, hnext hkept⟩, reportsOf_callExpired hP false s.backlog⟩
    · split
      · refine ⟨⟨fun y hy => ?_, hnext hkept⟩, .of_eq rfl⟩
        rcases mem_flatten_push hy with rfl | hold
        · exact hP
        · exact hs.items y hold
      · refine ⟨⟨hs.items, hnext fun y hy => ?_⟩, .of_eq rfl⟩
        rcases List.mem_append.mp hy with hold | hnew
        · exact hkept y hold
        · obtain rfl := List.mem_singleton.mp hnew
          exact hP

theorem Live.Holds.leave (hs : s.Holds P) (hleave : s.leave = some s') : s'.Holds P := by
  refine ⟨by rw [leave_backlog hleave]; exact hs.items, fun w hw => hs.kept w ?_⟩
  rw [Live.leave] at hleave
  split at hleave
  · cases hleave
  · cases hleave
    exact hw
  · cases hleave
    dsimp only at hw
    split at hw
    · cases hw
    · exact hw

variable [DecidableEq α]

/-- A backlog reports only what it holds and what is added. -/
theorem Live.Holds.step (hs : s.Holds P) {e : LiveCall α} (hadded : ∀ x, e = .addItem x → P x)
    (hstep : s.step e = some s') : s'.Holds P ∧ ReportsOf P s.backlog s'.backlog := by
  cases step_cases hstep with
  | addItem x _ _ => exact hs.addItem (hadded x rfl)
  | removeItem x _ =>
      refine ⟨⟨fun y hy => hs.items y (removeItem_subset s.backlog x y hy), hs.kept⟩, .of_eq ?_⟩
      exact reported_removeItem s.backlog x
  | stop _ => exact ⟨⟨fun _ hy => absurd hy List.not_mem_nil, hs.kept⟩, .of_eq rfl⟩
  | onTimer index _ _ _ =>
      refine ⟨⟨hs.items, fun w hw => ?_⟩, .of_eq rfl⟩
      cases hw
      exact fun _ hy => absurd hy List.not_mem_nil
  | visit w hwalking _ => exact hs.visit hwalking
  | leave hleft => exact ⟨hs.leave hleft, .of_eq (by rw [leave_backlog hleft])⟩
  | advance clock itemTime _ => exact ⟨⟨hs.items, hs.kept⟩, .of_eq rfl⟩

end Holds

namespace Heap

variable {P : α → Prop} {h h' : Heap α} {address other this : Nat} {o old : Object α}

def Controlled (h : Heap α) : Prop :=
  Everywhere (fun address o => o.live.walk ≠ none → h.walking = some address) h.objects

def Holds (P : α → Prop) (h : Heap α) : Prop := Everywhere (fun _ o => o.live.Holds P) h.objects

theorem holds_create (entityTimeout clock : UInt64) (itemTime : α → UInt64) :
    Live.Holds P { backlog := BacklogWithTimeout.create entityTimeout clock itemTime } := by
  refine ⟨fun x hx => ?_, fun _ hw => by cases hw⟩
  obtain ⟨i, hi⟩ := mem_flatten_iff.mp hx
  have hempty : bucket (BacklogWithTimeout.create entityTimeout clock itemTime).items i = [] :=
    bucket_replicate_nil _ i
  exact absurd (hempty ▸ hi) List.not_mem_nil

theorem holds_movedFrom (o : Object α) : o.movedFrom.live.Holds P :=
  ⟨fun _ hx => absurd hx List.not_mem_nil, fun _ hw => by cases hw⟩

variable [DecidableEq α]

theorem walk_step {s s' : Live α} {e : LiveCall α} (hstep : s.step e = some s')
    (hwalk : s'.walk ≠ none) : s.walk ≠ none ∨ ∃ index, e = .onTimer index := by
  cases Live.step_cases hstep with
  | addItem x _ _ =>
      rw [Live.walk_addItem] at hwalk
      exact .inl hwalk
  | removeItem x _ => exact .inl hwalk
  | stop _ => exact .inl hwalk
  | onTimer index _ _ _ => exact .inr ⟨index, rfl⟩
  | visit w hwalking _ => exact .inl (by simp [hwalking])
  | leave hleft =>
      left
      intro hnone
      rw [Live.leave] at hleft
      split at hleft <;> cases hleft
      · exact hwalk hnone
      · exact hwalk (by simp [hnone])
  | advance clock itemTime _ => exact .inl hwalk

omit [DecidableEq α] in
theorem controlled_empty : Controlled ({} : Heap α) := fun _ _ ho => by cases ho

omit [DecidableEq α] in
theorem Controlled.walk_eq_none (hh : h.Controlled) (hrest : h.AtRest)
    (ho : h.objects address = some o) : o.live.walk = none := by
  by_contra hwalk
  have hwalking := hh address o ho hwalk
  rw [hrest.1] at hwalking
  cases hwalking

theorem Controlled.step (hh : h.Controlled) {e : HeapCall α} (hstep : h.step e = some h') :
    h'.Controlled := by
  cases step_cases hstep with
  | create address entityTimeout clock itemTime _ => exact hh.set fun hwalk => absurd rfl hwalk
  | destroy address o _ => exact hh.erase address
  | moveConstruct other this o hrest hne _ ho =>
      refine Everywhere.set (Everywhere.set hh fun hwalk => ?_) fun hwalk => absurd rfl hwalk
      exact absurd (hh.walk_eq_none hrest ho) hwalk
  | moveAssign other this o old hrest hne _ ho =>
      refine Everywhere.set ((hh.erase this).set fun hwalk => ?_) fun hwalk => absurd rfl hwalk
      exact absurd (hh.walk_eq_none hrest ho) hwalk
  | call address o c s ho hcalled _ hticked =>
      refine everywhere_set (fun hwalk => if_pos (Option.isSome_iff_ne_none.mpr hwalk))
        fun address' o' heq ho' hwalk => ?_
      have hwalking := hh address' o' ho' hwalk
      have hne : h.walking ≠ some address := by
        rw [hwalking]
        exact fun hsome => heq (Option.some.inj hsome)
      have hnone : s.walk = none := by
        by_contra hs
        rcases walk_step hcalled hs with hold | ⟨index, hindex⟩
        · exact hne (hh address o ho hold)
        · rw [(hticked index hindex).1] at hwalking
          cases hwalking
      simp only [Heap.update]
      rw [hnone, Option.isSome_none, if_neg Bool.false_ne_true, if_neg hne, hwalking]

def ReportsOf (P : α → Prop) (h h' : Heap α) : Prop :=
  ∃ new, h'.reported = h.reported ++ new ∧ ∀ r ∈ new, P r.2.item

omit [DecidableEq α] in
theorem ReportsOf.refl (h : Heap α) : ReportsOf P h h :=
  ⟨[], (List.append_nil _).symm, fun _ hr => absurd hr List.not_mem_nil⟩

omit [DecidableEq α] in
theorem ReportsOf.trans {h'' : Heap α} (hr : ReportsOf P h h') (hr' : ReportsOf P h' h'') :
    ReportsOf P h h'' := by
  obtain ⟨new, hnew, hall⟩ := hr
  obtain ⟨new', hnew', hall'⟩ := hr'
  refine ⟨new ++ new', by rw [hnew', hnew, List.append_assoc], fun r hmem => ?_⟩
  rcases List.mem_append.mp hmem with hmem | hmem
  · exact hall r hmem
  · exact hall' r hmem

theorem Holds.step (hh : h.Holds P) {e : HeapCall α}
    (hadded : ∀ address x, e = .addItem address x → P x) (hstep : h.step e = some h') :
    h'.Holds P ∧ ReportsOf P h h' := by
  cases step_cases hstep with
  | create address entityTimeout clock itemTime _ =>
      exact ⟨hh.set (holds_create entityTimeout clock itemTime), .refl h⟩
  | destroy address o _ => exact ⟨hh.erase address, .refl h⟩
  | moveConstruct other this o _ _ _ ho =>
      exact ⟨(Everywhere.set hh (hh other o ho)).set (holds_movedFrom o), .refl h⟩
  | moveAssign other this o old _ _ _ ho =>
      exact ⟨((hh.erase this).set (hh other o ho)).set (holds_movedFrom o), .refl h⟩
  | call address o c s ho hcalled hitem _ =>
      obtain ⟨hholds, new, hnew, hall⟩ :=
        (hh address o ho).step (fun x hx => hadded address x (hitem x hx)) hcalled
      refine ⟨Everywhere.set hh hholds, _, rfl, fun r hr => ?_⟩
      rw [hnew, List.drop_left] at hr
      obtain ⟨r', hr', rfl⟩ := List.mem_map.mp hr
      exact hall r' hr'

/-- What is reported was held at the beginning or added since. -/
theorem reportsOf_exec (hh : h.Holds P) {es : List (HeapCall α)}
    (hadded : ∀ address x, .addItem address x ∈ es → P x) (hexec : exec step h es = some h') :
    ReportsOf P h h' := by
  have hkeep (u : Heap α) (e : HeapCall α) (v : Heap α) (hu : u.Holds P ∧ ReportsOf P h u)
      (he : ∀ address x, e = .addItem address x → P x) (hstep : u.step e = some v) :
      v.Holds P ∧ ReportsOf P h v := by
    obtain ⟨hholds, hreports⟩ := hu.1.step he hstep
    exact ⟨hholds, hu.2.trans hreports⟩
  have hgood : ∀ e ∈ es, ∀ address x, e = .addItem address x → P x := by
    rintro e he address x rfl
    exact hadded address x he
  exact (throughout_of_along (fun _ hu => hu.2) hkeep ⟨hh, .refl h⟩ (along_of_forall hgood)).last
    hexec

/-! ## A moved backlog -/

omit [DecidableEq α] in
/-- At rest a backlog holds what is in its buckets. -/
theorem Controlled.holds (hh : h.Controlled) (hrest : h.AtRest) (ho : h.objects address = some o)
    (hitems : ∀ x ∈ o.live.backlog.items.flatten, P x) : o.live.Holds P := by
  refine ⟨hitems, fun w hw => ?_⟩
  rw [hh.walk_eq_none hrest ho] at hw
  cases hw

def HeldBeside (this : Nat) (h : Heap α) (x : α) : Prop :=
  ∃ address o, address ≠ this ∧ h.objects address = some o ∧ x ∈ o.live.backlog.items.flatten

omit [DecidableEq α] in
theorem Controlled.holds_move {g : Heap α} (hh : h.Controlled) (hrest : h.AtRest)
    (hne : other ≠ this) (ho : h.objects other = some o) (hg : Cleared this o h g)
    (hP : ∀ x, HeldBeside this h x → P x) : (g.move other this o).Holds P := by
  have hbeside : Everywhere (fun _ o => o.live.Holds P) (Function.update h.objects this none) :=
    everywhere_erase fun address o' heq ho' =>
      hh.holds hrest ho' fun x hx => hP x ⟨address, o', heq, ho', hx⟩
  have hmoved : o.live.Holds P := hbeside other o (by rw [Function.update_of_ne hne, ho])
  rw [← hg.objects] at hbeside
  exact (hbeside.set hmoved).set (holds_movedFrom o)

/-- A moved backlog behaves as if it had not been moved, and what an assignment overwrites is not
reported any more. -/
theorem move_invisible {before : List (HeapCall α)} (hreach : exec step {} before = some h)
    (ho : h.objects other = some o)
    (hmove : h.step (.moveConstruct other this) = some h' ∨
      h.step (.moveAssign other this) = some h') :
    (∀ es, (∀ e ∈ es, Concerns other o.handles e) →
      (exec step h es).map (seen other) =
        (exec step h' (es.map (retarget this))).map (seen this)) ∧
    (∀ later t, exec step h' later = some t → ∃ since, t.reported = h.reported ++ since ∧
      ∀ r ∈ since,
        (∃ address, .addItem address r.2.item ∈ later) ∨ HeldBeside this h r.2.item) := by
  have howned := owned_of_exec hreach
  have hcontrolled : h.Controlled :=
    exec_invariant (fun _ _ _ hh hstep => hh.step hstep) controlled_empty hreach
  obtain ⟨hrest, hne, g, rfl, hg⟩ := howned.move_cases ho hmove
  constructor
  · intro es hes
    rw [exec_map]
    have hseen (u v : Heap α) (huv : Alike other this o.handles u v) :
        seen other u = seen this v := congrArg (Option.map _) huv.object
    refine map_eq_of_rel hseen ?_
    exact exec_lockstep (fun _ _ _ huv he => huv.step he) (howned.alike_move hrest hne ho hg)
      (along_of_forall hes)
  · intro later t hlater
    obtain ⟨since, hsince, hall⟩ :=
      reportsOf_exec (P := fun x => (∃ address, .addItem address x ∈ later) ∨ HeldBeside this h x)
        (hcontrolled.holds_move hrest hne ho hg fun x hx => .inr hx)
        (fun address x hx => .inl ⟨address, hx⟩) hlater
    exact ⟨since, by rw [hsince]; exact congrArg (· ++ since) hg.reported, hall⟩

def twoBacklogs : List (HeapCall Char) :=
  [.create 0 2 0 fun _ => 0, .create 1 1 0 fun _ => 0, .addItem 0 'x', .addItem 1 'y']

def tickAfterTimeout : List (HeapCall Char) :=
  [.advance 0 2000000 fun _ => 0, .onTimer 0, .visit, .removeItem 0 'x', .leave]

theorem move_invisible_twoBacklogs : ∃ h ∈ exec step {} twoBacklogs,
    ∃ h' ∈ h.step (.moveAssign 0 1),
      (exec step h tickAfterTimeout).map (seen 0) =
        (exec step h' (tickAfterTimeout.map (retarget 1))).map (seen 1) := by
  have hrun : ∃ h ∈ exec step {} twoBacklogs, ∃ o ∈ h.objects 0, o.handles = [0] ∧
      ∃ h' ∈ h.step (.moveAssign 0 1), True := by
    decide +kernel
  obtain ⟨h, hreach, o, ho, hhandles, h', hmove, _⟩ := hrun
  refine ⟨h, hreach, h', hmove, (move_invisible hreach ho (.inr hmove)).1 tickAfterTimeout ?_⟩
  rw [hhandles]
  simp [tickAfterTimeout, Concerns]

end Heap

end TarmIo.BacklogWithTimeout
