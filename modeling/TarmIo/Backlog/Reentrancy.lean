import TarmIo.Foundation.Execution
import TarmIo.Backlog.BucketIndex
import TarmIo.Backlog.Conservation

/-!
# Calls from within the expired callback

The expired callback may add and remove items while `on_timer` walks a bucket. The
machine below stops at every call of the callback: what the callback does is any
sequence of calls, after which the loop goes on with the bucket as it finds it.
`history` lists, in order, what became of the items.

The loop counts by index and drops the entries it has passed at the final swap, so a
`remove_item` that erases such an entry shifts the bucket under the loop and leaves the
copy that was kept or moved. Without such removals no item is lost or doubled.
-/

namespace TarmIo.BacklogWithTimeout

open Foundation

variable {α : Type*}

/-! ## The machine -/

inductive Fate
  | accepted
  | removed
  | reported
deriving DecidableEq

structure Entry (α : Type*) where
  item : α
  fate : Fate
deriving DecidableEq

/-- The loop of `on_timer` over bucket `index`: its `i` and `bucket_replacement`. -/
structure Walk (α : Type*) where
  index : Nat
  next : Nat
  kept : List α
deriving DecidableEq

/-- `callbacks` counts the calls of the expired callback that have not returned. -/
structure Reentrant (α : Type*) where
  backlog : BacklogWithTimeout α
  walk : Option (Walk α) := none
  callbacks : Nat := 0
  history : List (Entry α) := []

/-- `visit` is one round of the loop of `on_timer`, `leave` the end of an expired callback.
`advance` lets time pass and changes the times of items. -/
inductive Call (α : Type*)
  | addItem (x : α)
  | removeItem (x : α)
  | onTimer (index : Nat)
  | visit
  | leave
  | advance (clock : UInt64) (itemTime : α → UInt64)

/-- The callback's own calls are steps of the machine. -/
def ignoring : ExpiredCallback α := fun b _ => b

namespace Reentrant

def start (entityTimeout clock : UInt64) (itemTime : α → UInt64) : Reentrant α where
  backlog := create entityTimeout clock itemTime

def userRuns (s : Reentrant α) : Bool :=
  s.walk.isNone || 0 < s.callbacks

def AtRest (s : Reentrant α) : Prop :=
  s.walk = none ∧ s.callbacks = 0

def log (s : Reentrant α) (x : α) (fate : Fate) : Reentrant α :=
  { s with history := s.history ++ [{ item := x, fate }] }

def upcoming (s : Reentrant α) : Option α :=
  s.walk.bind fun w => (bucket s.backlog.items w.index)[w.next]?

def visit (s : Reentrant α) (w : Walk α) : Reentrant α :=
  match (bucket s.backlog.items w.index)[w.next]? with
  | none =>
      { s with
        backlog := { s.backlog with items := s.backlog.items.set w.index w.kept }
        walk := none }
  | some x =>
      if s.backlog.entityTimeout ≤ s.backlog.timeDiff x then
        { s.log x .reported with
          backlog := callExpired ignoring false s.backlog x
          walk := some { w with next := w.next + 1 }
          callbacks := s.callbacks + 1 }
      else if s.backlog.bucketFor x ≠ w.index then
        { s with
          backlog :=
            { s.backlog with items := push s.backlog.items (s.backlog.bucketFor x) x }
          walk := some { w with next := w.next + 1 } }
      else { s with walk := some { w with next := w.next + 1, kept := w.kept ++ [x] } }

section Step

variable [DecidableEq α]

/-- Whether an item is to be in the backlog, `none` when its entries are out of order: only an
absent item can be accepted, and only a held one removed or reported. -/
def followed (x : α) (held : Option Bool) (e : Entry α) : Option Bool :=
  if e.item = x then
    match held, e.fate with
    | some false, .accepted => some true
    | some true, .removed => some false
    | some true, .reported => some false
    | _, _ => none
  else held

def life (x : α) (history : List (Entry α)) : Option Bool :=
  history.foldl (followed x) (some false)

/-- Items are distinct: one that is to be in the backlog is not added again. -/
def step (s : Reentrant α) : Call α → Option (Reentrant α)
  | .addItem x =>
      if s.userRuns ∧ life x s.history ≠ some true then
        match addItem ignoring s.backlog x with
        | (false, _) => some s
        | (true, b) =>
            -- an expired item is reported by add_item itself
            if s.backlog.entityTimeout ≤ s.backlog.timeDiff x then
              some { (s.log x .accepted).log x .reported with
                backlog := b, callbacks := s.callbacks + 1 }
            else some { s.log x .accepted with backlog := b }
      else none
  | .removeItem x =>
      if s.userRuns then
        match removeItem s.backlog x with
        | (true, b) => some { s.log x .removed with backlog := b }
        | (false, _) => some s
      else none
  | .onTimer index =>
      if s.walk = none ∧ s.callbacks = 0 ∧ index < s.backlog.timers.length then
        some { s with walk := some { index, next := 0, kept := [] } }
      else none
  | .visit =>
      match s.walk, s.callbacks with
      | some w, 0 => some (s.visit w)
      | _, _ => none
  | .leave => if 0 < s.callbacks then some { s with callbacks := s.callbacks - 1 } else none
  | .advance clock itemTime =>
      if s.backlog.clock ≤ clock then
        some { s with backlog := { s.backlog with clock, itemTime } }
      else none

end Step

/-! ## What is left of a bucket -/

/-- The buckets without the entries that the loop has passed: the final swap drops those. -/
def unvisited (items : List (List α)) : Option (Walk α) → List (List α)
  | none => items
  | some w => items.set w.index (w.kept ++ (bucket items w.index).drop w.next)

variable {items items' : List (List α)} {x : α} {b : BacklogWithTimeout α} {walk : Option (Walk α)}

@[simp] theorem unvisited_none (items : List (List α)) : unvisited items none = items := rfl

@[simp] theorem unvisited_some (items : List (List α)) (w : Walk α) :
    unvisited items (some w) =
      items.set w.index (w.kept ++ (bucket items w.index).drop w.next) := rfl

/-- The loop is in a bucket and not beyond its end, and has kept entries that it has passed. -/
structure Placed (items : List (List α)) (w : Walk α) : Prop where
  index_lt : w.index < items.length
  next_le : w.next ≤ (bucket items w.index).length
  kept_passed : w.kept ⊆ (bucket items w.index).take w.next

def Within (items : List (List α)) (walk : Option (Walk α)) : Prop :=
  ∀ w, walk = some w → Placed items w

theorem Within.push (hwithin : Within items walk) (target : Nat) (x : α) :
    Within (push items target x) walk := by
  intro w hw
  obtain ⟨hindex, hnext, hkept⟩ := hwithin w hw
  by_cases hsame : target = w.index
  · subst hsame
    constructor
    · rwa [length_push]
    · rw [bucket_push_self hindex, List.length_append]
      omega
    · rwa [bucket_push_self hindex, List.take_append_of_le_length hnext]
  · constructor
    · rwa [length_push]
    · rwa [bucket_push_of_ne items (Ne.symm hsame)]
    · rwa [bucket_push_of_ne items (Ne.symm hsame)]

/-- Every item that is left is found in a bucket. -/
theorem Within.mem_of_unvisited (hwithin : Within items walk)
    (hx : x ∈ (unvisited items walk).flatten) : x ∈ items.flatten := by
  cases walk with
  | none => exact hx
  | some w =>
      obtain ⟨hindex, _, hkept⟩ := hwithin w rfl
      obtain ⟨i, hi⟩ := mem_flatten_iff.mp hx
      refine mem_flatten_iff.mpr ⟨i, ?_⟩
      rw [unvisited_some] at hi
      by_cases hsame : i = w.index
      · subst hsame
        rw [bucket_set_self hindex] at hi
        rcases List.mem_append.mp hi with hi | hi
        · exact List.mem_of_mem_take (hkept hi)
        · exact List.mem_of_mem_drop hi
      · rwa [bucket_set_of_ne items hsame] at hi

theorem addItem_ignoring (hrunning : b.timers ≠ []) (x : α) :
    (b.clock < b.itemTime x ∧ BacklogWithTimeout.addItem ignoring b x = (false, b)) ∨
    BacklogWithTimeout.addItem ignoring b x =
      (true, if b.entityTimeout ≤ b.timeDiff x then callExpired ignoring true b x
        else { b with items := push b.items (b.bucketFor x) x }) := by
  have hsome : b.timers.isEmpty = false := by simpa using hrunning
  rw [BacklogWithTimeout.addItem, hsome]
  by_cases hfuture : b.clock < b.itemTime x
  · exact Or.inl ⟨hfuture, if_pos hfuture⟩
  · right
    by_cases hexpired : b.entityTimeout ≤ b.timeDiff x
    · simp [hfuture, hexpired, callExpired, ignoring, hrunning]
    · simp [hfuture, hexpired]

/-! ## What the history says of an item -/

variable [DecidableEq α] {fate : Fate} {e : Entry α}

theorem life_append (x : α) (history : List (Entry α)) (e : Entry α) :
    life x (history ++ [e]) = followed x (life x history) e := by
  rw [life, List.foldl_append]
  rfl

theorem followed_of_ne (h : e.item ≠ x) (held : Option Bool) : followed x held e = held :=
  if_neg h

theorem followed_departed (h : fate ≠ .accepted) :
    followed x (some true) { item := x, fate } = some false := by
  cases fate with
  | accepted => exact absurd rfl h
  | removed => simp [followed]
  | reported => simp [followed]

def Accounted (history : List (Entry α)) (items : List (List α)) : Prop :=
  ∀ x, ∃ held, life x history = some held ∧ items.flatten.count x = held.toNat

variable {history : List (Entry α)} {bs : List α} {n : Nat}

theorem Accounted.move (h : Accounted history items)
    (hsame : ∀ y, items'.flatten.count y = items.flatten.count y) :
    Accounted history items' := by
  intro y
  rw [hsame y]
  exact h y

theorem Accounted.accept (h : Accounted history items) (hfresh : life x history ≠ some true)
    (hmore : ∀ y, items'.flatten.count y = items.flatten.count y + [x].count y) :
    Accounted (history ++ [{ item := x, fate := .accepted }]) items' := by
  intro y
  obtain ⟨held, hlife, hcount⟩ := h y
  rw [life_append, hmore y, hcount]
  by_cases hxy : x = y
  · subst hxy
    cases held with
    | true => exact absurd hlife hfresh
    | false =>
        rw [hlife, List.count_singleton_self]
        exact ⟨true, by simp [followed], rfl⟩
  · rw [followed_of_ne hxy, count_singleton_of_ne (Ne.symm hxy)]
    exact ⟨held, hlife, rfl⟩

/-- An item that leaves the buckets was in them, so the history had it as held. -/
theorem Accounted.depart (h : Accounted history items) (hfate : fate ≠ .accepted)
    (hless : ∀ y, items.flatten.count y = items'.flatten.count y + [x].count y) :
    Accounted (history ++ [{ item := x, fate }]) items' := by
  intro y
  obtain ⟨held, hlife, hcount⟩ := h y
  rw [hless y] at hcount
  rw [life_append]
  by_cases hxy : x = y
  · subst hxy
    rw [List.count_singleton_self] at hcount
    cases held with
    | false => exact absurd hcount (Nat.succ_ne_zero _)
    | true =>
        exact ⟨false, by rw [hlife, followed_departed hfate], Nat.succ.inj hcount⟩
  · rw [count_singleton_of_ne (Ne.symm hxy)] at hcount
    rw [followed_of_ne hxy]
    exact ⟨held, hlife, hcount⟩

theorem unvisited_push_count (hwithin : Within items walk) {target : Nat}
    (htarget : target < items.length) (x y : α) :
    (unvisited (push items target x) walk).flatten.count y =
      (unvisited items walk).flatten.count y + [x].count y := by
  cases walk with
  | none => exact count_flatten_push htarget x y
  | some w =>
      obtain ⟨hindex, hnext, _⟩ := hwithin w rfl
      have hindex' : w.index < (push items target x).length := by rwa [length_push]
      have hpushed := count_flatten_push htarget x y
      have hbefore := count_flatten_set hindex (w.kept ++ (bucket items w.index).drop w.next) y
      have hafter := count_flatten_set hindex'
        (w.kept ++ (bucket (push items target x) w.index).drop w.next) y
      rw [unvisited_some, unvisited_some]
      by_cases hsame : target = w.index
      · subst hsame
        rw [bucket_push_self hindex, List.drop_append_of_le_length hnext] at hafter ⊢
        simp only [List.count_append] at hbefore hafter
        omega
      · rw [bucket_push_of_ne items (Ne.symm hsame)] at hafter ⊢
        omega

theorem erase_beyond (h : x ∉ bs.take n) : bs.erase x = bs.take n ++ (bs.drop n).erase x := by
  rw [← List.erase_append_right _ h, List.take_append_drop]

theorem drop_erase_beyond (hn : n ≤ bs.length) (h : x ∉ bs.take n) :
    (bs.erase x).drop n = (bs.drop n).erase x := by
  rw [erase_beyond h, List.drop_left' (List.length_take_of_le hn)]

/-- `remove_item` erases none of the entries that the loop has passed: where one of them is the
item, an earlier bucket holds it too and the search ends there. -/
def Ahead (items : List (List α)) (walk : Option (Walk α)) (x : α) : Prop :=
  ∀ w, walk = some w → x ∈ (bucket items w.index).take w.next →
    ∃ j < w.index, x ∈ bucket items j

section Remove

variable {walk : Option (Walk α)} (hwithin : Within items walk) {x : α} {n : Nat}
  (hremove : removeFrom x n items = some items') (hahead : Ahead items walk x)
include hwithin hremove hahead

theorem unvisited_remove_count (y : α) :
    (unvisited items walk).flatten.count y =
      (unvisited items' walk).flatten.count y + [x].count y := by
  cases walk with
  | none => exact removeFrom_count hremove y
  | some w =>
      obtain ⟨hindex, hnext, _⟩ := hwithin w rfl
      have hless := removeFrom_count hremove y
      have hindex' : w.index < items'.length := by rwa [removeFrom_length hremove]
      have hbefore := count_flatten_set hindex (w.kept ++ (bucket items w.index).drop w.next) y
      have hafter := count_flatten_set hindex' (w.kept ++ (bucket items' w.index).drop w.next) y
      obtain ⟨j, hmem, hfirst, rfl⟩ := removeFrom_eq_set hremove
      rw [unvisited_some, unvisited_some]
      by_cases hsame : j = w.index
      · subst hsame
        have hnot : x ∉ (bucket items w.index).take w.next := by
          intro htake
          obtain ⟨k, hk, hmemk⟩ := hahead w rfl htake
          exact hfirst k hk hmemk
        have hdrop : x ∈ (bucket items w.index).drop w.next := by
          rw [← List.take_append_drop w.next (bucket items w.index)] at hmem
          exact (List.mem_append.mp hmem).resolve_left hnot
        have hbucket := count_erase_add hmem y
        have hrest := count_erase_add hdrop y
        rw [bucket_set_self hindex, drop_erase_beyond hnext hnot] at hafter ⊢
        simp only [List.count_append] at hbefore hafter
        omega
      · rw [bucket_set_of_ne items (Ne.symm hsame)] at hafter ⊢
        omega

theorem Within.remove : Within items' walk := by
  intro w hw
  obtain ⟨hindex, hnext, hkept⟩ := hwithin w hw
  obtain ⟨j, hmem, hfirst, rfl⟩ := removeFrom_eq_set hremove
  by_cases hsame : j = w.index
  · subst hsame
    have hnot : x ∉ (bucket items w.index).take w.next := by
      intro htake
      obtain ⟨k, hk, hmemk⟩ := hahead w hw htake
      exact hfirst k hk hmemk
    have hlength : ((bucket items w.index).take w.next).length = w.next :=
      List.length_take_of_le hnext
    constructor
    · rwa [List.length_set]
    · rw [bucket_set_self hindex, erase_beyond hnot, List.length_append, hlength]
      omega
    · rw [bucket_set_self hindex, erase_beyond hnot]
      rwa [List.take_left' hlength]
  · constructor
    · rwa [List.length_set]
    · rwa [bucket_set_of_ne items (Ne.symm hsame)]
    · rwa [bucket_set_of_ne items (Ne.symm hsame)]

end Remove

/-! ## Adding and removing -/

variable {s s' : Reentrant α}

/-- `add_item` refuses the item, reports it at once or puts it into its bucket. -/
theorem step_addItem_cases (hrunning : s.backlog.timers ≠ [])
    (hstep : step s (.addItem x) = some s') :
    life x s.history ≠ some true ∧
      ((s.backlog.clock < s.backlog.itemTime x ∧ s' = s) ∨
        (s.backlog.entityTimeout ≤ s.backlog.timeDiff x ∧
          s' = { (s.log x .accepted).log x .reported with
            backlog := callExpired ignoring true s.backlog x, callbacks := s.callbacks + 1 }) ∨
        (¬ s.backlog.entityTimeout ≤ s.backlog.timeDiff x ∧
          s' = { s.log x .accepted with
            backlog :=
              { s.backlog with items := push s.backlog.items (s.backlog.bucketFor x) x } })) := by
  rw [step] at hstep
  split at hstep
  next huser =>
      refine ⟨huser.2, ?_⟩
      rcases addItem_ignoring hrunning x with ⟨hfuture, hrefused⟩ | hadded
      · rw [hrefused] at hstep
        cases hstep
        exact .inl ⟨hfuture, rfl⟩
      · rw [hadded] at hstep
        by_cases hexpired : s.backlog.entityTimeout ≤ s.backlog.timeDiff x
        · simp only [if_pos hexpired] at hstep
          cases hstep
          exact .inr (.inl ⟨hexpired, rfl⟩)
        · simp only [if_neg hexpired] at hstep
          cases hstep
          exact .inr (.inr ⟨hexpired, rfl⟩)
  next => cases hstep

theorem step_removeItem_cases (hstep : step s (.removeItem x) = some s') :
    (removeFrom x s.backlog.timers.length s.backlog.items = none ∧ s' = s) ∨
      ∃ items, removeFrom x s.backlog.timers.length s.backlog.items = some items ∧
        s' = { s.log x .removed with backlog := { s.backlog with items } } := by
  rw [step, BacklogWithTimeout.removeItem] at hstep
  split at hstep
  next =>
      cases hremove : removeFrom x s.backlog.timers.length s.backlog.items with
      | none =>
          rw [hremove] at hstep
          cases hstep
          exact .inl ⟨rfl, rfl⟩
      | some items =>
          rw [hremove] at hstep
          cases hstep
          exact .inr ⟨items, rfl, rfl⟩
  next => cases hstep

theorem step_visit_cases (hstep : step s .visit = some s') :
    ∃ w, s.walk = some w ∧ s' = s.visit w := by
  rw [step] at hstep
  split at hstep
  next w hwalk _ => exact ⟨w, hwalk, (Option.some.inj hstep).symm⟩
  next => cases hstep

/-! ## The invariant -/

variable {w : Walk α} {index : Nat}

structure Sound (s : Reentrant α) : Prop where
  running : s.backlog.timers ≠ []
  sized : s.backlog.items.length = s.backlog.timers.length
  within : Within s.backlog.items s.walk
  accounted : Accounted s.history (unvisited s.backlog.items s.walk)

theorem start_sound (entityTimeout clock : UInt64) (itemTime : α → UInt64) :
    Sound (start entityTimeout clock itemTime) where
  running := timeouts_ne_nil entityTimeout
  sized := List.length_replicate
  within := nofun
  accounted x := by
    refine ⟨false, rfl, List.count_eq_zero_of_not_mem ?_⟩
    intro hmem
    obtain ⟨i, hi⟩ := mem_flatten_iff.mp hmem
    rw [start, create, unvisited_none, bucket_replicate_nil] at hi
    exact absurd hi List.not_mem_nil

theorem Sound.bucketFor_lt (h : Sound s) (x : α) :
    s.backlog.bucketFor x < s.backlog.items.length := by
  rw [h.sized]
  exact bucketIndexFromTime_lt h.running _

/-- An item that `add_item` reports at once never enters a bucket. -/
theorem Accounted.acceptReported (h : Accounted history items)
    (hfresh : life x history ≠ some true) :
    Accounted (history ++ [{ item := x, fate := .accepted }] ++ [{ item := x, fate := .reported }])
      items := by
  have hmore : ∀ y, ([x] :: items).flatten.count y = items.flatten.count y + [x].count y := by
    intro y
    rw [List.flatten_cons, List.count_append, Nat.add_comm]
  exact (h.accept hfresh hmore).depart nofun hmore

theorem Sound.addItem (h : Sound s) (hstep : step s (.addItem x) = some s') : Sound s' := by
  obtain ⟨hfresh, ⟨_, rfl⟩ | ⟨_, rfl⟩ | ⟨_, rfl⟩⟩ := step_addItem_cases h.running hstep
  · exact h
  · exact ⟨h.running, h.sized, h.within, h.accounted.acceptReported hfresh⟩
  · have htarget := h.bucketFor_lt x
    refine ⟨h.running, (length_push _ _ _).trans h.sized, h.within.push _ x, ?_⟩
    exact h.accounted.accept hfresh (unvisited_push_count h.within htarget x)

theorem Sound.removeItem (h : Sound s) (hahead : Ahead s.backlog.items s.walk x)
    (hstep : step s (.removeItem x) = some s') : Sound s' := by
  rcases step_removeItem_cases hstep with ⟨_, rfl⟩ | ⟨items, hremove, rfl⟩
  · exact h
  · refine ⟨h.running, (removeFrom_length hremove).trans h.sized,
      h.within.remove hremove hahead, ?_⟩
    exact h.accounted.depart nofun (unvisited_remove_count h.within hremove hahead)

theorem Sound.onTimer (h : Sound s) (hstep : step s (.onTimer index) = some s') : Sound s' := by
  rw [step] at hstep
  split at hstep
  next hidle =>
      obtain ⟨hwalk, _, hindex⟩ := hidle
      cases hstep
      rw [← h.sized] at hindex
      refine ⟨h.running, h.sized, ?_, ?_⟩
      · intro w hw
        cases hw
        exact ⟨hindex, Nat.zero_le _, List.nil_subset _⟩
      · have haccounted := h.accounted
        rw [hwalk, unvisited_none] at haccounted
        refine haccounted.move fun y => ?_
        rw [unvisited_some, List.nil_append, List.drop_zero]
        exact Nat.add_right_cancel (count_flatten_set hindex (bucket s.backlog.items index) y)
  next => cases hstep

theorem Sound.visit (h : Sound s) (hwalk : s.walk = some w) : Sound (s.visit w) := by
  have haccounted := h.accounted
  obtain ⟨hindex, _, hkept⟩ := h.within w hwalk
  rw [hwalk, unvisited_some] at haccounted
  rw [Reentrant.visit]
  split
  next hend =>
      have hdone := List.drop_eq_nil_of_le (List.getElem?_eq_none_iff.mp hend)
      rw [hdone, List.append_nil] at haccounted
      exact ⟨h.running, List.length_set.trans h.sized, nofun, haccounted⟩
  next x hx =>
      obtain ⟨hlt, rfl⟩ := List.getElem?_eq_some_iff.mp hx
      rw [List.drop_eq_getElem_cons hlt] at haccounted
      have htake := List.take_append_getElem hlt
      have hwithin : ∀ kept, kept ⊆ (bucket s.backlog.items w.index).take (w.next + 1) →
          Within s.backlog.items (some ⟨w.index, w.next + 1, kept⟩) := by
        intro kept hsub v hv
        cases hv
        exact ⟨hindex, hlt, hsub⟩
      rw [← htake] at hwithin
      have hpassed := hwithin w.kept (List.subset_append_of_subset_left _ hkept)
      split
      next =>
          refine ⟨h.running, h.sized, hpassed, haccounted.depart nofun fun y => ?_⟩
          exact count_leave hindex _ _ _ y
      next =>
          split
          next hother =>
              refine ⟨h.running, (length_push _ _ _).trans h.sized, hpassed.push _ _,
                haccounted.move fun y => ?_⟩
              rw [unvisited_some, bucket_push_of_ne _ (Ne.symm hother)]
              exact count_move hindex (h.bucketFor_lt _) hother _ _ _ y
          next =>
              refine ⟨h.running, h.sized, hwithin _ (List.append_subset.mpr
                ⟨List.subset_append_of_subset_left _ hkept, List.subset_append_right _ _⟩), ?_⟩
              rw [unvisited_some, List.append_assoc]
              exact haccounted

/-- The calls that erase none of the entries the loop has passed. -/
def Undisturbed (s : Reentrant α) : Call α → Prop
  | .removeItem x => Ahead s.backlog.items s.walk x
  | _ => True

instance (items : List (List α)) (walk : Option (Walk α)) (x : α) :
    Decidable (Ahead items walk x) :=
  match walk with
  | none => .isTrue nofun
  | some w =>
      decidable_of_iff (x ∈ (bucket items w.index).take w.next → ∃ j < w.index, x ∈ bucket items j)
        (by simp [Ahead])

instance (s : Reentrant α) (e : Call α) : Decidable (Undisturbed s e) := by
  cases e <;> unfold Undisturbed <;> infer_instance

theorem step_sound {e : Call α} (h : Sound s) (hgood : Undisturbed s e)
    (hstep : step s e = some s') : Sound s' := by
  cases e with
  | addItem x => exact h.addItem hstep
  | removeItem x => exact h.removeItem hgood hstep
  | onTimer index => exact h.onTimer hstep
  | visit =>
      obtain ⟨w, hwalk, rfl⟩ := step_visit_cases hstep
      exact h.visit hwalk
  | leave =>
      obtain ⟨_, rfl⟩ := by simpa [step] using hstep
      exact ⟨h.running, h.sized, h.within, h.accounted⟩
  | advance clock itemTime =>
      obtain ⟨_, rfl⟩ := by simpa [step] using hstep
      exact ⟨h.running, h.sized, h.within, h.accounted⟩

/-! ## What a call does -/

variable {callbacks : Nat} {y : α}

structure Leads (s s' : Reentrant α) (entries : List (Entry α)) (callbacks : Nat) : Prop where
  history : s'.history = s.history ++ entries
  callbacks : s'.callbacks = callbacks

theorem Leads.life_nil (h : Leads s s' [] callbacks) (x : α) :
    life x s'.history = life x s.history := by
  rw [h.history, List.append_nil]

theorem Leads.life_of_ne (h : Leads s s' [e] callbacks) (hne : e.item ≠ x) :
    life x s'.history = life x s.history := by
  rw [h.history, life_append, followed_of_ne hne]

theorem Leads.life_accepted (h : Leads s s' [{ item := x, fate := .accepted }] callbacks)
    (habsent : life x s.history = some false) : life x s'.history = some true := by
  rw [h.history, life_append, habsent]
  simp [followed]

theorem Leads.life_departed (h : Leads s s' [{ item := x, fate }] callbacks)
    (hheld : life x s.history = some true) (hfate : fate ≠ .accepted) :
    life x s'.history = some false := by
  rw [h.history, life_append, hheld, followed_departed hfate]

/-- `remove_item` finds every item that is to be in the backlog. -/
theorem step_removeItem_held (h : Sound s) (hheld : life x s.history = some true)
    (hstep : step s (.removeItem x) = some s') :
    Leads s s' [{ item := x, fate := .removed }] s.callbacks ∧ s'.walk = s.walk := by
  obtain ⟨held, hlife, hcount⟩ := h.accounted x
  cases hheld.symm.trans hlife
  have hmem : x ∈ s.backlog.items.flatten :=
    h.within.mem_of_unvisited (List.count_pos_iff.mp (by rw [hcount]; decide))
  rcases step_removeItem_cases hstep with ⟨hnone, _⟩ | ⟨items, _, rfl⟩
  · obtain ⟨items, hfound⟩ := removeFrom_of_mem hmem (Nat.le_of_eq h.sized)
    cases hnone.symm.trans hfound
  · exact ⟨⟨rfl, rfl⟩, rfl⟩

theorem step_addItem_alive (h : Sound s) (hpast : s.backlog.itemTime x ≤ s.backlog.clock)
    (halive : ¬ s.backlog.entityTimeout ≤ s.backlog.timeDiff x)
    (hstep : step s (.addItem x) = some s') :
    Leads s s' [{ item := x, fate := .accepted }] s.callbacks ∧ s'.walk = s.walk := by
  obtain ⟨_, ⟨hfuture, _⟩ | ⟨hexpired, _⟩ | ⟨_, rfl⟩⟩ := step_addItem_cases h.running hstep
  · exact absurd hpast (UInt64.not_le.mpr hfuture)
  · exact absurd hexpired halive
  · exact ⟨⟨rfl, rfl⟩, rfl⟩

/-- A round of the loop reports the entry that it comes to, or changes neither the history nor
the callbacks. -/
theorem step_visit_spec (hstep : step s .visit = some s') :
    Leads s s' [] s.callbacks ∨
      ∃ x, s.upcoming = some x ∧
        Leads s s' [{ item := x, fate := .reported }] (s.callbacks + 1) := by
  obtain ⟨w, hwalk, rfl⟩ := step_visit_cases hstep
  rw [Reentrant.visit]
  split
  next => exact Or.inl ⟨(List.append_nil _).symm, rfl⟩
  next x hx =>
      split
      next =>
          refine Or.inr ⟨x, ?_, ⟨rfl, rfl⟩⟩
          rw [upcoming, hwalk]
          exact hx
      next => split <;> exact Or.inl ⟨(List.append_nil _).symm, rfl⟩

theorem step_removeItem_frame (hstep : step s (.removeItem x) = some s') :
    s'.walk = s.walk ∧ s'.callbacks = s.callbacks := by
  rcases step_removeItem_cases hstep with ⟨_, rfl⟩ | ⟨items, _, rfl⟩
  · exact ⟨rfl, rfl⟩
  · exact ⟨rfl, rfl⟩

theorem step_addItem_frame (h : Sound s) (hstep : step s (.addItem x) = some s') :
    s'.walk = s.walk ∧ (s'.callbacks = s.callbacks ∨ s'.callbacks = s.callbacks + 1) := by
  obtain ⟨_, ⟨_, rfl⟩ | ⟨_, rfl⟩ | ⟨_, rfl⟩⟩ := step_addItem_cases h.running hstep
  · exact ⟨rfl, .inl rfl⟩
  · exact ⟨rfl, .inr rfl⟩
  · exact ⟨rfl, .inl rfl⟩

theorem Sound.mem_of_visit (h : Sound s) (hwalk : s.walk = some w)
    (hy : y ∈ (s.visit w).backlog.items.flatten) : y ∈ s.backlog.items.flatten := by
  have hbucket : ∀ z ∈ bucket s.backlog.items w.index, z ∈ s.backlog.items.flatten :=
    fun _ hz => mem_flatten_iff.mpr ⟨w.index, hz⟩
  rw [Reentrant.visit] at hy
  split at hy
  next =>
      rcases mem_flatten_set hy with hkept | hold
      · exact hbucket y (List.mem_of_mem_take ((h.within w hwalk).kept_passed hkept))
      · exact hold
  next x hx =>
      split at hy
      next => exact hy
      next =>
          split at hy
          next =>
              rcases mem_flatten_push hy with rfl | hold
              · exact hbucket y (List.mem_of_getElem? hx)
              · exact hold
          next => exact hy

/-- The buckets get nothing new but the item that is added. -/
theorem Sound.mem_of_step (h : Sound s) {c : Call α} (hstep : step s c = some s')
    (hy : y ∈ s'.backlog.items.flatten) : y ∈ s.backlog.items.flatten ∨ c = .addItem y := by
  cases c with
  | addItem x =>
      obtain ⟨_, ⟨_, rfl⟩ | ⟨_, rfl⟩ | ⟨_, rfl⟩⟩ := step_addItem_cases h.running hstep
      · exact .inl hy
      · exact .inl hy
      · rcases mem_flatten_push hy with rfl | hold
        · exact .inr rfl
        · exact .inl hold
  | removeItem x =>
      rcases step_removeItem_cases hstep with ⟨_, rfl⟩ | ⟨items, hremove, rfl⟩
      · exact .inl hy
      · obtain ⟨i, hi⟩ := mem_flatten_iff.mp hy
        exact .inl (mem_flatten_iff.mpr ⟨i, removeFrom_subset hremove i hi⟩)
  | onTimer index =>
      obtain ⟨_, rfl⟩ := by simpa [step] using hstep
      exact .inl hy
  | visit =>
      obtain ⟨w, hwalk, rfl⟩ := step_visit_cases hstep
      exact .inl (h.mem_of_visit hwalk hy)
  | leave =>
      obtain ⟨_, rfl⟩ := by simpa [step] using hstep
      exact .inl hy
  | advance clock itemTime =>
      obtain ⟨_, rfl⟩ := by simpa [step] using hstep
      exact .inl hy

/-- Only an item that was to be in the backlog can be reported. -/
theorem Accounted.life_of_depart (h : Accounted (history ++ [{ item := x, fate }]) items)
    (hfate : fate ≠ .accepted) : life x history = some true := by
  obtain ⟨held, hlife, _⟩ := h x
  rw [life_append] at hlife
  cases hbefore : life x history with
  | none => simp [hbefore, followed] at hlife
  | some before =>
      cases before with
      | true => rfl
      | false =>
          rw [hbefore] at hlife
          cases fate with
          | accepted => exact absurd rfl hfate
          | removed => simp [followed] at hlife
          | reported => simp [followed] at hlife

/-! ## The loop of `on_timer` as a run

A callback given as a function on the backlog, which makes calls of the machine and does not stop
the backlog: the loop with this callback is a run of the machine. `calls` has the calls that it
makes. -/

variable {expired : ExpiredCallback α} {calls : BacklogWithTimeout α → α → List (Call α)}

/-- What the callback does with an item, from the state in which it is called, is a run of its
calls. -/
structure CalledBack (expired : ExpiredCallback α) (es : List (Call α)) (x : α)
    (s s' : Reentrant α) : Prop where
  run : exec step s es = some s'
  backlog : s'.backlog = expired s.backlog x
  timers : s'.backlog.timers = s.backlog.timers
  walk : s'.walk = s.walk
  callbacks : s'.callbacks = s.callbacks

/-- In so many rounds of the loop from a state on, every call of the callback is a run of its
calls. -/
def Calls (expired : ExpiredCallback α) (calls : BacklogWithTimeout α → α → List (Call α)) :
    Nat → Reentrant α → Prop
  | 0, _ => True
  | rounds + 1, s =>
      ∀ w x, s.walk = some w → s.upcoming = some x →
        if s.backlog.entityTimeout ≤ s.backlog.timeDiff x then
          ∃ s', CalledBack expired (calls (s.visit w).backlog x) x (s.visit w) s' ∧
            Calls expired calls rounds { s' with callbacks := 0 }
        else Calls expired calls rounds (s.visit w)

theorem step_visit (hwalk : s.walk = some w) (hloop : s.callbacks = 0) :
    step s .visit = some (s.visit w) := by
  simp only [step, hwalk, hloop]

def EndsWith (s : Reentrant α) (b : BacklogWithTimeout α) : Prop :=
  ∃ es s', exec step s es = some s' ∧ s'.backlog = b ∧ s'.AtRest

/-- The callback and its return, from the state in which the loop has called it. -/
theorem EndsWith.callback {es : List (Call α)} {x : α} {s' : Reentrant α}
    (hcalled : s.callbacks = 1) (hback : CalledBack expired es x s s')
    (h : EndsWith { s' with callbacks := 0 } b) : EndsWith s b := by
  obtain ⟨rest, t, hrest, hend⟩ := h
  refine ⟨es ++ .leave :: rest, t, ?_, hend⟩
  have hleave : step s' .leave = some { s' with callbacks := 0 } := by
    simp [step, hback.callbacks, hcalled]
  rw [exec_append_of_exec hback.run, exec_cons_of_step hleave]
  exact hrest

theorem EndsWith.visit (hwalk : s.walk = some w) (hloop : s.callbacks = 0)
    (h : EndsWith (s.visit w) b) : EndsWith s b := by
  obtain ⟨es, s', hrun, hend⟩ := h
  exact ⟨.visit :: es, s', (exec_cons_of_step (step_visit hwalk hloop) es).trans hrun, hend⟩

theorem onTimerLoop_endsWith {fuel i : Nat} {kept : List α} (hcalls : Calls expired calls fuel s)
    (hloop : onTimerLoop expired index fuel i kept s.backlog = some b)
    (hwalk : s.walk = some ⟨index, i, kept⟩) (hcallbacks : s.callbacks = 0)
    (hrunning : s.backlog.timers ≠ []) : EndsWith s b := by
  induction fuel generalizing s i kept with
  | zero => cases hloop
  | succ fuel ih =>
      refine EndsWith.visit hwalk hcallbacks ?_
      rw [onTimerLoop] at hloop
      cases hx : (bucket s.backlog.items index)[i]? with
      | none =>
          rw [Reentrant.visit]
          simp only [hx] at hloop ⊢
          cases hloop
          exact ⟨[], _, rfl, rfl, rfl, hcallbacks⟩
      | some x =>
          have hcalls := hcalls _ x hwalk (by rw [upcoming, hwalk]; exact hx)
          simp only [hx] at hloop
          by_cases hexpired : s.backlog.entityTimeout ≤ s.backlog.timeDiff x
          · rw [if_pos hexpired] at hloop hcalls
            obtain ⟨s', hback, hrest⟩ := hcalls
            have hvisit : s.visit ⟨index, i, kept⟩ =
                { s.log x .reported with
                  backlog := callExpired ignoring false s.backlog x
                  walk := some ⟨index, i + 1, kept⟩
                  callbacks := s.callbacks + 1 } := by
              rw [Reentrant.visit]
              simp only [hx, if_pos hexpired]
            rw [hvisit] at hback ⊢
            have hbacklog : s'.backlog = callExpired expired false s.backlog x := hback.backlog
            have htimers : s'.backlog.timers = s.backlog.timers := hback.timers
            have hrunning' : s'.backlog.timers ≠ [] := htimers ▸ hrunning
            rw [← hbacklog, if_neg (by simpa using hrunning')] at hloop
            refine EndsWith.callback (by rw [hcallbacks]) hback ?_
            exact ih hrest hloop hback.walk rfl hrunning'
          · rw [if_neg hexpired] at hloop hcalls
            rw [Reentrant.visit] at hcalls ⊢
            simp only [hx, if_neg hexpired] at hcalls ⊢
            by_cases hother : s.backlog.bucketFor x ≠ index
            · rw [if_pos hother] at hloop hcalls ⊢
              exact ih hcalls hloop rfl hcallbacks hrunning
            · rw [if_neg hother] at hloop hcalls ⊢
              exact ih hcalls hloop rfl hcallbacks hrunning

/-- A tick with such a callback is a run of the machine that begins with the tick. -/
theorem onTimer_isRun {fuel index : Nat}
    (hcalls : Calls expired calls fuel { s with walk := some ⟨index, 0, []⟩ }) (hrest : s.AtRest)
    (hrunning : s.backlog.timers ≠ []) (hindex : index < s.backlog.timers.length)
    (htick : BacklogWithTimeout.onTimer expired fuel index s.backlog = some b) :
    ∃ es s', exec step s (.onTimer index :: es) = some s' ∧ s'.backlog = b ∧ s'.AtRest := by
  have hstep : step s (.onTimer index) =
      some { s with walk := some { index, next := 0, kept := [] } } :=
    if_pos ⟨hrest.1, hrest.2, hindex⟩
  obtain ⟨es, s', hrun, hend⟩ := onTimerLoop_endsWith hcalls htick rfl hrest.2 hrunning
  exact ⟨es, s', (exec_cons_of_step hstep es).trans hrun, hend⟩

/-- An item that has expired; the others have not. -/
def overdue : Reentrant Nat :=
  ⟨{ create 4 4000000 fun x => if x = 0 then 0 else 4000000 with items := [[], [0]] }, none, 0, []⟩

def addsNext : ExpiredCallback Nat := fun b x => (addItem ignoring b (x + 1)).2

def inCallback : Reentrant Nat := visit ⟨overdue.backlog, some ⟨1, 0, []⟩, 0, []⟩ ⟨1, 0, []⟩

theorem calledBack_addsNext :
    CalledBack addsNext [.addItem 1] 0 inCallback
      { inCallback.log 1 .accepted with backlog := addsNext inCallback.backlog 0 } := by
  have hadd : addItem ignoring inCallback.backlog 1 = (true, addsNext inCallback.backlog 0) :=
    Prod.ext (by decide +kernel) rfl
  refine ⟨exec_cons_of_step ?_ [], rfl, by decide +kernel, rfl, rfl⟩
  rw [step, if_pos (by decide +kernel), hadd]
  exact if_neg (by decide +kernel)

theorem onTimer_isRun_overdue : ∃ es s', exec step overdue (.onTimer 1 :: es) = some s' ∧
    s'.backlog.reported.map (·.item) = [0] ∧ s'.backlog.items = [[1], []] ∧ s'.AtRest := by
  have hend : ∃ b ∈ onTimer addsNext 2 1 overdue.backlog,
      b.reported.map (·.item) = [0] ∧ b.items = [[1], []] := by
    decide +kernel
  obtain ⟨b, htick, hreported, hitems⟩ := hend
  have hruns := @onTimer_isRun _ b _ overdue addsNext (fun _ x => [.addItem (x + 1)]) 2 1
  obtain ⟨es, s', hrun, rfl, hrest⟩ := by
    refine hruns (fun w x hwalk hnext => ?_) ⟨rfl, rfl⟩ (by decide) (by decide) htick
    cases hwalk
    cases hnext
    rw [if_pos (by decide +kernel)]
    -- The new item is in the other bucket.
    refine ⟨_, calledBack_addsNext, fun w x _ hnext => ?_⟩
    have hnone : upcoming { inCallback with backlog := addsNext inCallback.backlog 0 } = none := by
      decide +kernel
    cases hnone.symm.trans hnext
  exact ⟨es, s', hrun, hreported, hitems, hrest⟩

/-! ## Conservation -/

/-- Between the calls an item that was accepted and neither removed nor reported since is in one
bucket, once, and every other item is in none. An item is removed or reported only
after it was accepted, and once for each time it was. -/
structure Conserved (s : Reentrant α) : Prop where
  ordered : ∀ x, life x s.history ≠ none
  held : s.AtRest → ∀ x, life x s.history = some true →
    (∃! i, x ∈ bucket s.backlog.items i) ∧ s.backlog.items.flatten.count x = 1
  gone : s.AtRest → ∀ x, life x s.history = some false → x ∉ s.backlog.items.flatten

theorem Sound.conserved (h : Sound s) : Conserved s := by
  constructor
  · intro x hnone
    obtain ⟨held, hlife, _⟩ := h.accounted x
    rw [hnone] at hlife
    cases hlife
  · intro hrest x hheld
    obtain ⟨held, hlife, hcount⟩ := h.accounted x
    rw [hrest.1, unvisited_none] at hcount
    cases hheld.symm.trans hlife
    exact ⟨existsUnique_bucket hcount, hcount⟩
  · intro hrest x hgone
    obtain ⟨held, hlife, hcount⟩ := h.accounted x
    rw [hrest.1, unvisited_none] at hcount
    cases hgone.symm.trans hlife
    exact List.count_eq_zero.mp hcount

/-- Conservation under calls from within the callback, in every run in which no `remove_item`
erases an entry that the loop of `on_timer` has passed. -/
theorem reentrant_conserved (entityTimeout clock : UInt64) (itemTime : α → UInt64)
    (es : List (Call α)) (hgood : Along step Undisturbed (start entityTimeout clock itemTime) es) :
    Throughout step Conserved (start entityTimeout clock itemTime) es :=
  throughout_of_along (fun _ => Sound.conserved) (fun _ _ _ => step_sound)
    (start_sound entityTimeout clock itemTime) hgood

/-- Two items expire in one tick, and the callback removes the item that it is called with. -/
def removeReported : List (Call Nat) :=
  [.addItem 0, .addItem 1, .advance 2000000 (fun _ => 0), .onTimer 0, .visit, .removeItem 0,
    .leave, .visit]

/-- The other item is neither reported nor removed, and in no bucket. -/
theorem reentrant_item_lost :
    ¬ Throughout step Conserved (start 1 0 fun _ => 0) removeReported := by
  intro hall
  have hend : ∃ s ∈ exec step (start 1 0 fun _ => 0) removeReported,
      s.walk = none ∧ s.callbacks = 0 ∧ life 1 s.history = some true ∧ s.backlog.items = [[]] := by
    decide +kernel
  obtain ⟨s, hrun, hwalk, hcallbacks, hlife, hitems⟩ := hend
  have hheld := (hall.last hrun).held ⟨hwalk, hcallbacks⟩ 1 hlife
  rw [hitems] at hheld
  exact absurd hheld.2 (by decide)

/-- The callback for the first of three items removes the third, which is still to be visited,
and adds one. -/
def removeAhead : List (Call Nat) :=
  [.addItem 0, .addItem 1, .addItem 2, .advance 2000000 (fun x => if x = 3 then 2000000 else 0),
    .onTimer 0, .visit, .removeItem 2, .addItem 3, .leave, .visit, .leave, .visit, .visit]

theorem reentrant_conserved_removeAhead :
    (exec step (start 1 0 fun _ => 0) removeAhead).isSome ∧
      Throughout step Conserved (start 1 0 fun _ => 0) removeAhead :=
  ⟨by decide +kernel, reentrant_conserved 1 0 (fun _ => 0) removeAhead (by decide +kernel)⟩

end Reentrant

end TarmIo.BacklogWithTimeout
