import TarmIo.Backlog.BacklogWithTimeout

/-!
# Moves of items

How the calls of the backlog move items: the loop of `on_timer` as a sequence of
three moves, the search of `remove_item`, and the balance of accepted, held,
removed and reported items that all of them keep.
-/

namespace TarmIo.BacklogWithTimeout

open Foundation

variable {α : Type*}

/-! ## Sweeping a bucket

With a quiet callback the bucket that `on_timer` walks does not change under it, and
the walk is a sequence of three moves on `kept` and the items still to be visited. -/

theorem callExpired_quiet {expired : ExpiredCallback α} (hquiet : Quiet expired)
    (fromAddItem : Bool) (b : BacklogWithTimeout α) (x : α) :
    ∃ itemTime : α → UInt64,
      callExpired expired fromAddItem b x =
        { b with
          itemTime
          reported := b.reported ++
            [{ item := x, itemTime := b.itemTime x, reportedAt := b.clock, fromAddItem }] } ∧
      (∀ y, b.itemTime y ≤ itemTime y) ∧
      ∀ y, b.itemTime y ≤ b.clock → itemTime y ≤ b.clock :=
  hquiet _ x

section Quiet

variable {expired : ExpiredCallback α} (hquiet : Quiet expired) (fromAddItem : Bool)
  (b : BacklogWithTimeout α) (x : α)
include hquiet

theorem callExpired_items : (callExpired expired fromAddItem b x).items = b.items := by
  obtain ⟨times, hcall, _⟩ := callExpired_quiet hquiet fromAddItem b x
  rw [hcall]

theorem callExpired_timers : (callExpired expired fromAddItem b x).timers = b.timers := by
  obtain ⟨times, hcall, _⟩ := callExpired_quiet hquiet fromAddItem b x
  rw [hcall]

theorem callExpired_clock : (callExpired expired fromAddItem b x).clock = b.clock := by
  obtain ⟨times, hcall, _⟩ := callExpired_quiet hquiet fromAddItem b x
  rw [hcall]

theorem callExpired_reported : (callExpired expired fromAddItem b x).reported = b.reported ++
    [{ item := x, itemTime := b.itemTime x, reportedAt := b.clock, fromAddItem }] := by
  obtain ⟨times, hcall, _⟩ := callExpired_quiet hquiet fromAddItem b x
  rw [hcall]

end Quiet

theorem getElem?_middle (done rest : List α) (x : α) :
    (done ++ x :: rest)[done.length]? = some x := by
  rw [List.getElem?_append_right (Nat.le_refl _), Nat.sub_self, List.getElem?_cons_zero]

/-- Rule for the loop of `on_timer`: what its three moves keep holds of the backlog that the
final swap is applied to, and the loop ends. -/
theorem onTimerLoop_rule {expired : ExpiredCallback α} (hquiet : Quiet expired) {index : Nat}
    {I : List α → List α → BacklogWithTimeout α → Prop}
    (report : ∀ kept x rest b, I kept (x :: rest) b → b.entityTimeout ≤ b.timeDiff x →
      I kept rest (callExpired expired false b x))
    (move : ∀ kept x rest b, I kept (x :: rest) b → ¬ b.entityTimeout ≤ b.timeDiff x →
      b.bucketFor x ≠ index → I kept rest { b with items := push b.items (b.bucketFor x) x })
    (keep : ∀ kept x rest b, I kept (x :: rest) b → ¬ b.entityTimeout ≤ b.timeDiff x →
      b.bucketFor x = index → I (kept ++ [x]) rest b)
    {fuel : Nat} {done rest kept : List α} {b : BacklogWithTimeout α} (hfuel : rest.length < fuel)
    (hbucket : bucket b.items index = done ++ rest) (htimers : b.timers ≠ [])
    (hI : I kept rest b) :
    ∃ kept' b', onTimerLoop expired index fuel done.length kept b =
        some { b' with items := b'.items.set index kept' } ∧ I kept' [] b' := by
  induction rest generalizing fuel done kept b with
  | nil =>
      obtain ⟨fuel, rfl⟩ : ∃ k, fuel = k + 1 := ⟨fuel - 1, by rw [List.length_nil] at hfuel; omega⟩
      refine ⟨kept, b, ?_, hI⟩
      rw [onTimerLoop, hbucket, List.append_nil, List.getElem?_eq_none (Nat.le_refl _)]
  | cons x rest ih =>
      rw [List.length_cons] at hfuel
      obtain ⟨fuel, rfl⟩ : ∃ k, fuel = k + 1 := ⟨fuel - 1, by omega⟩
      have hfuel' : rest.length < fuel := by omega
      have hlength : (done ++ [x]).length = done.length + 1 := by simp
      have hsplit : done ++ x :: rest = done ++ [x] ++ rest := by simp
      rw [onTimerLoop, hbucket, getElem?_middle]
      rw [hsplit] at hbucket
      simp only
      split
      next hexpired =>
          have hrunning : (callExpired expired false b x).timers ≠ [] := by
            rwa [callExpired_timers hquiet]
          rw [← callExpired_items hquiet false b x] at hbucket
          rw [if_neg (by simpa using hrunning), ← hlength]
          exact ih hfuel' hbucket hrunning (report kept x rest b hI hexpired)
      next halive =>
          split
          next hother =>
              rw [← hlength]
              refine ih hfuel' ?_ htimers (move kept x rest b hI halive hother)
              rw [bucket_push_of_ne _ (Ne.symm hother)]
              exact hbucket
          next hsame =>
              rw [← hlength]
              exact ih hfuel' hbucket htimers (keep kept x rest b hI halive (not_not.mp hsame))

/-! ## What is counted -/

section Balance

variable [DecidableEq α]

structure Balanced (accepted removed : List α) (items : List (List α))
    (reported : List (Report α)) : Prop where
  conserved : ∀ x, accepted.count x =
    items.flatten.count x + removed.count x + (reported.map Report.item).count x
  single : ∀ x, items.flatten.count x ≤ 1

variable {accepted removed : List α} {items items' : List (List α)} {reported : List (Report α)}

variable {x : α} {n : Nat}

section

variable (h : Balanced accepted removed items reported)
include h

theorem Balanced.move (hsame : ∀ y, items'.flatten.count y = items.flatten.count y) :
    Balanced accepted removed items' reported := by
  constructor
  · intro y
    rw [hsame y]
    exact h.conserved y
  · intro y
    rw [hsame y]
    exact h.single y

theorem Balanced.report (r : Report α)
    (hless : ∀ y, items.flatten.count y = items'.flatten.count y + [r.item].count y) :
    Balanced accepted removed items' (reported ++ [r]) := by
  constructor
  · intro y
    have hy := h.conserved y
    have hcount := hless y
    rw [List.map_append, List.count_append, List.map_singleton]
    omega
  · intro y
    have hy := h.single y
    have hcount := hless y
    omega

theorem Balanced.remove (x : α)
    (hless : ∀ y, items.flatten.count y = items'.flatten.count y + [x].count y) :
    Balanced accepted (removed ++ [x]) items' reported := by
  constructor
  · intro y
    have hy := h.conserved y
    have hcount := hless y
    rw [List.count_append]
    omega
  · intro y
    have hy := h.single y
    have hcount := hless y
    omega

end

theorem count_singleton_of_ne {x y : α} (h : y ≠ x) : [x].count y = 0 :=
  List.count_eq_zero_of_not_mem (by simpa using h)

theorem Balanced.accept (h : Balanced accepted removed items reported) (hfresh : x ∉ items.flatten)
    (hmore : ∀ y, items'.flatten.count y = items.flatten.count y + [x].count y) :
    Balanced (accepted ++ [x]) removed items' reported := by
  constructor
  · intro y
    have hy := h.conserved y
    have hcount := hmore y
    rw [List.count_append]
    omega
  · intro y
    have hcount := hmore y
    by_cases hyx : y = x
    · subst hyx
      rw [List.count_eq_zero_of_not_mem hfresh, List.count_singleton_self] at hcount
      omega
    · have hy := h.single y
      have hother := count_singleton_of_ne hyx
      omega

theorem Balanced.acceptReported (h : Balanced accepted removed items reported) (r : Report α) :
    Balanced (accepted ++ [r.item]) removed items (reported ++ [r]) := by
  refine ⟨fun y => ?_, h.single⟩
  have hy := h.conserved y
  rw [List.map_append, List.count_append, List.count_append, List.map_singleton]
  omega

theorem count_leave {bs : List (List α)} {i : Nat} (hi : i < bs.length) (kept rest : List α)
    (x y : α) :
    (bs.set i (kept ++ x :: rest)).flatten.count y =
      (bs.set i (kept ++ rest)).flatten.count y + [x].count y := by
  have hbefore := count_flatten_set hi (kept ++ x :: rest) y
  have hafter := count_flatten_set hi (kept ++ rest) y
  have hhead : (x :: rest).count y = [x].count y + rest.count y := by
    rw [← List.count_append, List.singleton_append]
  rw [List.count_append] at hbefore hafter
  omega

theorem count_move {bs : List (List α)} {i target : Nat} (hi : i < bs.length)
    (htarget : target < bs.length) (hne : target ≠ i) (kept rest : List α) (x y : α) :
    ((push bs target x).set i (kept ++ rest)).flatten.count y =
      (bs.set i (kept ++ x :: rest)).flatten.count y := by
  have hpushed := count_flatten_push htarget x y
  have hi' : i < (push bs target x).length := by rwa [length_push]
  have hset := count_flatten_set hi' (kept ++ rest) y
  have hplain := count_flatten_set hi (kept ++ rest) y
  rw [bucket_push_of_ne bs (Ne.symm hne)] at hset
  rw [count_leave hi]
  omega

/-- `remove_item` erases from the first bucket that holds the item. -/
theorem removeFrom_eq_set (h : removeFrom x n items = some items') :
    ∃ j, x ∈ bucket items j ∧ (∀ k < j, x ∉ bucket items k) ∧
      items' = items.set j ((bucket items j).erase x) := by
  induction n generalizing items items' with
  | zero => cases h
  | succ n ih =>
      cases items with
      | nil => cases h
      | cons bs rest =>
          unfold removeFrom at h
          split at h
          next hmem =>
              cases h
              exact ⟨0, hmem, fun k hk => absurd hk (Nat.not_lt_zero k), rfl⟩
          next hnot =>
              obtain ⟨rest', hrest, rfl⟩ := Option.map_eq_some_iff.mp h
              obtain ⟨j, hmem, hfirst, rfl⟩ := ih hrest
              refine ⟨j + 1, hmem, ?_, rfl⟩
              intro k hk
              cases k with
              | zero => exact hnot
              | succ k => exact hfirst k (Nat.lt_of_succ_lt_succ hk)

theorem removeFrom_of_mem (hmem : x ∈ items.flatten) (hn : items.length ≤ n) :
    ∃ items', removeFrom x n items = some items' := by
  induction n generalizing items with
  | zero =>
      rw [List.length_eq_zero_iff.mp (Nat.le_zero.mp hn)] at hmem
      cases hmem
  | succ n ih =>
      cases items with
      | nil => cases hmem
      | cons bs rest =>
          unfold removeFrom
          split
          next => exact ⟨_, rfl⟩
          next hnot =>
              have hrest : x ∈ rest.flatten := by
                rw [List.flatten_cons, List.mem_append] at hmem
                exact hmem.resolve_left hnot
              obtain ⟨rest', hfound⟩ := ih hrest (Nat.le_of_succ_le_succ hn)
              exact ⟨bs :: rest', by rw [hfound, Option.map_some]⟩

theorem count_erase_add {bs : List α} (h : x ∈ bs) (y : α) :
    (bs.erase x).count y + [x].count y = bs.count y := by
  rw [(List.perm_cons_erase h).count_eq y, Nat.add_comm, ← List.count_append,
    List.singleton_append]

section

variable (h : removeFrom x n items = some items')
include h

theorem removeFrom_count (y : α) :
    items.flatten.count y = items'.flatten.count y + [x].count y := by
  obtain ⟨j, hmem, _, rfl⟩ := removeFrom_eq_set h
  have hbalance := count_flatten_set (lt_length_of_mem hmem) ((bucket items j).erase x) y
  have herase := count_erase_add hmem y
  omega

theorem removeFrom_length : items'.length = items.length := by
  obtain ⟨j, _, _, rfl⟩ := removeFrom_eq_set h
  exact List.length_set

theorem removeFrom_subset (i : Nat) : bucket items' i ⊆ bucket items i := by
  obtain ⟨j, hmem, _, rfl⟩ := removeFrom_eq_set h
  by_cases hij : i = j
  · subst hij
    rw [bucket_set_self (lt_length_of_mem hmem)]
    exact List.erase_subset
  · rw [bucket_set_of_ne items hij]
    exact List.Subset.refl _

end

theorem removeItem_subset (b : BacklogWithTimeout α) (x : α) :
    ∀ y ∈ (removeItem b x).2.items.flatten, y ∈ b.items.flatten := by
  intro y hy
  rw [removeItem] at hy
  split at hy
  next items hremove =>
      obtain ⟨i, hi⟩ := mem_flatten_iff.mp hy
      exact mem_flatten_iff.mpr ⟨i, removeFrom_subset hremove i hi⟩
  next => exact hy

end Balance

end TarmIo.BacklogWithTimeout
