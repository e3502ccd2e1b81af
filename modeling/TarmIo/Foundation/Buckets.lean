import Mathlib.Data.List.Basic

/-!
# Lists of buckets

Items are kept in a list of buckets. `count_flatten_set` says what replacing one
bucket does to the number of times an item is held; every conservation argument
about moves between buckets is two uses of it.
-/

namespace TarmIo.Foundation

variable {α : Type*} {bs : List (List α)} {i : Nat} {x : α}

/-- Bucket `i`, empty beyond the last one. -/
def bucket (bs : List (List α)) (i : Nat) : List α :=
  bs.getD i []

def push (bs : List (List α)) (i : Nat) (x : α) : List (List α) :=
  bs.set i (bucket bs i ++ [x])

@[simp] theorem bucket_nil (i : Nat) : bucket ([] : List (List α)) i = [] := rfl

@[simp] theorem bucket_cons_zero (b : List α) (bs : List (List α)) : bucket (b :: bs) 0 = b := rfl

@[simp] theorem bucket_cons_succ (b : List α) (bs : List (List α)) (i : Nat) :
    bucket (b :: bs) (i + 1) = bucket bs i := rfl

theorem bucket_replicate_nil (n i : Nat) : bucket (List.replicate n ([] : List α)) i = [] := by
  rw [bucket, List.getD_eq_getElem?_getD, List.getElem?_replicate]
  split <;> rfl

theorem bucket_set_self (h : i < bs.length) (ys : List α) : bucket (bs.set i ys) i = ys := by
  rw [bucket, List.getD_eq_getElem?_getD, List.getElem?_set_self h, Option.getD_some]

theorem bucket_set_of_ne (bs : List (List α)) {i j : Nat} (h : j ≠ i) (ys : List α) :
    bucket (bs.set i ys) j = bucket bs j := by
  rw [bucket, bucket, List.getD_eq_getElem?_getD, List.getD_eq_getElem?_getD,
    List.getElem?_set_ne (Ne.symm h)]

@[simp] theorem length_push (bs : List (List α)) (i : Nat) (x : α) :
    (push bs i x).length = bs.length :=
  List.length_set

theorem bucket_push_self (h : i < bs.length) (x : α) :
    bucket (push bs i x) i = bucket bs i ++ [x] :=
  bucket_set_self h _

theorem bucket_push_of_ne (bs : List (List α)) {i j : Nat} (h : j ≠ i) (x : α) :
    bucket (push bs i x) j = bucket bs j :=
  bucket_set_of_ne bs h _

theorem mem_flatten_iff : x ∈ bs.flatten ↔ ∃ i, x ∈ bucket bs i := by
  induction bs with
  | nil => simp
  | cons b bs ih =>
      rw [List.flatten_cons, List.mem_append, ih]
      constructor
      · rintro (hb | ⟨i, hi⟩)
        · exact ⟨0, hb⟩
        · exact ⟨i + 1, hi⟩
      · rintro ⟨i, hi⟩
        cases i with
        | zero => exact Or.inl hi
        | succ i => exact Or.inr ⟨i, hi⟩

theorem mem_flatten_set {ys : List α} (h : x ∈ (bs.set i ys).flatten) :
    x ∈ ys ∨ x ∈ bs.flatten := by
  obtain ⟨zs, hzs, hx⟩ := List.mem_flatten.mp h
  rcases List.mem_or_eq_of_mem_set hzs with hold | rfl
  · exact .inr (List.mem_flatten.mpr ⟨zs, hold, hx⟩)
  · exact .inl hx

theorem mem_flatten_push {x y : α} (h : x ∈ (push bs i y).flatten) : x = y ∨ x ∈ bs.flatten := by
  rcases mem_flatten_set h with hpushed | hold
  · rcases List.mem_append.mp hpushed with hold | hnew
    · exact .inr (mem_flatten_iff.mpr ⟨i, hold⟩)
    · exact .inl (List.mem_singleton.mp hnew)
  · exact .inr hold

theorem lt_length_of_mem (h : x ∈ bucket bs i) : i < bs.length := by
  by_contra hge
  rw [bucket, List.getD_eq_getElem?_getD, List.getElem?_eq_none (by omega)] at h
  exact absurd h List.not_mem_nil

variable [DecidableEq α]

theorem count_flatten_set (h : i < bs.length) (ys : List α) (x : α) :
    (bs.set i ys).flatten.count x + (bucket bs i).count x =
      bs.flatten.count x + ys.count x := by
  induction bs generalizing i with
  | nil => exact absurd h (Nat.not_lt_zero i)
  | cons b bs ih =>
      cases i with
      | zero =>
          rw [List.set_cons_zero, bucket_cons_zero, List.flatten_cons, List.flatten_cons,
            List.count_append, List.count_append]
          omega
      | succ i =>
          have hrest := ih (i := i) (Nat.lt_of_succ_lt_succ h)
          rw [List.set_cons_succ, bucket_cons_succ, List.flatten_cons, List.flatten_cons,
            List.count_append, List.count_append]
          omega

theorem count_flatten_push (h : i < bs.length) (y x : α) :
    (push bs i y).flatten.count x = bs.flatten.count x + [y].count x := by
  have hbalance := count_flatten_set h (bucket bs i ++ [y]) x
  rw [List.count_append] at hbalance
  unfold push
  omega

/-- An item held once is in one bucket only. -/
theorem existsUnique_bucket (h : bs.flatten.count x = 1) : ∃! i, x ∈ bucket bs i := by
  obtain ⟨i, hi⟩ := mem_flatten_iff.mp (List.count_pos_iff.mp (by omega : 0 < bs.flatten.count x))
  refine ⟨i, hi, ?_⟩
  intro j hj
  by_contra hne
  -- with bucket i emptied the item would still be in bucket j
  have hbalance := count_flatten_set (lt_length_of_mem hi) [] x
  have hleft : x ∈ (bs.set i []).flatten := by
    refine mem_flatten_iff.mpr ⟨j, ?_⟩
    rw [bucket_set_of_ne bs hne]
    exact hj
  have hposi := List.count_pos_iff.mpr hi
  have hposj := List.count_pos_iff.mpr hleft
  rw [List.count_nil] at hbalance
  omega

end TarmIo.Foundation
