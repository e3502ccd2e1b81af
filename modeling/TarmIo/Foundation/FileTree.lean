import Mathlib.Data.List.AList

/-!
# File trees

A finite tree of directories and other files. A location lists the names from the innermost one
outwards, so that `name :: location` is an entry of the directory at `location`. What lies at a
location lies in directories only, which a tree carries with it.
-/

namespace TarmIo.Foundation

inductive FileKind
  | directory
  | regular
  | link
  | special
deriving DecidableEq

structure FileTree (ν : Type*) [DecidableEq ν] where
  files : AList fun _ : List ν => FileKind
  closed : ∀ name location, name :: location ∈ files → files.lookup location = some .directory

namespace FileTree

variable {ν : Type*} [DecidableEq ν] {t t' : FileTree ν} {name : ν} {l m : List ν}

def kind (t : FileTree ν) (l : List ν) : Option FileKind := t.files.lookup l

def children (t : FileTree ν) (l : List ν) : List ν :=
  t.files.keys.filterMap fun
    | [] => none
    | name :: parent => if parent = l then some name else none

def size (t : FileTree ν) : Nat := t.files.keys.length

theorem mem_files_iff : l ∈ t.files ↔ t.kind l ≠ none := by
  rw [kind, Ne, AList.lookup_eq_none, not_not]

theorem mem_children : name ∈ t.children l ↔ t.kind (name :: l) ≠ none := by
  rw [← mem_files_iff, AList.mem_keys, children, List.mem_filterMap]
  constructor
  · rintro ⟨m, hm, hname⟩
    cases m with
    | nil => cases hname
    | cons first parent =>
        obtain ⟨rfl, rfl⟩ : parent = l ∧ first = name := by
          simpa using hname
        exact hm
  · intro h
    exact ⟨name :: l, h, by simp⟩

theorem nodup_children (t : FileTree ν) (l : List ν) : (t.children l).Nodup := by
  refine List.Nodup.filterMap ?_ t.files.keys_nodup
  intro a b name ha hb
  cases a with
  | nil => cases ha
  | cons first parent =>
      cases b with
      | nil => cases hb
      | cons first' parent' =>
          obtain ⟨rfl, rfl⟩ : parent = l ∧ first = name := by simpa using ha
          obtain ⟨rfl, rfl⟩ : parent' = parent ∧ first' = first := by simpa using hb
          rfl

/-- What lies in something is in a directory. -/
theorem kind_parent (h : t.kind (name :: l) ≠ none) : t.kind l = some .directory :=
  t.closed name l (mem_files_iff.mpr h)

/-- Below an absent location is nothing. -/
theorem kind_append_of_none (h : t.kind l = none) (names : List ν) :
    t.kind (names ++ l) = none := by
  induction names with
  | nil => exact h
  | cons name names ih =>
      by_contra hpresent
      cases ih.symm.trans (kind_parent hpresent)

/-! ## Creation -/

def root : FileTree ν where
  files := AList.singleton [] .directory
  closed := by
    intro name location h
    rw [AList.mem_keys, AList.keys_singleton] at h
    cases List.mem_singleton.mp h

def create (t : FileTree ν) (l : List ν) (k : FileKind) : Option (FileTree ν) :=
  if h : t.kind l = none ∧ ∀ parent ∈ l.tail?, t.kind parent = some .directory then
    some
      { files := t.files.insert l k
        closed := by
          intro name location hmem
          have hparent : t.kind location = some .directory := by
            rcases (AList.mem_insert _).mp hmem with rfl | hold
            · exact h.2 location rfl
            · exact t.closed name location hold
          have hne : location ≠ l := by
            rintro rfl
            cases h.1.symm.trans hparent
          rw [AList.lookup_insert_ne hne]
          exact hparent }
  else none

theorem create_eq_some {k : FileKind} (h : t.create l k = some t') :
    t.kind l = none ∧ t'.kind l = some k ∧ ∀ m, m ≠ l → t'.kind m = t.kind m := by
  rw [create] at h
  split at h
  · rename_i hl
    cases h
    exact ⟨hl.1, AList.lookup_insert _, fun m hm => AList.lookup_insert_ne hm⟩
  · cases h

theorem kind_root (l : List ν) :
    (root : FileTree ν).kind l = if l = [] then some .directory else none := by
  by_cases hl : l = []
  · subst hl
    rw [if_pos rfl]
    exact AList.mem_lookup_iff.mpr (by simp [root])
  · rw [if_neg hl]
    refine AList.lookup_eq_none.mpr fun hmem => hl ?_
    rw [AList.mem_keys, root, AList.keys_singleton] at hmem
    exact List.mem_singleton.mp hmem

/-! ## Removal -/

def remove (t : FileTree ν) (l : List ν) (hempty : t.children l = []) : FileTree ν where
  files := t.files.erase l
  closed := by
    intro name location hmem
    have hold : name :: location ∈ t.files := (AList.mem_erase.mp hmem).2
    have hne : location ≠ l := by
      rintro rfl
      exact List.not_mem_nil (hempty ▸ mem_children.mpr (mem_files_iff.mp hold))
    rw [AList.lookup_erase_ne hne]
    exact t.closed name location hold

/-- Nothing lies in a file that is no directory. -/
theorem children_eq_nil_of_kind {k : FileKind} (hkind : t.kind l = some k) (hk : k ≠ .directory) :
    t.children l = [] := by
  refine List.eq_nil_iff_forall_not_mem.mpr fun name hname => hk ?_
  exact Option.some.inj (hkind.symm.trans (kind_parent (mem_children.mp hname)))

def unlink (t : FileTree ν) (l : List ν) : Option (FileTree ν) :=
  if h : t.kind l ≠ none ∧ t.children l = [] ∧ t.kind l ≠ some .directory then
    some (t.remove l h.2.1)
  else none

def rmdir (t : FileTree ν) (l : List ν) : Option (FileTree ν) :=
  if h : t.kind l = some .directory ∧ t.children l = [] then some (t.remove l h.2) else none

/-- One tree is the other without the file at one location, in which nothing lies. -/
structure Removed (t : FileTree ν) (l : List ν) (t' : FileTree ν) : Prop where
  present : t.kind l ≠ none
  empty : t.children l = []
  gone : t'.kind l = none
  frame : ∀ m, m ≠ l → t'.kind m = t.kind m
  size : t'.size + 1 = t.size

theorem removed_remove (hpresent : t.kind l ≠ none) (hempty : t.children l = []) :
    Removed t l (t.remove l hempty) where
  present := hpresent
  empty := hempty
  gone := AList.lookup_erase l t.files
  frame _ hm := AList.lookup_erase_ne hm
  size := by
    have hmem : l ∈ t.files.keys := AList.mem_keys.mp (mem_files_iff.mpr hpresent)
    rw [size, size, remove, AList.keys_erase]
    exact @List.length_erase_add_one _ instBEqOfDecidableEq _ _ _ hmem

theorem unlink_eq_some (h : t.unlink l = some t') :
    Removed t l t' ∧ t.kind l ≠ some .directory := by
  rw [unlink] at h
  split at h
  · rename_i hl
    cases h
    exact ⟨removed_remove hl.1 hl.2.1, hl.2.2⟩
  · cases h

theorem exists_unlink {k : FileKind} (hkind : t.kind l = some k) (hk : k ≠ .directory) :
    ∃ t', t.unlink l = some t' := by
  refine ⟨_, dif_pos ⟨?_, children_eq_nil_of_kind hkind hk, ?_⟩⟩
  · rw [hkind]
    simp
  · rw [hkind]
    simpa using hk

theorem rmdir_eq_some (h : t.rmdir l = some t') : Removed t l t' ∧ t.kind l = some .directory := by
  rw [rmdir] at h
  split at h
  · rename_i hl
    cases h
    exact ⟨removed_remove (by simp [hl.1]) hl.2, hl.1⟩
  · cases h

theorem exists_rmdir (hkind : t.kind l = some .directory) (hempty : t.children l = []) :
    ∃ t', t.rmdir l = some t' :=
  ⟨_, dif_pos ⟨hkind, hempty⟩⟩

/-! ## Removals below a directory -/

/-- One tree is the other without the files at the given locations below `root`, which were removed
in this order, each one after what was below it. -/
structure Pruned (t₀ : FileTree ν) (root : List ν) (removed : List (List ν)) (t : FileTree ν) :
    Prop where
  frame : ∀ l, (∀ sub ∈ removed, l ≠ sub ++ root) → t.kind l = t₀.kind l
  present : ∀ sub ∈ removed, t₀.kind (sub ++ root) ≠ none
  gone : ∀ sub ∈ removed, t.kind (sub ++ root) = none
  ordered : removed.Pairwise fun earlier later => ¬ earlier <:+ later

theorem pruned_nil (t : FileTree ν) (root : List ν) : Pruned t root [] t where
  frame _ _ := rfl
  present _ h := by cases h
  gone _ h := by cases h
  ordered := .nil

variable {t₀ : FileTree ν} {root : List ν} {removed : List (List ν)} {sub : List ν}

section

variable (h : Pruned t₀ root removed t)
include h

/-- A file that is there was there, and is what it was. -/
theorem Pruned.kind_eq (hpresent : t.kind l ≠ none) : t.kind l = t₀.kind l := by
  refine h.frame l ?_
  rintro sub hsub rfl
  exact hpresent (h.gone sub hsub)

theorem Pruned.snoc (hremoved : Removed t (sub ++ root) t') :
    Pruned t₀ root (removed ++ [sub]) t' where
  frame l hl := by
    have hne : l ≠ sub ++ root := hl sub (by simp)
    rw [hremoved.frame l hne]
    exact h.frame l fun m hm => hl m (List.mem_append_left _ hm)
  present m hm := by
    rcases List.mem_append.mp hm with hold | hnew
    · exact h.present m hold
    · rw [List.mem_singleton.mp hnew, ← h.kind_eq hremoved.present]
      exact hremoved.present
  gone m hm := by
    by_cases heq : m ++ root = sub ++ root
    · rw [heq]
      exact hremoved.gone
    · rw [hremoved.frame _ heq]
      rcases List.mem_append.mp hm with hold | hnew
      · exact h.gone m hold
      · exact absurd (congrArg (· ++ root) (List.mem_singleton.mp hnew)) heq
  ordered := by
    refine List.pairwise_append.mpr ⟨h.ordered, List.pairwise_singleton _ _, ?_⟩
    -- What is below a location that is gone cannot be removed any more.
    intro earlier hearlier later hlater
    rw [List.mem_singleton.mp hlater]
    rintro ⟨names, rfl⟩
    refine hremoved.present ?_
    rw [List.append_assoc]
    exact kind_append_of_none (h.gone earlier hearlier) names

/-- When the directory itself is gone, exactly what was in it was removed. -/
theorem Pruned.mem_removed_iff (hgone : t.kind root = none) (sub : List ν) :
    sub ∈ removed ↔ t₀.kind (sub ++ root) ≠ none := by
  refine ⟨h.present sub, fun hpresent => ?_⟩
  by_contra hkept
  have hframe := h.frame (sub ++ root) fun m hm heq =>
    hkept (List.append_cancel_right heq ▸ hm)
  exact hpresent (hframe.symm.trans (kind_append_of_none hgone sub))

theorem Pruned.kind_outside (hl : ¬ root <:+ l) : t.kind l = t₀.kind l := by
  refine h.frame l ?_
  rintro sub _ rfl
  exact hl (List.suffix_append sub root)

end

/-- A list of distinct files is no longer than the tree. -/
theorem length_le_size {locations : List (List ν)} (hnodup : locations.Nodup)
    (hpresent : ∀ l ∈ locations, t.kind l ≠ none) : locations.length ≤ t.size := by
  refine (List.subperm_of_subset hnodup fun l hl => ?_).length_le
  exact AList.mem_keys.mp (mem_files_iff.mpr (hpresent l hl))

end FileTree

end TarmIo.Foundation
