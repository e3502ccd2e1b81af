import TarmIo.Fs.RemoveDir

/-!
# `remove_dir` removes a subtree

The work on the stack is distinct directories, each above the one that it lies in. What is left in
a directory that has been read is on the stack above it, so a directory that is on top again is
empty. Every directory is opened once to read its entries and at most once more to find it empty,
which bounds the number of system calls.
-/

namespace TarmIo.Fs.RemoveDirWorker

open Foundation

variable {ν : Type*} [DecidableEq ν] {r : RemoveDirRequest ν} {s s' : RemoveDirWorker ν}
  {answer : Answer ν}

/-! ## The work -/

/-- The entries of the directory at `subpath` that are still to be unlinked or to become work. -/
def Pending.Awaits : Pending ν → List ν → ν → Prop
  | .readDir subpath unread, path, name => path = subpath ∧ name ∈ unread
  | .unlink subpath unread name', path, name => path = subpath ∧ (name ∈ unread ∨ name = name')
  | .openDir, _, _ | .rmdir, _, _ | .returned _, _, _ => False

/-- The stack. A directory that has been read contains work and what is awaited only. -/
structure Stacked (root : List ν) (tree : FileTree ν) (work : List (RemoveDirWorkEntry ν))
    (Awaits : List ν → ν → Prop) : Prop where
  directory : ∀ e ∈ work, tree.kind (e.path ++ root) = some .directory
  nodup : (work.map RemoveDirWorkEntry.path).Nodup
  parent : ∀ e ∈ work, ∀ name path, e.path = name :: path →
    ∃ p ∈ work, p.path = path ∧ p.processed = true
  above : work.Pairwise fun upper lower => ∀ name, lower.path ≠ name :: upper.path
  covered : ∀ e ∈ work, e.processed = true → ∀ name, tree.kind (name :: e.path ++ root) ≠ none →
    (∃ child ∈ work, child.path = name :: e.path) ∨ Awaits e.path name

section Stack

variable {root : List ν} {tree tree' : FileTree ν} {back : RemoveDirWorkEntry ν}
variable {path : List ν} {name : ν}

  {work rest : List (RemoveDirWorkEntry ν)} {Awaits Awaits' : List ν → ν → Prop}

theorem Stacked.mono (h : Stacked root tree work Awaits)
    (himp : ∀ path name, Awaits path name → Awaits' path name) :
    Stacked root tree work Awaits' where
  directory := h.directory
  nodup := h.nodup
  parent := h.parent
  above := h.above
  covered := fun e he hprocessed name hpresent =>
    (h.covered e he hprocessed name hpresent).imp_right (himp e.path name)

section

variable (h : Stacked root tree (back :: rest) Awaits)
include h

/-- No work lies in the directory on top. -/
theorem Stacked.no_child (name : ν) : ∀ e ∈ back :: rest, e.path ≠ name :: back.path := by
  intro e he
  rcases List.mem_cons.mp he with rfl | hrest
  · exact (List.cons_ne_self _ _).symm
  · exact List.rel_of_pairwise_cons h.above hrest name

/-- A directory on top that has been read is empty when nothing is awaited. -/
theorem Stacked.children_eq_nil (hprocessed : back.processed = true)
    (hawaits : ∀ name, ¬ Awaits back.path name) : tree.children (back.path ++ root) = [] := by
  refine List.eq_nil_iff_forall_not_mem.mpr fun name hname => ?_
  have hback : back ∈ back :: rest := List.mem_cons_self
  rcases h.covered back hback hprocessed name (FileTree.mem_children.mp hname) with hwork | hawaited
  · obtain ⟨child, hchild, hpath⟩ := hwork
    exact h.no_child name child hchild hpath
  · exact hawaits name hawaited

theorem Stacked.markProcessed :
    Stacked root tree ({ back with processed := true } :: rest) fun path name =>
      Awaits path name ∨
        path = back.path ∧ name ∈ tree.children (back.path ++ root) where
  directory := by
    intro e he
    rcases List.mem_cons.mp he with rfl | hrest
    · exact h.directory back List.mem_cons_self
    · exact h.directory e (List.mem_cons_of_mem _ hrest)
  nodup := h.nodup
  parent := by
    intro e he name path hpath
    have hold : ∃ p ∈ back :: rest, p.path = path ∧ p.processed = true := by
      rcases List.mem_cons.mp he with rfl | hrest
      · exact h.parent back List.mem_cons_self name path hpath
      · exact h.parent e (List.mem_cons_of_mem _ hrest) name path hpath
    obtain ⟨p, hp, hppath, hprocessed⟩ := hold
    rcases List.mem_cons.mp hp with rfl | hrest
    · exact ⟨_, List.mem_cons_self, hppath, rfl⟩
    · exact ⟨p, List.mem_cons_of_mem _ hrest, hppath, hprocessed⟩
  above := List.pairwise_cons.mpr (List.pairwise_cons.mp h.above)
  covered := by
    intro e he hprocessed name hpresent
    rcases List.mem_cons.mp he with rfl | hrest
    · exact .inr (.inr ⟨rfl, FileTree.mem_children.mpr hpresent⟩)
    · rcases h.covered e (List.mem_cons_of_mem _ hrest) hprocessed name hpresent with
        hwork | hawaited
      · obtain ⟨child, hchild, hpath⟩ := hwork
        rcases List.mem_cons.mp hchild with rfl | hchild
        · exact .inl ⟨_, List.mem_cons_self, hpath⟩
        · exact .inl ⟨child, List.mem_cons_of_mem _ hchild, hpath⟩
      · exact .inr (.inl hawaited)

end

theorem Stacked.push (h : Stacked root tree work Awaits)
    (hdirectory : tree.kind (name :: path ++ root) = some .directory)
    (hparent : ∃ p ∈ work, p.path = path ∧ p.processed = true)
    (hfresh : ∀ e ∈ work, e.path ≠ name :: path) :
    Stacked root tree ({ path := name :: path } :: work) fun path' name' =>
      Awaits path' name' ∧ ¬ (path' = path ∧ name' = name) where
  directory := by
    intro e he
    rcases List.mem_cons.mp he with rfl | hwork
    · exact hdirectory
    · exact h.directory e hwork
  nodup := by
    refine List.nodup_cons.mpr ⟨fun hmem => ?_, h.nodup⟩
    obtain ⟨e, he, hpath⟩ := List.mem_map.mp hmem
    exact hfresh e he hpath
  parent := by
    intro e he name' path' hpath
    have hold : ∃ p ∈ work, p.path = path' ∧ p.processed = true := by
      rcases List.mem_cons.mp he with rfl | hwork
      · obtain ⟨_, rfl⟩ := List.cons.inj hpath
        exact hparent
      · exact h.parent e hwork name' path' hpath
    obtain ⟨p, hp, hp'⟩ := hold
    exact ⟨p, List.mem_cons_of_mem _ hp, hp'⟩
  above := by
    refine List.pairwise_cons.mpr ⟨fun e he name' hpath => ?_, h.above⟩
    -- Work that lay in the new directory would have it on the stack already.
    obtain ⟨p, hp, hppath, _⟩ := h.parent e he name' _ hpath
    exact hfresh p hp hppath
  covered := by
    intro e he hprocessed name' hpresent
    rcases List.mem_cons.mp he with rfl | hwork
    · cases hprocessed
    · by_cases hnew : e.path = path ∧ name' = name
      · exact .inl ⟨_, List.mem_cons_self, by rw [hnew.1, hnew.2]⟩
      · rcases h.covered e hwork hprocessed name' hpresent with hchild | hawaited
        · obtain ⟨child, hchild, hpath⟩ := hchild
          exact .inl ⟨child, List.mem_cons_of_mem _ hchild, hpath⟩
        · exact .inr ⟨hawaited, hnew⟩

theorem Stacked.unlink (h : Stacked root tree work Awaits)
    (hremoved : tree.Removed (name :: path ++ root) tree')
    (hfile : tree.kind (name :: path ++ root) ≠ some .directory) :
    Stacked root tree' work fun path' name' =>
      Awaits path' name' ∧ ¬ (path' = path ∧ name' = name) where
  directory := by
    intro e he
    have hdirectory := h.directory e he
    rw [hremoved.frame _ fun heq => hfile (heq ▸ hdirectory)]
    exact hdirectory
  nodup := h.nodup
  parent := h.parent
  above := h.above
  covered := by
    intro e he hprocessed name' hpresent
    have hne : name' :: e.path ++ root ≠ name :: path ++ root := by
      intro heq
      exact hpresent (heq ▸ hremoved.gone)
    rw [hremoved.frame _ hne] at hpresent
    rcases h.covered e he hprocessed name' hpresent with hchild | hawaited
    · exact .inl hchild
    · refine .inr ⟨hawaited, ?_⟩
      rintro ⟨hpath, rfl⟩
      exact hne (by rw [hpath])

theorem Stacked.pop (h : Stacked root tree (back :: rest) Awaits)
    (hremoved : tree.Removed (back.path ++ root) tree') : Stacked root tree' rest Awaits where
  directory := by
    intro e he
    have hne : e.path ++ root ≠ back.path ++ root := by
      intro heq
      refine (List.nodup_cons.mp h.nodup).1 (List.mem_map.mpr ⟨e, he, ?_⟩)
      exact List.append_cancel_right heq
    rw [hremoved.frame _ hne]
    exact h.directory e (List.mem_cons_of_mem _ he)
  nodup := (List.nodup_cons.mp h.nodup).2
  parent := by
    intro e he name path hpath
    obtain ⟨p, hp, hppath, hprocessed⟩ := h.parent e (List.mem_cons_of_mem _ he) name path hpath
    rcases List.mem_cons.mp hp with rfl | hrest
    · exact absurd (hppath ▸ hpath) (h.no_child name e (List.mem_cons_of_mem _ he))
    · exact ⟨p, hrest, hppath, hprocessed⟩
  above := (List.pairwise_cons.mp h.above).2
  covered := by
    intro e he hprocessed name hpresent
    have hne : name :: e.path ++ root ≠ back.path ++ root := by
      intro heq
      exact hpresent (heq ▸ hremoved.gone)
    rw [hremoved.frame _ hne] at hpresent
    rcases h.covered e (List.mem_cons_of_mem _ he) hprocessed name hpresent with hchild | hawaited
    · obtain ⟨child, hchild, hpath⟩ := hchild
      rcases List.mem_cons.mp hchild with rfl | hrest
      · exact absurd (by rw [hpath]) hne
      · exact .inl ⟨child, hrest, hpath⟩
    · exact .inr hawaited

/-- The last work is the directory itself. -/
theorem Stacked.path_eq_nil (h : Stacked root tree [back] Awaits) : back.path = [] := by
  cases hpath : back.path with
  | nil => rfl
  | cons name path =>
      obtain ⟨p, hp, hppath, _⟩ := h.parent back List.mem_cons_self name path hpath
      rw [List.mem_singleton.mp hp, hpath] at hppath
      exact absurd hppath (List.cons_ne_self _ _)

theorem Stacked.length_le_size (h : Stacked root tree work Awaits) : work.length ≤ tree.size := by
  have hlength : (work.map fun e => e.path ++ root).length ≤ tree.size := by
    refine FileTree.length_le_size ?_ ?_
    · refine List.Nodup.of_map (fun l => l.take (l.length - root.length)) ?_
      rw [List.map_map]
      simpa [Function.comp_def] using h.nodup
    · intro l hl
      obtain ⟨e, he, rfl⟩ := List.mem_map.mp hl
      rw [h.directory e he]
      simp
  rwa [List.length_map] at hlength

end Stack

/-! ## The invariant -/

structure Reading (root : List ν) (tree : FileTree ν) (work : List (RemoveDirWorkEntry ν))
    (subpath unread : List ν) : Prop where
  nodup : unread.Nodup
  parent : ∃ p ∈ work, p.path = subpath ∧ p.processed = true
  present : ∀ name ∈ unread, tree.kind (name :: subpath ++ root) ≠ none
  fresh : ∀ name ∈ unread, ∀ e ∈ work, e.path ≠ name :: subpath

inductive Ready (r : RemoveDirRequest ν) (s : RemoveDirWorker ν) : Prop
  | openDir (back : RemoveDirWorkEntry ν) (rest : List (RemoveDirWorkEntry ν))
      (hpending : s.pending = .openDir) (hwork : s.workData = back :: rest)
      (hstack : Stacked r.path s.tree (back :: rest) (Pending.Awaits .openDir))
  | readDir (subpath unread : List ν) (hpending : s.pending = .readDir subpath unread)
      (hreading : Reading r.path s.tree s.workData subpath unread)
      (hstack : Stacked r.path s.tree s.workData (Pending.Awaits (.readDir subpath unread)))
  | unlink (subpath unread : List ν) (name : ν) (hpending : s.pending = .unlink subpath unread name)
      (hreading : Reading r.path s.tree s.workData subpath unread) (hname : name ∉ unread)
      (hpresent : s.tree.kind (name :: subpath ++ r.path) ≠ none)
      (hfile : s.tree.kind (name :: subpath ++ r.path) ≠ some .directory)
      (hstack : Stacked r.path s.tree s.workData (Pending.Awaits (.unlink subpath unread name)))
  | rmdir (back : RemoveDirWorkEntry ν) (rest : List (RemoveDirWorkEntry ν))
      (hpending : s.pending = .rmdir) (hwork : s.workData = back :: rest)
      (hprocessed : back.processed = true)
      (hempty : s.tree.children (back.path ++ r.path) = [])
      (hstack : Stacked r.path s.tree (back :: rest) (Pending.Awaits .rmdir))
  | returned (error : Error) (hpending : s.pending = .returned error)
      (hgone : error = {} → s.tree.kind r.path = none)

def reports (r : RemoveDirRequest ν) (t₀ : FileTree ν) (removed : List (List ν)) : List (List ν) :=
  if r.progressCallback then
    removed.filter fun sub => t₀.kind (sub ++ r.path) = some .directory
  else []

structure Inv (r : RemoveDirRequest ν) (t₀ : FileTree ν) (s : RemoveDirWorker ν) : Prop where
  pruned : t₀.Pruned r.path s.removed s.tree
  reported : s.reported = reports r t₀ s.removed
  ready : s.Ready r

def weight (s : RemoveDirWorker ν) : Nat :=
  match s.pending, s.workData with
  | .openDir, back :: _ => if back.processed then 3 else 1
  | .readDir .., _ => 2
  | .unlink .., _ | .rmdir, _ => 1
  | .openDir, [] | .returned _, _ => 0

/-- A file is paid for when it is removed, a directory also when it becomes work and when it is
opened first. -/
def rank (s : RemoveDirWorker ν) : Nat :=
  7 * s.tree.size - (3 * s.workData.countP (·.processed) + s.workData.length) + s.weight

variable {t₀ : FileTree ν}

theorem Inv.failed (h : Inv r t₀ s) (error : Failure)
    (workData : List (RemoveDirWorkEntry ν)) :
    Inv r t₀ { s with workData, pending := .returned error } where
  pruned := h.pruned
  reported := h.reported
  ready := by
    refine .returned error rfl fun hok => ?_
    have herror := error.2
    rw [hok] at herror
    cases herror

/-! ## Steps -/

variable {subpath unread : List ν} {name : ν}

variable {back : RemoveDirWorkEntry ν} {rest : List (RemoveDirWorkEntry ν)} {root : List ν}
  {tree : FileTree ν} {work : List (RemoveDirWorkEntry ν)} {removed : List (List ν)} {sub : List ν}

theorem Inv.openDir (h : Inv r t₀ s) (hpending : s.pending = .openDir)
    (hwork : s.workData = back :: rest)
    (hstack : Stacked r.path s.tree (back :: rest) (Pending.Awaits .openDir))
    (hstep : s.openDir r answer = some s') : Inv r t₀ s' ∧ rank s' < rank s := by
  have hsize := hstack.length_le_size
  have hcount : rest.countP (·.processed) ≤ rest.length := List.countP_le_length
  rw [List.length_cons] at hsize
  simp only [RemoveDirWorker.openDir, hwork] at hstep
  cases answer with
  | entry name => cases hstep
  | failed error =>
      cases hstep
      refine ⟨h.failed error _, ?_⟩
      simp only [rank, weight, hpending, hwork, List.countP_cons, List.length_cons]
      cases back.processed <;> simp only [Bool.false_eq_true, if_true, if_false] <;> omega
  | done =>
      dsimp only at hstep
      split at hstep
      · cases hstep
        refine ⟨⟨h.pruned, h.reported, ?_⟩, ?_⟩
        · refine .readDir _ _ rfl ?_ ?_
          · exact
              { nodup := s.tree.nodup_children _
                parent := ⟨_, List.mem_cons_self, rfl, rfl⟩
                present := fun name hname => FileTree.mem_children.mp hname
                fresh := by
                  intro name _ e he
                  rcases List.mem_cons.mp he with rfl | hrest
                  · exact (List.cons_ne_self _ _).symm
                  · exact hstack.no_child name e (List.mem_cons_of_mem _ hrest) }
          · exact hstack.markProcessed.mono fun path name hawaits =>
              hawaits.resolve_left id
        · simp only [rank, weight, hpending, hwork, List.countP_cons, List.length_cons]
          cases back.processed <;> simp only [Bool.false_eq_true, if_true, if_false] <;> omega
      · cases hstep

theorem Reading.erase (h : Reading root tree work subpath unread) (name : ν) :
    Reading root tree work subpath (unread.erase name) where
  nodup := h.nodup.erase name
  parent := h.parent
  present := fun name' hname' => h.present name' (List.mem_of_mem_erase hname')
  fresh := fun name' hname' => h.fresh name' (List.mem_of_mem_erase hname')

theorem Reading.push (h : Reading root tree work subpath unread) (name : ν) :
    Reading root tree ({ path := name :: subpath } :: work) subpath (unread.erase name) where
  nodup := h.nodup.erase name
  parent := by
    obtain ⟨p, hp, hp'⟩ := h.parent
    exact ⟨p, List.mem_cons_of_mem _ hp, hp'⟩
  present := (h.erase name).present
  fresh := by
    intro name' hname' e he
    rcases List.mem_cons.mp he with rfl | hwork
    · intro hpath
      obtain ⟨rfl, _⟩ := List.cons.inj hpath
      exact h.nodup.not_mem_erase hname'
    · exact (h.erase name).fresh name' hname' e hwork

theorem Inv.entryDone (h : Inv r t₀ s) {subpath : List ν}
    (hpending : s.pending = .readDir subpath [])
    (hreading : Reading r.path s.tree s.workData subpath [])
    (hstack : Stacked r.path s.tree s.workData (Pending.Awaits (.readDir subpath []))) :
    Inv r t₀ s.entryDone ∧ rank s.entryDone < rank s := by
  have hnone : ∀ path name, ¬ Pending.Awaits (.readDir subpath []) path name :=
    fun path name hawaits => List.not_mem_nil hawaits.2
  obtain ⟨p, hp, _⟩ := hreading.parent
  cases hwork : s.workData with
  | nil =>
      rw [hwork] at hp
      cases hp
  | cons back rest =>
      have hdone : s.entryDone =
          { s with pending := if back.processed then .rmdir else .openDir } := by
        rw [RemoveDirWorker.entryDone, hwork]
      rw [hwork] at hstack
      rw [hdone]
      by_cases hprocessed : back.processed = true
      · refine ⟨⟨h.pruned, h.reported, ?_⟩, ?_⟩
        · refine .rmdir back rest (if_pos hprocessed) hwork hprocessed ?_ ?_
          · exact hstack.children_eq_nil hprocessed (hnone back.path)
          · exact hstack.mono fun path name hawaits => (hnone path name hawaits).elim
        · simp [rank, weight, hpending, hprocessed]
      · refine ⟨⟨h.pruned, h.reported, ?_⟩, ?_⟩
        · refine .openDir back rest (if_neg hprocessed) hwork ?_
          exact hstack.mono fun path name hawaits => (hnone path name hawaits).elim
        · simp [rank, weight, hpending, hwork, hprocessed]

section

variable (h : Inv r t₀ s) (hpending : s.pending = .readDir subpath unread)
  (hreading : Reading r.path s.tree s.workData subpath unread)
  (hstack : Stacked r.path s.tree s.workData (Pending.Awaits (.readDir subpath unread)))
include h hpending hreading hstack

theorem Inv.foundFile {k : FileKind} (hkind : s.tree.kind (name :: subpath ++ r.path) = some k)
    (hk : k ≠ .directory) :
    Inv r t₀ { s with pending := .unlink subpath (unread.erase name) name } ∧
      rank { s with pending := .unlink subpath (unread.erase name) name } < rank s := by
  refine ⟨⟨h.pruned, h.reported, ?_⟩, ?_⟩
  · refine .unlink subpath _ name rfl (hreading.erase name) hreading.nodup.not_mem_erase ?_ ?_
      (hstack.mono ?_)
    · rw [hkind]
      simp
    · rw [hkind]
      simpa using hk
    · rintro path name' ⟨hpath, hname'⟩
      by_cases heq : name' = name
      · exact ⟨hpath, .inr heq⟩
      · exact ⟨hpath, .inl ((List.mem_erase_of_ne heq).mpr hname')⟩
  · simp only [rank, weight, hpending]
    omega

theorem Inv.foundDirectory {name : ν} (hname : name ∈ unread)
    (hkind : s.tree.kind (name :: subpath ++ r.path) = some .directory)
    (hs' : s' =
      { s with
        workData := { path := name :: subpath } :: s.workData
        pending := .readDir subpath (unread.erase name) }) :
    Inv r t₀ s' ∧ rank s' < rank s := by
  subst hs'
  have hpushed : Stacked r.path s.tree ({ path := name :: subpath } :: s.workData)
      (Pending.Awaits (.readDir subpath (unread.erase name))) := by
    refine (hstack.push hkind hreading.parent (hreading.fresh name hname)).mono ?_
    rintro path name' ⟨⟨hpath, hname'⟩, hne⟩
    exact ⟨hpath, (List.mem_erase_of_ne fun heq => hne ⟨hpath, heq⟩).mpr hname'⟩
  have hcount : s.workData.countP (·.processed) ≤ s.workData.length := List.countP_le_length
  have hsize := hpushed.length_le_size
  refine ⟨⟨h.pruned, h.reported, .readDir _ _ rfl (hreading.push name) hpushed⟩, ?_⟩
  simp only [rank, weight, hpending, List.countP_cons, List.length_cons, Bool.false_eq_true,
    if_false] at hsize ⊢
  omega

theorem Inv.readDir
    (hstep : s.readDir r subpath unread answer = some s') : Inv r t₀ s' ∧ rank s' < rank s := by
  cases answer with
  | failed error =>
      cases hstep
      refine ⟨h.failed error _, ?_⟩
      simp only [rank, weight, hpending]
      omega
  | done =>
      rw [RemoveDirWorker.readDir] at hstep
      split at hstep
      · rename_i hread
        subst hread
        cases hstep
        exact h.entryDone hpending hreading hstack
      · cases hstep
  | entry name =>
      rw [RemoveDirWorker.readDir] at hstep
      split at hstep
      · rename_i hname
        dsimp only at hstep
        split at hstep <;> rename_i hkind <;> cases hstep
        · exact h.foundDirectory hpending hreading hstack hname hkind rfl
        · exact h.foundFile hpending hreading hstack hkind (by decide)
        · exact h.foundFile hpending hreading hstack hkind (by decide)
        · exact h.foundFile hpending hreading hstack hkind (by decide)
      · cases hstep

end

/-- What was unlinked is no directory and is not reported. -/
theorem reports_snoc_file (h : t₀.kind (sub ++ r.path) ≠ some .directory) :
    reports r t₀ (removed ++ [sub]) = reports r t₀ removed := by
  simp [reports, List.filter_append, h]

theorem reports_snoc_directory (h : t₀.kind (sub ++ r.path) = some .directory) :
    reports r t₀ (removed ++ [sub]) =
      reports r t₀ removed ++ if r.progressCallback then [sub] else [] := by
  unfold reports
  split <;> simp [List.filter_append, h]

theorem Inv.unlink (h : Inv r t₀ s) (hpending : s.pending = .unlink subpath unread name)
    (hreading : Reading r.path s.tree s.workData subpath unread) (hname : name ∉ unread)
    (hstack : Stacked r.path s.tree s.workData (Pending.Awaits (.unlink subpath unread name)))
    (hstep : s.unlink r subpath unread name answer = some s') : Inv r t₀ s' ∧ rank s' < rank s := by
  have hsize := hstack.length_le_size
  have hcount : s.workData.countP (·.processed) ≤ s.workData.length := List.countP_le_length
  cases answer with
  | entry name => cases hstep
  | failed error =>
      cases hstep
      refine ⟨h.failed error _, ?_⟩
      simp only [rank, weight, hpending]
      omega
  | done =>
      obtain ⟨tree, htree, rfl⟩ := Option.map_eq_some_iff.mp hstep
      obtain ⟨hremoved, hfile⟩ := FileTree.unlink_eq_some htree
      have hstack' :
          Stacked r.path tree s.workData (Pending.Awaits (.readDir subpath unread)) := by
        refine (hstack.unlink hremoved hfile).mono ?_
        rintro path name' ⟨⟨hpath, hname'⟩, hne⟩
        exact ⟨hpath, hname'.resolve_right fun heq => hne ⟨hpath, heq⟩⟩
      have hsize' := hstack'.length_le_size
      refine ⟨⟨h.pruned.snoc hremoved, ?_, .readDir subpath unread rfl ?_ hstack'⟩, ?_⟩
      · rw [reports_snoc_file]
        · exact h.reported
        · exact h.pruned.kind_eq hremoved.present ▸ hfile
      · refine ⟨hreading.nodup, hreading.parent, ?_, hreading.fresh⟩
        intro name' hname'
        have hne : name' :: subpath ++ r.path ≠ name :: subpath ++ r.path := by
          intro heq
          obtain ⟨rfl, _⟩ := List.cons.inj heq
          exact hname hname'
        rw [hremoved.frame _ hne]
        exact hreading.present name' hname'
      · have hless := hremoved.size
        simp only [rank, weight, hpending]
        omega

theorem Inv.rmdir (h : Inv r t₀ s) (hpending : s.pending = .rmdir)
    (hwork : s.workData = back :: rest) (hprocessed : back.processed = true)
    (hstack : Stacked r.path s.tree (back :: rest) (Pending.Awaits .rmdir))
    (hstep : s.rmdir r answer = some s') : Inv r t₀ s' ∧ rank s' < rank s := by
  have hsize := hstack.length_le_size
  have hcount : rest.countP (·.processed) ≤ rest.length := List.countP_le_length
  rw [List.length_cons] at hsize
  simp only [RemoveDirWorker.rmdir, hwork] at hstep
  cases answer with
  | entry name => cases hstep
  | failed error =>
      cases hstep
      refine ⟨h.failed error _, ?_⟩
      simp only [rank, weight, hpending, hwork]
      omega
  | done =>
      obtain ⟨tree, htree, rfl⟩ := Option.map_eq_some_iff.mp hstep
      obtain ⟨hremoved, hdirectory⟩ := FileTree.rmdir_eq_some htree
      have hstack' := hstack.pop hremoved
      have hsize' := hstack'.length_le_size
      have hless := hremoved.size
      refine ⟨⟨h.pruned.snoc hremoved, ?_, ?_⟩, ?_⟩
      · rw [reports_snoc_directory, h.reported]
        exact h.pruned.kind_eq hremoved.present ▸ hdirectory
      · cases rest with
        | nil =>
            refine .returned {} rfl fun _ => ?_
            have hgone := hremoved.gone
            rw [hstack.path_eq_nil] at hgone
            exact hgone
        | cons back' rest' => exact .openDir back' rest' rfl rfl hstack'
      · cases rest with
        | nil =>
            simp only [rank, weight, hpending, hwork, hprocessed, List.countP_cons,
              List.length_cons, List.countP_nil, List.length_nil, if_true] at *
            omega
        | cons back' rest' =>
            simp only [rank, weight, hpending, hwork, hprocessed, List.countP_cons,
              List.length_cons, if_true, reduceCtorEq, if_false] at *
            cases back'.processed <;> simp only [Bool.false_eq_true, if_true, if_false] at * <;>
              omega

theorem Inv.step (h : Inv r t₀ s) (hstep : s.step r answer = some s') :
    Inv r t₀ s' ∧ rank s' < rank s := by
  cases h.ready with
  | openDir back rest hpending hwork hstack =>
      rw [step_openDir r answer hpending] at hstep
      exact h.openDir hpending hwork hstack hstep
  | readDir subpath unread hpending hreading hstack =>
      rw [step_readDir r answer hpending] at hstep
      exact h.readDir hpending hreading hstack hstep
  | unlink subpath unread name hpending hreading hname _ _ hstack =>
      rw [step_unlink r answer hpending] at hstep
      exact h.unlink hpending hreading hname hstack hstep
  | rmdir back rest hpending hwork hprocessed _ hstack =>
      rw [step_rmdir r answer hpending] at hstep
      exact h.rmdir hpending hwork hprocessed hstack hstep
  | returned error hpending _ =>
      rw [step_returned r answer hpending] at hstep
      cases hstep

/-! ## Runs -/

variable {error : Error} {answers : List (Answer ν)}

theorem inv_start (hdirectory : t₀.kind r.path = some .directory) : Inv r t₀ (start t₀) where
  pruned := FileTree.pruned_nil t₀ r.path
  reported := by
    rw [reports]
    split <;> rfl
  ready := by
    refine .openDir { path := [] } [] rfl rfl ?_
    refine ⟨?_, List.nodup_singleton _, ?_, List.pairwise_singleton _ _, ?_⟩
    · intro e he
      rw [List.mem_singleton.mp he]
      exact hdirectory
    · intro e he name path hpath
      rw [List.mem_singleton.mp he] at hpath
      cases hpath
    · intro e he hprocessed
      rw [List.mem_singleton.mp he] at hprocessed
      cases hprocessed

theorem rank_start (hdirectory : t₀.kind r.path = some .directory) :
    rank (start t₀) ≤ 7 * t₀.size := by
  have hsize : [r.path].length ≤ t₀.size := by
    refine FileTree.length_le_size (List.nodup_singleton _) fun l hl => ?_
    rw [List.mem_singleton.mp hl, hdirectory]
    simp
  have hrank : rank (start t₀) = 7 * t₀.size - 1 + 1 := rfl
  rw [List.length_singleton] at hsize
  omega

/-- A worker that has not returned waits for a call that can succeed. -/
theorem Ready.progress (h : s.Ready r) (hstatus : s.status = none) :
    ∃ answer s', answer.Succeeds ∧ s.step r answer = some s' := by
  cases h with
  | openDir back rest hpending hwork hstack =>
      have hdirectory := hstack.directory back List.mem_cons_self
      refine ⟨.done, ?_⟩
      rw [step_openDir r .done hpending]
      simp only [RemoveDirWorker.openDir, hwork, if_pos hdirectory]
      exact ⟨_, trivial, rfl⟩
  | readDir subpath unread hpending hreading _ =>
      cases unread with
      | nil =>
          refine ⟨.done, s.entryDone, trivial, ?_⟩
          rw [step_readDir r .done hpending, RemoveDirWorker.readDir, if_pos rfl]
      | cons name unread =>
          have hpresent := hreading.present name List.mem_cons_self
          obtain ⟨k, hkind⟩ := Option.ne_none_iff_exists'.mp hpresent
          refine ⟨.entry name, ?_⟩
          rw [step_readDir r (.entry name) hpending]
          simp only [RemoveDirWorker.readDir, if_pos List.mem_cons_self, hkind]
          cases k <;> exact ⟨_, trivial, rfl⟩
  | unlink subpath unread name hpending _ _ hpresent hfile _ =>
      obtain ⟨k, hkind⟩ := Option.ne_none_iff_exists'.mp hpresent
      have hk : k ≠ .directory := by
        rintro rfl
        exact hfile hkind
      obtain ⟨tree, htree⟩ := FileTree.exists_unlink hkind hk
      refine ⟨.done, ?_⟩
      rw [step_unlink r .done hpending, RemoveDirWorker.unlink, htree]
      exact ⟨_, trivial, rfl⟩
  | rmdir back rest hpending hwork _ hempty hstack =>
      have hdirectory := hstack.directory back List.mem_cons_self
      obtain ⟨tree, htree⟩ := FileTree.exists_rmdir hdirectory hempty
      refine ⟨.done, ?_⟩
      rw [step_rmdir r .done hpending]
      simp only [RemoveDirWorker.rmdir, hwork, htree]
      exact ⟨_, trivial, rfl⟩
  | returned error hpending _ =>
      rw [RemoveDirWorker.status, hpending] at hstatus
      cases hstatus

def Answer.MayReturn : Answer ν → Option Error → Prop
  | .done, status => status = none ∨ status = some {}
  | .entry _, status => status = none
  | .failed error, status => status = some error.val

theorem mayReturn_openDir (hstep : s.openDir r answer = some s') :
    answer.MayReturn s'.status := by
  rw [RemoveDirWorker.openDir] at hstep
  split at hstep
  · cases hstep
  · cases answer with
    | entry name => cases hstep
    | failed error =>
        cases hstep
        exact rfl
    | done =>
        dsimp only at hstep
        split at hstep <;> cases hstep
        exact .inl rfl

theorem mayReturn_readDir (hstatus : s.status = none)
    (hstep : s.readDir r subpath unread answer = some s') : answer.MayReturn s'.status := by
  cases answer with
  | failed error =>
      cases hstep
      exact rfl
  | done =>
      rw [RemoveDirWorker.readDir] at hstep
      split at hstep <;> cases hstep
      refine .inl ?_
      rw [entryDone]
      split
      · exact hstatus
      · -- With more work the next call is made: a directory is opened or removed.
        rw [RemoveDirWorker.status]
        split <;> rename_i hnext
        · split at hnext <;> cases hnext
        all_goals rfl
  | entry name =>
      rw [RemoveDirWorker.readDir] at hstep
      split at hstep
      · dsimp only at hstep
        split at hstep <;> cases hstep <;> exact rfl
      · cases hstep

theorem mayReturn_unlink (hstep : s.unlink r subpath unread name answer = some s') :
    answer.MayReturn s'.status := by
  cases answer with
  | entry name => cases hstep
  | failed error =>
      cases hstep
      exact rfl
  | done =>
      obtain ⟨tree, _, rfl⟩ := Option.map_eq_some_iff.mp hstep
      exact .inl rfl

theorem mayReturn_rmdir (hstep : s.rmdir r answer = some s') : answer.MayReturn s'.status := by
  rw [RemoveDirWorker.rmdir] at hstep
  split at hstep
  · cases hstep
  · rename_i back rest hwork
    cases answer with
    | entry name => cases hstep
    | failed error =>
        cases hstep
        exact rfl
    | done =>
        obtain ⟨tree, _, rfl⟩ := Option.map_eq_some_iff.mp hstep
        by_cases hlast : rest = []
        · exact .inr (by rw [RemoveDirWorker.status, if_pos hlast])
        · exact .inl (by rw [RemoveDirWorker.status, if_neg hlast])

/-- A failed call ends the work with its error, and no other call ends it with an error. -/
theorem mayReturn_of_step (hstep : s.step r answer = some s') : answer.MayReturn s'.status := by
  cases hpending : s.pending with
  | openDir => exact mayReturn_openDir (step_openDir r answer hpending ▸ hstep)
  | readDir subpath unread =>
      have hstatus : s.status = none := by rw [RemoveDirWorker.status, hpending]
      exact mayReturn_readDir hstatus (step_readDir r answer hpending ▸ hstep)
  | unlink subpath unread name => exact mayReturn_unlink (step_unlink r answer hpending ▸ hstep)
  | rmdir => exact mayReturn_rmdir (step_rmdir r answer hpending ▸ hstep)
  | returned status =>
      rw [step_returned r answer hpending] at hstep
      cases hstep

/-- Nothing is called after the worker has returned. -/
theorem step_of_status (h : s.status = some error) : s.step r answer = none := by
  cases hpending : s.pending with
  | returned status => exact step_returned r answer hpending
  | openDir | readDir | unlink | rmdir =>
      rw [RemoveDirWorker.status, hpending] at h
      cases h

theorem exec_of_status (h : s.status = some error) (hrun : exec (step r) s answers = some s') :
    answers = [] ∧ s' = s := by
  cases answers with
  | nil =>
      cases hrun
      exact ⟨rfl, rfl⟩
  | cons answer answers =>
      obtain ⟨_, hstep, _⟩ := exec_cons_some hrun
      rw [step_of_status h] at hstep
      cases hstep

/-- The first call that fails is the last one. -/
theorem exec_failed {earlier later : List (Answer ν)} {error : Failure}
    (hrun : exec (step r) s (earlier ++ .failed error :: later) = some s') :
    later = [] ∧ s'.status = some error.val := by
  induction earlier generalizing s with
  | nil =>
      obtain ⟨s₁, hstep, htail⟩ := exec_cons_some hrun
      have hstatus : s₁.status = some error.val := mayReturn_of_step hstep
      obtain ⟨hlater, rfl⟩ := exec_of_status hstatus htail
      exact ⟨hlater, hstatus⟩
  | cons answer earlier ih =>
      obtain ⟨s₁, _, htail⟩ := exec_cons_some hrun
      exact ih htail

/-- Calls that succeed do not end the work with an error. -/
theorem exec_succeeds (hsucceed : ∀ answer ∈ answers, answer.Succeeds)
    (hstart : s.status = none ∨ s.status = some {}) (hrun : exec (step r) s answers = some s') :
    s'.status = none ∨ s'.status = some {} := by
  induction answers generalizing s with
  | nil =>
      cases hrun
      exact hstart
  | cons answer answers ih =>
      obtain ⟨s₁, hstep, htail⟩ := exec_cons_some hrun
      refine ih (fun a ha => hsucceed a (List.mem_cons_of_mem _ ha)) ?_ htail
      have hreturn := mayReturn_of_step hstep
      cases answer with
      | done => exact hreturn
      | entry name => exact .inl hreturn
      | failed error => exact (hsucceed _ List.mem_cons_self).elim

/-- What can be said of the worker after the given answers: they are not too many, and there is a
next call as long as it has not returned. Only directories are opened and only other files are
unlinked, so links are not followed. Nothing outside the directory changes, what is removed is
removed after what is below it, and every removed directory is reported once. -/
structure Outcome (r : RemoveDirRequest ν) (t₀ : FileTree ν) (answers : List (Answer ν))
    (s : RemoveDirWorker ν) : Prop where
  bounded : answers.length ≤ 7 * t₀.size
  progress : s.status = none → ∃ answer s', answer.Succeeds ∧ s.step r answer = some s'
  opens : s.pending = .openDir → ∃ back rest, s.workData = back :: rest ∧
    s.tree.kind (back.path ++ r.path) = some .directory
  unlinks : ∀ subpath unread name, s.pending = .unlink subpath unread name →
    ∃ k ∈ s.tree.kind (name :: subpath ++ r.path), k ≠ .directory
  outside : ∀ l, ¬ r.path <:+ l → s.tree.kind l = t₀.kind l
  ordered : s.removed.Pairwise fun earlier later => ¬ earlier <:+ later
  reported : s.reported = reports r t₀ s.removed
  nodup : s.reported.Nodup
  success : (∀ answer ∈ answers, answer.Succeeds) → s.status ≠ none →
    s.status = some {} ∧ (∀ sub, s.tree.kind (sub ++ r.path) = none) ∧
      ∀ sub, sub ∈ s.removed ↔ t₀.kind (sub ++ r.path) ≠ none
  failure : ∀ earlier error later, answers = earlier ++ .failed error :: later →
    later = [] ∧ s.status = some error.val

theorem Inv.opens (h : Inv r t₀ s) (hpending : s.pending = .openDir) :
    ∃ back rest, s.workData = back :: rest ∧
      s.tree.kind (back.path ++ r.path) = some .directory := by
  cases h.ready with
  | openDir back rest _ hwork hstack =>
      exact ⟨back, rest, hwork, hstack.directory back List.mem_cons_self⟩
  | readDir _ _ hother => cases hpending.symm.trans hother
  | unlink _ _ _ hother => cases hpending.symm.trans hother
  | rmdir _ _ hother => cases hpending.symm.trans hother
  | returned _ hother => cases hpending.symm.trans hother

theorem Inv.unlinks (h : Inv r t₀ s) (hpending : s.pending = .unlink subpath unread name) :
    ∃ k ∈ s.tree.kind (name :: subpath ++ r.path), k ≠ .directory := by
  cases h.ready with
  | unlink _ _ _ hsame _ _ hpresent hfile =>
      cases hpending.symm.trans hsame
      obtain ⟨k, hkind⟩ := Option.ne_none_iff_exists'.mp hpresent
      refine ⟨k, hkind, ?_⟩
      rintro rfl
      exact hfile hkind
  | openDir _ _ hother => cases hpending.symm.trans hother
  | readDir _ _ hother => cases hpending.symm.trans hother
  | rmdir _ _ hother => cases hpending.symm.trans hother
  | returned _ hother => cases hpending.symm.trans hother

theorem Inv.gone (h : Inv r t₀ s) (hstatus : s.status = some {}) : s.tree.kind r.path = none := by
  cases h.ready with
  | returned error hpending hgone =>
      rw [RemoveDirWorker.status, hpending] at hstatus
      exact hgone (Option.some.inj hstatus)
  | openDir _ _ hpending | readDir _ _ hpending | unlink _ _ _ hpending | rmdir _ _ hpending =>
      rw [RemoveDirWorker.status, hpending] at hstatus
      cases hstatus

theorem Inv.nodup_reported (h : Inv r t₀ s) : s.reported.Nodup := by
  have hremoved : s.removed.Nodup := by
    refine h.pruned.ordered.imp ?_
    rintro earlier later hsuffix rfl
    exact hsuffix (List.suffix_refl _)
  rw [h.reported, reports]
  split
  · exact hremoved.filter _
  · exact List.nodup_nil

/-- `remove_dir` of a directory removes exactly the subtree, or reports the first error. -/
theorem remove_dir_removes_subtree {ν : Type*} [DecidableEq ν] (r : RemoveDirRequest ν)
    (t₀ : FileTree ν) (hdirectory : t₀.kind r.path = some .directory)
    {answers : List (Answer ν)} {s : RemoveDirWorker ν}
    (hrun : exec (step r) (start t₀) answers = some s) : Outcome r t₀ answers s := by
  have hstart : Inv r t₀ (start t₀) := inv_start hdirectory
  have hs : Inv r t₀ s := exec_invariant (fun _ _ _ h hstep => (h.step hstep).1) hstart hrun
  have hlength : answers.length + rank s ≤ rank (start t₀) :=
    exec_length_le (fun _ _ _ (h : Inv r t₀ _) hstep => (h.step hstep).1)
      (fun _ _ _ h hstep => (h.step hstep).2) hstart hrun
  have hrank := rank_start hdirectory
  exact
    { bounded := by omega
      progress := hs.ready.progress
      opens := hs.opens
      unlinks := fun _ _ _ => hs.unlinks
      outside := fun l => hs.pruned.kind_outside
      ordered := hs.pruned.ordered
      reported := hs.reported
      nodup := hs.nodup_reported
      success := by
        intro hsucceed hreturned
        have hok := (exec_succeeds hsucceed (.inl rfl) hrun).resolve_left hreturned
        have hgone := hs.gone hok
        refine ⟨hok, fun sub => ?_, hs.pruned.mem_removed_iff hgone⟩
        exact FileTree.kind_append_of_none hgone sub
      failure := by
        rintro earlier error later rfl
        exact exec_failed hrun }

def smallTree : Option (FileTree Nat) := do
  let t ← FileTree.root.create [1] .directory
  let t ← t.create [2, 1] .link
  let t ← t.create [3, 1] .directory
  t.create [4] .regular

def smallTreeAnswers : List (Answer Nat) :=
  [.done, .entry 2, .done, .entry 3, .done, .done, .done, .done, .done, .done, .done]

theorem remove_dir_removes_subtree_small :
    ∃ t₀ ∈ smallTree, ∃ s ∈ exec (step { path := [1], progressCallback := true }) (start t₀)
        smallTreeAnswers,
      Outcome { path := [1], progressCallback := true } t₀ smallTreeAnswers s ∧
        s.status = some {} ∧ s.removed = [[2], [3], []] ∧ s.reported = [[3], []] := by
  have hrun : ∃ t₀ ∈ smallTree, t₀.kind [1] = some .directory ∧
      ∃ s ∈ exec (step { path := [1], progressCallback := true }) (start t₀) smallTreeAnswers,
        s.status = some {} ∧ s.removed = [[2], [3], []] ∧ s.reported = [[3], []] := by
    decide +kernel
  obtain ⟨t₀, ht₀, hdirectory, s, hs, hseen⟩ := hrun
  exact ⟨t₀, ht₀, s, hs, remove_dir_removes_subtree _ t₀ hdirectory hs, hseen⟩

end TarmIo.Fs.RemoveDirWorker
