import TarmIo.Fs.LexicallyNormal
import TarmIo.Fs.MakeAllDirs

/-!
# Path resolution on a file tree

What resolution does with a path that is extended by an element, and what `mkdir` changes.
-/

namespace TarmIo.Fs.FileSystem

open Foundation Fs.Path

variable {fs fs' : FileSystem} {l m : List Path} {p e : Path} {code : StatusCode}

/-! ## Resolution -/

theorem kind_of_descend {component : Path} (h : fs.descend l component = .ok m) :
    fs.tree.kind l = some .directory := by
  rw [descend] at h
  split at h
  · cases h
  · rename_i hkind
    exact hkind
  all_goals cases h

theorem descend_error {component : Path} (h : fs.descend l component = .error code) :
    code ≠ .ok := by
  rw [descend] at h
  split at h
  · cases h
    decide
  · split at h
    · cases h
    · split at h <;> cases h
  all_goals
    cases h
    decide

/-- An empty component stays. -/
theorem descend_nil (h : fs.tree.kind l = some .directory) : fs.descend l [] = .ok l := by
  rw [descend, h]
  rfl

theorem descend_nil_bind (fs : FileSystem) (l : List Path) (component : Path) :
    (fs.descend l [] >>= fun m => fs.descend m component) = fs.descend l component := by
  by_cases h : fs.tree.kind l = some .directory
  · rw [descend_nil h]
    rfl
  · rw [descend, descend]
    split
    · rfl
    · rename_i hkind
      exact absurd hkind h
    all_goals rfl

def component (e : Path) : Path := if e = ['/'] then [] else e

theorem splitOn_separator {q : Path} (hq : '/' ∉ q) : q.splitOn '/' = [q] := by
  refine List.splitOnP_eq_singleton fun c hc => beq_eq_false_iff_ne.mpr ?_
  rintro rfl
  exact hq hc

/-- A path extended by an element is resolved from where the path leads. -/
theorem locate_operatorSlash (hp : p ≠ []) (he : IsName e ∨ e = ['/']) :
    fs.locate (p.operatorSlash e) = fs.locate p >>= fun l => fs.descend l (component e) := by
  have hhead (q : Path) : isDirectorySeparator (p ++ q) 0 = p.isDirectorySeparator 0 := by
    rw [isDirectorySeparator_append_left q (List.length_pos_iff.mpr hp)]
  -- A separator and a component.
  have hsep (q : Path) (hq : '/' ∉ q) : fs.locate (p ++ '/' :: q) =
      fs.locate p >>= fun l => fs.descend l q := by
    rw [locate, locate, if_neg (by simp), if_neg hp, hhead, List.splitOn_append_cons_self,
      splitOn_separator hq, List.foldlM_append]
    simp
  rcases he with hname | rfl
  · have hcomponent : component e = e := by
      refine if_neg ?_
      rintro rfl
      exact hname.2 (by simp)
    rw [hcomponent, hname.operatorSlash, appendSeparatorIfNeeded]
    split
    · rw [List.append_assoc]
      exact hsep e hname.2
    · rename_i hneeded
      have hlast : p.getLast? = some '/' := by
        by_contra hne
        exact hneeded ⟨hp, hne⟩
      obtain ⟨q, rfl⟩ := List.getLast?_eq_some_iff.mp hlast
      -- The separator at the end of the path is an empty component.
      have hnil : List.splitOn '/' ([] : Path) = [[]] := splitOn_separator (by simp)
      rw [locate, locate, if_neg hp, if_neg (by simp), hhead]
      rw [List.append_assoc, show ['/'] ++ e = '/' :: e from rfl, List.splitOn_append_cons_self,
        List.splitOn_append_cons_self, splitOn_separator hname.2, hnil,
        List.foldlM_append, List.foldlM_append, bind_assoc]
      congr 1
      funext l
      simpa using (descend_nil_bind fs l e).symm
  · exact hsep [] (by simp)

theorem stat_eq_ok {kind : FileKind} :
    fs.stat p = .ok kind ↔ ∃ l, fs.locate p = .ok l ∧ fs.tree.kind l = some kind := by
  rw [stat]
  cases hlocate : fs.locate p with
  | error code => simp
  | ok l => cases hkind : fs.tree.kind l <;> simp [hkind]

/-- What is found below a path shows that the path is a directory. -/
theorem stat_of_operatorSlash (hp : p ≠ []) (he : IsName e ∨ e = ['/']) {kind : FileKind}
    (h : fs.stat (p.operatorSlash e) = .ok kind) : fs.stat p = .ok .directory := by
  obtain ⟨m, hlocate, _⟩ := stat_eq_ok.mp h
  rw [locate_operatorSlash hp he] at hlocate
  cases hl : fs.locate p with
  | error code =>
      rw [hl] at hlocate
      cases hlocate
  | ok l =>
      rw [hl] at hlocate
      exact stat_eq_ok.mpr ⟨l, hl, kind_of_descend hlocate⟩

theorem stat_separator (hp : p ≠ []) (h : fs.stat p = .ok .directory) :
    fs.stat (p ++ ['/']) = .ok .directory := by
  obtain ⟨l, hl, hkind⟩ := stat_eq_ok.mp h
  refine stat_eq_ok.mpr ⟨l, ?_, hkind⟩
  have hslash : p.operatorSlash ['/'] = p ++ ['/'] := rfl
  rw [← hslash, locate_operatorSlash hp (.inr rfl), hl]
  exact descend_nil hkind

/-! ## Errors -/

theorem foldlM_descend_error {components : List Path}
    (h : components.foldlM fs.descend l = .error code) : code ≠ .ok := by
  induction components generalizing l with
  | nil => cases h
  | cons c components ih =>
      rw [List.foldlM_cons] at h
      cases hdescend : fs.descend l c with
      | error code' =>
          rw [hdescend] at h
          cases h
          exact descend_error hdescend
      | ok m =>
          rw [hdescend] at h
          exact ih h

theorem locate_error (h : fs.locate p = .error code) : code ≠ .ok := by
  rw [locate] at h
  split at h
  · cases h
    decide
  · exact foldlM_descend_error h

theorem stat_error (h : fs.stat p = .error code) : code ≠ .ok := by
  rw [stat] at h
  split at h
  · rename_i hlocate
    cases h
    exact locate_error hlocate
  · split at h
    · cases h
      decide
    · cases h

theorem mkdir_error (h : fs.mkdir p = .error code) : code ≠ .ok := by
  rw [mkdir] at h
  split at h
  · cases h
    decide
  · split at h
    · rename_i hlocate
      cases h
      exact locate_error hlocate
    · split at h
      · cases h
        decide
      · cases h

/-! ## Growth -/

structure Grows (fs fs' : FileSystem) : Prop where
  cwd : fs'.cwd = fs.cwd
  kind : ∀ l k, fs.tree.kind l = some k → fs'.tree.kind l = some k

theorem Grows.descend (h : Grows fs fs') {component : Path}
    (hdescend : fs.descend l component = .ok m) : fs'.descend l component = .ok m := by
  have hkind := kind_of_descend hdescend
  rw [FileSystem.descend, hkind] at hdescend
  rw [FileSystem.descend, h.kind l _ hkind]
  exact hdescend

theorem Grows.foldlM (h : Grows fs fs') {components : List Path}
    (hfold : components.foldlM fs.descend l = .ok m) :
    components.foldlM fs'.descend l = .ok m := by
  induction components generalizing l with
  | nil => exact hfold
  | cons c components ih =>
      rw [List.foldlM_cons] at hfold ⊢
      cases hdescend : fs.descend l c with
      | error code =>
          rw [hdescend] at hfold
          cases hfold
      | ok n =>
          rw [hdescend] at hfold
          rw [h.descend hdescend]
          exact ih hfold

theorem Grows.locate (h : Grows fs fs') (hlocate : fs.locate p = .ok l) :
    fs'.locate p = .ok l := by
  rw [FileSystem.locate] at hlocate ⊢
  split at hlocate
  · cases hlocate
  · rename_i hp
    rw [if_neg hp, h.cwd]
    exact h.foldlM hlocate

theorem Grows.stat (h : Grows fs fs') {kind : FileKind} (hstat : fs.stat p = .ok kind) :
    fs'.stat p = .ok kind := by
  obtain ⟨l, hl, hkind⟩ := stat_eq_ok.mp hstat
  exact stat_eq_ok.mpr ⟨l, h.locate hl, h.kind l kind hkind⟩

/-! ## `mkdir` -/

theorem grows_extend {tree : FileTree Path} (h : fs.tree.create l .directory = some tree) :
    Grows fs (fs.extend l tree h) where
  cwd := rfl
  kind m k hk := by
    obtain ⟨hfree, _, hframe⟩ := FileTree.create_eq_some h
    refine (hframe m ?_).trans hk
    rintro rfl
    cases hfree.symm.trans hk

theorem stat_separators {q : Path} (hq : ∀ c ∈ q, c = '/') (hp : p ≠ [])
    (h : fs.stat p = .ok .directory) : fs.stat (p ++ q) = .ok .directory := by
  induction q generalizing p with
  | nil => rwa [List.append_nil]
  | cons c q ih =>
      obtain rfl := hq c List.mem_cons_self
      have hstep := ih (fun d hd => hq d (List.mem_cons_of_mem _ hd)) (by simp)
        (stat_separator hp h)
      rwa [List.append_assoc] at hstep

/-- A new directory is found where `mkdir` made it, and nothing else changes. -/
theorem mkdir_eq_ok (h : fs.mkdir p = .ok fs') : Grows fs fs' ∧ fs'.stat p = .ok .directory := by
  rw [mkdir] at h
  split at h
  · cases h
  · split at h
    · cases h
    · rename_i l hlocate
      split at h
      · cases h
      · rename_i tree htree
        cases h
        have hgrows := grows_extend htree
        have hne : p.rdropWhile (· == '/') ≠ [] := by
          intro hnil
          rw [hnil, locate, if_pos rfl] at hlocate
          cases hlocate
        have hstat : (fs.extend l tree htree).stat (p.rdropWhile (· == '/')) = .ok .directory :=
          stat_eq_ok.mpr ⟨l, hgrows.locate hlocate, (FileTree.create_eq_some htree).2.1⟩
        have hsplit : p.rdropWhile (· == '/') ++ p.rtakeWhile (· == '/') = p :=
          List.rdropWhile_append_rtakeWhile
        refine ⟨hgrows, ?_⟩
        rw [← hsplit]
        refine stat_separators (fun c hc => ?_) hne hstat
        exact beq_iff_eq.mp (List.mem_rtakeWhile_imp (p := (· == '/')) hc)

end TarmIo.Fs.FileSystem
