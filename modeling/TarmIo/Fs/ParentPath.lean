import TarmIo.Fs.PathShape

/-!
# Removing the file name

`remove_filename` erases from the end of the parent path, which `m_parent_path_end` may report as
`npos`. That happens for paths of four or more separators and for no other path: `parent_path`
returns an empty path then, and `std::string::erase` throws.
-/

namespace TarmIo.Fs.Path

/-! ## The loop that skips separators -/

variable {str : Path}

theorem skipSeparators_le (str : Path) (rootDirPos : Option Nat) (endPos : Nat) :
    str.skipSeparators rootDirPos endPos ≤ endPos := by
  induction endPos with
  | zero => exact Nat.le_refl _
  | succ endPos ih =>
      rw [skipSeparators_succ]
      split
      · exact Nat.le_succ_of_le ih
      · exact Nat.le_refl _

/-- What is skipped. -/
theorem isDirectorySeparator_of_skipSeparators {rootDirPos : Option Nat} {endPos pos : Nat}
    (hskip : str.skipSeparators rootDirPos endPos ≤ pos) (hpos : pos < endPos) :
    str.isDirectorySeparator pos = true := by
  induction endPos with
  | zero => exact absurd hpos (Nat.not_lt_zero _)
  | succ endPos ih =>
      rw [skipSeparators_succ] at hskip
      split at hskip
      · rename_i hsep
        rcases Nat.lt_or_eq_of_le (Nat.le_of_lt_succ hpos) with hlt | rfl
        · exact ih hskip hlt
        · exact hsep.2
      · omega

/-! ## File names that are separators -/

variable {path : Path}

theorem not_isDirectorySeparator_of_findLastOf {endPos pos found : Nat}
    (hfind : str.findLastOf endPos = some found) (hfound : found < pos) (hpos : pos < endPos) :
    str.isDirectorySeparator pos = false := by
  induction endPos with
  | zero => exact absurd hpos (Nat.not_lt_zero _)
  | succ endPos ih =>
      rw [findLastOf] at hfind
      split at hfind
      · obtain rfl := Option.some.inj hfind
        omega
      · rename_i hsep
        rcases Nat.lt_or_eq_of_le (Nat.le_of_lt_succ hpos) with hlt | rfl
        · exact ih hfind hlt
        · exact Bool.eq_false_iff.mpr hsep

theorem lt_length_of_isDirectorySeparator {pos : Nat} (h : str.isDirectorySeparator pos = true) :
    pos < str.length := by
  rw [isDirectorySeparator, beq_iff_eq] at h
  exact (List.getElem?_eq_some_iff.mp h).1

theorem filenamePos_cases (str : Path) {endPos : Nat} (h : endPos ≠ 0) :
    str.filenamePos endPos = 0 ∨ str.filenamePos endPos = endPos - 1 ∨
      ∃ found, str.findLastOf endPos = some found ∧ str.filenamePos endPos = found + 1 := by
  rw [filenamePos_def, if_neg h]
  split
  · exact .inl rfl
  · split
    · exact .inr (.inl rfl)
    · cases hfind : str.findLastOf endPos with
      | none => exact .inl rfl
      | some found =>
          dsimp only
          split
          · exact .inl rfl
          · exact .inr (.inr ⟨found, rfl, rfl⟩)

/-- After the first character only the last one is a file name that is a separator. -/
theorem filenamePos_separator (hne : path.filenamePos path.length ≠ 0)
    (hsep : path.isDirectorySeparator (path.filenamePos path.length) = true) :
    path.filenamePos path.length = path.length - 1 := by
  have hlt := lt_length_of_isDirectorySeparator hsep
  rcases path.filenamePos_cases (by omega : path.length ≠ 0) with
    hzero | hlast | ⟨found, hfind, hname⟩
  · exact absurd hzero hne
  · exact hlast
  · rw [hname] at hsep hlt
    have hnot := not_isDirectorySeparator_of_findLastOf hfind (Nat.lt_succ_self found) hlt
    cases hnot.symm.trans hsep

theorem eq_replicate_of_isDirectorySeparator
    (h : ∀ pos < path.length, path.isDirectorySeparator pos = true) :
    path = List.replicate path.length '/' := by
  refine List.eq_replicate_iff.mpr ⟨rfl, fun c hc => ?_⟩
  obtain ⟨pos, hpos, rfl⟩ := List.mem_iff_getElem.mp hc
  have hsep := h pos hpos
  rw [isDirectorySeparator, List.getElem?_eq_getElem hpos, beq_iff_eq] at hsep
  exact Option.some.inj hsep

/-- The separator at the root directory, seen from the left of a later one. -/
theorem rootDirectoryStart_eq_zero {size : Nat} (h : path.rootDirectoryStart size = some 0) :
    path.isDirectorySeparator 0 = true ∧
      ¬ (size = 2 ∧ path.isDirectorySeparator 1 = true) := by
  rw [rootDirectoryStart_def] at h
  split at h
  · cases h
  · rename_i htwo
    split at h
    · rename_i hnet
      exact ⟨hnet.2.1, fun hsize => by omega⟩
    · split at h
      · rename_i hroot
        exact ⟨hroot.2, fun hsize => htwo ⟨hsize.1, hroot.2, hsize.2⟩⟩
      · cases h

theorem parentPathEnd_replicate (n : Nat) :
    parentPathEnd (List.replicate (n + 4) '/') = none := by
  have hpath : List.replicate (n + 4) '/' = List.replicate (n + 2 + 1) '/' ++ ['/'] :=
    List.replicate_succ'
  have hsep {pos : Nat} (hpos : pos < n + 4) := isDirectorySeparator_replicate hpos
  have hfilename : filenamePos (List.replicate (n + 4) '/')
      (List.replicate (n + 4) '/').length = n + 3 := by
    rw [List.length_replicate, filenamePos_def, if_neg (by omega),
      if_pos ⟨by omega, hsep (by omega)⟩]
    rfl
  have hroot : rootDirectoryStart (List.replicate (n + 4) '/') (n + 3) = some 0 := by
    rw [hpath]
    exact rootDirectoryStart_leading ['/'] (by omega)
  have hskip : skipSeparators (List.replicate (n + 4) '/') (some 0) (n + 3) = 1 := by
    have hback := skipSeparators_root [] ['/'] (Nat.lt_succ_self (n + 2))
    rwa [List.nil_append, List.length_nil, Nat.zero_add, Nat.zero_add, ← hpath] at hback
  rw [parentPathEnd_def]
  dsimp only
  rw [hfilename, hroot, hskip, if_pos]
  exact ⟨rfl, rfl, by simp, hsep (by omega)⟩

theorem eq_replicate_of_parentPathEnd (h : path.parentPathEnd = none) :
    4 ≤ path.length ∧ path = List.replicate path.length '/' := by
  rw [parentPathEnd_def] at h
  dsimp only at h
  split at h
  · rename_i hcond
    obtain ⟨hskip, hroot, _, hsep⟩ := hcond
    have hle := skipSeparators_le path (path.rootDirectoryStart (path.filenamePos path.length))
      (path.filenamePos path.length)
    have hlast := filenamePos_separator (by omega) hsep
    obtain ⟨hzero, htwo⟩ := rootDirectoryStart_eq_zero hroot
    have hall : ∀ pos < path.length, path.isDirectorySeparator pos = true := by
      intro pos hpos
      rcases Nat.eq_zero_or_pos pos with rfl | hone
      · exact hzero
      · rcases Nat.lt_or_ge pos (path.filenamePos path.length) with hlt | hge
        · exact isDirectorySeparator_of_skipSeparators (Nat.le_trans (Nat.le_of_eq hskip) hone) hlt
        · obtain rfl : pos = path.filenamePos path.length := by omega
          exact hsep
    refine ⟨?_, eq_replicate_of_isDirectorySeparator hall⟩
    -- The file name of two separators is the path, and three have a parent path.
    have hnetwork : path.length ≠ 2 := by
      intro hlength
      have hfilename : path.filenamePos path.length = 0 := by
        rw [filenamePos_def, if_pos ⟨hlength, hzero, hall 1 (by omega)⟩]
      omega
    have hthree : path.length ≠ 3 := fun hlength => htwo ⟨by omega, hall 1 (by omega)⟩
    omega
  · cases h

/-- `remove_filename` throws for paths of four or more separators, and leaves the string of
`parent_path` for all others. -/
theorem remove_filename_eq_parent_path_iff (path : Path) :
    path.removeFilename = some path.parentPath ↔
      ¬ ∃ n, 4 ≤ n ∧ path = List.replicate n '/' := by
  constructor
  · rintro hremove ⟨n, hn, rfl⟩
    obtain ⟨k, rfl⟩ := Nat.exists_eq_add_of_le' hn
    rw [removeFilename_def, parentPathEnd_replicate] at hremove
    cases hremove
  · intro hnot
    cases hend : path.parentPathEnd with
    | none => exact absurd ⟨_, eq_replicate_of_parentPathEnd hend⟩ hnot
    | some endPos => rw [removeFilename_def, parentPath, hend, Option.map_some]

theorem remove_filename_throws :
    removeFilename ['/', '/', '/', '/'] = none ∧ parentPath ['/', '/', '/', '/'] = [] := by
  decide

end TarmIo.Fs.Path
