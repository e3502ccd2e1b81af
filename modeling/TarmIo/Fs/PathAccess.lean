import TarmIo.Fs.LexicalMeaning

/-!
# The accesses of `lexically_normal`

Where every access to a string is checked, `none` is an access outside of it, a failed assertion or
an exception. No access of `lexically_normal` fails, for any path: each function returns what it
returns where nothing is checked.
-/

namespace TarmIo.Fs.Path.Access

def lexicallyNormal (path : Path) : Option Path := (Code.lexicallyNormal path : Option _).join

section

variable {α β : Type} {x : Option α} {y : Id α}

/-- The rest of a function may need what the first part returns. -/
theorem bind_eq {f : α → Option β} {g : α → Id β} (hx : x = some y) (hf : f y = some (g y)) :
    (x >>= f) = some (y >>= g : Id β) := by
  rw [hx]
  exact hf

theorem map_eq (f : α → β) (hx : x = some y) : f <$> x = some (f <$> y : Id β) := by
  rw [hx]
  rfl

theorem ite_eq {p : Prop} [Decidable p] {x' : Option α} {y' : Id α} (hx : p → x = some y)
    (hx' : ¬ p → x' = some y') : (if p then x else x') = some (if p then y else y') := by
  split
  · rename_i h
    exact hx h
  · rename_i h
    exact hx' h

theorem require_eq {p : Prop} [Decidable p] (h : p) :
    (Checks.require p : Option Unit) = some (Checks.require p : Id Unit) := if_pos h

/-- The right operand may need what the left one tests. -/
theorem both_eq {a b : Option Bool} {c d : Id Bool} (ha : a = some c)
    (hb : c = true → b = some d) : Code.both a b = some (Code.both c d : Id Bool) :=
  bind_eq ha (ite_eq hb fun _ => rfl)

end

/-! ## Positions -/

variable {str : Path} {pos : Nat}

theorem isDirectorySeparator_eq (h : pos ≤ str.length) :
    Code.isDirectorySeparator str pos = some (Code.isDirectorySeparator str pos : Id Bool) :=
  bind_eq (require_eq h) rfl

theorem substr_eq (h : pos ≤ str.length) (count : Nat) :
    Code.substr str pos count = some (Code.substr str pos count : Id Path) :=
  bind_eq (require_eq h) rfl

theorem both_separators (h : 1 ≤ str.length) :
    Code.both (Code.isDirectorySeparator str 0) (Code.isDirectorySeparator str 1) =
      some (Code.both (Code.isDirectorySeparator str 0) (Code.isDirectorySeparator str 1) :
        Id Bool) :=
  both_eq (isDirectorySeparator_eq (Nat.zero_le _)) fun _ => isDirectorySeparator_eq h

theorem leftmost_eq (h : pos ≤ str.length) : Code.leftmost str pos = some (str.leftmost pos) := by
  induction pos with
  | zero => rfl
  | succ pos ih =>
      refine bind_eq (isDirectorySeparator_eq (by omega)) ?_
      exact ite_eq (fun _ => ih (by omega)) fun _ => rfl

theorem isRootSeparator_eq (h : str.isDirectorySeparator pos = true) :
    Code.isRootSeparator str pos = some (str.isRootSeparator pos) := by
  have hlt := lt_length_of_isDirectorySeparator h
  have hne : str ≠ [] := List.length_pos_iff.mp (by omega)
  refine bind_eq (require_eq ⟨hne, h⟩) (bind_eq (leftmost_eq (by omega)) ?_)
  refine ite_eq (fun _ => rfl) fun _ => ite_eq (fun _ => rfl) fun _ => ?_
  exact bind_eq (both_separators (by omega)) (ite_eq (fun _ => rfl) fun _ => rfl)

theorem filenamePos_eq {endPos : Nat} (h : endPos ≤ str.length) :
    Code.filenamePos str endPos = some (str.filenamePos endPos) := by
  rw [filenamePos, Code.filenamePos, Code.filenamePos]
  refine bind_eq (both_eq rfl fun htwo => both_separators ?_) (ite_eq (fun _ => rfl) fun _ => ?_)
  · have htwo' : endPos = 2 := of_decide_eq_true htwo
    omega
  · refine bind_eq (both_eq rfl fun _ => isDirectorySeparator_eq (by omega))
      (ite_eq (fun _ => rfl) fun _ => ?_)
    cases str.findLastOf (if endPos = 0 then str.length else endPos) with
    | none => rfl
    | some pos =>
        exact bind_eq (both_eq rfl fun _ => isDirectorySeparator_eq (Nat.zero_le _))
          (ite_eq (fun _ => rfl) fun _ => rfl)

variable {path : Path}

theorem rootDirectoryStart_eq {size : Nat} (h : size ≤ path.length) :
    Code.rootDirectoryStart path size = some (path.rootDirectoryStart size) := by
  rw [rootDirectoryStart, Code.rootDirectoryStart, Code.rootDirectoryStart]
  refine bind_eq (both_eq rfl fun htwo => both_separators ?_) (ite_eq (fun _ => rfl) fun _ => ?_)
  · have htwo' : size = 2 := of_decide_eq_true htwo
    omega
  · refine bind_eq (both_eq rfl fun hsize => ?_) (ite_eq (fun _ => rfl) fun _ => ?_)
    · have hsize' : 3 < size := of_decide_eq_true hsize
      exact both_eq (isDirectorySeparator_eq (by omega)) fun _ =>
        both_eq (isDirectorySeparator_eq (by omega)) fun _ =>
          map_eq _ (isDirectorySeparator_eq (by omega))
    · exact bind_eq (both_eq rfl fun _ => isDirectorySeparator_eq (Nat.zero_le _))
        (ite_eq (fun _ => rfl) fun _ => rfl)

theorem skipSeparators_eq (rootDirPos : Option Nat) {endPos : Nat} (h : endPos ≤ str.length) :
    Code.skipSeparators str rootDirPos endPos = some (str.skipSeparators rootDirPos endPos) := by
  induction endPos with
  | zero => rfl
  | succ endPos ih =>
      exact bind_eq (both_eq rfl fun _ => isDirectorySeparator_eq (by omega))
        (ite_eq (fun _ => ih (by omega)) fun _ => rfl)

theorem firstElement_eq (src : Path) : Code.firstElement src = some src.firstElement := by
  rw [firstElement, Code.firstElement, Code.firstElement]
  refine ite_eq (fun _ => rfl) fun hne => ?_
  have hlength : 0 < src.length := List.length_pos_iff.mpr hne
  refine bind_eq (both_eq rfl fun hsize => ?_) (ite_eq (fun _ => rfl) fun _ => ?_)
  · have hsize' : 2 ≤ src.length := of_decide_eq_true hsize
    exact both_eq (isDirectorySeparator_eq (by omega)) fun _ =>
      both_eq (isDirectorySeparator_eq (by omega)) fun _ =>
        ite_eq (fun _ => rfl) fun _ => map_eq _ (isDirectorySeparator_eq hsize')
  · exact bind_eq (isDirectorySeparator_eq (by omega)) (ite_eq (fun _ => rfl) fun _ => rfl)

/-! ## Iterators -/

variable {it : Iterator}

theorem begin_eq (path : Path) : Code.begin path = some path.begin := by
  have hpos : path.firstElement.1 ≤ path.length := by
    by_cases hne : path = []
    · subst hne
      exact Nat.le_refl _
    · exact Nat.le_of_lt (begin_pos_lt hne)
  exact bind_eq (firstElement_eq path) (bind_eq (substr_eq hpos _) rfl)

theorem elementAt_eq (h : pos ≤ path.length) :
    Code.elementAt path pos = some (path.elementAt pos) := bind_eq (substr_eq h _) rfl

theorem isDirectorySeparator_skipped (h : path.isDirectorySeparator pos = true) :
    path.isDirectorySeparator
      (pos + ((path.drop pos).takeWhile (· == '/')).length - 1) = true := by
  have hlt := lt_length_of_isDirectorySeparator h
  obtain ⟨k, q, hq, hhead⟩ := exists_separators (path.drop pos)
  have hskip : ((path.drop pos).takeWhile (· == '/')).length = k := by
    rw [hq, takeWhile_separators hhead, List.length_replicate]
  have hk : k ≠ 0 := by
    rintro rfl
    rw [List.replicate_zero, List.nil_append] at hq
    rw [Path.isDirectorySeparator_eq, hq] at h
    exact hhead (beq_iff_eq.mp h)
  have hpath : path = path.take pos ++ (List.replicate k '/' ++ q) := by
    rw [← hq, List.take_append_drop]
  have hsep := isDirectorySeparator_separators (path.take pos) q (by omega : k - 1 < k)
  rw [← hpath, List.length_take_of_le (Nat.le_of_lt hlt)] at hsep
  rwa [hskip, Nat.add_sub_assoc (by omega)]

theorem increment_eq (hpos : it.pos < path.length) (hwithin : it.Within path) :
    Code.increment path it = some (path.increment it) := by
  rw [Iterator.Within] at hwithin
  refine bind_eq (require_eq hpos) (ite_eq (fun _ => rfl) fun _ => ?_)
  refine bind_eq (isDirectorySeparator_eq hwithin)
    (ite_eq (fun hsep => ?_) fun _ => elementAt_eq hwithin)
  refine ite_eq (fun _ => rfl) fun _ => ?_
  have hroot := isRootSeparator_eq (isDirectorySeparator_skipped hsep)
  obtain ⟨hle, _⟩ := skip_separators hwithin
  exact bind_eq (both_eq rfl fun _ => map_eq _ hroot)
    (ite_eq (fun _ => rfl) fun _ => elementAt_eq hle)

theorem isDirectorySeparator_of_findLastOf {endPos pos : Nat}
    (h : str.findLastOf endPos = some pos) : str.isDirectorySeparator pos = true := by
  induction endPos with
  | zero => cases h
  | succ endPos ih =>
      rw [findLastOf] at h
      split at h
      · rename_i hsep
        rwa [← Option.some.inj h]
      · exact ih h

/-- Inside the path, an increment leads to the end or stays inside. -/
theorem increment_within (hwithin : it.Within path) :
    (path.increment it).pos = path.length ∨
      (path.increment it).pos < path.length ∧ (path.increment it).Within path := by
  cases hnet : wasNet it.element with
  | false =>
      rcases increment_isName hwithin hnet with hend | ⟨hname, hwithin'⟩
      · exact .inl hend
      · have hlength : 0 < (path.increment it).element.length := List.length_pos_iff.mpr hname.1
        refine .inr ⟨?_, hwithin'⟩
        rw [Iterator.Within] at hwithin'
        omega
  | true =>
      rw [Iterator.Within] at hwithin
      rw [increment_def]
      dsimp only
      split
      · rename_i hend
        exact .inl hend
      · rename_i hend
        split
        · -- The root directory after a network name.
          refine .inr ⟨by dsimp only; omega, ?_⟩
          rw [Iterator.Within]
          dsimp only [List.length_singleton]
          omega
        · exact .inr ⟨by rw [elementAt_def]; dsimp only; omega, elementAt_within hwithin⟩

theorem filenamePos_le (path : Path) {endPos : Nat} (h : endPos ≤ path.length) :
    path.filenamePos endPos ≤ path.length := by
  rw [filenamePos_def]
  split
  · exact Nat.zero_le _
  · split
    · omega
    · cases hfind : path.findLastOf (if endPos = 0 then path.length else endPos) with
      | none => exact Nat.zero_le _
      | some pos =>
          have hlt := lt_length_of_isDirectorySeparator (isDirectorySeparator_of_findLastOf hfind)
          dsimp only
          split
          · exact Nat.zero_le _
          · exact hlt

/-- A test for a separator that is not the root directory. -/
theorem both_notRoot (h : pos ≤ path.length) :
    Code.both (Code.isDirectorySeparator path pos) ((!·) <$> Code.isRootSeparator path pos) =
      some (Code.both (Code.isDirectorySeparator path pos)
        ((!·) <$> Code.isRootSeparator path pos) : Id Bool) :=
  both_eq (isDirectorySeparator_eq h) fun hsep => map_eq _ (isRootSeparator_eq hsep)

theorem decrement_eq (hne : it.pos ≠ 0) (hpos : it.pos ≤ path.length) :
    Code.decrement path it = some (path.decrement it) := by
  have hskip := (path.skipSeparators_le (path.rootDirectoryStart it.pos) it.pos).trans hpos
  refine bind_eq (require_eq hne) (bind_eq (both_eq rfl fun _ => both_notRoot (by omega)) ?_)
  refine ite_eq (fun _ => rfl) fun _ => bind_eq (rootDirectoryStart_eq hpos) ?_
  refine bind_eq (skipSeparators_eq _ hpos) (bind_eq (filenamePos_eq hskip) ?_)
  exact bind_eq (substr_eq (filenamePos_le path hskip) _) rfl

theorem iteratorsFrom_eq (h : it.pos = path.length ∨ it.pos < path.length ∧ it.Within path)
    (fuel : Nat) : Code.iteratorsFrom path fuel it = some (path.iteratorsFrom fuel it) := by
  induction fuel generalizing it with
  | zero => rfl
  | succ fuel ih =>
      refine ite_eq (fun _ => rfl) fun hend => ?_
      obtain ⟨hpos, hwithin⟩ := h.resolve_left hend
      exact bind_eq (increment_eq hpos hwithin) (bind_eq (ih (increment_within hwithin)) rfl)

theorem begin_within (hne : path ≠ []) : path.begin.Within path := by
  rcases begin_cases hne with ⟨hstands, _⟩ | rfl | ⟨k, q, hk, hhead, rfl⟩
  · exact hstands.within
  · exact Nat.le_refl _
  · rw [begin_leading hk hhead, Iterator.Within, List.length_append, List.length_replicate]
    exact Nat.le_add_right _ _

theorem iterators_eq (path : Path) : Code.iterators path = some path.iterators := by
  refine bind_eq (begin_eq path) (iteratorsFrom_eq ?_ _)
  by_cases hne : path = []
  · subst hne
    exact .inl rfl
  · exact .inr ⟨begin_pos_lt hne, begin_within hne⟩

theorem equal_eq (lhs rhs : Path) : Code.equal lhs rhs = some (lhs.equal rhs) :=
  bind_eq (iterators_eq lhs) (bind_eq (iterators_eq rhs) rfl)

/-! ## Paths -/

theorem filename_eq (path : Path) : Code.filename path = some path.filename := by
  have hpos := filenamePos_le path (Nat.le_refl _)
  refine bind_eq (filenamePos_eq (Nat.le_refl _)) ?_
  refine bind_eq (both_eq rfl fun _ => both_notRoot hpos) ?_
  exact ite_eq (fun _ => rfl) fun _ => bind_eq (require_eq hpos) rfl

theorem parentPathEnd_eq (path : Path) : Code.parentPathEnd path = some path.parentPathEnd := by
  have hpos := filenamePos_le path (Nat.le_refl _)
  refine bind_eq (filenamePos_eq (Nat.le_refl _)) ?_
  refine bind_eq (both_eq rfl fun _ => isDirectorySeparator_eq hpos) ?_
  refine bind_eq (rootDirectoryStart_eq hpos) (bind_eq (skipSeparators_eq _ hpos) ?_)
  exact ite_eq (fun _ => rfl) fun _ => rfl

theorem removeFilename_eq (path : Path) : Code.removeFilename path = some path.removeFilename := by
  refine bind_eq (y := path.parentPathEnd) (parentPathEnd_eq path) ?_
  cases hend : path.parentPathEnd with
  | none => rfl
  | some endPos =>
      have hle : endPos ≤ path.length := by
        have hpos := filenamePos_le path (Nat.le_refl _)
        have hskip := path.skipSeparators_le
          (path.rootDirectoryStart (path.filenamePos path.length)) (path.filenamePos path.length)
        rw [parentPathEnd_def] at hend
        dsimp only at hend
        split at hend
        · cases hend
        · obtain rfl := Option.some.inj hend
          omega
      exact bind_eq (bind_eq (require_eq hle) rfl) rfl

theorem normalLoop_eq (start last : Iterator) (temp : Path) (its : List Iterator) :
    Code.normalLoop start last temp its = some (normalLoop start last temp its) := by
  induction its generalizing temp with
  | nil => rfl
  | cons itr rest ih =>
      refine ite_eq (fun _ => ih temp) fun _ => ?_
      refine bind_eq (both_eq rfl fun _ => map_eq _ (filename_eq temp)) ?_
      refine ite_eq (fun _ => bind_eq (y := temp.removeFilename) (removeFilename_eq temp) ?_)
        fun _ => ih _
      cases temp.removeFilename with
      | none => rfl
      | some temp =>
          exact bind_eq (both_eq rfl fun _ => equal_eq _ _) (ite_eq (fun _ => ih _) fun _ => ih _)

/-- Every access is valid. -/
theorem lexicallyNormal_eq (path : Path) : lexicallyNormal path = path.lexicallyNormal := by
  have hchecked : Code.lexicallyNormal path = some path.lexicallyNormal := by
    refine ite_eq (fun _ => rfl) fun hne => bind_eq (begin_eq path) ?_
    have hlength : path.stop.pos ≠ 0 := (List.length_pos_iff.mpr hne).ne'
    refine bind_eq (decrement_eq hlength (Nat.le_refl _)) (bind_eq (iterators_eq path) ?_)
    exact bind_eq (normalLoop_eq _ _ _ _) rfl
  rw [lexicallyNormal, hchecked]
  rfl

end TarmIo.Fs.Path.Access

namespace TarmIo.Fs.Path

/-- `lexically_normal` returns for every path, without an exception or an access outside of a
string; the result has the meaning of the path and is the result for itself. -/
theorem lexically_normal_keeps_meaning (path : Path) :
    ∃ q, Access.lexicallyNormal path = some q ∧ q.lexicalMeaning = path.lexicalMeaning ∧
      Access.lexicallyNormal q = some q ∧ (path = [] → q = []) := by
  obtain ⟨q, hq⟩ := exists_lexicallyNormal path
  rw [Access.lexicallyNormal_eq]
  refine ⟨q, hq, lexicalMeaning_lexicallyNormal hq, ?_, ?_⟩
  · rw [Access.lexicallyNormal_eq]
    exact lexicallyNormal_lexicallyNormal hq
  · rintro rfl
    exact (Option.some.inj hq).symm

end TarmIo.Fs.Path
