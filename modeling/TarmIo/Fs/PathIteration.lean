import Mathlib.Logic.Function.Iterate
import TarmIo.Fs.PathElements

/-!
# Iteration over the elements in both directions

`m_path_iterator_increment` and `m_path_iterator_decrement` scan the string in different ways. An
iterator is at a name, at the `.` of a trailing separator, at a network name or at the root
directory after one; from each of these the increment is undone by the decrement. The elements that
begin a path without a name are different: the root directory of a path with leading separators is
at the last of them, but a decrement comes to the first one, and before the end of `//` a decrement
finds an empty element.
-/

namespace TarmIo.Fs.Path

/-! ## Separators -/

variable {p n : Path} {k pos : Nat}

theorem isDirectorySeparator_last (h : p.getLast? ≠ some '/') :
    p.isDirectorySeparator (p.length - 1) = false := by
  rw [isDirectorySeparator, ← List.getLast?_eq_getElem?]
  simpa using h

theorem isDirectorySeparator_append_left (q : Path) (h : pos < p.length) :
    isDirectorySeparator (p ++ q) pos = isDirectorySeparator p pos := by
  rw [isDirectorySeparator, isDirectorySeparator, List.getElem?_append_left h]

theorem isDirectorySeparator_append_right (p q : Path) (pos : Nat) :
    isDirectorySeparator (p ++ q) (p.length + pos) = isDirectorySeparator q pos := by
  rw [isDirectorySeparator, isDirectorySeparator, List.getElem?_append_right (Nat.le_add_right _ _),
    Nat.add_sub_cancel_left]

theorem IsName.isDirectorySeparator (h : IsName n) (p q : Path) (hpos : pos < n.length) :
    isDirectorySeparator (p ++ (n ++ q)) (p.length + pos) = false := by
  rw [isDirectorySeparator_append_right, isDirectorySeparator_append_left _ hpos,
    Path.isDirectorySeparator]
  refine beq_eq_false_iff_ne.mpr fun hmem => h.2 ?_
  exact List.mem_of_getElem? hmem

theorem isDirectorySeparator_replicate {n pos : Nat} (h : pos < n) :
    isDirectorySeparator (List.replicate n '/') pos = true := by
  rw [isDirectorySeparator, List.getElem?_replicate_of_lt h]
  rfl

theorem isDirectorySeparator_separators (p q : Path) (h : pos < k) :
    isDirectorySeparator (p ++ (List.replicate k '/' ++ q)) (p.length + pos) = true := by
  rw [isDirectorySeparator_append_right, isDirectorySeparator_append_left _ (by simpa using h),
    isDirectorySeparator_replicate h]

/-- The character before a position, unless it is the first one. -/
def EndsName (p : Path) : Prop := p.getLast? ≠ some '/'

theorem IsName.endsName (h : IsName n) (p : Path) : EndsName (p ++ n) :=
  h.getLast?_ne p

theorem EndsName.isDirectorySeparator (h : EndsName p) (q : Path) (hpos : p.length = pos + 1) :
    isDirectorySeparator (p ++ q) pos = false := by
  rw [isDirectorySeparator_append_left q (by omega)]
  have hlast := isDirectorySeparator_last h
  rwa [hpos, Nat.add_sub_cancel] at hlast

theorem leftmost_separators (hp : EndsName p) (q : Path) (h : pos ≤ k) :
    leftmost (p ++ (List.replicate k '/' ++ q)) (p.length + pos) = p.length := by
  induction pos with
  | zero =>
      rw [Nat.add_zero]
      cases hlength : p.length with
      | zero => rfl
      | succ pos => rw [leftmost_succ, hp.isDirectorySeparator _ hlength, if_neg (by simp)]
  | succ pos ih =>
      rw [← Nat.add_assoc, leftmost_succ, isDirectorySeparator_separators p q (by omega),
        if_pos rfl, ih (by omega)]

theorem skipSeparators_endsName (hp : EndsName p) (q : Path) (rootDirPos : Option Nat) :
    skipSeparators (p ++ q) rootDirPos p.length = p.length := by
  cases hlength : p.length with
  | zero => rfl
  | succ pos => rw [skipSeparators_succ, hp.isDirectorySeparator _ hlength, if_neg (by simp)]

theorem skipSeparators_separators (hp : EndsName p) (q : Path) {rootDirPos : Option Nat}
    (hroot : ∀ pos ∈ rootDirPos, pos < p.length) (h : pos ≤ k) :
    skipSeparators (p ++ (List.replicate k '/' ++ q)) rootDirPos (p.length + pos) = p.length := by
  induction pos with
  | zero => exact skipSeparators_endsName hp _ _
  | succ pos ih =>
      rw [← Nat.add_assoc, skipSeparators_succ, if_pos, ih (by omega)]
      refine ⟨fun hsome => ?_, isDirectorySeparator_separators p q (by omega)⟩
      have hlt := hroot _ hsome.symm
      omega

theorem skipSeparators_root (p q : Path) (h : pos < k) :
    skipSeparators (p ++ (List.replicate k '/' ++ q)) (some p.length) (p.length + (pos + 1)) =
      p.length + 1 := by
  induction pos with
  | zero => rw [Nat.zero_add, skipSeparators_succ, if_neg (by simp)]
  | succ pos ih =>
      rw [← Nat.add_assoc, skipSeparators_succ, if_pos, ih (by omega)]
      refine ⟨fun hsome => ?_, isDirectorySeparator_separators p q h⟩
      have heq := Option.some.inj hsome
      omega

/-! ## Before a name -/

/-- What stands before a name: nothing, or it ends with a separator. -/
structure BeforeName (p : Path) : Prop where
  separator : p = [] ∨ ∃ q, p = q ++ ['/']
  not_net : ¬ (p.length = 2 ∧ p.isDirectorySeparator 0 = true)

theorem findLastOf_append (h : IsName n) (p q : Path) (hk : k ≤ n.length) :
    findLastOf (p ++ (n ++ q)) (p.length + k) = findLastOf (p ++ (n ++ q)) p.length := by
  induction k with
  | zero => rfl
  | succ k ih =>
      rw [← Nat.add_assoc, findLastOf, h.isDirectorySeparator p q (by omega), if_neg (by simp),
        ih (by omega)]

theorem findFirstOf_le {str : Path} (hpos : 2 ≤ pos) (hsep : str.isDirectorySeparator pos = true) :
    ∃ r ≤ pos, str.findFirstOf 2 = some r := by
  have hget : (str.drop 2)[pos - 2]? = some '/' := by
    rw [List.getElem?_drop, Nat.add_sub_cancel' hpos]
    exact beq_iff_eq.mp hsep
  have hsome : (List.findIdx? (· == '/') (str.drop 2)).isSome = true := by
    rw [List.findIdx?_isSome, List.any_eq_true]
    exact ⟨'/', List.mem_of_getElem? hget, rfl⟩
  obtain ⟨i, hi⟩ := Option.isSome_iff_exists.mp hsome
  refine ⟨i + 2, ?_, by rw [findFirstOf, hi]; rfl⟩
  -- The index found is the least one.
  rw [List.findIdx?_eq_some_iff_getElem] at hi
  obtain ⟨hlt, _, hleast⟩ := hi
  apply Nat.le_of_not_lt
  intro hbefore
  have hnot := hleast (pos - 2) (by omega)
  rw [List.getElem?_eq_getElem (by omega)] at hget
  rw [Option.some.inj hget] at hnot
  exact hnot rfl

section BeforeName

variable (hp : BeforeName p) (hn : IsName n) (q : Path)
include hp hn

theorem filenamePos_name : filenamePos (p ++ (n ++ q)) (p.length + n.length) = p.length := by
  have hpos : 0 < n.length := List.length_pos_iff.mpr hn.1
  have hlast : isDirectorySeparator (p ++ (n ++ q)) (p.length + n.length - 1) = false := by
    rw [Nat.add_sub_assoc hpos]
    exact hn.isDirectorySeparator p q (by omega)
  rw [filenamePos_def, if_neg, if_neg (fun h => by cases hlast.symm.trans h.2), if_neg (by omega),
    findLastOf_append hn p q (Nat.le_refl _)]
  · rcases hp.separator with rfl | ⟨s, rfl⟩
    · rfl
    · have hsep : isDirectorySeparator (s ++ ['/'] ++ (n ++ q)) s.length = true := by
        rw [List.append_assoc, isDirectorySeparator_append]
        rfl
      have hlength : (s ++ ['/']).length = s.length + 1 := by simp
      rw [hlength, findLastOf, if_pos hsep]
      dsimp only
      rw [if_neg]
      rintro ⟨hone, hzero⟩
      refine hp.not_net ⟨by omega, ?_⟩
      rwa [isDirectorySeparator_append_left _ (by omega)] at hzero
  · rintro ⟨hlength, _, hsep⟩
    rw [hlength] at hlast
    cases hlast.symm.trans hsep

/-- The separator that ends a network name is to the left of every name. -/
theorem findFirstOf_lt (hzero : isDirectorySeparator (p ++ (n ++ q)) 0 = true)
    (hone : isDirectorySeparator (p ++ (n ++ q)) 1 = true) :
    ∃ r < p.length, findFirstOf (p ++ (n ++ q)) 2 = some r := by
  have hpos : 0 < n.length := List.length_pos_iff.mpr hn.1
  have hfirst := hn.isDirectorySeparator p q hpos
  rw [Nat.add_zero] at hfirst
  rcases hp.separator with rfl | ⟨s, rfl⟩
  · cases hfirst.symm.trans hzero
  · have hlength : (s ++ ['/']).length = s.length + 1 := by simp
    have hsep : isDirectorySeparator (s ++ ['/'] ++ (n ++ q)) s.length = true := by
      rw [List.append_assoc, isDirectorySeparator_append]
      rfl
    have hs : 2 ≤ s.length := by
      apply Nat.le_of_not_lt
      intro hlt
      rcases (by omega : s.length = 0 ∨ s.length = 1) with hnone | hname
      · rw [hlength, hnone] at hfirst
        cases hfirst.symm.trans hone
      · refine hp.not_net ⟨by omega, ?_⟩
        rwa [isDirectorySeparator_append_left _ (by omega)] at hzero
    obtain ⟨r, hr, hfind⟩ := findFirstOf_le hs hsep
    exact ⟨r, by omega, hfind⟩

theorem rootDirectoryStart_lt (size : Nat) :
    ∀ r ∈ rootDirectoryStart (p ++ (n ++ q)) size, r < p.length := by
  intro r hr
  rw [rootDirectoryStart_def] at hr
  split at hr
  · cases hr
  · split at hr
    · rename_i hnet
      obtain ⟨pos, hpos, hfind⟩ := findFirstOf_lt hp hn q hnet.2.1 hnet.2.2.1
      rw [hfind] at hr
      obtain ⟨hsome, _⟩ := Option.filter_eq_some_iff.mp hr
      rwa [← Option.some.inj hsome]
    · split at hr
      · rename_i hroot
        obtain rfl := Option.some.inj hr
        apply Nat.pos_of_ne_zero
        intro hempty
        have hfirst := hn.isDirectorySeparator p q (List.length_pos_iff.mpr hn.1)
        rw [hempty] at hfirst
        cases hfirst.symm.trans hroot.2
      · cases hr

/-- Separators after a name are no root directory. -/
theorem isRootSeparator_name {k pos : Nat} (h : pos ≤ k) :
    isRootSeparator (p ++ (n ++ (List.replicate k '/' ++ q))) (p.length + n.length + pos) =
      false := by
  have hpos : 0 < n.length := List.length_pos_iff.mpr hn.1
  have hleft : leftmost (p ++ (n ++ (List.replicate k '/' ++ q))) (p.length + n.length + pos) =
      p.length + n.length := by
    have hend := leftmost_separators (hn.endsName p) q h
    rwa [List.append_assoc, List.length_append] at hend
  rw [isRootSeparator_def, hleft, if_neg (by omega)]
  split
  · rfl
  · rename_i hnet
    have hseps : isDirectorySeparator (p ++ (n ++ (List.replicate k '/' ++ q))) 0 = true ∧
        isDirectorySeparator (p ++ (n ++ (List.replicate k '/' ++ q))) 1 = true := by
      simpa using (not_or.mp hnet).2
    obtain ⟨r, hr, hfind⟩ := findFirstOf_lt hp hn _ hseps.1 hseps.2
    rw [hfind]
    refine beq_eq_false_iff_ne.mpr fun hsome => ?_
    have heq := Option.some.inj hsome
    omega

omit hp in
theorem beforeName_separators (k : Nat) : BeforeName (p ++ (n ++ List.replicate (k + 1) '/')) where
  separator := .inr ⟨p ++ (n ++ List.replicate k '/'), by
    simp [List.replicate_succ', List.append_assoc]⟩
  not_net := by
    rintro ⟨hlength, hsep⟩
    have hpos : 0 < n.length := List.length_pos_iff.mpr hn.1
    simp only [List.length_append, List.length_replicate] at hlength
    have hempty : p.length = 0 := by omega
    have hfirst := hn.isDirectorySeparator p (List.replicate (k + 1) '/') hpos
    rw [hempty] at hfirst
    cases hfirst.symm.trans hsep

end BeforeName

/-! ## Where iterators stand -/

variable {q path post : Path}

def Ended (q : Path) : Prop := q = [] ∨ ∃ q', q = '/' :: q'

theorem Ended.takeWhile (h : Ended q) : q.takeWhile (· != '/') = [] := by
  rcases h with rfl | ⟨q', rfl⟩
  · rfl
  · rfl

theorem ended_dropWhile (q : Path) : Ended (q.dropWhile (· != '/')) := by
  cases hrest : q.dropWhile (· != '/') with
  | nil => exact .inl rfl
  | cons c q' =>
      have hnot := List.head?_dropWhile_not (· != '/') q
      rw [hrest] at hnot
      obtain rfl : c = '/' := by simpa using hnot
      exact .inr ⟨q', rfl⟩

theorem exists_name (hne : q ≠ []) (hhead : q.head? ≠ some '/') :
    ∃ n post, q = n ++ post ∧ IsName n ∧ Ended post :=
  ⟨q.takeWhile (· != '/'), q.dropWhile (· != '/'), List.takeWhile_append_dropWhile.symm,
    isName_takeWhile hne hhead, ended_dropWhile q⟩

theorem exists_separators (q : Path) :
    ∃ k q', q = List.replicate k '/' ++ q' ∧ q'.head? ≠ some '/' := by
  refine ⟨(q.takeWhile (· == '/')).length, q.dropWhile (· == '/'), ?_, ?_⟩
  · have hall : q.takeWhile (· == '/') =
        List.replicate (q.takeWhile (· == '/')).length '/' := by
      refine List.eq_replicate_iff.mpr ⟨rfl, fun c hc => ?_⟩
      have hsep := List.mem_takeWhile_imp hc
      exact beq_iff_eq.mp hsep
    rw [← hall, List.takeWhile_append_dropWhile]
  · intro hhead
    have hnot := List.head?_dropWhile_not (· == '/') q
    rw [hhead] at hnot
    cases hnot

theorem takeWhile_separators (hhead : q.head? ≠ some '/') (k : Nat) :
    (List.replicate k '/' ++ q).takeWhile (· == '/') = List.replicate k '/' := by
  rw [List.takeWhile_append_of_pos]
  · cases q with
    | nil => simp
    | cons c q =>
        have hc : c ≠ '/' := by simpa using hhead
        simp [hc]
  · intro d hd
    rw [List.eq_of_mem_replicate hd]
    rfl

/-- Where an iterator stands, unless at the root directory or the two separators that begin a
path. -/
inductive Stands : Path → Iterator → Prop
  | name {pre n post : Path} (hpre : BeforeName pre) (hn : IsName n) (hpost : Ended post) :
      Stands (pre ++ (n ++ post)) { element := n, pos := pre.length }
  | dot {pre n : Path} (k : Nat) (hpre : BeforeName pre) (hn : IsName n) :
      Stands (pre ++ (n ++ List.replicate (k + 1) '/'))
        { element := dotPath, pos := pre.length + n.length + k }
  | net {e post : Path} (he : IsNet e) (hpost : Ended post) :
      Stands (e ++ post) { element := e, pos := 0 }
  | root {e : Path} (he : IsNet e) (post : Path) :
      Stands (e ++ '/' :: post) { element := ['/'], pos := e.length }

theorem Stands.of_name (hpath : path = p ++ (n ++ post)) (hpos : pos = p.length) (hp : BeforeName p)
    (hn : IsName n) (hpost : Ended post) : Stands path { element := n, pos } := by
  subst hpath hpos
  exact .name hp hn hpost

/-! ## Increments -/

variable {it : Iterator}

theorem elementAt_name {n post : Path} (hn : IsName n) (hpost : Ended post) (p : Path) :
    elementAt (p ++ (n ++ post)) p.length = { element := n, pos := p.length } := by
  rw [elementAt_def, List.drop_left, hn.takeWhile hpost.takeWhile]

theorem elementAt_length (path : Path) : path.elementAt path.length = path.stop := by
  rw [elementAt_def, List.drop_length]
  rfl

/-- Past separators to a name, or to the end of the path after the root directory. -/
theorem increment_skip {path p q : Path} (hpath : path = p ++ (List.replicate k '/' ++ q))
    (hhead : q.head? ≠ some '/') (hpos : it.pos + it.element.length = p.length)
    (hnet : wasNet it.element = false)
    (hroot : q = [] → k = 0 ∨ path.isRootSeparator (p.length + k - 1) = true) :
    path.increment it = path.elementAt (p.length + k) := by
  have hend : path.length = p.length + k + q.length := by
    rw [hpath, List.length_append, List.length_append, List.length_replicate, Nat.add_assoc]
  rw [increment_def]
  dsimp only
  rw [hpos]
  cases k with
  | zero =>
      have hsep : path.isDirectorySeparator p.length = false := by
        rw [hpath, isDirectorySeparator_append]
        exact beq_eq_false_iff_ne.mpr hhead
      rw [hsep, if_neg Bool.false_ne_true]
      split
      · rename_i hstop
        rw [hstop, Nat.add_zero, elementAt_length]
        rfl
      · rfl
  | succ k =>
      have hsep : path.isDirectorySeparator p.length = true := by
        rw [hpath, isDirectorySeparator_append]
        rfl
      have hskip : (path.drop p.length).takeWhile (· == '/') = List.replicate (k + 1) '/' := by
        rw [hpath, List.drop_left, takeWhile_separators hhead]
      rw [if_neg (by omega), if_pos hsep, hnet, if_neg (by simp), hskip, List.length_replicate,
        if_neg]
      rintro ⟨hstop, hnot⟩
      exact hnot ((hroot (List.length_eq_zero_iff.mp (by omega))).resolve_left (by omega))

theorem increment_separators (hpath : path = p ++ (List.replicate k '/' ++ (n ++ post)))
    (hn : IsName n) (hpost : Ended post) (hpos : it.pos + it.element.length = p.length)
    (hnet : wasNet it.element = false) :
    path.increment it = { element := n, pos := p.length + k } := by
  have hname := elementAt_name hn hpost (p ++ List.replicate k '/')
  rw [List.append_assoc, ← hpath, List.length_append, List.length_replicate] at hname
  rw [increment_skip hpath (beq_eq_false_iff_ne.mp (hn.head? post)) hpos hnet, hname]
  exact fun hnil => absurd (List.append_eq_nil_iff.mp hnil).1 hn.1

theorem increment_trailing {path p : Path} (hpath : path = p ++ List.replicate (k + 1) '/')
    (hpos : it.pos + it.element.length = p.length) (hnet : wasNet it.element = false)
    (hroot : path.isRootSeparator (p.length + k) = false) :
    path.increment it = { element := dotPath, pos := p.length + k } := by
  have hend : path.length = p.length + (k + 1) := by
    rw [hpath, List.length_append, List.length_replicate]
  have hsep : path.isDirectorySeparator p.length = true := by
    rw [hpath, isDirectorySeparator_append]
    rfl
  have hskip : (path.drop p.length).takeWhile (· == '/') = List.replicate (k + 1) '/' := by
    have hall := takeWhile_separators (q := []) (by simp) (k + 1)
    rw [List.append_nil] at hall
    rw [hpath, List.drop_left, hall]
  have hlast : path.length - 1 = p.length + k := by omega
  rw [increment_def]
  dsimp only
  rw [hpos, if_neg (by omega), if_pos hsep, hnet, if_neg (by simp), hskip, List.length_replicate,
    ← hend, hlast, if_pos ⟨rfl, Bool.eq_false_iff.mp hroot⟩]

theorem increment_stop (h : it.pos + it.element.length = path.length) :
    path.increment it = path.stop := by
  rw [increment_def]
  dsimp only
  rw [h, if_pos rfl]
  rfl

/-! ## Decrements -/

variable {e : Path}

theorem decrement_name {path pre n q : Path}
    (hpath : path = pre ++ (n ++ (List.replicate k '/' ++ q))) (hpre : BeforeName pre)
    (hn : IsName n) (hpos : it.pos = pre.length + n.length + k)
    (hend : it.pos = path.length → k = 0) :
    path.decrement it = { element := n, pos := pre.length } := by
  have hlength : 0 < n.length := List.length_pos_iff.mpr hn.1
  have hskip (size : Nat) :
      path.skipSeparators (path.rootDirectoryStart size) (pre.length + n.length + k) =
        pre.length + n.length := by
    have hroot : ∀ r ∈ path.rootDirectoryStart size, r < (pre ++ n).length := by
      intro r hr
      rw [hpath] at hr
      have hlt := rootDirectoryStart_lt hpre hn _ size r hr
      rw [List.length_append]
      omega
    have hback := skipSeparators_separators (hn.endsName pre) q hroot (Nat.le_refl k)
    rwa [List.append_assoc, List.length_append, ← hpath] at hback
  have hfilename : path.filenamePos (pre.length + n.length) = pre.length := by
    rw [hpath]
    exact filenamePos_name hpre hn _
  rw [decrement_def, if_neg]
  · dsimp only
    rw [hpos, hskip, hfilename, if_neg (by omega), hpath, List.drop_left,
      Nat.add_sub_cancel_left, List.take_left]
  · rintro ⟨hstop, _, hsep, _⟩
    obtain rfl := hend hstop
    have hlast := hn.isDirectorySeparator pre (List.replicate 0 '/' ++ q)
      (by omega : n.length - 1 < n.length)
    rw [← hpath, ← Nat.add_sub_assoc hlength] at hlast
    rw [hpos, Nat.add_zero] at hsep
    cases hlast.symm.trans hsep

theorem decrement_trailing {path pre n : Path}
    (hpath : path = pre ++ (n ++ List.replicate (k + 1) '/')) (hpre : BeforeName pre)
    (hn : IsName n) :
    path.decrement path.stop = { element := dotPath, pos := pre.length + n.length + k } := by
  have hlength : 0 < n.length := List.length_pos_iff.mpr hn.1
  have hend : path.length = pre.length + n.length + k + 1 := by
    rw [hpath]
    simp only [List.length_append, List.length_replicate]
    omega
  have hpath' : path = pre ++ (n ++ (List.replicate (k + 1) '/' ++ [])) := by
    rw [hpath, List.append_nil]
  have hroot : path.isRootSeparator (pre.length + n.length + k) = false := by
    rw [hpath']
    exact isRootSeparator_name hpre hn [] (Nat.le_succ k)
  have hsep : path.isDirectorySeparator (pre.length + n.length + k) = true := by
    have hlast := isDirectorySeparator_separators (pre ++ n) [] (Nat.lt_succ_self k)
    rwa [List.append_assoc, ← hpath', List.length_append] at hlast
  rw [decrement_def, if_pos]
  · rw [stop, hend, Nat.add_sub_cancel]
  · rw [stop, hend, Nat.add_sub_cancel]
    exact ⟨rfl, by omega, hsep, by rw [hroot]; simp⟩

theorem decrement_root {path p q : Path} (hpath : path = p ++ (List.replicate (k + 1) '/' ++ q))
    (hp : p.length ≠ 1) (hstart : path.rootDirectoryStart (p.length + (k + 1)) = some p.length)
    (hroot : path.isRootSeparator (p.length + k) = true) (hpos : it.pos = p.length + (k + 1)) :
    path.decrement it = { element := ['/'], pos := p.length } := by
  have hsep : path.isDirectorySeparator p.length = true := by
    rw [hpath]
    exact isDirectorySeparator_separators p q (Nat.succ_pos k)
  have hfilename : path.filenamePos (p.length + 1) = p.length := by
    rw [filenamePos_def, if_neg (by omega), Nat.add_sub_cancel, if_pos ⟨by omega, hsep⟩]
  have hskip : path.skipSeparators (some p.length) (p.length + (k + 1)) = p.length + 1 := by
    rw [hpath]
    exact skipSeparators_root p q (Nat.lt_succ_self k)
  have helement : (path.drop p.length).take 1 = ['/'] := by
    rw [hpath, List.drop_left]
    rfl
  rw [decrement_def, if_neg]
  · dsimp only
    rw [hpos, hstart, hskip, hfilename, if_neg (by omega), Nat.add_sub_cancel_left, helement]
  · rintro ⟨_, _, _, hnot⟩
    rw [hpos] at hnot
    exact hnot hroot

theorem IsNet.endsName (he : IsNet e) : EndsName e := by
  obtain ⟨name, hname, rfl⟩ := he
  exact hname.endsName ['/', '/']

theorem IsNet.filenamePos (he : IsNet e) (q : Path) : Path.filenamePos (e ++ q) e.length = 0 := by
  have hends := he.endsName
  obtain ⟨name, hname, rfl⟩ := he
  have hlength : 0 < name.length := List.length_pos_iff.mpr hname.1
  have hlast := hends.isDirectorySeparator q (show _ = name.length + 1 + 1 from rfl)
  have hfind : findLastOf ('/' :: '/' :: name ++ q) (name.length + 2) = some 1 := by
    have hbefore := findLastOf_append hname ['/', '/'] q (Nat.le_refl _)
    rw [Nat.add_comm] at hbefore
    exact hbefore
  rw [filenamePos_def, List.length_cons, List.length_cons, if_neg (by omega),
    if_neg (fun h => by cases hlast.symm.trans h.2), if_neg (by omega), hfind]
  rfl

theorem decrement_net {e q : Path} (he : IsNet e) (hpos : it.pos = e.length) :
    decrement (e ++ q) it = { element := e, pos := 0 } := by
  rw [decrement_def, if_neg]
  · dsimp only
    rw [hpos, skipSeparators_endsName he.endsName, he.filenamePos, if_neg (Nat.not_lt_zero _),
      List.drop_zero, Nat.sub_zero, List.take_left]
  · rintro ⟨_, _, hsep, _⟩
    have hthree : 0 < e.length := by
      obtain ⟨name, _, rfl⟩ := he
      exact Nat.succ_pos _
    have hlast := he.endsName.isDirectorySeparator q (show e.length = e.length - 1 + 1 by omega)
    rw [hpos] at hsep
    cases hlast.symm.trans hsep

/-! ## Root directories -/

theorem isDirectorySeparator_leading (q : Path) (h : pos < k) :
    isDirectorySeparator (List.replicate k '/' ++ q) pos = true := by
  have hsep := isDirectorySeparator_separators [] q h
  rwa [List.nil_append, List.length_nil, Nat.zero_add] at hsep

theorem rootDirectoryStart_leading (q : Path) (hk : k ≠ 1) :
    rootDirectoryStart (List.replicate (k + 1) '/' ++ q) (k + 1) = some 0 := by
  have hsep {pos : Nat} (hpos : pos < k + 1) := isDirectorySeparator_leading q hpos
  rw [rootDirectoryStart_def, if_neg (by omega), if_neg, if_pos ⟨by omega, hsep (by omega)⟩]
  rintro ⟨hsize, _, _, hname⟩
  exact hname (hsep (by omega))

theorem isRootSeparator_leading (q : Path) (k : Nat) :
    isRootSeparator (List.replicate (k + 1) '/' ++ q) k = true := by
  have hleft : leftmost (List.replicate (k + 1) '/' ++ q) k = 0 := by
    have h := leftmost_separators (p := []) (by simp [EndsName]) q (Nat.le_succ k)
    rwa [List.nil_append, List.length_nil, Nat.zero_add] at h
  rw [isRootSeparator_def, hleft, if_pos rfl]

/-- Leading separators are left to the first one. -/
theorem decrement_leading {path q : Path} (hk : k ≠ 1)
    (hpath : path = List.replicate (k + 1) '/' ++ q) (hpos : it.pos = k + 1) :
    path.decrement it = { element := ['/'], pos := 0 } := by
  have hstart := rootDirectoryStart_leading q hk
  have hroot := isRootSeparator_leading q k
  rw [← hpath] at hstart hroot
  refine decrement_root (p := []) hpath (by simp) ?_ ?_ ?_
  · rwa [List.length_nil, Nat.zero_add]
  · rwa [List.length_nil, Nat.zero_add]
  · rwa [List.length_nil, Nat.zero_add]

theorem findFirstOf_net {name : Path} (h : IsName name) (q : Path) :
    findFirstOf ('/' :: '/' :: (name ++ '/' :: q)) 2 = some (name.length + 2) := by
  have hname : name.findIdx? (· == '/') = none := by
    rw [List.findIdx?_eq_none_iff]
    intro c hc
    refine beq_eq_false_iff_ne.mpr ?_
    rintro rfl
    exact h.2 hc
  rw [findFirstOf, show List.drop 2 ('/' :: '/' :: (name ++ '/' :: q)) = name ++ '/' :: q from rfl,
    List.findIdx?_append, hname, List.findIdx?_cons]
  simp

section Net

variable (he : IsNet e) (q : Path)
include he

theorem IsNet.three_le : 3 ≤ e.length := by
  obtain ⟨name, hname, rfl⟩ := he
  have hpos : 0 < name.length := List.length_pos_iff.mpr hname.1
  rw [List.length_cons, List.length_cons]
  omega

theorem IsNet.rootDirectoryStart {size : Nat} (h : e.length < size) :
    rootDirectoryStart (e ++ '/' :: q) size = some e.length := by
  have hlength := he.three_le
  obtain ⟨name, hname, rfl⟩ := he
  have hsep : isDirectorySeparator ('/' :: '/' :: name ++ '/' :: q) 2 = false := by
    rw [isDirectorySeparator_eq]
    exact hname.head? ('/' :: q)
  rw [rootDirectoryStart_def, if_neg (by omega), if_pos, List.cons_append, List.cons_append,
    findFirstOf_net hname]
  · exact Option.filter_eq_some_iff.mpr ⟨rfl, decide_eq_true h⟩
  · exact ⟨by omega, rfl, rfl, Bool.eq_false_iff.mp hsep⟩

theorem IsNet.isRootSeparator {k pos : Nat} (h : pos ≤ k) :
    isRootSeparator (e ++ (List.replicate (k + 1) '/' ++ q)) (e.length + pos) = true := by
  have hlength := he.three_le
  obtain ⟨name, hname, rfl⟩ := he
  have hleft := leftmost_separators (hname.endsName ['/', '/']) q (Nat.le_succ_of_le h)
  have hfind := findFirstOf_net hname (List.replicate k '/' ++ q)
  rw [isRootSeparator_def]
  change leftmost ('/' :: '/' :: name ++ _) _ = _ at hleft
  rw [show ['/', '/'] ++ name = '/' :: '/' :: name from rfl] at hleft
  rw [hleft, if_neg (by omega), if_neg]
  · exact beq_iff_eq.mpr hfind
  · rintro (hless | hzero | hone)
    · omega
    · exact hzero rfl
    · exact hone rfl

theorem IsNet.beforeName (k : Nat) : BeforeName (e ++ List.replicate (k + 1) '/') where
  separator := .inr ⟨e ++ List.replicate k '/', by
    rw [List.replicate_succ', List.append_assoc]⟩
  not_net := by
    rintro ⟨hlength, _⟩
    have hthree := he.three_le
    rw [List.length_append] at hlength
    omega

end Net

/-! ## Steps -/

structure Moves (path : Path) (it next : Iterator) : Prop where
  stands : next = path.stop ∨ Stands path next
  forward : it.pos < next.pos
  back : path.decrement next = it

theorem beforeName_leading (hk : k ≠ 1) : BeforeName (List.replicate (k + 1) '/') where
  separator := .inr ⟨List.replicate k '/', List.replicate_succ'⟩
  not_net := by
    rintro ⟨hlength, _⟩
    rw [List.length_replicate] at hlength
    omega

theorem moves_name {pre n post : Path} (hpre : BeforeName pre) (hn : IsName n)
    (hpost : Ended post) :
    Moves (pre ++ (n ++ post)) { element := n, pos := pre.length }
      (increment (pre ++ (n ++ post)) { element := n, pos := pre.length }) := by
  have hlength : 0 < n.length := List.length_pos_iff.mpr hn.1
  have hnet := wasNet_of_isName hn
  have hpos : pre.length + n.length = (pre ++ n).length := List.length_append.symm
  rcases hpost with rfl | ⟨post, rfl⟩
  · -- The end of the path.
    rw [increment_stop (by simp)]
    refine ⟨.inl rfl, ?_, decrement_name (k := 0) (q := []) rfl hpre hn ?_ fun _ => rfl⟩
    · simp [stop]
      omega
    · simp [stop]
  · obtain ⟨k, q, hq, hhead⟩ := exists_separators ('/' :: post)
    rw [hq]
    cases k with
    | zero =>
        rw [List.replicate_zero, List.nil_append] at hq
        rw [← hq] at hhead
        exact absurd rfl hhead
    | succ k =>
        by_cases hempty : q = []
        · -- Trailing separators.
          subst hempty
          have hpath : pre ++ (n ++ (List.replicate (k + 1) '/' ++ [])) =
              pre ++ n ++ List.replicate (k + 1) '/' := by simp
          have hroot := isRootSeparator_name hpre hn [] (Nat.le_succ k)
          rw [hpos] at hroot
          rw [increment_trailing hpath hpos hnet hroot, ← hpos]
          refine ⟨.inr ?_, ?_, ?_⟩
          · rw [List.append_nil]
            exact .dot k hpre hn
          · dsimp only
            omega
          · refine decrement_name (k := k) (q := ['/']) ?_ hpre hn rfl fun hend => ?_
            · rw [List.append_nil, List.replicate_succ']
            · simp at hend
              omega
        · -- The next name.
          obtain ⟨m, post, rfl, hm, hpost⟩ := exists_name hempty hhead
          have hmpos : 0 < m.length := List.length_pos_iff.mpr hm.1
          rw [increment_separators (List.append_assoc _ _ _).symm hm hpost hpos hnet, ← hpos]
          refine ⟨.inr ?_, ?_, decrement_name rfl hpre hn rfl fun hend => ?_⟩
          · refine .of_name ?_ ?_ (beforeName_separators (p := pre) hn k) hm hpost
            · simp
            · simp [Nat.add_assoc]
          · dsimp only
            omega
          · simp at hend
            omega

theorem moves_dot {pre n : Path} (k : Nat) (hpre : BeforeName pre) (hn : IsName n) :
    Moves (pre ++ (n ++ List.replicate (k + 1) '/'))
      { element := dotPath, pos := pre.length + n.length + k }
      (increment (pre ++ (n ++ List.replicate (k + 1) '/'))
        { element := dotPath, pos := pre.length + n.length + k }) := by
  rw [increment_stop (by simp [dotPath]; omega)]
  refine ⟨.inl rfl, ?_, decrement_trailing rfl hpre hn⟩
  simp [stop]
  omega

theorem moves_net {e post : Path} (he : IsNet e) (hpost : Ended post) :
    Moves (e ++ post) { element := e, pos := 0 }
      (increment (e ++ post) { element := e, pos := 0 }) := by
  have hlength := he.three_le
  rcases hpost with rfl | ⟨post, rfl⟩
  · rw [increment_stop (by simp)]
    refine ⟨.inl rfl, ?_, decrement_net he (by simp [stop])⟩
    simp [stop]
    omega
  · rw [increment_net he]
    exact ⟨.inr (.root he post), by dsimp only; omega, decrement_net he rfl⟩

theorem increment_net_root {e q : Path} (he : IsNet e) (k : Nat) (hhead : q.head? ≠ some '/') :
    increment (e ++ (List.replicate (k + 1) '/' ++ q)) { element := ['/'], pos := e.length } =
      elementAt (e ++ (List.replicate (k + 1) '/' ++ q)) (e.length + (k + 1)) := by
  have hsplit : e ++ (List.replicate (k + 1) '/' ++ q) =
      e ++ ['/'] ++ (List.replicate k '/' ++ q) := by simp [List.replicate_succ]
  have hlength : (e ++ ['/']).length + k = e.length + (k + 1) := by
    rw [List.length_append, List.length_singleton]
    omega
  rw [increment_skip hsplit hhead List.length_append.symm rfl, hlength]
  rw [hlength]
  exact fun _ => .inr (he.isRootSeparator q (Nat.le_refl k))

theorem moves_root (he : IsNet e) (post : Path) :
    Moves (e ++ '/' :: post) { element := ['/'], pos := e.length }
      (increment (e ++ '/' :: post) { element := ['/'], pos := e.length }) := by
  have hlength := he.three_le
  obtain ⟨k, q, rfl, hhead⟩ := exists_separators post
  have hpath : e ++ '/' :: (List.replicate k '/' ++ q) =
      e ++ (List.replicate (k + 1) '/' ++ q) := rfl
  have hstart : rootDirectoryStart (e ++ (List.replicate (k + 1) '/' ++ q))
      (e.length + (k + 1)) = some e.length := he.rootDirectoryStart _ (by omega)
  rw [hpath, increment_net_root he k hhead]
  refine ⟨?_, by rw [elementAt_def]; dsimp only; omega,
    decrement_root rfl (by omega) hstart (he.isRootSeparator q (Nat.le_refl k)) rfl⟩
  have hadd : e.length + (k + 1) = (e ++ List.replicate (k + 1) '/').length := by
    rw [List.length_append, List.length_replicate]
  rw [hadd, ← List.append_assoc]
  by_cases hempty : q = []
  · subst hempty
    rw [List.append_nil, elementAt_length]
    exact .inl rfl
  · obtain ⟨n, post, rfl, hn, hpost⟩ := exists_name hempty hhead
    rw [elementAt_name hn hpost]
    exact .inr (.name (he.beforeName k) hn hpost)

/-- Every step forward is undone by a step backward. -/
theorem Stands.moves (h : Stands path it) : Moves path it (path.increment it) := by
  cases h with
  | name hpre hn hpost => exact moves_name hpre hn hpost
  | dot k hpre hn => exact moves_dot k hpre hn
  | net he hpost => exact moves_net he hpost
  | root he post => exact moves_root he post

theorem increment_leading (hk : k ≠ 1) (hhead : q.head? ≠ some '/') {next : Iterator}
    (hnext : increment (List.replicate (k + 1) '/' ++ q) { element := ['/'], pos := k } = next) :
    (next = stop (List.replicate (k + 1) '/' ++ q) ∨
      Stands (List.replicate (k + 1) '/' ++ q) next) ∧ next.pos = k + 1 := by
  subst hnext
  by_cases hempty : q = []
  · subst hempty
    rw [increment_stop (by simp)]
    exact ⟨.inl rfl, by simp [stop]⟩
  · obtain ⟨n, post, rfl, hn, hpost⟩ := exists_name hempty hhead
    rw [increment_separators (p := List.replicate (k + 1) '/') (k := 0) (by simp) hn hpost
      (by simp) rfl]
    refine ⟨.inr (.of_name rfl (by simp) (beforeName_leading hk) hn hpost), by simp⟩

/-! ## The first element -/

theorem begin_leading (hk : k ≠ 1) (hhead : q.head? ≠ some '/') :
    begin (List.replicate (k + 1) '/' ++ q) = { element := ['/'], pos := k } := by
  have hsep {pos : Nat} (hpos : pos < k + 1) := isDirectorySeparator_leading q hpos
  have hskip : ((List.replicate (k + 1) '/' ++ q).drop 1).takeWhile (· == '/') =
      List.replicate k '/' := by
    rw [List.replicate_succ, List.cons_append, List.drop_succ_cons, List.drop_zero,
      takeWhile_separators hhead]
  have hfirst : firstElement (List.replicate (k + 1) '/' ++ q) = (k, 1) := by
    rw [firstElement_def, if_neg (by simp), if_neg, if_pos (hsep (by omega)), hskip,
      List.length_replicate]
    rintro ⟨hlength, _, hone, hname⟩
    cases k with
    | zero =>
        have hname : isDirectorySeparator (List.replicate (0 + 1) '/' ++ q) 1 = false := by
          rw [isDirectorySeparator_eq]
          exact beq_eq_false_iff_ne.mpr hhead
        cases hname.symm.trans hone
    | succ k =>
        rw [List.length_append, List.length_replicate] at hname
        rcases hname with htwo | hnot
        · omega
        · exact hnot (hsep (by omega))
  rw [begin_def, hfirst]
  dsimp only
  rw [List.replicate_succ', List.append_assoc, List.drop_left' (by simp)]
  rfl

/-- The paths that do not begin with a name, a network name or one separator. -/
def Leading (path : Path) : Prop := path = ['/', '/'] ∨ ['/', '/', '/'] <+: path

theorem leading_replicate_iff (hk : k ≠ 1) (hhead : q.head? ≠ some '/') :
    Leading (List.replicate (k + 1) '/' ++ q) ↔ k ≠ 0 := by
  constructor
  · rintro hleading rfl
    cases q with
    | nil => revert hleading; simp [Leading]
    | cons c q =>
        have hc : c ≠ '/' := by simpa using hhead
        revert hleading
        simp [Leading, hc, hc.symm]
  · intro hne
    obtain ⟨j, rfl⟩ : ∃ j, k = j + 2 := ⟨k - 2, by omega⟩
    exact .inr ⟨List.replicate j '/' ++ q, rfl⟩

/-- What a path begins with. -/
theorem begin_cases (hne : path ≠ []) :
    Stands path path.begin ∧ ¬ Leading path ∨ path = ['/', '/'] ∨
      ∃ k q, k ≠ 1 ∧ q.head? ≠ some '/' ∧ path = List.replicate (k + 1) '/' ++ q := by
  obtain ⟨k, q, rfl, hhead⟩ := exists_separators path
  match k with
  | 0 =>
      rw [List.replicate_zero, List.nil_append] at hne ⊢
      obtain ⟨n, post, rfl, hn, hpost⟩ := exists_name hne hhead
      rw [hn.begin hpost.takeWhile]
      refine .inl ⟨.of_name (p := []) rfl rfl ⟨.inl rfl, by simp⟩ hn hpost, ?_⟩
      obtain ⟨c, cs, rfl, hc⟩ := hn.exists_cons
      simp [Leading, hc, hc.symm]
  | 2 =>
      by_cases hempty : q = []
      · subst hempty
        exact .inr (.inl rfl)
      · obtain ⟨n, post, rfl, hn, hpost⟩ := exists_name hempty hhead
        have he : IsNet ('/' :: '/' :: n) := ⟨n, hn, rfl⟩
        have hpath : List.replicate 2 '/' ++ (n ++ post) = '/' :: '/' :: n ++ post := rfl
        rw [hpath, he.begin hpost.takeWhile]
        refine .inl ⟨.net he hpost, ?_⟩
        obtain ⟨c, cs, rfl, hc⟩ := hn.exists_cons
        simp [Leading, hc.symm]
  | 1 => exact .inr (.inr ⟨0, q, by omega, hhead, rfl⟩)
  | k + 3 => exact .inr (.inr ⟨k + 2, q, by omega, hhead, rfl⟩)

/-! ## Whole iterations -/

theorem Stands.pos_lt (h : Stands path it) : it.pos < path.length := by
  cases h with
  | @name pre n post hpre hn hpost =>
      have hlength : 0 < n.length := List.length_pos_iff.mpr hn.1
      simp
      omega
  | dot k hpre hn =>
      simp
      omega
  | @net e post he hpost =>
      have hlength := he.three_le
      simp
      omega
  | root he post => simp

theorem Stands.within (h : Stands path it) : it.Within path := by
  rw [Iterator.Within]
  cases h with
  | name hpre hn hpost => simp
  | dot k hpre hn =>
      simp [dotPath]
      omega
  | net he hpost => simp
  | root he post => simp

/-- What steps backward from the end visit, up to an iterator from which the given ones follow. -/
structure Backward (path : Path) (it : Iterator) (its : List Iterator) : Prop where
  visits : ((List.range its.length).map fun i => path.decrement^[i + 1] path.stop) = its.reverse
  reaches : path.decrement^[its.length] path.stop = it
  right : ∀ i < its.length, it.pos < (path.decrement^[i] path.stop).pos
  sorted : its.Pairwise (·.pos < ·.pos)

theorem Backward.stop (path : Path) : Backward path path.stop [] where
  visits := rfl
  reaches := rfl
  right := fun i hi => absurd hi (Nat.not_lt_zero i)
  sorted := .nil

section Backward

variable {next : Iterator} {its : List Iterator} (h : Backward path next its)
include h

theorem Backward.le_of_mem {jt : Iterator} (hjt : jt ∈ its) : next.pos ≤ jt.pos := by
  have hmem : jt ∈ its.reverse := List.mem_reverse.mpr hjt
  rw [← h.visits] at hmem
  obtain ⟨i, hi, rfl⟩ := List.mem_map.mp hmem
  have hle : i + 1 ≤ its.length := List.mem_range.mp hi
  rcases Nat.lt_or_eq_of_le hle with hlt | heq
  · exact Nat.le_of_lt (h.right (i + 1) hlt)
  · rw [heq, h.reaches]

theorem Backward.sorted_cons (hforward : it.pos < next.pos) :
    (it :: its).Pairwise (·.pos < ·.pos) :=
  List.pairwise_cons.mpr
    ⟨fun _ hjt => Nat.lt_of_lt_of_le hforward (h.le_of_mem hjt), h.sorted⟩

/-- One more step backward. -/
theorem Backward.cons (hforward : it.pos < next.pos) (hback : path.decrement next = it) :
    Backward path it (it :: its) where
  visits := by
    rw [List.length_cons, List.range_succ, List.map_append, h.visits, List.map_singleton,
      Function.iterate_succ_apply', h.reaches, hback, List.reverse_cons]
  reaches := by rw [List.length_cons, Function.iterate_succ_apply', h.reaches, hback]
  right := by
    intro i hi
    rcases Nat.lt_or_eq_of_le (Nat.le_of_lt_succ hi) with hlt | rfl
    · exact Nat.lt_trans hforward (h.right i hlt)
    · rwa [h.reaches]
  sorted := h.sorted_cons hforward

theorem Backward.getLast? (hne : its ≠ []) : its.getLast? = some (path.decrement path.stop) := by
  have hvisits := congrArg List.head? h.visits
  rw [List.head?_reverse, List.head?_map, List.head?_range,
    if_neg (Nat.ne_of_gt (List.length_pos_iff.mpr hne))] at hvisits
  exact hvisits.symm

end Backward

theorem Stands.backward (h : it = path.stop ∨ Stands path it) {fuel : Nat}
    (hfuel : path.length ≤ it.pos + fuel) : Backward path it (path.iteratorsFrom fuel it) := by
  induction fuel generalizing it with
  | zero =>
      rcases h with rfl | h
      · exact .stop path
      · have hpos := h.pos_lt
        omega
  | succ fuel ih =>
      rcases h with rfl | h
      · rw [iteratorsFrom_end rfl]
        exact .stop path
      · have hforward := h.moves.forward
        rw [iteratorsFrom_succ, if_neg (Nat.ne_of_lt h.pos_lt)]
        exact (ih h.moves.stands (by omega)).cons hforward h.moves.back

theorem exists_backward (hne : path ≠ []) :
    ∃ its, path.iterators = path.begin :: its ∧ Backward path (path.increment path.begin) its ∧
      path.begin.pos < (path.increment path.begin).pos := by
  refine ⟨_, iterators_eq hne, ?_⟩
  have hlength : 0 < path.length := List.length_pos_iff.mpr hne
  rcases begin_cases hne with ⟨hstands, _⟩ | rfl | ⟨k, q, hk, hhead, hpath⟩
  · have hforward := hstands.moves.forward
    exact ⟨Stands.backward hstands.moves.stands (by omega), hforward⟩
  · exact ⟨Backward.stop _, Nat.succ_pos _⟩
  · have hbegin : path.begin = { element := ['/'], pos := k } := by
      rw [hpath]
      exact begin_leading hk hhead
    obtain ⟨hstands, hpos⟩ := increment_leading hk hhead rfl
    rw [← hpath, ← hbegin] at hstands hpos
    have hforward : path.begin.pos < (path.increment path.begin).pos := by
      rw [hpos, hbegin]
      exact Nat.lt_succ_self k
    exact ⟨Stands.backward hstands (by omega), hforward⟩

/-! ## Backward iteration -/

/-- Steps backward from `end` visit the elements in reverse order and reach `begin`, and reverse
iteration does so from `rbegin` to `rend`. Iterators are compared by their positions. -/
structure IteratesBackward (path : Path) : Prop where
  visits : ((List.range path.elements.length).map fun i =>
    (path.decrement^[i + 1] path.stop).element) = path.elements.reverse
  reaches : (path.decrement^[path.elements.length] path.stop).pos = path.begin.pos
  reverse_visits : ((List.range path.elements.length).map fun i =>
    (path.reverseIncrement^[i] path.rbegin).element) = path.elements.reverse
  reverse_reaches :
    (path.reverseIncrement^[path.elements.length] path.rbegin).itr.pos = path.rend.itr.pos

theorem itr_reverseIncrement (path : Path) (i : Nat) :
    (path.reverseIncrement^[i] path.rbegin).itr = path.decrement^[i] path.stop := by
  induction i with
  | zero => rfl
  | succ i ih =>
      rw [Function.iterate_succ_apply', Function.iterate_succ_apply', ← ih]
      rfl

theorem element_reverseIncrement {i : Nat}
    (h : (path.decrement^[i] path.stop).pos ≠ path.begin.pos) :
    (path.reverseIncrement^[i] path.rbegin).element =
      (path.decrement^[i + 1] path.stop).element := by
  cases i with
  | zero =>
      rw [Function.iterate_zero, id_eq, rbegin, reverseOf]
      exact if_pos h
  | succ i =>
      have hitr := path.itr_reverseIncrement i
      rw [Function.iterate_succ_apply', Function.iterate_succ_apply' _ (i + 1),
        Function.iterate_succ_apply']
      rw [Function.iterate_succ_apply', ← hitr] at h
      rw [← hitr, reverseIncrement]
      exact if_pos h

/-- Only the position of the first element is left to compare. -/
theorem iteratesBackward_iff {its : List Iterator} {first : Iterator}
    (hits : path.iterators = path.begin :: its)
    (hrest : Backward path (path.increment path.begin) its)
    (hforward : path.begin.pos < (path.increment path.begin).pos)
    (hfirst : path.decrement (path.increment path.begin) = first) :
    IteratesBackward path ↔
      first.element = path.begin.element ∧ first.pos = path.begin.pos := by
  have hlength : path.elements.length = its.length + 1 := by
    rw [elements, hits, List.length_map, List.length_cons]
  have hreverse : path.elements.reverse =
      its.reverse.map Iterator.element ++ [path.begin.element] := by
    rw [elements, hits, List.map_cons, List.reverse_cons, List.map_reverse]
  have hreaches : path.decrement^[its.length + 1] path.stop = first := by
    rw [Function.iterate_succ_apply', hrest.reaches, hfirst]
  have hvisits : ((List.range path.elements.length).map fun i =>
      (path.decrement^[i + 1] path.stop).element) =
        its.reverse.map Iterator.element ++ [first.element] := by
    rw [hlength, List.range_succ, List.map_append, List.map_singleton, hreaches, ← hrest.visits,
      List.map_map]
    rfl
  have helements : ((List.range path.elements.length).map fun i =>
      (path.reverseIncrement^[i] path.rbegin).element) =
        (List.range path.elements.length).map fun i =>
          (path.decrement^[i + 1] path.stop).element := by
    refine List.map_congr_left fun i hi => element_reverseIncrement ?_
    rw [List.mem_range, hlength] at hi
    rcases Nat.lt_or_eq_of_le (Nat.le_of_lt_succ hi) with hlt | rfl
    · have hright := hrest.right i hlt
      omega
    · rw [hrest.reaches]
      omega
  constructor
  · intro h
    have hlast := h.visits
    rw [hvisits, hreverse] at hlast
    have hreached := h.reaches
    rw [hlength, hreaches] at hreached
    exact ⟨List.head_eq_of_cons_eq (List.append_cancel_left hlast), hreached⟩
  · rintro ⟨helement, hpos⟩
    have hall : its.reverse.map Iterator.element ++ [first.element] = path.elements.reverse := by
      rw [hreverse, helement]
    exact {
      visits := hvisits.trans hall
      reaches := by rwa [hlength, hreaches]
      reverse_visits := helements.trans (hvisits.trans hall)
      reverse_reaches := by
        rw [itr_reverseIncrement, hlength, hreaches]
        exact hpos }

/-- Backward iteration fails for `//` and for paths that begin with three or more separators, and
for no other path. -/
theorem iterates_backward_iff (path : Path) :
    IteratesBackward path ↔ ¬ (path = ['/', '/'] ∨ ['/', '/', '/'] <+: path) := by
  change _ ↔ ¬ Leading path
  by_cases hne : path = []
  · subst hne
    exact ⟨fun _ => by simp [Leading], fun _ => ⟨rfl, rfl, rfl, rfl⟩⟩
  · obtain ⟨its, hits, hrest, hforward⟩ := exists_backward hne
    rcases begin_cases hne with ⟨hstands, hleading⟩ | rfl | ⟨k, q, hk, hhead, hpath⟩
    · rw [iteratesBackward_iff hits hrest hforward hstands.moves.back]
      exact iff_of_true ⟨rfl, rfl⟩ hleading
    · refine iff_of_false (fun h => ?_) fun h => h (.inl rfl)
      exact absurd h.visits (by decide +kernel)
    · have hbegin : path.begin = { element := ['/'], pos := k } := by
        rw [hpath]
        exact begin_leading hk hhead
      have hpos : (path.increment path.begin).pos = k + 1 := by
        rw [hbegin, hpath]
        exact (increment_leading hk hhead rfl).2
      rw [iteratesBackward_iff hits hrest hforward (decrement_leading hk hpath hpos), hbegin,
        hpath, leading_replicate_iff hk hhead]
      simp [eq_comm]

theorem separators_not_iterated_backward :
    ¬ IteratesBackward ['/', '/', '/', 'a'] ∧ ¬ IteratesBackward ['/', '/'] := by
  constructor
  · intro h
    exact absurd h.reaches (by decide +kernel)
  · intro h
    exact absurd h.visits (by decide +kernel)

end TarmIo.Fs.Path
