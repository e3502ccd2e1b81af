import TarmIo.Fs.ParentPath

/-!
# Decompositions of a path

`root_name`, `root_directory` and `relative_path` take a path apart, and so do `parent_path` and
`filename`. The parts of the first kind are found by different scanners. They disagree about a
network name of one character: `root_directory_start` takes a path of three characters for none
with a network name.
-/

namespace TarmIo.Fs.Path

/-! ## The root -/

variable {root es : List Path} {path : Path} {e p q : Path}

theorem Names.elements {q : Path} {es : List Path} (h : Names q es) : q.elements = es :=
  (Parsed.rooted .relative h).elements

theorem Lead.relativePath (h : Lead p root) (h' : Names q es) : Path.relativePath (p ++ q) = q := by
  obtain ⟨its, fuel, hits, hroot, hfuel⟩ := h.iterators h'
  obtain ⟨helements, hpos⟩ := h'.iteratorsFrom h.beforeName hfuel
  have hskip : ∀ it ∈ its, it.element.isDirectorySeparator 0 = true := fun it hit =>
    h.isDirectorySeparator _ (hroot ▸ List.mem_map_of_mem hit)
  have hstay : ∀ it ∈ (p ++ q).iteratorsFrom fuel ((p ++ q).elementAt p.length),
      it.element.isDirectorySeparator 0 = false := fun it hit =>
    (h'.isName it.element (helements ▸ List.mem_map_of_mem hit)).isDirectorySeparator_zero
  rw [Path.relativePath, hits, List.dropWhile_append_of_pos hskip, List.dropWhile_eq_self_iff.mpr,
    hpos, List.drop_left]
  intro hlength
  rw [hstay _ (List.getElem_mem hlength)]
  exact Bool.false_ne_true

theorem rootName_of_begin {it : Iterator} (hne : path ≠ []) (h : path.begin = it) :
    path.rootName =
      if 1 < it.element.length ∧ it.element.isDirectorySeparator 0 ∧
        it.element.isDirectorySeparator 1 then it.element else [] := by
  have hpos := Nat.ne_of_lt (begin_pos_lt hne)
  rw [h] at hpos
  rw [rootName, h]
  simp only [ne_eq, hpos, not_false_eq_true, true_and]

theorem IsNet.rootName {e q : Path} (he : IsNet e) (hq : Ended q) : Path.rootName (e ++ q) = e := by
  have hthree := he.three_le
  have hne : e ++ q ≠ [] := fun hnil => by
    rw [List.append_eq_nil_iff.mp hnil |>.1] at hthree
    cases hthree
  rw [rootName_of_begin hne (he.begin hq.takeWhile), if_pos]
  obtain ⟨name, _, rfl⟩ := he
  exact ⟨by simp, rfl, rfl⟩

theorem rootDirectoryStart_relative {n : Path} (hn : IsName n) (q : Path) (size : Nat) :
    rootDirectoryStart (n ++ q) size = none := by
  have hsep : isDirectorySeparator (n ++ q) 0 = false := by
    rw [isDirectorySeparator_eq, List.drop_zero, hn.head?]
  simp [rootDirectoryStart_def, hsep]

theorem rootDirectoryStart_absolute {q : Path} {k size : Nat} (hk : k ≠ 1)
    (hhead : q.head? ≠ some '/') (hsize : k + 1 ≤ size) :
    rootDirectoryStart (List.replicate (k + 1) '/' ++ q) size = some 0 := by
  have hsep {pos : Nat} (hpos : pos < k + 1) := isDirectorySeparator_leading q hpos
  have hone : k = 0 → isDirectorySeparator (List.replicate (k + 1) '/' ++ q) 1 = false := by
    rintro rfl
    rw [isDirectorySeparator_eq]
    exact beq_eq_false_iff_ne.mpr hhead
  rw [rootDirectoryStart_def, if_neg, if_neg, if_pos ⟨by omega, hsep (Nat.succ_pos k)⟩]
  · rintro ⟨_, _, hsep1, hsep2⟩
    rcases Nat.eq_zero_or_pos k with hzero | hpos
    · cases (hone hzero).symm.trans hsep1
    · exact hsep2 (hsep (by omega))
  · rintro ⟨htwo, _, hsep1⟩
    have hzero : k = 0 := by omega
    cases (hone hzero).symm.trans hsep1

/-- The root name and the root directory are the root. -/
theorem Lead.elements_root (h : Lead p root) (h' : Names q es) :
    (Path.rootName (p ++ q)).elements ++ (rootDirectory (p ++ q)).elements = root := by
  have hhead := h'.head?_ne
  cases h with
  | relative =>
      rw [List.nil_append]
      cases h' with
      | nil => rfl
      | spelled h' =>
          obtain ⟨n, post, _, rfl, hn, hpost, _⟩ := h'.exists_name
          rw [rootName_of_begin h'.ne_nil (hn.begin hpost.takeWhile), rootDirectory,
            rootDirectoryStart_relative hn, if_neg (by simp [hn.isDirectorySeparator_zero])]
          rfl
  | @absolute k hk =>
      rw [rootName_of_begin (by simp) (begin_leading hk hhead), rootDirectory,
        rootDirectoryStart_absolute hk hhead (by simp)]
      rfl
  | @net e he k =>
      have hstart : rootDirectoryStart (e ++ (List.replicate (k + 1) '/' ++ q))
          (e ++ (List.replicate (k + 1) '/' ++ q)).length = some e.length := by
        refine he.rootDirectoryStart _ ?_
        rw [List.length_append, List.length_append, List.length_replicate]
        omega
      rw [List.append_assoc, he.rootName (ended_separators k q), rootDirectory, hstart,
        elements_net_alone he]
      simp only [List.drop_left]
      rfl

theorem Lead.not_three (h : Lead p root) (h' : Names q es) :
    ¬ ((p ++ q).length = 3 ∧ TwoSeparators (p ++ q)) := by
  rintro ⟨hlength, hzero, hone, htwo⟩
  have hhead := h'.head?_ne
  cases h with
  | relative =>
      rw [List.nil_append, isDirectorySeparator_eq, List.drop_zero, beq_iff_eq] at hzero
      exact hhead hzero
  | @absolute k hk =>
      rcases Nat.eq_zero_or_pos k with rfl | hpos
      · rw [isDirectorySeparator_eq, beq_iff_eq] at hone
        exact hhead hone
      · exact htwo (isDirectorySeparator_leading q (by omega))
  | @net e he k =>
      have hthree := he.three_le
      simp only [List.length_append, List.length_replicate] at hlength
      omega

/-- For a network name alone the root directory depends on its length. -/
theorem IsNet.rootDirectory (he : IsNet e) :
    Path.rootDirectory e = if e.length = 3 then ['/'] else [] := by
  have hthree := he.three_le
  obtain ⟨name, hname, rfl⟩ := he
  have hsep : isDirectorySeparator ('/' :: '/' :: name) 2 = false :=
    hname.isDirectorySeparator_zero
  have hfind : findFirstOf ('/' :: '/' :: name) 2 = none := by
    rw [findFirstOf, Option.map_eq_none_iff, List.findIdx?_eq_none_iff]
    intro c hc
    exact beq_eq_false_iff_ne.mpr fun heq => hname.2 (heq ▸ hc)
  rw [Path.rootDirectory, rootDirectoryStart_def, if_neg (by omega)]
  by_cases hlength : ('/' :: '/' :: name).length = 3
  · rw [if_neg (by omega), if_pos ⟨by omega, rfl⟩, if_pos hlength]
    rfl
  · rw [if_pos ⟨by omega, rfl, rfl, by simp [hsep]⟩, if_neg hlength, hfind]
    rfl

theorem IsNet.twoSeparators (he : IsNet e) : TwoSeparators e := by
  obtain ⟨name, hname, rfl⟩ := he
  exact ⟨rfl, rfl, Bool.eq_false_iff.mp hname.isDirectorySeparator_zero⟩

theorem IsNet.relativePath (he : IsNet e) : Path.relativePath e = [] := by
  have hbegin : e.begin = { element := e, pos := 0 } := by
    have h := he.begin (q := []) rfl
    rwa [List.append_nil] at h
  obtain ⟨name, _, rfl⟩ := he
  have hiterators : Path.iterators ('/' :: '/' :: name) =
      [{ element := '/' :: '/' :: name, pos := 0 }] := by
    rw [iterators_of_begin hbegin rfl (by simp), increment_stop (by simp), iteratorsFrom_end rfl]
  rw [Path.relativePath, hiterators, List.dropWhile_cons_of_pos rfl]
  exact List.drop_length

/-- The elements of a path are those of its root name, root directory and relative path, unless it
is a network name of one character. -/
theorem root_decomposition_iff (p : Path) :
    p.elements = p.rootName.elements ++ p.rootDirectory.elements ++ p.relativePath.elements ↔
      ¬ (p.length = 3 ∧ TwoSeparators p) := by
  obtain ⟨es, hes⟩ := exists_parsed p
  rw [hes.elements]
  cases hes with
  | rooted h h' =>
      refine iff_of_true ?_ (h.not_three h')
      rw [h.elements_root h', h.relativePath h', h'.elements]
  | separators => exact iff_of_true (by decide) (by decide)
  | net he =>
      have hname := he.rootName (.inl rfl)
      rw [List.append_nil] at hname
      rw [hname, he.rootDirectory, he.relativePath, elements_net_alone he,
        and_iff_left he.twoSeparators]
      split
      · rename_i hlength
        have htwo : elements ['/'] ++ elements [] = [['/']] := rfl
        rw [List.append_assoc, htwo]
        exact iff_of_false (by simp) (not_not.mpr hlength)
      · rename_i hlength
        exact iff_of_true rfl hlength

theorem root_decomposition_fails :
    rootName ['/', '/', 'a'] = ['/', '/', 'a'] ∧ rootDirectory ['/', '/', 'a'] = ['/'] ∧
      elements ['/', '/', 'a'] ≠ (rootName ['/', '/', 'a']).elements ++
        (rootDirectory ['/', '/', 'a']).elements ++ (relativePath ['/', '/', 'a']).elements := by
  decide

/-! ## The file name and the parent path -/

theorem filenamePos_last {pos : Nat} (hlength : path.length = pos + 1)
    (hsep : path.isDirectorySeparator pos = true)
    (htwo : ¬ (pos = 1 ∧ path.isDirectorySeparator 0 = true)) :
    path.filenamePos path.length = pos := by
  rw [hlength, filenamePos_def, if_neg, if_pos ⟨Nat.succ_ne_zero pos, hsep⟩, Nat.add_sub_cancel]
  rintro ⟨hpos, hzero, _⟩
  exact htwo ⟨by omega, hzero⟩

theorem filename_last {pos : Nat} (hlength : path.length = pos + 1)
    (hfile : path.filenamePos path.length = pos) (hsep : path.isDirectorySeparator pos = true) :
    path.filename = if pos ≠ 0 ∧ ¬ path.isRootSeparator pos then dotPath else ['/'] := by
  have hne : path ≠ [] := by
    rintro rfl
    cases hlength
  have hdrop : path.drop pos = ['/'] := by
    rw [isDirectorySeparator, beq_iff_eq] at hsep
    obtain ⟨hpos, hget⟩ := List.getElem?_eq_some_iff.mp hsep
    rw [List.drop_eq_getElem_cons hpos, hget, List.drop_eq_nil_of_le (by omega)]
  rw [filename_def, hfile]
  dsimp only
  rw [hdrop]
  simp only [ne_eq, hne, not_false_eq_true, hsep, true_and]

theorem removeFilename_eq {path : Path} {pos endPos : Nat}
    (hfile : path.filenamePos path.length = pos)
    (hskip : path.skipSeparators (path.rootDirectoryStart pos) pos = endPos)
    (hroot : ¬ (endPos = 1 ∧ path.rootDirectoryStart pos = some 0 ∧
      path.isDirectorySeparator pos = true)) : path.removeFilename = some (path.take endPos) := by
  rw [removeFilename_def, parentPathEnd_def, hfile]
  dsimp only
  rw [hskip, if_neg fun h => hroot ⟨h.1, h.2.1, h.2.2.2⟩, Option.map_some]

theorem parentPath_of_removeFilename {path q : Path} (h : path.removeFilename = some q) :
    path.parentPath = q := by
  rw [removeFilename_def] at h
  obtain ⟨endPos, hend, rfl⟩ := Option.map_eq_some_iff.mp h
  rw [parentPath, hend]

theorem filenamePos_append {p n : Path} (hp : BeforeName p) (hn : IsName n) :
    filenamePos (p ++ n) (p ++ n).length = p.length := by
  have hfilename := filenamePos_name hp hn []
  rwa [List.append_nil, ← List.length_append] at hfilename

section Name

variable {n : Path} (hp : BeforeName p) (hn : IsName n)
include hp hn

theorem filename_append : filename (p ++ n) = n := by
  rw [filename_def, filenamePos_append hp hn]
  dsimp only
  rw [isDirectorySeparator_append, ← List.append_nil n, hn.head?, if_neg (by simp),
    List.append_nil, List.drop_left]

/-- The end of the parent path, by what stands before the last name. -/
theorem removeFilename_append {endPos : Nat}
    (hskip : skipSeparators (p ++ n) (rootDirectoryStart (p ++ n) p.length) p.length = endPos) :
    removeFilename (p ++ n) = some ((p ++ n).take endPos) := by
  refine removeFilename_eq (filenamePos_append hp hn) hskip ?_
  rw [isDirectorySeparator_append, ← List.append_nil n, hn.head?]
  simp

theorem skipSeparators_name {k j : Nat} (hj : j ≤ k) (q : Path) (size : Nat) :
    skipSeparators (p ++ n ++ (List.replicate k '/' ++ q))
      (rootDirectoryStart (p ++ n ++ (List.replicate k '/' ++ q)) size) ((p ++ n).length + j) =
        (p ++ n).length := by
  refine skipSeparators_separators (hn.endsName p) q (fun r hr => ?_) hj
  rw [List.append_assoc] at hr
  have hlt := rootDirectoryStart_lt hp hn _ size r hr
  rw [List.length_append]
  omega

theorem filename_name (k : Nat) {m : Path} (hm : IsName m) :
    filename (p ++ n ++ (List.replicate (k + 1) '/' ++ m)) = m ∧
      removeFilename (p ++ n ++ (List.replicate (k + 1) '/' ++ m)) = some (p ++ n) := by
  have hbefore : BeforeName (p ++ n ++ List.replicate (k + 1) '/') := by
    rw [List.append_assoc]
    exact beforeName_separators hn k
  have hskip := skipSeparators_name hp hn (Nat.le_refl (k + 1)) m ((p ++ n).length + (k + 1))
  have hlength : (p ++ n ++ List.replicate (k + 1) '/').length = (p ++ n).length + (k + 1) := by
    rw [List.length_append, List.length_replicate]
  rw [← List.append_assoc, ← hlength] at hskip
  rw [← List.append_assoc, removeFilename_append hbefore hm hskip, List.append_assoc (p ++ n),
    List.take_left, ← List.append_assoc]
  exact ⟨filename_append hbefore hm, rfl⟩

theorem filename_separators (k : Nat) :
    filename (p ++ n ++ List.replicate (k + 1) '/') = dotPath ∧
      removeFilename (p ++ n ++ List.replicate (k + 1) '/') = some (p ++ n) := by
  have hpos : 0 < n.length := List.length_pos_iff.mpr hn.1
  have hadd : (p ++ n).length = p.length + n.length := List.length_append
  have hlength : (p ++ n ++ List.replicate (k + 1) '/').length = (p ++ n).length + k + 1 := by
    rw [List.length_append, List.length_replicate, Nat.add_assoc]
  have hsep : isDirectorySeparator (p ++ n ++ List.replicate (k + 1) '/') ((p ++ n).length + k) =
      true := by
    have h := isDirectorySeparator_separators (p ++ n) [] (Nat.lt_succ_self k)
    rwa [List.append_nil] at h
  have hroot : isRootSeparator (p ++ n ++ List.replicate (k + 1) '/') ((p ++ n).length + k) =
      false := by
    have h := isRootSeparator_name hp hn [] (Nat.le_succ k)
    rwa [List.append_nil, ← List.append_assoc, ← List.length_append] at h
  have hfile : filenamePos (p ++ n ++ List.replicate (k + 1) '/')
      (p ++ n ++ List.replicate (k + 1) '/').length = (p ++ n).length + k := by
    refine filenamePos_last hlength hsep ?_
    rintro ⟨hone, hzero⟩
    have hend := (hn.endsName p).isDirectorySeparator (List.replicate (k + 1) '/')
      (show (p ++ n).length = 0 + 1 by omega)
    cases hend.symm.trans hzero
  refine ⟨?_, ?_⟩
  · rw [filename_last hlength hfile hsep, if_pos ⟨by omega, Bool.eq_false_iff.mp hroot⟩]
  · have hskip := skipSeparators_name hp hn (Nat.le_succ k) [] ((p ++ n).length + k)
    rw [List.append_nil] at hskip
    rw [removeFilename_eq hfile hskip, List.take_left]
    rintro ⟨hone, hstart, _⟩
    rw [List.append_assoc] at hstart
    have hlt := rootDirectoryStart_lt hp hn _ _ 0 hstart
    omega

end Name

theorem take_net (e q : Path) (k : Nat) :
    (e ++ (List.replicate (k + 1) '/' ++ q)).take (e.length + 1) = e ++ ['/'] := by
  have hpath : e ++ (List.replicate (k + 1) '/' ++ q) =
      e ++ ['/'] ++ (List.replicate k '/' ++ q) := by
    rw [List.replicate_succ]
    simp
  rw [hpath, show e.length + 1 = (e ++ ['/']).length by simp, List.take_left]

theorem Lead.removeFilename_name {p n : Path} (h : Lead p root) (hn : IsName n) :
    removeFilename (p ++ n) = some (render root) := by
  have hremove := removeFilename_append h.beforeName hn rfl
  cases h with
  | relative => exact hremove
  | @absolute k hk =>
      have hskip := skipSeparators_root [] n (Nat.lt_succ_self k)
      rw [List.nil_append, List.length_nil, Nat.zero_add, Nat.zero_add] at hskip
      rw [List.length_replicate, rootDirectoryStart_leading n hk, hskip] at hremove
      exact hremove
  | @net e he k =>
      have hskip := skipSeparators_root e n (Nat.lt_succ_self k)
      have hstart : rootDirectoryStart (e ++ (List.replicate (k + 1) '/' ++ n))
          (e.length + (k + 1)) = some e.length := he.rootDirectoryStart _ (by omega)
      rw [List.length_append, List.length_replicate, List.append_assoc, hstart, hskip,
        take_net] at hremove
      obtain ⟨name, _, rfl⟩ := he
      rw [List.append_assoc]
      exact hremove

/-- A root without a name ends with the root directory. -/
theorem Lead.filename_root {p : Path} (h : Lead p root) (hne : p ≠ []) :
    p.filename = ['/'] ∧ Lead (p.parentPath ++ ['/']) root := by
  cases h with
  | relative => exact absurd rfl hne
  | @absolute k hk =>
      have hlength : (List.replicate (k + 1) '/').length = k + 1 := List.length_replicate
      have hsep := isDirectorySeparator_replicate (Nat.lt_succ_self k)
      have hfile := filenamePos_last hlength hsep fun h => hk h.1
      have hroot := isRootSeparator_leading [] k
      rw [List.append_nil] at hroot
      have hparent : parentPath (List.replicate (k + 1) '/') = [] := by
        match k with
        | 0 => rfl
        | 1 => exact absurd rfl hk
        | 2 => rfl
        | k + 3 => rw [parentPath, parentPathEnd_replicate]
      rw [filename_last hlength hfile hsep, if_neg fun h => h.2 hroot, hparent]
      exact ⟨rfl, .absolute (k := 0) (by omega)⟩
  | @net e he k =>
      have hthree := he.three_le
      have hlength : (e ++ List.replicate (k + 1) '/').length = e.length + k + 1 := by
        rw [List.length_append, List.length_replicate, Nat.add_assoc]
      have hsep := isDirectorySeparator_separators e [] (Nat.lt_succ_self k)
      have hroot := he.isRootSeparator [] (Nat.le_refl k)
      rw [List.append_nil] at hsep hroot
      have hfile := filenamePos_last hlength hsep fun h => by omega
      rw [filename_last hlength hfile hsep, if_neg fun h => h.2 hroot]
      refine ⟨rfl, ?_⟩
      cases k with
      | zero =>
          rw [parentPath_of_removeFilename (removeFilename_eq hfile
            (skipSeparators_endsName he.endsName _ _) fun h => by omega), List.take_left]
          exact .net he 0
      | succ k =>
          have hstart := he.rootDirectoryStart (List.replicate (k + 1) '/')
            (show e.length < e.length + (k + 1) by omega)
          have hskip := skipSeparators_root e [] (show k < k + 2 by omega)
          rw [List.append_nil, ← hstart] at hskip
          have htake := take_net e [] (k + 1)
          rw [List.append_nil] at htake
          rw [parentPath_of_removeFilename (removeFilename_eq hfile hskip fun h => by omega), htake,
            List.append_assoc]
          exact .net he 1

theorem IsNet.filename (he : IsNet e) : Path.filename e = e ∧ removeFilename e = some [] := by
  have hfile := he.filenamePos []
  rw [List.append_nil] at hfile
  have hskip : e.skipSeparators (e.rootDirectoryStart 0) 0 = 0 := rfl
  refine ⟨?_, removeFilename_eq hfile hskip (by simp)⟩
  rw [filename_def, hfile]
  dsimp only
  rw [if_neg fun h => h.2.1 rfl, List.drop_zero]

theorem Lead.appendSeparatorIfNeeded {p : Path} (h : Lead p root) :
    p.appendSeparatorIfNeeded = p := by
  rw [Path.appendSeparatorIfNeeded]
  rcases h.beforeName.separator with rfl | ⟨q, rfl⟩
  · rfl
  · rw [if_neg]
    simp

theorem elements_operatorSlash {p q n : Path} (h : Lead p root) (hq : Spelled q es)
    (hends : EndsName q) (hn : IsName n) :
    elements (operatorSlash (p ++ q) n) = root ++ (es ++ [n]) := by
  rw [hn.operatorSlash, (hends.append hq.ne_nil p).appendSeparatorIfNeeded (by simp [hq.ne_nil]),
    List.append_assoc, List.append_assoc]
  exact (Parsed.rooted h (.spelled (hq.append hends 0 (.last hn)))).elements

/-- The parent path and the file name make up the path. -/
theorem parent_path_slash_filename (p : Path) :
    equal (p.parentPath.operatorSlash p.filename) p = true := by
  obtain ⟨es, hes⟩ := exists_parsed p
  rw [equal_def, beq_iff_eq, hes.elements]
  cases hes with
  | @rooted p q root es h h' =>
      cases h' with
      | nil =>
          rw [List.append_nil, List.append_nil]
          rcases h.nil_or_ne with ⟨rfl, rfl⟩ | hne
          · rfl
          · obtain ⟨hfile, hlead⟩ := h.filename_root hne
            have helements := (Parsed.rooted hlead .nil).elements
            rw [List.append_nil, List.append_nil] at helements
            rw [hfile]
            exact helements
      | spelled hq =>
          cases hq.split with
          | name hn =>
              have hlead : Lead (parentPath (p ++ q)) root := by
                rw [parentPath_of_removeFilename (h.removeFilename_name hn)]
                exact h.toRoot.lead
              rw [filename_append h.beforeName hn, hn.operatorSlash, hlead.appendSeparatorIfNeeded]
              exact (Parsed.rooted hlead (.spelled (.last hn))).elements
          | @snoc q n es hq' hends k hn =>
              obtain ⟨p', m, hpath, hp', hm⟩ := hq'.exists_last hends h.beforeName
              obtain ⟨hfile, hremove⟩ := filename_name hp' hm k hn
              rw [← hpath] at hfile hremove
              rw [← List.append_assoc, hfile, parentPath_of_removeFilename hremove,
                elements_operatorSlash h hq' hends hn]
          | @trailing q es hq' hends k =>
              obtain ⟨p', m, hpath, hp', hm⟩ := hq'.exists_last hends h.beforeName
              obtain ⟨hfile, hremove⟩ := filename_separators hp' hm k
              rw [← hpath] at hfile hremove
              rw [← List.append_assoc, hfile, parentPath_of_removeFilename hremove,
                elements_operatorSlash h hq' hends isName_dotPath]
  | separators => rfl
  | net he =>
      obtain ⟨hfile, hremove⟩ := he.filename
      rw [hfile, parentPath_of_removeFilename hremove]
      obtain ⟨name, hname, rfl⟩ := he
      exact elements_net_alone ⟨name, hname, rfl⟩

end TarmIo.Fs.Path
