import TarmIo.Fs.LexicalMeaning

/-!
# `lexically_relative` leads back

The elements of `base / r` are those of `base`, unless it ends with a separator, and those of `r`,
if `base` does not begin with exactly two separators. The relative path goes up once for each
element of `base` after the common ones and then down to the path.
-/

namespace TarmIo.Fs.Path

/-! ## Elements -/

variable {path : Path} {es : List Path} {q : Path} {names : List Path} {e : Path}

/-- The elements of a path that does not begin with exactly two separators. -/
inductive Decomposed : Path → List Path → Prop
  | relative {q : Path} {es : List Path} (h : Spelled q es) : Decomposed q es
  | absolute {q : Path} {es : List Path} {k : Nat} (hk : k ≠ 1) (h : Spelled q es) :
      Decomposed (List.replicate (k + 1) '/' ++ q) (['/'] :: es)
  | root {k : Nat} (hk : k ≠ 1) : Decomposed (List.replicate (k + 1) '/') [['/']]

theorem Decomposed.parsed (h : Decomposed path es) : Parsed path es := by
  cases h with
  | relative h => exact .rooted .relative (.spelled h)
  | absolute hk h => exact .rooted (.absolute hk) (.spelled h)
  | root hk =>
      have h : Parsed _ _ := .rooted (.absolute hk) .nil
      rwa [List.append_nil, List.append_nil] at h

theorem Decomposed.elements (h : Decomposed path es) : path.elements = es :=
  h.parsed.elements

theorem exists_decomposed (hne : path ≠ []) (htwo : ¬ TwoSeparators path) :
    ∃ es, Decomposed path es := by
  obtain ⟨k, q, rfl, hhead⟩ := exists_separators path
  cases k with
  | zero =>
      rw [List.replicate_zero, List.nil_append] at hne ⊢
      obtain ⟨es, hes⟩ := exists_spelled hne hhead
      exact ⟨es, .relative hes⟩
  | succ k =>
      have hk : k ≠ 1 := by
        rintro rfl
        refine htwo ⟨rfl, rfl, ?_⟩
        rw [isDirectorySeparator_eq]
        exact fun h => hhead (beq_iff_eq.mp h)
      by_cases hempty : q = []
      · subst hempty
        rw [List.append_nil]
        exact ⟨_, .root hk⟩
      · obtain ⟨es, hes⟩ := exists_spelled hempty hhead
        exact ⟨_, .absolute hk hes⟩

theorem Spelled.operatorSlash {q : Path} (h : Spelled q es) (p : Path) :
    operatorSlash p q = p.appendSeparatorIfNeeded ++ q := by
  obtain ⟨n, post, _, rfl, hn, _, _⟩ := h.exists_name
  have hsep : isDirectorySeparator (n ++ post) 0 = false := by
    rw [isDirectorySeparator_eq, List.drop_zero, hn.head?]
  rw [Path.operatorSlash, if_neg (by simp [hn.1]), hsep, if_neg (by simp)]

/-- `operator/=`, if the path does not end with a separator after a name. -/
theorem Decomposed.operatorSlash (h : Decomposed path es) (hdot : dotPath ∉ es)
    (hq : Spelled q names) : Decomposed (path.operatorSlash q) (es ++ names) := by
  rw [hq.operatorSlash]
  cases h with
  | relative h =>
      have hends : EndsName path := h.endsName hdot []
      obtain ⟨n, post, _, hpath, hn, _, _⟩ := h.exists_name
      rw [hends.appendSeparatorIfNeeded (by simp [hpath, hn.1]), List.append_assoc]
      exact .relative (h.append hends 0 hq)
  | absolute hk h =>
      have hends := h.endsName fun hmem => hdot (List.mem_cons_of_mem _ hmem)
      rw [(hends _).appendSeparatorIfNeeded (by simp), List.append_assoc, List.append_assoc]
      exact .absolute hk (h.append (hends []) 0 hq)
  | root hk =>
      rw [appendSeparatorIfNeeded, if_neg]
      · exact .absolute hk hq
      · rintro ⟨_, hlast⟩
        exact hlast (by simp [List.replicate_succ'])

theorem Decomposed.isName (h : Decomposed path (e :: es)) : ∀ n ∈ es, IsName n := by
  cases h with
  | relative h => exact fun n hn => h.isName n (List.mem_cons_of_mem _ hn)
  | absolute hk h => exact h.isName
  | root hk => exact fun n hn => by cases hn

/-! ## The common elements -/

theorem WellFormed.elements_eq (h : WellFormed es) (he : e ∈ es) : elements e = [e] := by
  cases h with
  | names hroot hnames =>
      rcases List.mem_append.mp he with hmem | hmem
      · cases hroot with
        | relative => cases hmem
        | absolute =>
            obtain rfl := List.mem_singleton.mp hmem
            rfl
        | net hnet =>
            rcases List.mem_pair.mp hmem with rfl | rfl
            · exact elements_net_alone hnet
            · rfl
      · exact (hnames e hmem).elements
  | separators =>
      obtain rfl := List.mem_singleton.mp he
      rfl
  | net hnet =>
      obtain rfl := List.mem_singleton.mp he
      exact elements_net_alone hnet

theorem equal_iff {path base e e' : Path} (he : e ∈ path.elements) (he' : e' ∈ base.elements) :
    equal e e' = true ↔ e = e' := by
  rw [equal_def, path.wellFormed_elements.elements_eq he, base.wellFormed_elements.elements_eq he',
    beq_iff_eq, List.cons.injEq]
  exact and_iff_left rfl

theorem exists_mismatch {its1 its2 : List Iterator}
    (hequal : ∀ e ∈ its1.map Iterator.element, ∀ e' ∈ its2.map Iterator.element,
      equal e e' = true → e = e') :
    ∃ common1 common2, its1 = common1 ++ (mismatch its1 its2).1 ∧
      its2 = common2 ++ (mismatch its1 its2).2 ∧
      common1.map Iterator.element = common2.map Iterator.element := by
  induction its1 generalizing its2 with
  | nil => exact ⟨[], [], by simp [mismatch], by simp [mismatch], rfl⟩
  | cons it1 its1 ih =>
      cases its2 with
      | nil => exact ⟨[], [], by simp [mismatch], by simp [mismatch], rfl⟩
      | cons it2 its2 =>
          rw [mismatch]
          split
          · rename_i heq
            obtain ⟨common1, common2, h1, h2, hcommon⟩ := ih fun e he e' he' =>
              hequal e (List.mem_cons_of_mem _ he) e' (List.mem_cons_of_mem _ he')
            refine ⟨it1 :: common1, it2 :: common2, by rw [List.cons_append, ← h1],
              by rw [List.cons_append, ← h2], ?_⟩
            rw [List.map_cons, List.map_cons, hcommon,
              hequal _ List.mem_cons_self _ List.mem_cons_self heq]
          · exact ⟨[], [], rfl, rfl, rfl⟩

theorem pos_ne_of_mem_iteratorsFrom {fuel : Nat} {it jt : Iterator}
    (h : jt ∈ path.iteratorsFrom fuel it) : jt.pos ≠ path.length := by
  induction fuel generalizing it with
  | zero => cases h
  | succ fuel ih =>
      rw [iteratorsFrom_succ] at h
      split at h
      · cases h
      · rename_i hpos
        rcases List.mem_cons.mp h with rfl | hrest
        · exact hpos
        · exact ih hrest

theorem positionOf_iterators (path : Path) : path.positionOf path.iterators = path.begin.pos := by
  by_cases hne : path = []
  · subst hne
    rfl
  · rw [iterators_eq hne]
    rfl

theorem eq_nil_of_positionOf {its common : List Iterator} (hits : path.iterators = common ++ its)
    (h : path.positionOf its = path.length) : its = [] := by
  cases its with
  | nil => rfl
  | cons it its =>
      have hmem : it ∈ path.iterators := by
        rw [hits]
        simp
      exact absurd h (pos_ne_of_mem_iteratorsFrom hmem)

theorem foldl_dotDotPath (its : List Iterator) (p : Path) :
    its.foldl (fun tmp _ => operatorSlash tmp dotDotPath) p =
      (List.replicate its.length dotDotPath).foldl operatorSlash p := by
  induction its generalizing p with
  | nil => rfl
  | cons it its ih => exact ih _

/-- What `lexically_relative` returns: nothing if nothing is common, or the way up and down
again. -/
theorem lexicallyRelative_cases (path base : Path) :
    path.lexicallyRelative base = [] ∨
      ∃ common up down, common ≠ [] ∧ path.elements = common ++ down ∧
        base.elements = common ++ up ∧
        (path.lexicallyRelative base = dotPath ∧ up = [] ∧ down = [] ∨
          path.lexicallyRelative base =
            render (List.replicate up.length dotDotPath ++ down)) := by
  have hequal : ∀ e ∈ path.iterators.map Iterator.element,
      ∀ e' ∈ base.iterators.map Iterator.element, equal e e' = true → e = e' :=
    fun e he e' he' h => (equal_iff he he').mp h
  obtain ⟨common1, common2, h1, h2, hcommon⟩ := exists_mismatch hequal
  rw [lexicallyRelative]
  generalize mismatch path.iterators base.iterators = mm at h1 h2 ⊢
  obtain ⟨its1, its2⟩ := mm
  dsimp only at h1 h2 ⊢
  by_cases hbegin : path.positionOf its1 = path.begin.pos ∧ base.positionOf its2 = base.begin.pos
  · rw [if_pos hbegin]
    exact .inl rfl
  · have hne : common1.map Iterator.element ≠ [] := by
      intro hnil
      rw [hnil] at hcommon
      obtain rfl := List.map_eq_nil_iff.mp hnil
      obtain rfl := List.map_eq_nil_iff.mp hcommon.symm
      refine hbegin ⟨?_, ?_⟩
      · rw [← path.positionOf_iterators, h1, List.nil_append]
      · rw [← base.positionOf_iterators, h2, List.nil_append]
    rw [if_neg hbegin]
    refine .inr ⟨_, its2.map Iterator.element, its1.map Iterator.element, hne, ?_, ?_, ?_⟩
    · rw [elements, h1, List.map_append]
    · rw [elements, h2, List.map_append, hcommon]
    · split
      · rename_i hend
        rw [eq_nil_of_positionOf h1 hend.1, eq_nil_of_positionOf h2 hend.2]
        exact .inl ⟨rfl, rfl, rfl⟩
      · rw [foldl_dotDotPath, render, List.foldl_append, List.foldl_map, List.length_map]
        exact .inr rfl

/-! ## The way up -/

theorem foldl_collect_plain {names : List Path} (h : ∀ n ∈ names, n ≠ dotPath ∧ n ≠ dotDotPath)
    (items : List Path) : names.foldl collect items = items ++ names := by
  induction names generalizing items with
  | nil => rw [List.append_nil]; rfl
  | cons n names ih =>
      obtain ⟨hn, hrest⟩ := List.forall_mem_cons.mp h
      rw [List.foldl_cons, collect_name hn.1 hn.2, ih hrest, List.append_assoc]
      rfl

theorem foldl_collect_up {names : List Path} (h : ∀ n ∈ names, n ≠ dotDotPath)
    (items : List Path) :
    (List.replicate names.length dotDotPath).foldl collect (items ++ names) = items := by
  induction names using List.reverseRecOn with
  | nil => rw [List.append_nil]; rfl
  | append_singleton names n ih =>
      have hn : n ≠ dotDotPath := h n (by simp)
      rw [List.length_append, List.length_singleton, List.replicate_succ, List.foldl_cons,
        ← List.append_assoc, collect_dotDotPath hn, ih fun m hm => h m (List.mem_append_left _ hm)]

/-- Down, up the same way, and down again. -/
theorem scan_up {common up down : List Path} (hup : ∀ n ∈ up, Plain n)
    (hdown : ∀ n ∈ down, IsName n) :
    scan (common ++ up ++ (List.replicate up.length dotDotPath ++ down)) =
      scan (common ++ down) := by
  have hups : ∀ n ∈ up, IsName n := fun n hn => (hup n hn).1
  have hdots : ∀ n ∈ List.replicate up.length dotDotPath, IsName n := by
    intro n hn
    rw [List.eq_of_mem_replicate hn]
    exact ⟨by decide, by decide⟩
  rw [scan, scan]
  simp only [List.filter_append, (filter_isRoot_of_names hups).2, (filter_isRoot_of_names hdots).2,
    (filter_isRoot_of_names hdown).2, List.foldl_append]
  rw [foldl_collect_plain fun n hn => (hup n hn).2, foldl_collect_up fun n hn => (hup n hn).2.2]

theorem filter_isRoot_append_names (h : ∀ n ∈ names, IsName n) :
    (es ++ names).filter isRoot = es.filter isRoot := by
  rw [List.filter_append, (filter_isRoot_of_names h).1, List.append_nil]

theorem decomposed_elements (hpath : ¬ TwoSeparators path) (helements : path.elements = e :: es) :
    Decomposed path (e :: es) := by
  have hne : path ≠ [] := by
    rintro rfl
    cases helements
  obtain ⟨es', hes⟩ := exists_decomposed hne hpath
  rwa [← helements, hes.elements]

theorem lexicalMeaning_eq (h : path.elements = es)
    (hroots : es.filter isRoot = q.elements.filter isRoot) (hscan : scan es = scan q.elements) :
    path.lexicalMeaning = q.lexicalMeaning := by
  rw [lexicalMeaning, h, hroots, hscan, lexicalMeaning]

/-- A relative path that is not empty leads from the base to the path. -/
theorem lexically_relative_leads_back {path base : Path} (hpath : ¬ TwoSeparators path)
    (hbase : ¬ TwoSeparators base)
    (hdots : ∀ e ∈ base.elements, e ≠ dotPath ∧ e ≠ dotDotPath)
    (hne : path.lexicallyRelative base ≠ []) :
    (base.operatorSlash (path.lexicallyRelative base)).lexicalMeaning = path.lexicalMeaning := by
  obtain ⟨common, up, down, hcommon, helements, hbaseElements, hrelative⟩ :=
    (lexicallyRelative_cases path base).resolve_left hne
  obtain ⟨e, common, rfl⟩ := List.exists_cons_of_ne_nil hcommon
  have hdown : ∀ n ∈ down, IsName n := fun n hn =>
    (decomposed_elements hpath helements).isName n (List.mem_append_right _ hn)
  have hdecomposed : Decomposed base (e :: common ++ up) := decomposed_elements hbase hbaseElements
  have hup : ∀ n ∈ up, Plain n := by
    intro n hn
    refine ⟨hdecomposed.isName n (List.mem_append_right _ hn), hdots n ?_⟩
    rw [hbaseElements]
    exact List.mem_append_right _ hn
  have hdot : dotPath ∉ e :: common ++ up := by
    rw [← hbaseElements]
    exact fun hmem => (hdots dotPath hmem).1 rfl
  rcases hrelative with ⟨hr, rfl, rfl⟩ | hr
  · -- The same elements.
    have helements' := (hdecomposed.operatorSlash hdot (.last isName_dotPath)).elements
    rw [hr]
    refine lexicalMeaning_eq helements' ?_ ?_
    · rw [helements, filter_isRoot_append_names (List.forall_mem_singleton.mpr isName_dotPath)]
    · rw [helements, scan, List.filter_append, List.foldl_append]
      exact collect_dotPath _
  · have hnames : ∀ n ∈ List.replicate up.length dotDotPath ++ down, IsName n := by
      intro n hn
      rcases List.mem_append.mp hn with hmem | hmem
      · rw [List.eq_of_mem_replicate hmem]
        exact ⟨by decide, by decide⟩
      · exact hdown n hmem
    have hempty : List.replicate up.length dotDotPath ++ down ≠ [] := by
      intro hnil
      rw [hnil] at hr
      exact hne hr
    have hrender : path.lexicallyRelative base =
        body (List.replicate up.length dotDotPath ++ down) := by
      rw [hr]
      exact render_root_append .relative hnames
    have helements' := (hdecomposed.operatorSlash hdot (spelled_body hempty hnames)).elements
    rw [hrender]
    refine lexicalMeaning_eq helements' ?_ ?_
    · rw [helements, filter_isRoot_append_names hnames, filter_isRoot_append_names hdown,
        filter_isRoot_append_names fun n hn => (hup n hn).1]
    · rw [helements]
      exact scan_up hup hdown

theorem lexically_relative_leads_back_up :
    (operatorSlash ['/', 'a', '/', 'b'] (lexicallyRelative ['/', 'c'] ['/', 'a', '/', 'b'])) =
        ['/', 'a', '/', 'b', '/', '.', '.', '/', '.', '.', '/', 'c'] ∧
      (operatorSlash ['/', 'a', '/', 'b']
        (lexicallyRelative ['/', 'c'] ['/', 'a', '/', 'b'])).lexicalMeaning =
          lexicalMeaning ['/', 'c'] :=
  ⟨by decide +kernel, lexically_relative_leads_back (by decide) (by decide) (by decide +kernel)
    (by decide +kernel)⟩

end TarmIo.Fs.Path
