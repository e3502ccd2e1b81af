import TarmIo.Fs.Decomposition

/-!
# `lexically_normal` returns a clean path

The loop keeps its path in clean form: an element is joined to it, or its last name is removed. So
it never throws, and the result is its elements joined by `operator/=`. The first element stays,
unless it is a name that a `..` may remove.
-/

namespace TarmIo.Fs.Path

/-! ## The last name of a clean path -/

variable {es : List Path} {n : Path} {root names : List Path}

theorem forall_mem_snoc (h : ∀ m ∈ names, IsName m) (hn : IsName n) :
    ∀ m ∈ names ++ [n], IsName m := by
  intro m hm
  rcases List.mem_append.mp hm with hold | hnew
  · exact h m hold
  · rwa [List.mem_singleton.mp hnew]

theorem body_snoc (hne : names ≠ []) (n : Path) :
    body (names ++ [n]) = body names ++ ['/'] ++ n := by
  cases names with
  | nil => exact absurd rfl hne
  | cons m names => simp [body, tail]

theorem getLast?_body (hne : names ≠ []) (h : ∀ n ∈ names, IsName n) (p : Path) :
    (p ++ body names).getLast? ≠ some '/' := by
  obtain ⟨init, n, rfl⟩ := (List.eq_nil_or_concat' names).resolve_left hne
  have hn : IsName n := h n (by simp)
  by_cases hinit : init = []
  · subst hinit
    have hbody : body ([] ++ [n]) = n := by simp [body, tail]
    rw [hbody]
    exact hn.getLast?_ne p
  · rw [body_snoc hinit, ← List.append_assoc]
    exact hn.getLast?_ne _

/-- The last name of a clean path is removed with the separator before it, unless that is the root
directory. -/
theorem removeFilename_render (hroot : Root root) (hnames : ∀ m ∈ names, IsName m) (hn : IsName n) :
    filename (render (root ++ (names ++ [n]))) = n ∧
      removeFilename (render (root ++ (names ++ [n]))) = some (render (root ++ names)) := by
  rw [render_root_append hroot (forall_mem_snoc hnames hn), render_root_append hroot hnames]
  by_cases hne : names = []
  · subst hne
    have hbody : body ([] ++ [n]) = n := by simp [body, tail]
    rw [hbody, hroot.lead.removeFilename_name hn, body, List.append_nil]
    exact ⟨filename_append hroot.lead.beforeName hn, rfl⟩
  · obtain ⟨p, m, hpath, hp, hm⟩ := (spelled_body hne hnames).exists_last
      (getLast?_body hne hnames []) hroot.lead.beforeName
    rw [body_snoc hne, List.append_assoc, ← List.append_assoc, hpath]
    exact filename_name hp hm 0 hn

theorem render_ne_nil (h : WellFormed es) (hne : es ≠ []) : render es ≠ [] := by
  intro hnil
  have helements := elements_render h
  rw [hnil] at helements
  exact hne helements.symm

/-! ## The loop -/

def Plain (e : Path) : Prop := IsName e ∧ e ≠ dotPath ∧ e ≠ dotDotPath

def LastRemovable (es : List Path) : Prop := ∃ e ∈ es.getLast?, Removable e

instance (es : List Path) : Decidable (LastRemovable es) :=
  match hlast : es.getLast? with
  | none => isFalse fun ⟨e, he, _⟩ => by rw [hlast] at he; cases he
  | some e =>
      if h : Removable e then isTrue ⟨e, hlast, h⟩
      else isFalse fun ⟨e', he', h'⟩ => by
        rw [hlast] at he'
        cases he'
        exact h h'

/-- The loop on elements: those of the path so far, and those that are left. -/
def settle : List Path → List Path → List Path
  | es, [] => es
  | es, e :: rest =>
      if e = dotPath ∧ rest ≠ [] then settle es rest
      else if e = dotDotPath ∧ LastRemovable es then
        if es.dropLast = [] ∧ rest = [dotPath] then settle [dotPath] rest
        else settle es.dropLast rest
      else settle (es ++ [e]) rest

def normalElements : List Path → List Path
  | [] => []
  | e :: es => if settle [e] es = [] then [dotPath] else settle [e] es

/-! ## The loop on strings -/

variable {its : List Iterator} {start last : Iterator}

theorem lastRemovable_snoc (es : List Path) (e : Path) :
    LastRemovable (es ++ [e]) ↔ Removable e := by
  simp [LastRemovable]

theorem Root.not_lastRemovable {root : List Path} (hroot : Root root) : ¬ LastRemovable root := by
  cases hroot with
  | relative => simp [LastRemovable]
  | absolute => simp [LastRemovable, Removable]
  | net he => simp [LastRemovable, Removable]

/-- What the loop removes, by the file name. -/
theorem removable_filename_iff (hroot : Root root) (hnames : ∀ n ∈ names, IsName n) :
    render (root ++ names) ≠ [] ∧ Removable (render (root ++ names)).filename ↔
      LastRemovable (root ++ names) := by
  rcases List.eq_nil_or_concat' names with rfl | ⟨init, n, rfl⟩
  · rw [List.append_nil]
    refine iff_of_false ?_ hroot.not_lastRemovable
    rintro ⟨hne, hremovable⟩
    rw [(hroot.lead.filename_root hne).1] at hremovable
    exact absurd hremovable (by decide)
  · have hinit : ∀ m ∈ init, IsName m := fun m hm => hnames m (List.mem_append_left _ hm)
    have hn : IsName n := hnames n (List.mem_append_right _ List.mem_cons_self)
    rw [(removeFilename_render hroot hinit hn).1, ← List.append_assoc, lastRemovable_snoc]
    refine and_iff_right (render_ne_nil ?_ (by simp))
    rw [List.append_assoc]
    exact .names hroot hnames

theorem equal_dotPath (hn : IsName n) : equal n dotPath = true ↔ n = dotPath := by
  rw [equal_def, hn.elements, isName_dotPath.elements, beq_iff_eq, List.cons.injEq]
  exact and_iff_left rfl

/-- The last of several iterators. -/
theorem pos_eq_last_iff {it last : Iterator} (hsorted : (it :: its).Pairwise (·.pos < ·.pos))
    (hlast : (it :: its).getLast? = some last) : it.pos = last.pos ↔ its = [] := by
  rcases its.eq_nil_or_concat' with rfl | ⟨init, jt, rfl⟩
  · obtain rfl : it = last := by simpa using hlast
    exact iff_of_true rfl rfl
  · rw [← List.cons_append, List.getLast?_concat] at hlast
    obtain rfl := Option.some.inj hlast
    have hlt := List.rel_of_pairwise_cons hsorted (List.mem_append_right init List.mem_cons_self)
    exact iff_of_false (Nat.ne_of_lt hlt) (by simp)

theorem head?_any_iff {last : Iterator} (hits : ∀ it ∈ its, IsName it.element)
    (hsorted : its.Pairwise (·.pos < ·.pos)) (hlast : its ≠ [] → its.getLast? = some last) :
    its.head?.any (·.pos = last.pos) = true ∧ equal last.element dotPath = true ↔
      its.map Iterator.element = [dotPath] := by
  cases its with
  | nil => simp
  | cons it its =>
      have hlast' := hlast (by simp)
      have hfinal := pos_eq_last_iff hsorted hlast'
      rw [List.head?_cons, Option.any_some, decide_eq_true_eq, hfinal, List.map_cons,
        List.cons.injEq, List.map_eq_nil_iff]
      constructor
      · rintro ⟨rfl, hequal⟩
        obtain rfl : it = last := by simpa using hlast'
        exact ⟨(equal_dotPath (hits it List.mem_cons_self)).mp hequal, rfl⟩
      · rintro ⟨helement, rfl⟩
        obtain rfl : it = last := by simpa using hlast'
        exact ⟨rfl, (equal_dotPath (hits it List.mem_cons_self)).mpr helement⟩

theorem render_snoc (es : List Path) (n : Path) :
    render (es ++ [n]) = operatorSlash (render es) n := by
  simp [render, List.foldl_append]

theorem render_eq_nil_iff (h : WellFormed es) : render es = [] ↔ es = [] := by
  constructor
  · intro hnil
    by_contra hne
    exact render_ne_nil h hne hnil
  · rintro rfl
    rfl

theorem normalLoop_settle (hroot : Root root) (hnames : ∀ n ∈ names, IsName n)
    (hits : ∀ it ∈ its, IsName it.element) (hstart : ∀ it ∈ its, it.pos ≠ start.pos)
    (hsorted : its.Pairwise (·.pos < ·.pos)) (hlast : its ≠ [] → its.getLast? = some last) :
    normalLoop start last (render (root ++ names)) its =
      some (render (settle (root ++ names) (its.map Iterator.element))) := by
  induction its generalizing root names with
  | nil => rfl
  | cons it its ih =>
      have hlast' := hlast (by simp)
      have hfinal := pos_eq_last_iff hsorted hlast'
      have hitsRest : ∀ jt ∈ its, IsName jt.element :=
        fun jt hjt => hits jt (List.mem_cons_of_mem _ hjt)
      have hsortedRest := List.Pairwise.of_cons hsorted
      have hlastRest : its ≠ [] → its.getLast? = some last := by
        intro hne
        rwa [List.getLast?_cons_of_ne_nil hne] at hlast'
      have hrest {root names : List Path} (hroot : Root root) (hnames : ∀ n ∈ names, IsName n) :=
        ih hroot hnames hitsRest (fun jt hjt => hstart jt (List.mem_cons_of_mem _ hjt))
          hsortedRest hlastRest
      have hjoin {root names : List Path} (hroot : Root root) (hnames : ∀ n ∈ names, IsName n)
          {n : Path} (hn : IsName n) :
          normalLoop start last (operatorSlash (render (root ++ names)) n) its =
            some (render (settle (root ++ names ++ [n]) (its.map Iterator.element))) := by
        rw [← render_snoc, List.append_assoc]
        exact hrest hroot (forall_mem_snoc hnames hn)
      -- The conditions of the source, on elements.
      have hdotIff : it.element = dotPath ∧ it.pos ≠ start.pos ∧ it.pos ≠ last.pos ↔
          it.element = dotPath ∧ its.map Iterator.element ≠ [] := by
        rw [ne_eq it.pos last.pos, hfinal, ne_eq (its.map _), List.map_eq_nil_iff]
        exact and_congr_right fun _ => and_iff_right (hstart it List.mem_cons_self)
      have hremoveIff : render (root ++ names) ≠ [] ∧ it.element = dotDotPath ∧
          Removable (render (root ++ names)).filename ↔
            it.element = dotDotPath ∧ LastRemovable (root ++ names) := by
        rw [← removable_filename_iff hroot hnames]
        exact and_left_comm
      rw [normalLoop_cons, List.map_cons, settle]
      by_cases hdot : it.element = dotPath ∧ its.map Iterator.element ≠ []
      · rw [if_pos (hdotIff.mpr hdot), if_pos hdot]
        exact hrest hroot hnames
      · rw [if_neg (mt hdotIff.mp hdot), if_neg hdot]
        by_cases hremove : it.element = dotDotPath ∧ LastRemovable (root ++ names)
        · rw [if_pos (hremoveIff.mpr hremove), if_pos hremove]
          rcases List.eq_nil_or_concat' names with rfl | ⟨init, n, rfl⟩
          · rw [List.append_nil] at hremove
            exact absurd hremove.2 hroot.not_lastRemovable
          · have hinit : ∀ m ∈ init, IsName m := fun m hm => hnames m (List.mem_append_left _ hm)
            have hdropLast : (root ++ (init ++ [n])).dropLast = root ++ init := by
              rw [← List.append_assoc, List.dropLast_concat]
            have hempty := render_eq_nil_iff (.names hroot hinit)
            have hendIff := and_congr hempty (head?_any_iff hitsRest hsortedRest hlastRest)
            rw [(removeFilename_render hroot hinit (hnames n (by simp))).2, hdropLast]
            dsimp only
            by_cases hend : root ++ init = [] ∧ its.map Iterator.element = [dotPath]
            · rw [if_pos (hendIff.mpr hend), if_pos hend]
              have hdotJoin := hjoin hroot hinit isName_dotPath
              rwa [hend.1] at hdotJoin ⊢
            · rw [if_neg (mt hendIff.mp hend), if_neg hend]
              exact hrest hroot hinit
        · rw [if_neg (mt hremoveIff.mp hremove), if_neg hremove]
          exact hjoin hroot hnames (hits it List.mem_cons_self)

theorem normalLoop_first (last it : Iterator) (its : List Iterator) :
    normalLoop it last [] (it :: its) =
      normalLoop it last (operatorSlash [] it.element) its := by
  rw [normalLoop_cons, if_neg fun hdot => hdot.2.1 rfl, if_neg fun hdotdot => hdotdot.1 rfl]

theorem normalLoop_root (start last : Iterator) {it : Iterator} {temp : Path}
    (h : it.element = ['/']) :
    normalLoop start last temp (it :: its) =
      normalLoop start last (operatorSlash temp ['/']) its := by
  rw [normalLoop_cons, h, if_neg (by simp [dotPath]), if_neg (by simp [dotDotPath])]

theorem settle_root (e : Path) (es : List Path) :
    settle [e] (['/'] :: es) = settle [e, ['/']] es := by
  rw [settle, if_neg (by simp [dotPath]), if_neg (by simp [dotDotPath])]
  rfl

theorem normalLoop_elements (h : WellFormed (start.element :: its.map Iterator.element))
    (hsorted : (start :: its).Pairwise (·.pos < ·.pos))
    (hlast : its ≠ [] → its.getLast? = some last) :
    normalLoop start last [] (start :: its) =
      some (render (settle [start.element] (its.map Iterator.element))) := by
  have hstart : ∀ it ∈ its, it.pos ≠ start.pos := fun it hit =>
    Nat.ne_of_gt (List.rel_of_pairwise_cons hsorted hit)
  have hsortedRest := List.Pairwise.of_cons hsorted
  have hnone : ∀ n ∈ ([] : List Path), IsName n := fun n hn => by cases hn
  have hall {its : List Iterator} (h : ∀ n ∈ its.map Iterator.element, IsName n) :
      ∀ it ∈ its, IsName it.element := fun it hit => h it.element (List.mem_map_of_mem hit)
  rw [normalLoop_first]
  generalize hes : start.element :: its.map Iterator.element = es at h
  cases h with
  | @names root names hroot hnames =>
      cases hroot with
      | relative =>
          rw [List.nil_append] at hes
          rw [← hes] at hnames
          obtain ⟨hhead, hits⟩ := List.forall_mem_cons.mp hnames
          exact normalLoop_settle .relative (List.forall_mem_singleton.mpr hhead) (hall hits)
            hstart hsortedRest hlast
      | absolute =>
          obtain ⟨hhead, rfl⟩ := List.cons.inj hes
          rw [hhead]
          exact normalLoop_settle .absolute hnone (hall hnames) hstart hsortedRest hlast
      | @net e he =>
          obtain ⟨rfl, htail⟩ := List.cons.inj hes
          obtain ⟨jt, its, rfl, helement, rfl⟩ := List.map_eq_cons_iff.mp htail
          rw [normalLoop_root start last helement, List.map_cons, helement, settle_root]
          refine normalLoop_settle (.net he) hnone (hall hnames)
            (fun it hit => hstart it (List.mem_cons_of_mem _ hit))
            (List.Pairwise.of_cons hsortedRest) fun hne => ?_
          have hlast' := hlast (by simp)
          rwa [List.getLast?_cons_of_ne_nil hne] at hlast'
  | separators =>
      obtain ⟨hhead, htail⟩ := List.cons.inj hes
      obtain rfl := List.map_eq_nil_iff.mp htail
      rw [hhead]
      rfl
  | @net e he =>
      obtain ⟨rfl, htail⟩ := List.cons.inj hes
      obtain rfl := List.map_eq_nil_iff.mp htail
      rfl

/-! ## What the loop keeps -/

variable {e : Path} {r : List Path}

inductive Settles (kept : List Path) : List Path → List Path → List Path → Prop
  | nil (names : List Path) : Settles kept names [] names
  | dot {names rest r : List Path} (hrest : rest ≠ []) (h : Settles kept names rest r) :
      Settles kept names (dotPath :: rest) r
  | remove {names rest r : List Path} {n : Path} (hn : Removable n)
      (h : Settles kept names rest r) : Settles kept (names ++ [n]) (dotDotPath :: rest) r
  | restart {r : List Path} {n : Path} (hkept : kept = []) (hn : Removable n)
      (h : Settles kept [dotPath] [dotPath] r) : Settles kept [n] [dotDotPath, dotPath] r
  | push {names rest r : List Path} {e : Path} (hdot : e = dotPath → rest = [])
      (hdotDot : e = dotDotPath → ¬ LastRemovable (kept ++ names))
      (h : Settles kept (names ++ [e]) rest r) : Settles kept names (e :: rest) r

theorem exists_settles {kept : List Path} (hkept : ¬ LastRemovable kept) (names es : List Path) :
    ∃ r, settle (kept ++ names) es = kept ++ r ∧ Settles kept names es r := by
  induction es generalizing names with
  | nil => exact ⟨names, rfl, .nil names⟩
  | cons e rest ih =>
      rw [settle]
      by_cases hdot : e = dotPath ∧ rest ≠ []
      · obtain ⟨r, heq, h⟩ := ih names
        rw [if_pos hdot, hdot.1]
        exact ⟨r, heq, .dot hdot.2 h⟩
      · rw [if_neg hdot]
        by_cases hremove : e = dotDotPath ∧ LastRemovable (kept ++ names)
        · rw [if_pos hremove, hremove.1]
          rcases List.eq_nil_or_concat' names with rfl | ⟨init, n, rfl⟩
          · rw [List.append_nil] at hremove
            exact absurd hremove.2 hkept
          · rw [← List.append_assoc, lastRemovable_snoc] at hremove
            rw [← List.append_assoc, List.dropLast_concat]
            by_cases hend : kept ++ init = [] ∧ rest = [dotPath]
            · obtain ⟨rfl, rfl⟩ := List.append_eq_nil_iff.mp hend.1
              obtain ⟨r, heq, h⟩ := ih [dotPath]
              rw [if_pos hend]
              rw [hend.2] at h ⊢
              rw [hend.2] at heq
              exact ⟨r, heq, .restart rfl hremove.2 h⟩
            · obtain ⟨r, heq, h⟩ := ih init
              rw [if_neg hend]
              exact ⟨r, heq, .remove hremove.2 h⟩
        · obtain ⟨r, heq, h⟩ := ih (names ++ [e])
          rw [if_neg hremove, List.append_assoc]
          refine ⟨r, heq, .push (fun he => ?_) (fun he hlast => hremove ⟨he, hlast⟩) h⟩
          exact Classical.byContradiction fun hrest => hdot ⟨he, hrest⟩

theorem Settles.isName {kept names es r : List Path} (h : Settles kept names es r)
    (hnames : ∀ n ∈ names, IsName n) (hes : ∀ n ∈ es, IsName n) : ∀ n ∈ r, IsName n := by
  induction h with
  | nil names => exact hnames
  | dot hrest h ih => exact ih hnames fun n hn => hes n (List.mem_cons_of_mem _ hn)
  | remove hremovable h ih =>
      exact ih (fun n hn => hnames n (List.mem_append_left _ hn))
        fun n hn => hes n (List.mem_cons_of_mem _ hn)
  | restart hkept hremovable h ih =>
      have hdots := List.forall_mem_singleton.mpr isName_dotPath
      exact ih hdots hdots
  | push hdot hdotDot h ih =>
      exact ih (forall_mem_snoc hnames (hes _ List.mem_cons_self))
        fun n hn => hes n (List.mem_cons_of_mem _ hn)

inductive Normal : List Path → List Path → Prop
  | rooted {root names r : List Path} (hroot : Root root) (hne : root ≠ [])
      (hnames : ∀ n ∈ names, IsName n) (h : Settles root [] names r) :
      Normal (root ++ names) (root ++ r)
  | relative {es r : List Path} {e : Path} (he : IsName e) (hes : ∀ n ∈ es, IsName n)
      (h : Settles [] [e] es r) : Normal (e :: es) (if r = [] then [dotPath] else r)
  | network {e : Path} (he : e = ['/', '/'] ∨ IsNet e) : Normal [e] [e]

theorem normal_normalElements (h : WellFormed es) (hne : es ≠ []) :
    Normal es (normalElements es) := by
  cases h with
  | @names root names hroot hnames =>
      cases hroot with
      | relative =>
          rw [List.nil_append] at hne ⊢
          cases names with
          | nil => exact absurd rfl hne
          | cons e es =>
              obtain ⟨he, hes⟩ := List.forall_mem_cons.mp hnames
              obtain ⟨r, heq, hsettles⟩ := exists_settles Root.relative.not_lastRemovable [e] es
              have heq' : settle [e] es = r := heq
              rw [normalElements, heq']
              exact .relative he hes hsettles
      | absolute =>
          obtain ⟨r, heq, hsettles⟩ := exists_settles Root.absolute.not_lastRemovable [] names
          have heq' : settle [['/']] names = [['/']] ++ r := heq
          have hresult : normalElements ([['/']] ++ names) = [['/']] ++ r := by
            rw [List.singleton_append, normalElements, heq']
            rfl
          rw [hresult]
          exact .rooted .absolute (by simp) hnames hsettles
      | @net e he =>
          obtain ⟨r, heq, hsettles⟩ := exists_settles (Root.net he).not_lastRemovable [] names
          have heq' : settle [e] (['/'] :: names) = [e, ['/']] ++ r := by
            rw [settle_root]
            exact heq
          have hresult : normalElements ([e, ['/']] ++ names) = [e, ['/']] ++ r := by
            rw [List.cons_append, List.singleton_append, normalElements, heq']
            rfl
          rw [hresult]
          exact .rooted (.net he) (by simp) hnames hsettles
  | separators => exact .network (.inl rfl)
  | net he => exact .network (.inr he)

theorem Normal.wellFormed (h : Normal es r) : r ≠ [] ∧ WellFormed r := by
  cases h with
  | rooted hroot hne hnames h =>
      refine ⟨by simp [hne], .names hroot (h.isName (fun n hn => by cases hn) hnames)⟩
  | relative he hes h =>
      have hnames := h.isName (List.forall_mem_singleton.mpr he) hes
      split
      · exact ⟨by simp, wellFormed_of_names (List.forall_mem_singleton.mpr isName_dotPath)⟩
      · rename_i hne
        exact ⟨hne, wellFormed_of_names hnames⟩
  | network he =>
      refine ⟨by simp, ?_⟩
      rcases he with rfl | he
      · exact .separators
      · exact .net he

theorem not_lastRemovable_of_not_plain (he : IsName e) (hplain : ¬ Plain e) :
    ¬ LastRemovable [e] := by
  by_cases hdot : e = dotPath
  · rw [hdot]
    simp [LastRemovable, Removable, dotPath]
  · have hdotDot : e = dotDotPath :=
      Classical.byContradiction fun hdotDot => hplain ⟨he, hdot, hdotDot⟩
    rw [hdotDot]
    simp [LastRemovable, Removable, dotDotPath]

theorem Normal.head?_of_root (h : Normal es r) (hhead : es.head? = some e) (he : ¬ IsName e) :
    r.head? = some e := by
  cases h with
  | rooted hroot hne hnames hsettles =>
      cases hroot with
      | relative => exact absurd rfl hne
      | absolute => exact hhead
      | net he => exact hhead
  | relative he' hes hsettles =>
      obtain rfl := Option.some.inj hhead
      exact absurd he' he
  | network he' => exact hhead

/-- A first element that is no plain name stays. -/
theorem head?_normalElements (h : WellFormed (e :: es)) (hplain : ¬ Plain e) :
    (normalElements (e :: es)).head? = some e := by
  by_cases he : IsName e
  · obtain ⟨r, heq, _⟩ := exists_settles (not_lastRemovable_of_not_plain he hplain) [] es
    have heq' : settle [e] es = e :: r := heq
    rw [normalElements, heq']
    rfl
  · exact (normal_normalElements h (by simp)).head?_of_root rfl he

/-! ## The result -/

variable {path : Path}

theorem lexicallyNormal_eq_render (hne : path ≠ []) :
    path.lexicallyNormal = some (render (normalElements path.elements)) := by
  obtain ⟨its, hits, hrest, hforward⟩ := exists_backward hne
  have helements : path.elements = path.begin.element :: its.map Iterator.element := by
    rw [elements, hits, List.map_cons]
  have hwell := path.wellFormed_elements
  rw [helements] at hwell
  have hsettled := (normal_normalElements hwell (by simp)).wellFormed
  rw [lexicallyNormal_def, if_neg hne, hits,
    normalLoop_elements hwell (hrest.sorted_cons hforward) hrest.getLast?, helements,
    Option.map_some, normalElements]
  rw [normalElements] at hsettled
  by_cases hempty : settle [path.begin.element] (its.map Iterator.element) = []
  · rw [if_pos hempty, hempty]
    rfl
  · rw [if_neg hempty] at hsettled ⊢
    rw [if_neg (render_ne_nil hsettled.2 hempty)]

/-- `lexically_normal` returns a clean path that is not empty. Its first element is that of the
path, unless that is a name that may be removed. -/
theorem lexicallyNormal_eq (hne : path ≠ []) :
    ∃ es, es ≠ [] ∧ WellFormed es ∧ lexicallyNormal path = some (render es) ∧
      (Plain path.begin.element ∨ es.head? = some path.begin.element) := by
  have hwell := path.wellFormed_elements
  obtain ⟨es, helements⟩ := exists_elements hne
  obtain ⟨hresult, hwell'⟩ := (normal_normalElements hwell (by rw [helements]; simp)).wellFormed
  refine ⟨_, hresult, hwell', lexicallyNormal_eq_render hne, ?_⟩
  by_cases hplain : Plain path.begin.element
  · exact .inl hplain
  · rw [helements] at hwell ⊢
    exact .inr (head?_normalElements hwell hplain)

end TarmIo.Fs.Path
