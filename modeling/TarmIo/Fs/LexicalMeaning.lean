import Mathlib.Data.List.Chain
import TarmIo.Fs.LexicallyNormal

/-!
# The lexical meaning of a path

The meaning of a path is its root and what is left of its names when `.` does nothing and `..`
removes the name before it. `lexically_normal` keeps the meaning, and a second call returns the
path as it is. Its result has no `..` after a name, unless the name has two characters and one of
them is a dot: such a name is never removed.
-/

namespace TarmIo.Fs.Path

/-! ## Scanning names -/

variable {n : Path} {root : List Path} {e : Path} {items : List Path}

def isRoot (e : Path) : Bool := e.isDirectorySeparator 0

/-- The next name: `..` removes the last name that was collected, if that is not `..` itself. -/
def collect (items : List Path) (e : Path) : List Path :=
  if e = dotPath then items
  else if e = dotDotPath ∧ items.getLast?.any (· != dotDotPath) then items.dropLast
  else items ++ [e]

def scan (es : List Path) : List Path := (es.filter fun e => !isRoot e).foldl collect []

def lexicalMeaning (path : Path) : List Path := path.elements.filter isRoot ++ scan path.elements

theorem collect_dotPath (items : List Path) : collect items dotPath = items := if_pos rfl

theorem collect_name (hdot : e ≠ dotPath) (hdotDot : e ≠ dotDotPath) (items : List Path) :
    collect items e = items ++ [e] := by
  rw [collect, if_neg hdot, if_neg fun h => hdotDot h.1]

theorem collect_dotDotPath (h : n ≠ dotDotPath) (items : List Path) :
    collect (items ++ [n]) dotDotPath = items := by
  rw [collect, if_neg (by decide), if_pos, List.dropLast_concat]
  exact ⟨rfl, by simpa using h⟩

theorem collect_dotDotPath_of_not (h : ∀ n ∈ items.getLast?, n = dotDotPath) :
    collect items dotDotPath = items ++ [dotDotPath] := by
  rw [collect, if_neg (by decide), if_neg]
  rintro ⟨_, hany⟩
  cases hlast : items.getLast? with
  | none =>
      rw [hlast] at hany
      cases hany
  | some n =>
      rw [hlast, h n hlast] at hany
      cases hany

theorem ne_of_removable (h : Removable n) : n ≠ dotPath ∧ n ≠ dotDotPath := by
  constructor
  · rintro rfl
    exact absurd h (by decide)
  · rintro rfl
    exact absurd h (by decide)

theorem IsName.isRoot (h : IsName n) : isRoot n = false := by
  have hhead := h.head? []
  rw [List.append_nil] at hhead
  rw [Path.isRoot, isDirectorySeparator_eq, List.drop_zero, hhead]

theorem filter_isRoot_of_names {names : List Path} (h : ∀ n ∈ names, IsName n) :
    names.filter isRoot = [] ∧ (names.filter fun e => !isRoot e) = names := by
  constructor
  · exact List.filter_eq_nil_iff.mpr fun n hn => by rw [(h n hn).isRoot]; simp
  · exact List.filter_eq_self.mpr fun n hn => by rw [(h n hn).isRoot]; rfl

theorem Root.filter_isRoot (hroot : Root root) :
    root.filter isRoot = root ∧ (root.filter fun e => !isRoot e) = [] := by
  cases hroot with
  | relative => exact ⟨rfl, rfl⟩
  | absolute => exact ⟨rfl, rfl⟩
  | net he =>
      obtain ⟨name, _, rfl⟩ := he
      exact ⟨rfl, rfl⟩

theorem scan_root_append {root names : List Path} (hroot : Root root)
    (hnames : ∀ n ∈ names, IsName n) : scan (root ++ names) = names.foldl collect [] := by
  rw [scan, List.filter_append, hroot.filter_isRoot.2, (filter_isRoot_of_names hnames).2,
    List.nil_append]

theorem filter_root_append {root names : List Path} (hroot : Root root)
    (hnames : ∀ n ∈ names, IsName n) : (root ++ names).filter isRoot = root := by
  rw [List.filter_append, hroot.filter_isRoot.1, (filter_isRoot_of_names hnames).1,
    List.append_nil]

/-! ## The meaning is kept -/

variable {kept names es r : List Path}

theorem Settles.foldl_collect (h : Settles kept names es r) (items : List Path) :
    r.foldl collect items = (names ++ es).foldl collect items := by
  -- A name that is removed and its `..` leave what was collected before.
  have hremove {n : Path} (hn : Removable n) (items : List Path) :
      collect (collect items n) dotDotPath = items := by
    obtain ⟨hdot, hdotDot⟩ := ne_of_removable hn
    rw [collect_name hdot hdotDot, collect_dotDotPath hdotDot]
  induction h with
  | nil names => rw [List.append_nil]
  | dot hrest h ih =>
      rw [ih, List.foldl_append, List.foldl_append, List.foldl_cons, collect_dotPath]
  | remove hn h ih =>
      rw [ih, List.append_assoc, List.foldl_append, List.foldl_append, List.singleton_append,
        List.foldl_cons, List.foldl_cons, hremove hn]
  | restart hkept hn h ih =>
      rw [ih]
      simp only [List.singleton_append, List.foldl_cons, List.foldl_nil, collect_dotPath,
        hremove hn]
  | push hdot hdotDot h ih => rw [ih, List.append_assoc, List.singleton_append]

theorem Normal.meaning (h : Normal es r) :
    r.filter isRoot ++ scan r = es.filter isRoot ++ scan es := by
  have hnone : ∀ n ∈ ([] : List Path), IsName n := fun n hn => by cases hn
  cases h with
  | rooted hroot hne hnames h =>
      have hr := h.isName hnone hnames
      rw [filter_root_append hroot hr, filter_root_append hroot hnames, scan_root_append hroot hr,
        scan_root_append hroot hnames, h.foldl_collect, List.nil_append]
  | @relative es r e he hes h =>
      have hall : ∀ n ∈ e :: es, IsName n := List.forall_mem_cons.mpr ⟨he, hes⟩
      have hr := h.isName (List.forall_mem_singleton.mpr he) hes
      have hscan : r.foldl collect [] = (e :: es).foldl collect [] := h.foldl_collect []
      have hresult : scan r = scan (e :: es) := by
        rw [← List.nil_append r, ← List.nil_append (e :: es), scan_root_append .relative hr,
          scan_root_append .relative hall, hscan]
      rw [(filter_isRoot_of_names hall).1, ← hresult]
      split
      · rename_i hempty
        rw [hempty]
        rfl
      · rw [(filter_isRoot_of_names hr).1]
  | network he => rfl

/-! ## Results stay -/

variable {path q : Path}

def Follows (a b : Path) : Prop := b ≠ dotPath ∧ (b = dotDotPath → ¬ Removable a)

theorem isChain_snoc {R : Path → Path → Prop} {es : List Path} (h : es.IsChain R)
    (hlast : ∀ a ∈ es.getLast?, R a e) : (es ++ [e]).IsChain R := by
  refine h.append (.singleton e) fun a ha b hb => ?_
  obtain rfl := Option.some.inj hb
  exact hlast a ha

theorem Settles.eq_of_nil (h : Settles kept names es r) (hes : es = []) : r = names := by
  cases h with
  | nil names => rfl
  | dot => cases hes
  | remove => cases hes
  | restart => cases hes
  | push => cases hes

theorem Settles.isChain (h : Settles kept names es r) (hchain : (kept ++ names).IsChain Follows) :
    ∃ acc, (kept ++ acc).IsChain Follows ∧ (r = acc ∨ r = acc ++ [dotPath]) := by
  induction h with
  | nil names => exact ⟨names, hchain, .inl rfl⟩
  | dot hrest h ih => exact ih hchain
  | remove hn h ih =>
      rw [← List.append_assoc] at hchain
      exact ih hchain.left_of_append
  | restart hkept hn h ih =>
      subst hkept
      exact ih (.singleton dotPath)
  | @push names rest r e hdot hdotDot h ih =>
      by_cases he : e = dotPath
      · -- The last element.
        rw [h.eq_of_nil (hdot he), he]
        exact ⟨names, hchain, .inr rfl⟩
      · refine ih ?_
        rw [← List.append_assoc]
        refine isChain_snoc hchain fun a ha => ⟨he, fun heq hremovable => ?_⟩
        exact hdotDot heq ⟨a, ha, hremovable⟩

theorem settle_of_isChain {es rest last : List Path} (hne : es ≠ [])
    (hchain : (es ++ rest).IsChain Follows) (hlast : last = [] ∨ last = [dotPath]) :
    settle es (rest ++ last) = es ++ rest ++ last := by
  induction rest generalizing es with
  | nil =>
      rw [List.append_nil, List.nil_append]
      rcases hlast with rfl | rfl
      · rw [settle, List.append_nil]
      · rw [settle, if_neg (by simp), if_neg fun h => absurd h.1 (by decide), settle]
  | cons e rest ih =>
      have hfollows : ∀ a ∈ es.getLast?, Follows a e := fun a ha =>
        (List.isChain_append.mp hchain).2.2 a ha e rfl
      obtain ⟨init, a, rfl⟩ := (List.eq_nil_or_concat' es).resolve_left hne
      obtain ⟨hdot, hdotDot⟩ := hfollows a List.getLast?_concat
      rw [List.cons_append, settle, if_neg fun h => hdot h.1, if_neg, ih (by simp)]
      · simp
      · simpa using hchain
      · rintro ⟨he, hremovable⟩
        exact hdotDot he ((lastRemovable_snoc init a).mp hremovable)

theorem normalElements_of_isChain {acc last : List Path} (hne : acc ++ last ≠ [])
    (hchain : acc.IsChain Follows) (hlast : last = [] ∨ last = [dotPath]) :
    normalElements (acc ++ last) = acc ++ last := by
  cases acc with
  | nil =>
      rcases hlast with rfl | rfl
      · rfl
      · rfl
  | cons e rest =>
      have hsettle : settle [e] (rest ++ last) = e :: (rest ++ last) :=
        settle_of_isChain (by simp) hchain hlast
      rw [List.cons_append, normalElements, hsettle]
      rfl

theorem Root.isChain (hroot : Root root) : root.IsChain Follows := by
  cases hroot with
  | relative => exact .nil
  | absolute => exact .singleton _
  | net he =>
      refine List.isChain_pair.mpr ⟨by simp [dotPath], fun h => ?_⟩
      cases h

/-- A result is the result for itself. -/
theorem Normal.normalElements (h : Normal es r) : normalElements r = r := by
  have hne := h.wellFormed.1
  cases h with
  | @rooted root names r hroot hrootne hnames h =>
      obtain ⟨acc, hchain, hr⟩ := h.isChain (by rw [List.append_nil]; exact hroot.isChain)
      rcases hr with rfl | rfl
      · have hfixed := normalElements_of_isChain (by simpa using hne) hchain (.inl rfl)
        rwa [List.append_nil] at hfixed
      · rw [← List.append_assoc] at hne ⊢
        exact normalElements_of_isChain hne hchain (.inr rfl)
  | @relative es r e he hes h =>
      split
      · rfl
      · rename_i hempty
        obtain ⟨acc, hchain, hr⟩ := h.isChain (.singleton e)
        rcases hr with rfl | rfl
        · have hfixed := normalElements_of_isChain (by simpa using hempty) hchain (.inl rfl)
          rwa [List.append_nil] at hfixed
        · exact normalElements_of_isChain hempty hchain (.inr rfl)
  | network he => rfl

theorem lexicallyNormal_spec (hne : path ≠ []) (h : path.lexicallyNormal = some q) :
    Normal path.elements (normalElements path.elements) ∧
      q = render (normalElements path.elements) := by
  obtain ⟨es, helements⟩ := exists_elements hne
  rw [lexicallyNormal_eq_render hne] at h
  refine ⟨normal_normalElements path.wellFormed_elements ?_, (Option.some.inj h).symm⟩
  rw [helements]
  exact List.cons_ne_nil _ _

theorem lexicallyNormal_lexicallyNormal (h : path.lexicallyNormal = some q) :
    q.lexicallyNormal = some q := by
  by_cases hne : path = []
  · subst hne
    obtain rfl := Option.some.inj h
    rfl
  · obtain ⟨hnormal, rfl⟩ := lexicallyNormal_spec hne h
    obtain ⟨hresult, hwell⟩ := hnormal.wellFormed
    rw [lexicallyNormal_eq_render (render_ne_nil hwell hresult), elements_render hwell,
      hnormal.normalElements]

theorem lexicalMeaning_lexicallyNormal (h : path.lexicallyNormal = some q) :
    q.lexicalMeaning = path.lexicalMeaning := by
  by_cases hne : path = []
  · subst hne
    obtain rfl := Option.some.inj h
    rfl
  · obtain ⟨hnormal, rfl⟩ := lexicallyNormal_spec hne h
    rw [lexicalMeaning, elements_render hnormal.wellFormed.2, hnormal.meaning, lexicalMeaning]

/-! ## Normal form -/

variable {a : Path}

def NormalForm (es : List Path) : Prop := es.IsChain fun a b => b = dotDotPath → ¬ Plain a

def HalfDot (n : Path) : Prop := n.length = 2 ∧ '.' ∈ n ∧ n ≠ dotDotPath

theorem not_halfDot_of_removable (h : Removable n) : ¬ HalfDot n := by
  rintro ⟨hlength, hmem, _⟩
  obtain ⟨hfirst, hsecond⟩ := h.2.2.resolve_left fun hne => hne hlength
  obtain ⟨c, d, rfl⟩ := List.length_eq_two.mp hlength
  rcases List.mem_pair.mp hmem with rfl | rfl
  · exact hfirst rfl
  · exact hsecond rfl

theorem Plain.halfDot (h : Plain n) (hremovable : ¬ Removable n) : HalfDot n := by
  obtain ⟨⟨hne, hslash⟩, hdot, hdotDot⟩ := h
  have hone : n.length ≠ 1 ∨ (n[0]? ≠ some '.' ∧ n[0]? ≠ some '/') := by
    apply Classical.or_iff_not_imp_left.mpr
    intro hlength
    obtain ⟨c, rfl⟩ := List.length_eq_one_iff.mp (Classical.not_not.mp hlength)
    constructor
    · intro hget
      obtain rfl := Option.some.inj hget
      exact hdot rfl
    · intro hget
      exact hslash (List.mem_of_getElem? hget)
  have htwo : ¬ (n.length ≠ 2 ∨ (n[0]? ≠ some '.' ∧ n[1]? ≠ some '.')) :=
    fun h => hremovable ⟨hne, hone, h⟩
  obtain ⟨hlength, hget⟩ := not_or.mp htwo
  refine ⟨Classical.not_not.mp hlength, ?_, hdotDot⟩
  rcases Classical.not_and_iff_not_or_not.mp hget with hfirst | hsecond
  · exact List.mem_of_getElem? (Classical.not_not.mp hfirst)
  · exact List.mem_of_getElem? (Classical.not_not.mp hsecond)

/-- A `..` meets such a name as the last one that was collected. -/
def Meets : List Path → List Path → Prop
  | _, [] => False
  | items, e :: es =>
      e = dotDotPath ∧ (∃ n ∈ items.getLast?, HalfDot n) ∨ Meets (collect items e) es

theorem meets_iff (items es : List Path) :
    Meets items es ↔ ∃ es₁ es₂, es = es₁ ++ dotDotPath :: es₂ ∧
      ∃ n ∈ (es₁.foldl collect items).getLast?, HalfDot n := by
  induction es generalizing items with
  | nil => simp [Meets]
  | cons e es ih =>
      rw [Meets, ih]
      constructor
      · rintro (⟨rfl, hmeets⟩ | ⟨es₁, es₂, rfl, hmeets⟩)
        · exact ⟨[], es, rfl, hmeets⟩
        · exact ⟨e :: es₁, es₂, rfl, hmeets⟩
      · rintro ⟨es₁, es₂, hsplit, hmeets⟩
        cases es₁ with
        | nil =>
            obtain ⟨rfl, rfl⟩ := List.cons.inj hsplit
            exact .inl ⟨rfl, hmeets⟩
        | cons e' es₁ =>
            obtain ⟨rfl, rfl⟩ := List.cons.inj hsplit
            exact .inr ⟨es₁, es₂, rfl, hmeets⟩

/-- Elements that end with one that is not removed stay. -/
theorem Settles.stays {kept names es r p : List Path} (h : Settles kept names es r)
    (hp : p <+: names) (hne : p ≠ []) (hlast : ¬ LastRemovable p) : p <+: r := by
  induction h with
  | nil names => exact hp
  | dot hrest h ih => exact ih hp
  | remove hn h ih =>
      rcases List.prefix_concat_iff.mp hp with rfl | hinit
      · exact absurd ((lastRemovable_snoc _ _).mpr hn) hlast
      · exact ih hinit
  | @restart r n hkept hn h ih =>
      rcases List.prefix_concat_iff.mp (show p <+: [] ++ [n] from hp) with rfl | hinit
      · exact absurd ((lastRemovable_snoc [] n).mpr hn) hlast
      · exact absurd (List.prefix_nil.mp hinit) hne
  | push hdot hdotDot h ih => exact ih (hp.trans (List.prefix_append _ _))

/-- The names of the result so far are what was collected, perhaps after a `.`. -/
def Matches (names items : List Path) : Prop :=
  dotPath ∉ items ∧ (names = items ∨ names = dotPath :: items)

theorem Matches.snoc (h : Matches names items) (he : e ≠ dotPath) :
    Matches (names ++ [e]) (items ++ [e]) := by
  refine ⟨by simp [h.1, he.symm], ?_⟩
  rcases h.2 with rfl | rfl
  · exact .inl rfl
  · exact .inr rfl

theorem Matches.exists_snoc {init items : List Path} (h : Matches (init ++ [a]) items)
    (ha : a ≠ dotPath) : ∃ items', items = items' ++ [a] ∧ Matches init items' := by
  obtain ⟨hmem, rfl | hdot⟩ := h
  · exact ⟨init, rfl, by simpa using fun h => hmem (by simp [h]), .inl rfl⟩
  · rcases List.eq_nil_or_concat' items with rfl | ⟨items', b, rfl⟩
    · rw [← List.nil_append [dotPath]] at hdot
      exact absurd (List.append_inj_right' hdot rfl) (by simpa using ha)
    · rw [← List.cons_append] at hdot
      obtain ⟨rfl, hlast⟩ := List.append_inj' hdot rfl
      obtain rfl := List.singleton_inj.mp hlast
      exact ⟨items', rfl, fun h => hmem (List.mem_append_left _ h), .inr rfl⟩

theorem Matches.eq_nil (h : Matches [] items) : items = [] := by
  rcases h.2 with rfl | hdot
  · rfl
  · cases hdot

/-- What was collected last, by the last name of the result so far. -/
theorem Matches.getLast?_eq (h : Matches names items) (hnames : ∀ n ∈ names, IsName n)
    (hplain : ∀ a ∈ names.getLast?, ¬ Plain a) : ∀ n ∈ items.getLast?, n = dotDotPath := by
  intro n hn
  rcases List.eq_nil_or_concat' names with rfl | ⟨init, a, rfl⟩
  · rw [h.eq_nil] at hn
    cases hn
  · have ha : IsName a := hnames a (by simp)
    have hnot : ¬ Plain a := hplain a List.getLast?_concat
    have hmem : n ∈ items := List.mem_of_getLast? hn
    by_cases hdot : a = dotPath
    · -- Only a `.` at the start.
      rcases h.2 with rfl | hcons
      · exact absurd (by rw [← hdot]; simp) h.1
      · rcases List.eq_nil_or_concat' items with rfl | ⟨items', b, rfl⟩
        · cases hmem
        · rw [← List.cons_append] at hcons
          have hlast := List.singleton_inj.mp (List.append_inj' hcons rfl).2
          exact absurd (by rw [← hdot, hlast]; simp) h.1
    · obtain ⟨items', rfl, _⟩ := h.exists_snoc hdot
      rw [List.getLast?_concat] at hn
      obtain rfl := Option.some.inj hn
      exact Classical.byContradiction fun hne => hnot ⟨ha, hdot, hne⟩

/-- A name that is not removed stays with the `..` after it. -/
theorem Settles.not_normalForm {kept init es r : List Path} (ha : Plain a)
    (h : Settles kept (init ++ [a] ++ [dotDotPath]) es r) : ¬ NormalForm (kept ++ r) := by
  intro hnormal
  have hlast : ¬ LastRemovable (init ++ [a] ++ [dotDotPath]) := by
    rw [lastRemovable_snoc]
    decide
  obtain ⟨t, rfl⟩ := h.stays (List.prefix_refl _) (by simp) hlast
  have hsplit : kept ++ (init ++ [a] ++ [dotDotPath] ++ t) =
      kept ++ init ++ a :: dotDotPath :: t := by simp
  rw [NormalForm, hsplit, List.isChain_append_cons_cons] at hnormal
  exact hnormal.2.1 rfl ha

/-- A `..` may follow another one, or what was kept. -/
theorem normalForm_snoc_dotDot {kept names : List Path} (h : NormalForm (kept ++ names))
    (hkept : ∀ a ∈ kept.getLast?, ¬ Plain a) (hnames : ∀ a ∈ names.getLast?, ¬ Plain a) :
    NormalForm (kept ++ (names ++ [dotDotPath])) := by
  rw [← List.append_assoc]
  refine isChain_snoc h fun a ha _ => ?_
  rcases List.eq_nil_or_concat' names with rfl | ⟨init, b, rfl⟩
  · rw [List.append_nil] at ha
    exact hkept a ha
  · rw [← List.append_assoc, List.getLast?_concat] at ha
    exact hnames a (by rw [List.getLast?_concat]; exact ha)

/-- The result is in normal form as long as no `..` meets a name that is not removed. -/
theorem Settles.normalForm_iff (h : Settles kept names es r)
    (hkept : ∀ a ∈ kept.getLast?, ¬ Plain a) (hnames : ∀ n ∈ names, IsName n)
    (hes : ∀ n ∈ es, IsName n) (hitems : Matches names items)
    (hchain : NormalForm (kept ++ names)) : NormalForm (kept ++ r) ↔ ¬ Meets items es := by
  induction h generalizing items with
  | nil names => exact iff_of_true hchain fun h => h
  | dot hrest h ih =>
      rw [ih hnames (fun n hn => hes n (List.mem_cons_of_mem _ hn)) hitems hchain, Meets,
        collect_dotPath]
      simp [dotPath, dotDotPath]
  | @remove names rest r n hn h ih =>
      obtain ⟨items', rfl, hitems'⟩ := hitems.exists_snoc (ne_of_removable hn).1
      rw [← List.append_assoc] at hchain
      have hinit : ∀ m ∈ names, IsName m := fun m hm => hnames m (List.mem_append_left _ hm)
      rw [ih hinit (fun n hn => hes n (List.mem_cons_of_mem _ hn)) hitems' hchain.left_of_append,
        Meets, collect_dotDotPath (ne_of_removable hn).2]
      simp [not_halfDot_of_removable hn]
  | @restart r n hempty hn h ih =>
      subst hempty
      have hsnoc : Matches ([] ++ [n]) items := hitems
      obtain ⟨items', rfl, hitems'⟩ := hsnoc.exists_snoc (ne_of_removable hn).1
      obtain rfl := hitems'.eq_nil
      have hdots : ∀ m ∈ [dotPath], IsName m := List.forall_mem_singleton.mpr isName_dotPath
      have hfirst : Matches [dotPath] [] := ⟨by simp, .inr rfl⟩
      refine iff_of_true ((ih hdots hdots hfirst (.singleton dotPath)).mpr ?_) ?_
      · simp [Meets, dotPath, dotDotPath]
      · rw [Meets, collect_dotDotPath (ne_of_removable hn).2]
        simp [Meets, not_halfDot_of_removable hn, dotPath, dotDotPath]
  | @push names rest r e hdot hdotDot h ih =>
      have he : IsName e := hes e List.mem_cons_self
      have hrest : ∀ n ∈ rest, IsName n := fun n hn => hes n (List.mem_cons_of_mem _ hn)
      have hnames' := forall_mem_snoc hnames he
      by_cases hdotCase : e = dotPath
      · -- The last element.
        subst hdotCase
        obtain rfl := hdot rfl
        rw [h.eq_of_nil rfl, ← List.append_assoc]
        refine iff_of_true (isChain_snoc hchain fun a _ h => by cases h) ?_
        simp [Meets, dotPath, dotDotPath]
      · have hmatches := hitems.snoc hdotCase
        by_cases hdotDotCase : e = dotDotPath
        · subst hdotDotCase
          by_cases hlast : ∃ a ∈ names.getLast?, Plain a
          · -- The name before is not removed.
            obtain ⟨a, ha, hplain⟩ := hlast
            obtain ⟨init, rfl⟩ := List.getLast?_eq_some_iff.mp ha
            refine iff_of_false (h.not_normalForm hplain) fun hnot => hnot (.inl ⟨rfl, a, ?_, ?_⟩)
            · obtain ⟨items', rfl, _⟩ := hitems.exists_snoc hplain.2.1
              exact List.getLast?_concat
            · refine hplain.halfDot fun hremovable => hdotDot rfl ?_
              rw [← List.append_assoc]
              exact (lastRemovable_snoc _ a).mpr hremovable
          · have hplain : ∀ a ∈ names.getLast?, ¬ Plain a := fun a ha h => hlast ⟨a, ha, h⟩
            have hcollected := hitems.getLast?_eq hnames hplain
            have hchain' := normalForm_snoc_dotDot hchain hkept hplain
            rw [ih hnames' hrest hmatches hchain', Meets, collect_dotDotPath_of_not hcollected]
            refine not_congr ⟨.inr, fun hmeets => hmeets.resolve_left ?_⟩
            rintro ⟨_, n, hn, hhalf⟩
            exact hhalf.2.2 (hcollected n hn)
        · have hchain' : NormalForm (kept ++ (names ++ [e])) := by
            rw [← List.append_assoc]
            exact isChain_snoc hchain fun a _ h => absurd h hdotDotCase
          rw [ih hnames' hrest hmatches hchain', Meets, collect_name hdotCase hdotDotCase]
          simp [hdotDotCase]

theorem meets_filter_iff (es : List Path) :
    Meets [] (es.filter fun e => !isRoot e) ↔ ∃ es₁ es₂, es = es₁ ++ dotDotPath :: es₂ ∧
      ∃ n ∈ (scan es₁).getLast?, HalfDot n := by
  rw [meets_iff]
  constructor
  · rintro ⟨ns₁, ns₂, hfilter, hmeets⟩
    obtain ⟨es₁, rest, rfl, rfl, hrest⟩ := List.filter_eq_append_iff.mp hfilter
    obtain ⟨es₂, es₃, rfl, hroots, _, _⟩ := List.filter_eq_cons_iff.mp hrest
    refine ⟨es₁ ++ es₂, es₃, by simp, ?_⟩
    rwa [scan, List.filter_append, List.filter_eq_nil_iff.mpr hroots, List.append_nil]
  · rintro ⟨es₁, es₂, rfl, hmeets⟩
    exact ⟨_, es₂.filter fun e => !isRoot e, List.filter_append _ _, hmeets⟩

theorem Root.not_plain_getLast? (hroot : Root root) : ∀ a ∈ root.getLast?, ¬ Plain a := by
  intro a ha hplain
  cases hroot with
  | relative => cases ha
  | absolute =>
      obtain rfl := Option.some.inj ha
      exact hplain.1.2 List.mem_cons_self
  | net he =>
      obtain rfl := Option.some.inj ha
      exact hplain.1.2 List.mem_cons_self

theorem Root.normalForm (hroot : Root root) : NormalForm root := by
  cases hroot with
  | relative => exact .nil
  | absolute => exact .singleton _
  | net he =>
      refine List.isChain_pair.mpr fun h => ?_
      cases h

/-- The first name of a relative path. -/
theorem matches_collect (e : Path) : Matches [e] (collect [] e) := by
  by_cases hdot : e = dotPath
  · subst hdot
    exact ⟨by simp [collect_dotPath], .inr rfl⟩
  · have hcollect : collect [] e = [e] := by
      rw [collect, if_neg hdot, if_neg fun h => by cases h.2]
      rfl
    rw [hcollect]
    exact ⟨by simpa using fun h => hdot h.symm, .inl rfl⟩

theorem Normal.normalForm_iff (h : Normal es r) :
    NormalForm r ↔ ¬ Meets [] (es.filter fun e => !isRoot e) := by
  have hnone : ∀ n ∈ ([] : List Path), IsName n := fun n hn => by cases hn
  cases h with
  | @rooted root names r hroot hne hnames h =>
      have hempty : Matches [] [] := ⟨by simp, .inl rfl⟩
      rw [List.filter_append, hroot.filter_isRoot.2, (filter_isRoot_of_names hnames).2,
        List.nil_append]
      exact h.normalForm_iff hroot.not_plain_getLast? hnone hnames hempty
        (by rw [List.append_nil]; exact hroot.normalForm)
  | @relative es r e he hes h =>
      have hresult : NormalForm (if r = [] then [dotPath] else r) ↔ NormalForm r := by
        split
        · rename_i hempty
          subst hempty
          exact iff_of_true (.singleton _) .nil
        · exact Iff.rfl
      have hloop := h.normalForm_iff (fun a ha => by cases ha)
        (List.forall_mem_singleton.mpr he) hes (matches_collect e) (.singleton e)
      rw [(filter_isRoot_of_names (List.forall_mem_cons.mpr ⟨he, hes⟩)).2, hresult, Meets]
      refine hloop.trans (not_congr ⟨.inr, fun hmeets => hmeets.resolve_left ?_⟩)
      rintro ⟨_, n, hn, _⟩
      cases hn
  | @network e he =>
      have hroot : isRoot e = true := by
        rcases he with rfl | ⟨name, _, rfl⟩
        · rfl
        · rfl
      refine iff_of_true (.singleton e) ?_
      rw [List.filter_cons_of_neg (by simp [hroot])]
      exact fun h => h

theorem normalForm_iff_forall (es : List Path) :
    NormalForm es ↔ ∀ es₁ n es₂, es = es₁ ++ n :: dotDotPath :: es₂ → ¬ Plain n := by
  rw [NormalForm, List.isChain_iff_forall_rel_of_append_cons_cons]
  constructor
  · intro h es₁ n es₂ hes
    exact h hes rfl
  · rintro h a b es₁ es₂ hes rfl
    exact h es₁ a es₂ hes

theorem exists_lexicallyNormal (path : Path) : ∃ q, path.lexicallyNormal = some q := by
  by_cases hne : path = []
  · subst hne
    exact ⟨[], rfl⟩
  · exact ⟨_, lexicallyNormal_eq_render hne⟩

theorem normalForm_lexicallyNormal_iff (h : path.lexicallyNormal = some q) :
    NormalForm q.elements ↔ ¬ Meets [] (path.elements.filter fun e => !isRoot e) := by
  by_cases hne : path = []
  · subst hne
    obtain rfl := Option.some.inj h
    exact iff_of_true .nil fun h => h
  · obtain ⟨hnormal, rfl⟩ := lexicallyNormal_spec hne h
    rw [elements_render hnormal.wellFormed.2, hnormal.normalForm_iff]

/-- The result is in normal form unless, in the scan of the path, a `..` finds a name of two
characters one of which is a dot. -/
theorem lexically_normal_normal_form_iff (path : Path) :
    ∃ q, path.lexicallyNormal = some q ∧
      ((∀ es₁ n es₂, q.elements = es₁ ++ n :: dotDotPath :: es₂ → ¬ Plain n) ↔
        ∀ es₁ es₂, path.elements = es₁ ++ dotDotPath :: es₂ →
          ∀ n ∈ (scan es₁).getLast?, ¬ HalfDot n) := by
  obtain ⟨q, hq⟩ := exists_lexicallyNormal path
  refine ⟨q, hq, ?_⟩
  rw [← normalForm_iff_forall, normalForm_lexicallyNormal_iff hq, meets_filter_iff]
  constructor
  · intro h es₁ es₂ hes n hn hhalf
    exact h ⟨es₁, es₂, hes, n, hn, hhalf⟩
  · rintro h ⟨es₁, es₂, hes, n, hn, hhalf⟩
    exact h es₁ es₂ hes n hn hhalf

theorem half_dot_name_not_removed :
    lexicallyNormal ['a', '.', '/', '.', '.'] = some ['a', '.', '/', '.', '.'] ∧
      elements ['a', '.', '/', '.', '.'] = [['a', '.'], dotDotPath] ∧ Plain ['a', '.'] := by
  exact ⟨by decide +kernel, by decide +kernel, ⟨by decide, by decide⟩, by decide, by decide⟩

end TarmIo.Fs.Path
