import Mathlib.Data.List.TakeWhile
import TarmIo.Fs.Path

/-!
# The elements of a path

Every path has a root, which may be absent, and names after it. Joining the elements of a path by
`operator/=` gives its clean form. `lexically_normal` returns paths in clean form.
-/

namespace TarmIo.Fs.Path

/-! ## Names and roots -/

variable {n q : Path}

def IsName (e : Path) : Prop := e ≠ [] ∧ '/' ∉ e

def IsNet (e : Path) : Prop := ∃ name, IsName name ∧ e = '/' :: '/' :: name

inductive Root : List Path → Prop
  | relative : Root []
  | absolute : Root [['/']]
  | net {e : Path} (he : IsNet e) : Root [e, ['/']]

inductive WellFormed : List Path → Prop
  | names {root names : List Path} (hroot : Root root) (hnames : ∀ n ∈ names, IsName n) :
      WellFormed (root ++ names)
  | separators : WellFormed [['/', '/']]
  | net {e : Path} (he : IsNet e) : WellFormed [e]

def render (es : List Path) : Path := es.foldl operatorSlash []

def tail (names : List Path) : Path := names.flatMap ('/' :: ·)

def body : List Path → Path
  | [] => []
  | n :: names => n ++ tail names

theorem isName_dotPath : IsName dotPath := ⟨by decide, by decide⟩

theorem IsName.exists_cons (h : IsName n) : ∃ c cs, n = c :: cs ∧ c ≠ '/' := by
  cases n with
  | nil => exact absurd rfl h.1
  | cons c cs =>
      refine ⟨c, cs, rfl, ?_⟩
      rintro rfl
      exact h.2 List.mem_cons_self

theorem IsName.getLast?_ne (h : IsName n) (p : Path) : (p ++ n).getLast? ≠ some '/' := by
  rw [List.getLast?_append_of_ne_nil _ h.1]
  intro hlast
  exact h.2 (List.mem_of_getLast? hlast)

theorem isDirectorySeparator_eq (path : Path) (pos : Nat) :
    path.isDirectorySeparator pos = ((path.drop pos).head? == some '/') := by
  rw [isDirectorySeparator, List.head?_drop]

theorem isDirectorySeparator_append (p q : Path) :
    isDirectorySeparator (p ++ q) p.length = (q.head? == some '/') := by
  rw [isDirectorySeparator_eq, List.drop_left]

theorem IsName.head? (h : IsName n) (q : Path) : ((n ++ q).head? == some '/') = false := by
  obtain ⟨c, cs, rfl, hc⟩ := h.exists_cons
  simpa using hc

theorem IsName.isDirectorySeparator_zero (h : IsName n) : n.isDirectorySeparator 0 = false := by
  have hhead := h.head? []
  rwa [List.append_nil, ← List.drop_zero (l := n), ← isDirectorySeparator_eq] at hhead

theorem IsName.takeWhile (h : IsName n) (hq : q.takeWhile (· != '/') = []) :
    (n ++ q).takeWhile (· != '/') = n := by
  rw [List.takeWhile_append_of_pos, hq, List.append_nil]
  intro c hc
  simp only [bne_iff_ne]
  rintro rfl
  exact h.2 hc

/-! ## The clean form -/

variable {names : List Path} {p : Path} {root : List Path}

theorem IsName.operatorSlash (h : IsName n) (p : Path) :
    operatorSlash p n = p.appendSeparatorIfNeeded ++ n := by
  rw [Path.operatorSlash, if_neg h.1, h.isDirectorySeparator_zero, if_neg (by simp)]

theorem foldl_operatorSlash (h : ∀ n ∈ names, IsName n) (hp : p ≠ [])
    (hlast : p.getLast? ≠ some '/') : names.foldl operatorSlash p = p ++ tail names := by
  induction names generalizing p with
  | nil => simp [tail]
  | cons n names ih =>
      have hn := h n List.mem_cons_self
      have hslash : operatorSlash p n = p ++ '/' :: n := by
        rw [hn.operatorSlash, appendSeparatorIfNeeded, if_pos ⟨hp, hlast⟩, List.append_assoc]
        rfl
      rw [List.foldl_cons, hslash, ih (fun m hm => h m (List.mem_cons_of_mem _ hm)) (by simp)]
      · simp [tail]
      · have hlast' := hn.getLast?_ne (p ++ ['/'])
        rwa [List.append_assoc] at hlast'

/-- A root is empty or ends with a separator. -/
theorem Root.render_eq (h : Root root) :
    root = [] ∧ render root = [] ∨ ∃ p, render root = p ++ ['/'] := by
  cases h with
  | relative => exact .inl ⟨rfl, rfl⟩
  | absolute => exact .inr ⟨[], rfl⟩
  | @net e he =>
      obtain ⟨name, _, rfl⟩ := he
      refine .inr ⟨'/' :: '/' :: name, ?_⟩
      rfl

theorem Root.appendSeparatorIfNeeded (h : Root root) :
    (render root).appendSeparatorIfNeeded = render root := by
  rw [Path.appendSeparatorIfNeeded]
  rcases h.render_eq with ⟨_, hempty⟩ | ⟨p, hp⟩
  · rw [hempty]
    rfl
  · rw [hp, if_neg]
    simp

theorem render_root_append {root names : List Path} (hroot : Root root)
    (hnames : ∀ n ∈ names, IsName n) : render (root ++ names) = render root ++ body names := by
  rw [render, List.foldl_append]
  cases names with
  | nil => simp [body, render]
  | cons n names =>
      have hn := hnames n List.mem_cons_self
      rw [List.foldl_cons]
      change List.foldl operatorSlash (operatorSlash (render root) n) names = _
      rw [hn.operatorSlash, hroot.appendSeparatorIfNeeded, foldl_operatorSlash, body,
        List.append_assoc]
      · exact fun m hm => hnames m (List.mem_cons_of_mem _ hm)
      · simp [hn.1]
      · exact hn.getLast?_ne _

/-! ## Iterators -/

variable {path : Path} {it : Iterator} {e : Path}

theorem wasNet_of_isName (h : IsName n) : wasNet n = false := by
  obtain ⟨c, cs, rfl, hc⟩ := h.exists_cons
  simp [wasNet, isDirectorySeparator, hc]

theorem iterators_of_begin {fuel : Nat} (hbegin : path.begin = it)
    (hlength : path.length = fuel + 1) (hpos : it.pos ≠ path.length) :
    path.iterators = it :: path.iteratorsFrom fuel (path.increment it) := by
  rw [iterators_def, hbegin, hlength, iteratorsFrom_succ, if_neg hpos]

theorem iteratorsFrom_end (h : it.pos = path.length) (fuel : Nat) :
    path.iteratorsFrom fuel it = [] := by
  cases fuel with
  | zero => rfl
  | succ fuel => rw [iteratorsFrom_succ, if_pos h]

theorem IsName.begin (h : IsName n) (hq : q.takeWhile (· != '/') = []) :
    begin (n ++ q) = { element := n, pos := 0 } := by
  have hsep : isDirectorySeparator (n ++ q) 0 = false := by
    rw [isDirectorySeparator_eq, List.drop_zero, h.head?]
  have hfirst : firstElement (n ++ q) = (0, n.length) := by
    rw [firstElement_def, if_neg (by simp [h.1]), if_neg (by simp [hsep]), if_neg (by simp [hsep]),
      h.takeWhile hq]
  rw [begin_def, hfirst]
  simp

theorem IsNet.begin {e q : Path} (h : IsNet e) (hq : q.takeWhile (· != '/') = []) :
    begin (e ++ q) = { element := e, pos := 0 } := by
  obtain ⟨name, hname, rfl⟩ := h
  have hsep : isDirectorySeparator ('/' :: '/' :: (name ++ q)) 2 = false := by
    rw [isDirectorySeparator_eq]
    exact hname.head? _
  have hfirst : firstElement ('/' :: '/' :: (name ++ q)) = (0, 2 + name.length) := by
    rw [firstElement_def, if_neg (by simp), if_pos]
    · rw [show List.drop 2 ('/' :: '/' :: (name ++ q)) = name ++ q from rfl, hname.takeWhile hq]
    · exact ⟨by simp, rfl, rfl, .inr (by simp [hsep])⟩
  rw [List.cons_append, List.cons_append, begin_def, hfirst]
  simp [Nat.add_comm 2]

theorem IsNet.wasNet (h : IsNet e) : wasNet e = true := by
  obtain ⟨name, hname, rfl⟩ := h
  obtain ⟨c, cs, rfl, hc⟩ := hname.exists_cons
  simp [Path.wasNet, isDirectorySeparator, hc]

theorem increment_net (h : IsNet e) (q : Path) :
    increment (e ++ '/' :: q) { element := e, pos := 0 } =
      { element := ['/'], pos := e.length } := by
  rw [increment_def]
  dsimp only
  rw [Nat.zero_add, if_neg (by simp), isDirectorySeparator_append, h.wasNet, if_pos (by rfl),
    if_pos rfl]

theorem elements_net_alone (he : IsNet e) : elements e = [e] := by
  have hbegin : begin e = { element := e, pos := 0 } := by
    have h := he.begin (q := []) rfl
    rwa [List.append_nil] at h
  have hincrement : increment e { element := e, pos := 0 } =
      { element := [], pos := e.length } := by simp [increment_def]
  obtain ⟨name, _, rfl⟩ := he
  rw [elements, iterators_of_begin hbegin rfl (by simp), hincrement, iteratorsFrom_end rfl]
  rfl

theorem wellFormed_of_names (h : ∀ n ∈ names, IsName n) : WellFormed names :=
  .names .relative h

theorem WellFormed.take {es : List Path} (h : WellFormed es) (k : Nat) :
    WellFormed (es.take k) := by
  cases k with
  | zero => exact wellFormed_of_names (by simp)
  | succ k =>
      cases h with
      | @names root names hroot hnames =>
          have htake (j : Nat) : ∀ n ∈ names.take j, IsName n :=
            fun n hn => hnames n (List.mem_of_mem_take hn)
          cases hroot with
          | relative => exact wellFormed_of_names (htake (k + 1))
          | absolute => exact .names .absolute (htake k)
          | net he =>
              cases k with
              | zero => exact .net he
              | succ k => exact .names (.net he) (htake k)
      | separators =>
          rw [List.take_succ_cons, List.take_nil]
          exact .separators
      | net he =>
          rw [List.take_succ_cons, List.take_nil]
          exact .net he

/-! ## Where elements lie -/

variable {pos : Nat}

def Iterator.Within (it : Iterator) (path : Path) : Prop :=
  it.pos + it.element.length ≤ path.length

theorem isName_takeWhile (hne : p ≠ []) (hhead : p.head? ≠ some '/') :
    IsName (p.takeWhile (· != '/')) := by
  constructor
  · cases p with
    | nil => exact absurd rfl hne
    | cons c cs =>
        have hc : c ≠ '/' := by simpa using hhead
        simp [hc]
  · intro hmem
    have hsep := List.mem_takeWhile_imp hmem
    simp at hsep

theorem elementAt_within (h : pos ≤ path.length) : (path.elementAt pos).Within path := by
  have hlength := (List.takeWhile_prefix (l := path.drop pos) (· != '/')).length_le
  rw [List.length_drop] at hlength
  rw [Iterator.Within, elementAt_def]
  dsimp only
  omega

theorem elementAt_isName (h : pos < path.length) (hsep : (path.drop pos).head? ≠ some '/') :
    IsName (path.elementAt pos).element := by
  rw [elementAt_def]
  refine isName_takeWhile ?_ hsep
  intro hnil
  rw [List.drop_eq_nil_iff] at hnil
  omega

theorem skip_separators (h : pos ≤ path.length) :
    pos + ((path.drop pos).takeWhile (· == '/')).length ≤ path.length ∧
      (path.drop (pos + ((path.drop pos).takeWhile (· == '/')).length)).head? ≠ some '/' := by
  have hsplit : (path.drop pos).takeWhile (· == '/') ++ (path.drop pos).dropWhile (· == '/') =
      path.drop pos := List.takeWhile_append_dropWhile
  constructor
  · have hlength := congrArg List.length hsplit
    rw [List.length_append, List.length_drop] at hlength
    omega
  · have hrest := congrArg (List.drop ((path.drop pos).takeWhile (· == '/')).length) hsplit
    rw [List.drop_left, List.drop_drop] at hrest
    rw [← hrest]
    intro hhead
    have hnot := List.head?_dropWhile_not (· == '/') (path.drop pos)
    rw [hhead] at hnot
    cases hnot

/-- After an element that is no network name comes a name or the end. -/
theorem increment_isName (hwithin : it.Within path) (hnet : wasNet it.element = false) :
    (path.increment it).pos = path.length ∨
      IsName (path.increment it).element ∧ (path.increment it).Within path := by
  rw [Iterator.Within] at hwithin
  rw [increment_def]
  dsimp only
  split
  · rename_i hend
    exact .inl hend
  · rename_i hend
    split
    · -- Past the separators.
      rw [hnet, if_neg (by simp)]
      generalize it.pos + it.element.length = pos at hwithin hend ⊢
      obtain ⟨hle, hhead⟩ := skip_separators hwithin
      split
      · rename_i hroot
        refine .inr ⟨isName_dotPath, ?_⟩
        have hpath : 0 < path.length := by omega
        rw [Iterator.Within]
        dsimp only [dotPath, List.length_singleton]
        omega
      · rcases Nat.lt_or_eq_of_le hle with hlt | heq
        · exact .inr ⟨elementAt_isName hlt hhead, elementAt_within hle⟩
        · exact .inl heq
    · rename_i hsep
      refine .inr ⟨elementAt_isName (by omega) ?_, elementAt_within hwithin⟩
      rw [isDirectorySeparator_eq] at hsep
      simpa using hsep

/-- A path that begins with a network name, which the next separator or the end ends. -/
theorem exists_net {c : Char} {q : Path} (hc : c ≠ '/') :
    ∃ e, IsNet e ∧ ('/' :: '/' :: c :: q = e ∨ ∃ q', '/' :: '/' :: c :: q = e ++ '/' :: q') := by
  have hname : IsName ((c :: q).takeWhile (· != '/')) :=
    isName_takeWhile (by simp) (by simpa using hc)
  refine ⟨'/' :: '/' :: (c :: q).takeWhile (· != '/'), ⟨_, hname, rfl⟩, ?_⟩
  have hsplit : (c :: q).takeWhile (· != '/') ++ (c :: q).dropWhile (· != '/') = c :: q :=
    List.takeWhile_append_dropWhile
  cases hrest : (c :: q).dropWhile (· != '/') with
  | nil =>
      rw [hrest, List.append_nil] at hsplit
      exact .inl (by rw [hsplit])
  | cons d q' =>
      have hnot := List.head?_dropWhile_not (· != '/') (c :: q)
      rw [hrest] at hnot hsplit
      obtain rfl : d = '/' := by simpa using hnot
      exact .inr ⟨q', by rw [List.cons_append, List.cons_append, hsplit]⟩

theorem begin_pos_lt (hne : path ≠ []) : path.begin.pos < path.length := by
  have hlength : 0 < path.length := List.length_pos_iff.mpr hne
  have hskip : ((path.drop 1).takeWhile (· == '/')).length ≤ (path.drop 1).length :=
    (List.takeWhile_prefix _).length_le
  rw [List.length_drop] at hskip
  change path.firstElement.1 < path.length
  rw [firstElement_def, if_neg hne]
  split
  · exact hlength
  · split
    · dsimp only
      omega
    · exact hlength

/-- The iterators of a path that is not empty start with `begin`. -/
theorem iterators_eq (hne : path ≠ []) :
    path.iterators =
      path.begin :: path.iteratorsFrom (path.length - 1) (path.increment path.begin) := by
  have hlength : 0 < path.length := List.length_pos_iff.mpr hne
  exact iterators_of_begin rfl (Nat.sub_add_cancel hlength).symm (Nat.ne_of_lt (begin_pos_lt hne))

theorem exists_elements (hne : path ≠ []) : ∃ es, path.elements = path.begin.element :: es := by
  rw [elements, iterators_eq hne, List.map_cons]
  exact ⟨_, rfl⟩

theorem head?_elements (hne : path ≠ []) : path.elements.head? = some path.begin.element := by
  obtain ⟨es, hes⟩ := exists_elements hne
  rw [hes, List.head?_cons]

end TarmIo.Fs.Path
