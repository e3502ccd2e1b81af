import TarmIo.Fs.PathIteration

/-!
# The shape of a path

The elements of every path are read off its string. What stands before the first name is nothing,
leading separators or a network name with the separators after it. Then come names with any number
of separators between them, and trailing separators are one more element `.`. Only `//` and a
network name alone are different.
-/

namespace TarmIo.Fs.Path

/-! ## Names and separators -/

variable {q : Path} {es : List Path} {p : Path} {names : List Path}

inductive Spelled : Path → List Path → Prop
  | last {n : Path} (hn : IsName n) : Spelled n [n]
  | trailing {n : Path} (k : Nat) (hn : IsName n) :
      Spelled (n ++ List.replicate (k + 1) '/') [n, dotPath]
  | cons {n q : Path} {es : List Path} (k : Nat) (hn : IsName n) (h : Spelled q es) :
      Spelled (n ++ (List.replicate (k + 1) '/' ++ q)) (n :: es)

theorem ended_separators (k : Nat) (q : Path) : Ended (List.replicate (k + 1) '/' ++ q) :=
  .inr ⟨_, rfl⟩

theorem Spelled.exists_name (h : Spelled q es) :
    ∃ n post rest, q = n ++ post ∧ IsName n ∧ Ended post ∧ es = n :: rest := by
  cases h with
  | last hn => exact ⟨_, [], _, (List.append_nil _).symm, hn, .inl rfl, rfl⟩
  | trailing k hn =>
      refine ⟨_, _, _, rfl, hn, ?_, rfl⟩
      have hended := ended_separators k []
      rwa [List.append_nil] at hended
  | cons k hn h => exact ⟨_, _, _, rfl, hn, ended_separators k _, rfl⟩

theorem Spelled.isName (h : Spelled q es) : ∀ n ∈ es, IsName n := by
  induction h with
  | last hn => exact List.forall_mem_singleton.mpr hn
  | trailing k hn =>
      exact List.forall_mem_cons.mpr ⟨hn, List.forall_mem_singleton.mpr isName_dotPath⟩
  | cons k hn h ih => exact List.forall_mem_cons.mpr ⟨hn, ih⟩

/-- Every string that begins with a name. -/
theorem exists_spelled (hne : q ≠ []) (hhead : q.head? ≠ some '/') : ∃ es, Spelled q es := by
  induction hlength : q.length using Nat.strong_induction_on generalizing q with
  | _ length ih =>
      obtain ⟨n, post, rfl, hn, hpost⟩ := Path.exists_name hne hhead
      obtain ⟨k, rest, rfl, hrest⟩ := exists_separators post
      cases k with
      | zero =>
          rw [List.replicate_zero, List.nil_append] at hpost ⊢
          rcases hpost with rfl | ⟨q', rfl⟩
          · rw [List.append_nil]
            exact ⟨_, .last hn⟩
          · exact absurd rfl hrest
      | succ k =>
          by_cases hempty : rest = []
          · subst hempty
            rw [List.append_nil]
            exact ⟨_, .trailing k hn⟩
          · have hpos : 0 < n.length := List.length_pos_iff.mpr hn.1
            have hless : rest.length < length := by
              rw [← hlength, List.length_append, List.length_append]
              omega
            obtain ⟨es, hes⟩ := ih rest.length hless hempty hrest rfl
            exact ⟨_, .cons k hn hes⟩

theorem spelled_body (hne : names ≠ []) (hnames : ∀ n ∈ names, IsName n) :
    Spelled (body names) names := by
  induction names with
  | nil => exact absurd rfl hne
  | cons n names ih =>
      obtain ⟨hn, hrest⟩ := List.forall_mem_cons.mp hnames
      cases names with
      | nil =>
          rw [show body [n] = n from List.append_nil n]
          exact .last hn
      | cons m names =>
          have hbody : body (n :: m :: names) =
              n ++ (List.replicate (0 + 1) '/' ++ body (m :: names)) := by simp [body, tail]
          rw [hbody]
          exact .cons 0 hn (ih (by simp) hrest)

theorem Spelled.ne_nil (h : Spelled q es) : q ≠ [] := by
  obtain ⟨n, post, _, rfl, hn, _, _⟩ := h.exists_name
  simp [hn.1]

theorem Spelled.head?_ne (h : Spelled q es) : q.head? ≠ some '/' := by
  obtain ⟨n, post, _, rfl, hn, _, _⟩ := h.exists_name
  exact beq_eq_false_iff_ne.mp (hn.head? post)

theorem Spelled.endsName_of_append (h : Spelled q es) (hends : EndsName (p ++ q)) : EndsName q := by
  rwa [EndsName, List.getLast?_append_of_ne_nil _ h.ne_nil] at hends

theorem Spelled.endsName (h : Spelled q es) (hdot : dotPath ∉ es) (p : Path) :
    EndsName (p ++ q) := by
  induction h generalizing p with
  | last hn => exact hn.endsName p
  | trailing k hn => exact absurd (by simp) hdot
  | @cons n q es k hn h ih =>
      have hrest := ih (fun hmem => hdot (List.mem_cons_of_mem _ hmem))
        (p ++ (n ++ List.replicate (k + 1) '/'))
      simpa using hrest

theorem Spelled.append {q q' : Path} {es es' : List Path} (h : Spelled q es) (hends : EndsName q)
    (k : Nat) (h' : Spelled q' es') :
    Spelled (q ++ (List.replicate (k + 1) '/' ++ q')) (es ++ es') := by
  induction h with
  | last hn => exact .cons k hn h'
  | trailing j hn => exact absurd (by simp [List.replicate_succ']) hends
  | cons j hn h ih =>
      rw [List.append_assoc, List.append_assoc]
      exact .cons j hn (ih (h.endsName_of_append (by rwa [← List.append_assoc] at hends)))

inductive Split : Path → List Path → Prop
  | name {n : Path} (hn : IsName n) : Split n [n]
  | snoc {q n : Path} {es : List Path} (h : Spelled q es) (hends : EndsName q) (k : Nat)
      (hn : IsName n) : Split (q ++ (List.replicate (k + 1) '/' ++ n)) (es ++ [n])
  | trailing {q : Path} {es : List Path} (h : Spelled q es) (hends : EndsName q) (k : Nat) :
      Split (q ++ List.replicate (k + 1) '/') (es ++ [dotPath])

theorem EndsName.append (h : EndsName q) (hne : q ≠ []) (p : Path) : EndsName (p ++ q) := by
  rwa [EndsName, List.getLast?_append_of_ne_nil _ hne]

theorem EndsName.appendSeparatorIfNeeded (h : EndsName p) (hne : p ≠ []) :
    p.appendSeparatorIfNeeded = p ++ ['/'] := by
  rw [Path.appendSeparatorIfNeeded, if_pos ⟨hne, h⟩]

theorem Spelled.split (h : Spelled q es) : Split q es := by
  induction h with
  | last hn => exact .name hn
  | trailing k hn => exact .trailing (.last hn) (hn.endsName []) k
  | @cons n q es k hn h ih =>
      cases ih with
      | name hm => exact .snoc (.last hn) (hn.endsName []) k hm
      | @snoc q m es hq hends j hm =>
          rw [← List.append_assoc _ q, ← List.append_assoc n, ← List.cons_append]
          exact .snoc (.cons k hn hq) ((hends.append hq.ne_nil _).append (by simp) n) j hm
      | @trailing q es hq hends j =>
          rw [← List.append_assoc _ q, ← List.append_assoc n, ← List.cons_append]
          exact .trailing (.cons k hn hq) ((hends.append hq.ne_nil _).append (by simp) n) j

theorem Spelled.exists_last (h : Spelled q es) (hends : EndsName q) (hp : BeforeName p) :
    ∃ p' n, p ++ q = p' ++ n ∧ BeforeName p' ∧ IsName n := by
  induction h generalizing p with
  | @last n hn => exact ⟨p, n, rfl, hp, hn⟩
  | trailing k hn => exact absurd (by simp [List.replicate_succ']) hends
  | @cons n q es k hn h ih =>
      have hends' : EndsName q :=
        h.endsName_of_append (p := n ++ List.replicate (k + 1) '/') (by simpa using hends)
      obtain ⟨p', m, hpath, hp', hm⟩ := ih hends' (p := p ++ (n ++ List.replicate (k + 1) '/'))
        (beforeName_separators hn k)
      refine ⟨p', m, ?_, hp', hm⟩
      rw [← hpath]
      simp

/-! ## Elements -/

variable {fuel : Nat}

theorem Spelled.iteratorsFrom (h : Spelled q es) {p n : Path} (hp : BeforeName p)
    (hn : es.head? = some n) (hfuel : q.length ≤ fuel) :
    ((p ++ q).iteratorsFrom fuel { element := n, pos := p.length }).map Iterator.element = es := by
  induction h generalizing p n fuel with
  | @last m hm =>
      obtain rfl := Option.some.inj hn
      have hlength : 0 < m.length := List.length_pos_iff.mpr hm.1
      obtain ⟨fuel, rfl⟩ := Nat.exists_eq_succ_of_ne_zero (by omega : fuel ≠ 0)
      rw [iteratorsFrom_succ, if_neg (by simp [hm.1]), increment_stop (by simp),
        iteratorsFrom_end rfl]
      rfl
  | @trailing m k hm =>
      obtain rfl := Option.some.inj hn
      have hlength : 0 < m.length := List.length_pos_iff.mpr hm.1
      rw [List.length_append, List.length_replicate] at hfuel
      obtain ⟨fuel, rfl⟩ : ∃ f, fuel = f + 2 := ⟨fuel - 2, by omega⟩
      have hpath : p ++ (m ++ List.replicate (k + 1) '/') =
          p ++ m ++ List.replicate (k + 1) '/' := (List.append_assoc _ _ _).symm
      have hroot := isRootSeparator_name hp hm [] (Nat.le_succ k)
      rw [List.append_nil, ← List.length_append] at hroot
      have hdot : increment (p ++ (m ++ List.replicate (k + 1) '/'))
          { element := m, pos := p.length } =
            { element := dotPath, pos := (p ++ m).length + k } :=
        increment_trailing hpath List.length_append.symm (wasNet_of_isName hm) hroot
      rw [iteratorsFrom_succ, if_neg (by simp), hdot, iteratorsFrom_succ, if_neg,
        increment_stop, iteratorsFrom_end rfl]
      · rfl
      · simp [dotPath]
        omega
      · simp
        omega
  | @cons m q es k hm h ih =>
      obtain rfl := Option.some.inj hn
      obtain ⟨m', post, rest, hq, hm', hpost, hes⟩ := h.exists_name
      have hlength : 0 < m.length := List.length_pos_iff.mpr hm.1
      rw [List.length_append, List.length_append, List.length_replicate] at hfuel
      obtain ⟨fuel, rfl⟩ := Nat.exists_eq_succ_of_ne_zero (by omega : fuel ≠ 0)
      have hpath : p ++ (m ++ (List.replicate (k + 1) '/' ++ q)) =
          p ++ m ++ (List.replicate (k + 1) '/' ++ (m' ++ post)) := by simp [hq]
      have hpath' : p ++ (m ++ (List.replicate (k + 1) '/' ++ q)) =
          p ++ (m ++ List.replicate (k + 1) '/') ++ q := by simp
      have hpos : (p ++ m).length + (k + 1) = (p ++ (m ++ List.replicate (k + 1) '/')).length := by
        simp [Nat.add_assoc]
      have hnext : increment (p ++ (m ++ (List.replicate (k + 1) '/' ++ q)))
          { element := m, pos := p.length } =
            { element := m', pos := (p ++ (m ++ List.replicate (k + 1) '/')).length } := by
        rw [increment_separators hpath hm' hpost List.length_append.symm (wasNet_of_isName hm),
          hpos]
      rw [iteratorsFrom_succ, if_neg (by simp), hnext, List.map_cons, hpath',
        ih (beforeName_separators hm k) (by rw [hes]; rfl) (by omega)]

inductive Names : Path → List Path → Prop
  | nil : Names [] []
  | spelled {q : Path} {es : List Path} (h : Spelled q es) : Names q es

theorem exists_names_of_head? (hhead : q.head? ≠ some '/') : ∃ es, Names q es := by
  by_cases hempty : q = []
  · subst hempty
    exact ⟨_, .nil⟩
  · obtain ⟨es, hes⟩ := exists_spelled hempty hhead
    exact ⟨es, .spelled hes⟩

theorem Names.head?_ne (h : Names q es) : q.head? ≠ some '/' := by
  cases h with
  | nil => simp
  | spelled h => exact h.head?_ne

theorem Names.isName (h : Names q es) : ∀ n ∈ es, IsName n := by
  cases h with
  | nil => exact fun n hn => by cases hn
  | spelled h => exact h.isName

theorem Spelled.elementAt (h : Spelled q es) (p : Path) :
    ∃ n, es.head? = some n ∧ IsName n ∧
      Path.elementAt (p ++ q) p.length = { element := n, pos := p.length } := by
  obtain ⟨n, post, rest, rfl, hn, hpost, rfl⟩ := h.exists_name
  exact ⟨n, rfl, hn, elementAt_name hn hpost p⟩

/-- The iterators after a root: their elements, and the position of the first of them. -/
theorem Names.iteratorsFrom (h : Names q es) (hp : BeforeName p) (hfuel : q.length ≤ fuel) :
    ((p ++ q).iteratorsFrom fuel ((p ++ q).elementAt p.length)).map Iterator.element = es ∧
      (p ++ q).positionOf ((p ++ q).iteratorsFrom fuel ((p ++ q).elementAt p.length)) =
        p.length := by
  cases h with
  | nil =>
      have hend : (elementAt (p ++ []) p.length).pos = (p ++ []).length := by simp [elementAt_def]
      rw [iteratorsFrom_end hend]
      exact ⟨rfl, by simp [positionOf]⟩
  | spelled h =>
      obtain ⟨n, hhead, hn, helement⟩ := h.elementAt p
      have hlength : 0 < q.length := List.length_pos_iff.mpr h.ne_nil
      rw [helement]
      refine ⟨h.iteratorsFrom hp hhead hfuel, ?_⟩
      obtain ⟨fuel, rfl⟩ := Nat.exists_eq_succ_of_ne_zero (by omega : fuel ≠ 0)
      rw [iteratorsFrom_succ, if_neg (by simp [h.ne_nil])]
      rfl

/-! ## Roots -/

variable {root : List Path}

inductive Lead : Path → List Path → Prop
  | relative : Lead [] []
  | absolute {k : Nat} (hk : k ≠ 1) : Lead (List.replicate (k + 1) '/') [['/']]
  | net {e : Path} (he : IsNet e) (k : Nat) : Lead (e ++ List.replicate (k + 1) '/') [e, ['/']]

theorem Lead.beforeName (h : Lead p root) : BeforeName p := by
  cases h with
  | relative => exact ⟨.inl rfl, by simp⟩
  | absolute hk => exact beforeName_leading hk
  | net he k => exact he.beforeName k

theorem Lead.nil_or_ne (h : Lead p root) : p = [] ∧ root = [] ∨ p ≠ [] := by
  cases h with
  | relative => exact .inl ⟨rfl, rfl⟩
  | absolute hk => exact .inr (by simp)
  | net he k => exact .inr (by simp)

theorem Lead.toRoot (h : Lead p root) : Root root := by
  cases h with
  | relative => exact .relative
  | absolute hk => exact .absolute
  | net he k => exact .net he

theorem Lead.isDirectorySeparator (h : Lead p root) :
    ∀ e ∈ root, Path.isDirectorySeparator e 0 = true := by
  cases h with
  | relative => exact fun e he => by cases he
  | absolute hk => exact List.forall_mem_singleton.mpr rfl
  | net he k =>
      obtain ⟨name, _, rfl⟩ := he
      exact List.forall_mem_cons.mpr ⟨rfl, List.forall_mem_singleton.mpr rfl⟩

/-- The iterators of a path: those of the root, and those from the first name on. -/
theorem Lead.iterators {root es : List Path} (h : Lead p root) (h' : Names q es) :
    ∃ its fuel, Path.iterators (p ++ q) =
        its ++ (p ++ q).iteratorsFrom fuel ((p ++ q).elementAt p.length) ∧
      its.map Iterator.element = root ∧ q.length ≤ fuel := by
  have hhead := h'.head?_ne
  cases h with
  | relative =>
      refine ⟨[], q.length, ?_, rfl, Nat.le_refl _⟩
      cases h' with
      | nil => rfl
      | spelled h' =>
          obtain ⟨n, post, _, rfl, hn, hpost, _⟩ := h'.exists_name
          rw [elementAt_name hn hpost, List.nil_append, List.nil_append, iterators_def,
            hn.begin hpost.takeWhile, List.length_nil]
  | @absolute k hk =>
      refine ⟨[{ element := ['/'], pos := k }],
        (List.replicate (k + 1) '/' ++ q).length - 1, ?_, rfl, by simp⟩
      have hnext : increment (List.replicate (k + 1) '/' ++ q) { element := ['/'], pos := k } =
          elementAt (List.replicate (k + 1) '/' ++ q) (List.replicate (k + 1) '/').length :=
        increment_skip (k := 0) rfl hhead (by simp) rfl (fun _ => .inl rfl)
      rw [iterators_eq (by simp), begin_leading hk hhead, hnext]
      rfl
  | @net e he k =>
      refine ⟨[{ element := e, pos := 0 }, { element := ['/'], pos := e.length }],
        (e ++ List.replicate (k + 1) '/' ++ q).length - 2, ?_, rfl, ?_⟩
      · have hbegin : begin (e ++ List.replicate (k + 1) '/' ++ q) =
            { element := e, pos := 0 } := by
          rw [List.append_assoc]
          exact he.begin rfl
        have hnet : increment (e ++ List.replicate (k + 1) '/' ++ q) { element := e, pos := 0 } =
            { element := ['/'], pos := e.length } := by
          rw [List.append_assoc]
          exact increment_net he _
        have hroot := increment_net_root he k hhead
        rw [← List.append_assoc] at hroot
        have hthree := he.three_le
        obtain ⟨fuel, hfuel⟩ : ∃ fuel, (e ++ List.replicate (k + 1) '/' ++ q).length = fuel + 2 :=
          ⟨e.length + k + q.length - 1, by simp; omega⟩
        rw [iterators_of_begin hbegin hfuel (by rw [hfuel]; simp), hnet, iteratorsFrom_succ,
          if_neg (by simp), hroot, hfuel, List.length_append, List.length_replicate]
        rfl
      · have hthree := he.three_le
        simp
        omega

/-! ## All paths -/

def TwoSeparators (path : Path) : Prop :=
  path.isDirectorySeparator 0 ∧ path.isDirectorySeparator 1 ∧ ¬ path.isDirectorySeparator 2

instance (path : Path) : Decidable (TwoSeparators path) := inferInstanceAs (Decidable (_ ∧ _))

inductive Parsed : Path → List Path → Prop
  | rooted {p q : Path} {root es : List Path} (h : Lead p root) (h' : Names q es) :
      Parsed (p ++ q) (root ++ es)
  | separators : Parsed ['/', '/'] [['/', '/']]
  | net {e : Path} (he : IsNet e) : Parsed e [e]

theorem Parsed.elements {path : Path} (h : Parsed path es) : path.elements = es := by
  cases h with
  | rooted h h' =>
      obtain ⟨its, fuel, hits, hroot, hfuel⟩ := h.iterators h'
      rw [Path.elements, hits, List.map_append, hroot, (h'.iteratorsFrom h.beforeName hfuel).1]
  | separators => rfl
  | net he => exact elements_net_alone he

theorem exists_parsed (path : Path) : ∃ es, Parsed path es := by
  obtain ⟨k, q, rfl, hhead⟩ := exists_separators path
  obtain ⟨es, hes⟩ := exists_names_of_head? hhead
  match k with
  | 0 => exact ⟨_, .rooted .relative hes⟩
  | 1 => exact ⟨_, .rooted (.absolute (k := 0) (by omega)) hes⟩
  | 2 =>
      cases q with
      | nil => exact ⟨_, .separators⟩
      | cons c q =>
          have hc : c ≠ '/' := by simpa using hhead
          obtain ⟨e, he, heq | ⟨q', heq⟩⟩ := exists_net (q := q) hc
          · subst heq
            exact ⟨_, .net he⟩
          · obtain ⟨j, q'', rfl, hhead'⟩ := exists_separators q'
            obtain ⟨es', hes'⟩ := exists_names_of_head? hhead'
            refine ⟨[e, ['/']] ++ es', ?_⟩
            have hnet : Parsed (e ++ List.replicate (j + 1) '/' ++ q'') ([e, ['/']] ++ es') :=
              .rooted (.net he j) hes'
            have hpath : e ++ List.replicate (j + 1) '/' ++ q'' =
                e ++ '/' :: (List.replicate j '/' ++ q'') := by
              rw [List.append_assoc]
              rfl
            rwa [hpath, ← heq] at hnet
  | k + 3 => exact ⟨_, .rooted (.absolute (k := k + 2) (by omega)) hes⟩

theorem IsName.elements {n : Path} (h : IsName n) : Path.elements n = [n] :=
  (Parsed.rooted .relative (.spelled (.last h))).elements

/-! ## Well-formed elements -/

theorem Root.lead (h : Root root) : Lead (render root) root := by
  cases h with
  | relative => exact .relative
  | absolute => exact .absolute (k := 0) (by omega)
  | net he =>
      obtain ⟨name, hname, rfl⟩ := he
      exact .net ⟨name, hname, rfl⟩ 0

theorem names_body (hnames : ∀ n ∈ names, IsName n) : Names (body names) names := by
  by_cases hne : names = []
  · subst hne
    exact .nil
  · exact .spelled (spelled_body hne hnames)

theorem elements_render (h : WellFormed es) : elements (render es) = es := by
  cases h with
  | names hroot hnames =>
      rw [render_root_append hroot hnames]
      exact (Parsed.rooted hroot.lead (names_body hnames)).elements
  | separators => rfl
  | net he =>
      obtain ⟨name, hname, rfl⟩ := he
      exact elements_net_alone ⟨name, hname, rfl⟩

/-- Every path has well-formed elements. -/
theorem wellFormed_elements (path : Path) : WellFormed path.elements := by
  obtain ⟨es, hes⟩ := exists_parsed path
  rw [hes.elements]
  cases hes with
  | rooted h h' => exact .names h.toRoot h'.isName
  | separators => exact .separators
  | net he => exact .net he

end TarmIo.Fs.Path
