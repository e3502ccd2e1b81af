import TarmIo.Fs.PosixCalls

/-!
# When `make_all_dirs` does what it reports

`make_all_dirs` starts with the first element of the path as it was given, and then goes along the
normalized path. If the two begin with the same element, it visits the beginnings of the normalized
path one after the other. If the normalization has removed the first element, it makes a directory
that the normalized path does not mention. At the end it takes every file that is not regular for a
directory.
-/

namespace TarmIo.Fs

open Foundation

namespace Path

/-! ## The beginnings of a path -/

variable {e : Path} {es : List Path}

def leading (path : Path) (k : Nat) : Path := render (path.elements.take k)

def Clean (path : Path) : Prop := WellFormed path.elements ∧ render path.elements = path

theorem clean_of_lexicallyNormal {path normalized : Path} (hne : path ≠ [])
    (h : path.lexicallyNormal = some normalized) :
    (normalized.Clean ∧ normalized ≠ []) ∧
      (Plain path.begin.element ∨ path.begin.element = normalized.begin.element) := by
  obtain ⟨es, hes, hwell, heq, hfirst⟩ := lexicallyNormal_eq hne
  obtain rfl := Option.some.inj (heq.symm.trans h)
  have hnil := render_ne_nil hwell hes
  refine ⟨⟨?_, hnil⟩, hfirst.imp_right fun hhead => ?_⟩
  · rw [Clean, elements_render hwell]
    exact ⟨hwell, rfl⟩
  · have hbegin := head?_elements hnil
    rw [elements_render hwell, hhead] at hbegin
    exact Option.some.inj hbegin

theorem length_operatorSlash (p : Path) (he : e ≠ []) : p.length < (p.operatorSlash e).length := by
  have hpos : 0 < e.length := List.length_pos_iff.mpr he
  rw [operatorSlash, if_neg he]
  split
  · rw [List.length_append]
    omega
  · rw [appendSeparatorIfNeeded]
    split <;> simp only [List.length_append] <;> omega

theorem nil_operatorSlash (e : Path) : operatorSlash [] e = e := by
  rw [operatorSlash]
  split
  · rename_i he
    exact he.symm
  · split <;> rfl

theorem WellFormed.ne_nil (h : WellFormed es) : ∀ e ∈ es, e ≠ [] := by
  intro e he
  cases h with
  | names hroot hnames =>
      rcases List.mem_append.mp he with hin | hin
      · cases hroot with
        | relative => cases hin
        | absolute => simp_all
        | net hnet =>
            obtain ⟨name, _, rfl⟩ := hnet
            rcases List.mem_cons.mp hin with rfl | hin
            · simp
            · simp_all
      · exact (hnames e hin).1
  | separators => simp_all
  | net hnet =>
      obtain ⟨name, _, rfl⟩ := hnet
      simp_all

/-- After the first element come names, and the root directory after a network name. -/
theorem WellFormed.isName_or (h : WellFormed es) {k : Nat} (he : es[k + 1]? = some e) :
    IsName e ∨ e = ['/'] := by
  cases h with
  | @names root names hroot hnames =>
      cases hroot with
      | relative => exact .inl (hnames e (List.mem_of_getElem? he))
      | absolute => exact .inl (hnames e (List.mem_of_getElem? (i := k) he))
      | net hnet =>
          cases k with
          | zero => exact .inr (Option.some.inj he).symm
          | succ k => exact .inl (hnames e (List.mem_of_getElem? (i := k) he))
  | separators => cases he
  | net hnet => cases he

section Leading

variable {path : Path} (hclean : path.Clean)
include hclean

variable {k : Nat}

theorem elements_leading (k : Nat) : (path.leading k).elements = path.elements.take k :=
  elements_render (hclean.1.take k)

theorem leading_length : path.leading path.elements.length = path := by
  rw [leading, List.take_length]
  exact hclean.2

omit hclean in
theorem leading_succ {e : Path} (he : path.elements[k]? = some e) :
    path.leading (k + 1) = (path.leading k).operatorSlash e := by
  rw [leading, leading, List.take_add_one, he]
  exact render_snoc _ e

theorem length_leading_lt (hk : k < path.elements.length) :
    (path.leading k).length < (path.leading (k + 1)).length := by
  obtain ⟨e, he⟩ : ∃ e, path.elements[k]? = some e := ⟨_, List.getElem?_eq_getElem hk⟩
  rw [leading_succ he]
  exact length_operatorSlash _ (hclean.1.ne_nil e (List.mem_of_getElem? he))

theorem length_leading_lt_path (hk : k < path.elements.length) :
    (path.leading k).length < path.length := by
  obtain ⟨d, hd⟩ := Nat.exists_eq_add_of_lt hk
  have hmono (j : Nat) (hj : k + j + 1 ≤ path.elements.length) :
      (path.leading k).length < (path.leading (k + j + 1)).length := by
    induction j with
    | zero => exact length_leading_lt hclean hk
    | succ j ih =>
        exact Nat.lt_trans (ih (by omega)) (length_leading_lt hclean (by omega))
  have h := hmono d (by omega)
  rwa [← hd, leading_length hclean] at h

theorem leading_ne_nil (hk : 1 ≤ k) (hle : k ≤ path.elements.length) : path.leading k ≠ [] := by
  intro hnil
  have helements := elements_leading hclean k
  rw [hnil] at helements
  have hlength := congrArg List.length helements
  rw [List.length_take_of_le hle] at hlength
  have hzero : (elements []).length = 0 := rfl
  omega

theorem nextPath_leading (hle : k ≤ path.elements.length) :
    MakeAllDirs.nextPath path (path.leading k) = some (path.leading (k + 1)) := by
  have hlength : (path.leading k).elements.length = k := by
    rw [elements_leading hclean, List.length_take_of_le hle]
  rw [MakeAllDirs.nextPath, hlength, if_pos hle]
  cases he : path.elements[k]? with
  | some e =>
      rw [leading_succ he]
      rfl
  | none =>
      have hend : path.elements.length ≤ k := List.getElem?_eq_none_iff.mp he
      have htake : path.leading (k + 1) = path.leading k := by
        rw [leading, leading, List.take_of_length_le (by omega), List.take_of_length_le hend]
      rw [htake]
      rfl

/-- What is found at a beginning shows that the one before it is a directory. -/
theorem stat_leading {fs : FileSystem} (hk : 1 ≤ k) (hlt : k < path.elements.length)
    {kind : FileKind} (h : fs.stat (path.leading (k + 1)) = .ok kind) :
    fs.stat (path.leading k) = .ok .directory := by
  obtain ⟨e, he⟩ : ∃ e, path.elements[k]? = some e := ⟨_, List.getElem?_eq_getElem hlt⟩
  rw [leading_succ he] at h
  obtain ⟨j, rfl⟩ := Nat.exists_eq_add_of_le' hk
  exact FileSystem.stat_of_operatorSlash (leading_ne_nil hclean hk (by omega))
    (hclean.1.isName_or he) h

end Leading

end Path

namespace MakeAllDirs

open Fs.Path

variable {s s' : MakeAllDirs} {answer : Answer}

section Normalized

variable (s) (p next : Path)

@[simp] theorem onEnd_normalized (error : Error) :
    (s.onEnd p error).normalized = s.normalized := rfl

@[simp] theorem proceed_normalized : (s.proceed p next).normalized = s.normalized := by
  unfold MakeAllDirs.proceed
  split <;> rfl

@[simp] theorem makeDir_normalized : (s.makeDir p next).normalized = s.normalized := by
  unfold makeDir
  split
  · rfl
  · split <;> rfl

@[simp] theorem onStat_normalized (result : Except StatusCode FileKind) :
    (s.onStat p next result).normalized = s.normalized := by
  cases result with
  | error code =>
      rw [MakeAllDirs.onStat]
      split <;> simp
  | ok kind =>
      rw [MakeAllDirs.onStat]
      split <;> simp

@[simp] theorem onMakeDir_normalized (result : Except StatusCode FileSystem) :
    (s.onMakeDir p next result).normalized = s.normalized := by
  cases result with
  | error code => rfl
  | ok fs => exact proceed_normalized { s with fs } p next

end Normalized

/-! ## The walk along the normalized path -/

variable {k : Nat}

def Beginning (s : MakeAllDirs) (p : Path) : Prop :=
  ∃ k, 1 ≤ k ∧ k ≤ s.normalized.elements.length ∧ p = s.normalized.leading k

def Visited (s : MakeAllDirs) (k : Nat) : Prop :=
  ∀ j, 1 ≤ j → j < k → ∃ kind, s.fs.stat (s.normalized.leading j) = .ok kind

/-- What is expected of a report of success: every beginning is a directory. -/
def Truthful (s : MakeAllDirs) : Prop :=
  ∀ p error, (p, error) ∈ s.calls → error.code = .ok →
    ∀ k, 1 ≤ k → k ≤ s.normalized.elements.length →
      s.fs.stat (s.normalized.leading k) = .ok .directory

def NoSpecialFile (s : MakeAllDirs) (answer : Answer) : Prop :=
  s.pending = .stat s.normalized → answer = .posix → s.fs.stat s.normalized ≠ .ok .special

structure Walking (s : MakeAllDirs) (k : Nat) : Prop where
  clean : s.normalized.Clean
  made : ∀ p ∈ s.made, s.Beginning p
  calls : s.calls = []
  pos : 1 ≤ k
  le : k ≤ s.normalized.elements.length
  visited : s.Visited k

structure Ended (s : MakeAllDirs) : Prop where
  made : ∀ p ∈ s.made, s.Beginning p
  pending : s.pending = .ended
  calls : s.calls.length = 1

inductive Phase (s : MakeAllDirs) : Prop
  | stat (k : Nat) (hwalking : s.Walking k) (hpending : s.pending = .stat (s.normalized.leading k))
  | mkdir (k : Nat) (hwalking : s.Walking k)
      (hpending : s.pending = .mkdir (s.normalized.leading k) (s.normalized.leading (k + 1)))
  | ended (hended : s.Ended)

def rank (s : MakeAllDirs) : Nat :=
  match s.pending with
  | .stat p => 2 * (s.normalized.elements.length - p.elements.length) + 2
  | .mkdir p _ => 2 * (s.normalized.elements.length - p.elements.length) + 1
  | .ended => 0

theorem length_elements_leading (h : s.normalized.Clean) (hle : k ≤ s.normalized.elements.length) :
    (s.normalized.leading k).elements.length = k := by
  rw [elements_leading h, List.length_take_of_le hle]

theorem truthful_of_calls_eq_nil (h : s.calls = []) : s.Truthful := by
  intro p error hmem
  rw [h] at hmem
  cases hmem

/-- The walk goes on, with at most so many calls, and a report is true under the condition. -/
structure Onward (s : MakeAllDirs) (bound : Nat) (condition : Prop) : Prop where
  phase : s.Phase
  rank_le : s.rank ≤ bound
  truthful_iff : s.Truthful ↔ condition

theorem Onward.congr {bound : Nat} {condition condition' : Prop} (h : s.Onward bound condition)
    (hiff : condition ↔ condition') : s.Onward bound condition' :=
  ⟨h.phase, h.rank_le, h.truthful_iff.trans hiff⟩

theorem Walking.onEnd (h : s.Walking k) (p : Path) {code : StatusCode} (hcode : code ≠ .ok)
    (bound : Nat) : Onward (s.onEnd p (errorAt p code)) bound True := by
  have hcalls : (s.onEnd p (errorAt p code)).calls = [(p, errorAt p code)] := by
    rw [MakeAllDirs.onEnd, h.calls]
    rfl
  refine ⟨.ended ⟨h.made, rfl, by rw [hcalls]; rfl⟩, Nat.zero_le _, iff_true_intro ?_⟩
  intro p' error hmem hok
  rw [hcalls] at hmem
  cases List.mem_singleton.mp hmem
  exact absurd hok hcode

/-- The beginnings that were visited are directories, and so is the whole path when it was found to
be one. -/
theorem directory_of_visited (hclean : s.normalized.Clean)
    (hvisited : s.Visited s.normalized.elements.length)
    (hlast : s.fs.stat s.normalized = .ok .directory) (hk : 1 ≤ k)
    (hle : k ≤ s.normalized.elements.length) :
    s.fs.stat (s.normalized.leading k) = .ok .directory := by
  rcases Nat.lt_or_eq_of_le hle with hlt | rfl
  · have hnext : ∃ kind, s.fs.stat (s.normalized.leading (k + 1)) = .ok kind := by
      by_cases heq : k + 1 = s.normalized.elements.length
      · rw [heq, leading_length hclean]
        exact ⟨_, hlast⟩
      · exact hvisited (k + 1) (by omega) (by omega)
    obtain ⟨kind, hkind⟩ := hnext
    exact stat_leading hclean hk hlt hkind
  · rwa [leading_length hclean]

/-- On to the next beginning, or the end, where success is reported whatever was found. -/
theorem Walking.proceed (h : s.Walking k) {kind : FileKind}
    (hkind : s.fs.stat (s.normalized.leading k) = .ok kind) :
    Onward (s.proceed (s.normalized.leading k) (s.normalized.leading (k + 1)))
      (2 * (s.normalized.elements.length - k))
      (k = s.normalized.elements.length → kind = .directory) := by
  rcases Nat.lt_or_eq_of_le h.le with hlt | heq
  · have hshort := length_leading_lt_path h.clean hlt
    rw [MakeAllDirs.proceed, if_pos (by omega)]
    refine ⟨.stat (k + 1) ⟨h.clean, h.made, h.calls, by omega, hlt, ?_⟩ rfl, ?_, ?_⟩
    · intro j hj hjk
      by_cases hj' : j = k
      · exact ⟨kind, hj' ▸ hkind⟩
      · exact h.visited j hj (by omega)
    · change 2 * (s.normalized.elements.length -
        (s.normalized.leading (k + 1)).elements.length) + 2 ≤ _
      rw [length_elements_leading h.clean hlt]
      omega
    · exact iff_of_true (truthful_of_calls_eq_nil h.calls) fun heq => absurd heq (by omega)
  · subst heq
    rw [leading_length h.clean] at hkind ⊢
    rw [MakeAllDirs.proceed, if_neg (by simp)]
    have hcalls : (s.onEnd s.normalized {}).calls = [(s.normalized, {})] := by
      rw [MakeAllDirs.onEnd, h.calls]
      rfl
    refine ⟨.ended ⟨h.made, rfl, by rw [hcalls]; rfl⟩, Nat.zero_le _, ?_, ?_⟩
    · intro htrue _
      have hwhole := htrue s.normalized {} (by rw [hcalls]; exact List.mem_singleton.mpr rfl) rfl
        s.normalized.elements.length h.pos (Nat.le_refl _)
      rw [onEnd_normalized, leading_length h.clean] at hwhole
      exact Except.ok.inj (hkind.symm.trans hwhole)
    · intro hdirectory p error _ _ j hj hle
      rw [hdirectory rfl] at hkind
      exact directory_of_visited h.clean h.visited hkind hj hle

theorem Walking.makeDir (h : s.Walking k) :
    Onward (s.makeDir (s.normalized.leading k) (s.normalized.leading (k + 1)))
      (2 * (s.normalized.elements.length - k) + 1) True := by
  rw [MakeAllDirs.makeDir, if_neg (leading_ne_nil h.clean h.pos h.le)]
  split
  · exact h.onEnd _ (by decide) _
  · refine ⟨.mkdir k ⟨h.clean, ?_, h.calls, h.pos, h.le, h.visited⟩ rfl, ?_, ?_⟩
    · intro p hp
      rcases List.mem_append.mp hp with hold | hnew
      · exact h.made p hold
      · exact ⟨k, h.pos, h.le, List.mem_singleton.mp hnew⟩
    · change 2 * (s.normalized.elements.length -
        (s.normalized.leading k).elements.length) + 1 ≤ _
      rw [length_elements_leading h.clean h.le]
    · exact iff_true_intro (truthful_of_calls_eq_nil h.calls)

theorem Walking.onStat {k : Nat} (h : s.Walking k) {result : Except StatusCode FileKind}
    (hresult : result = s.fs.stat (s.normalized.leading k) ∨
      ∃ code, result = .error code ∧ code ≠ .ok) :
    Onward (s.onStat (s.normalized.leading k) (s.normalized.leading (k + 1)) result)
      (2 * (s.normalized.elements.length - k) + 1)
      (k = s.normalized.elements.length → result ≠ .ok .special) := by
  cases result with
  | error code =>
      have hcode : code ≠ .ok := by
        rcases hresult with hstat | ⟨code', heq, hne⟩
        · exact FileSystem.stat_error hstat.symm
        · cases heq
          exact hne
      have honward : Onward (s.onStat (s.normalized.leading k) (s.normalized.leading (k + 1))
          (.error code)) (2 * (s.normalized.elements.length - k) + 1) True := by
        rw [MakeAllDirs.onStat]
        split
        · exact h.makeDir
        · exact h.onEnd _ hcode _
      exact honward.congr ⟨fun _ _ => by simp, fun _ => trivial⟩
  | ok kind =>
      have hkind : s.fs.stat (s.normalized.leading k) = .ok kind := by
        rcases hresult with hstat | ⟨code, heq, _⟩
        · exact hstat.symm
        · cases heq
      rw [MakeAllDirs.onStat]
      split
      · rename_i hregular
        exact (h.onEnd _ (by decide) _).congr ⟨fun _ _ => by simp [hregular], fun _ => trivial⟩
      · rename_i hregular
        obtain ⟨hphase, hrank, htruthful⟩ := h.proceed hkind
        refine ⟨hphase, Nat.le_succ_of_le hrank, htruthful.trans (imp_congr_right fun _ => ?_)⟩
        -- What is there is no regular file and no link.
        cases kind with
        | directory => simp
        | special => simp
        | regular => exact absurd rfl hregular
        | link =>
            obtain ⟨l, _, hl⟩ := FileSystem.stat_eq_ok.mp hkind
            exact absurd hl (s.fs.noLinks l)

theorem Walking.onMakeDir {k : Nat} (h : s.Walking k) {result : Except StatusCode FileSystem}
    (hresult : result = s.fs.mkdir (s.normalized.leading k) ∨
      ∃ code, result = .error code ∧ code ≠ .ok) :
    Onward (s.onMakeDir (s.normalized.leading k) (s.normalized.leading (k + 1)) result)
      (2 * (s.normalized.elements.length - k)) True := by
  cases result with
  | error code =>
      have hcode : code ≠ .ok := by
        rcases hresult with hmkdir | ⟨code', heq, hne⟩
        · exact FileSystem.mkdir_error hmkdir.symm
        · cases heq
          exact hne
      exact h.onEnd _ hcode _
  | ok fs =>
      have hmkdir : s.fs.mkdir (s.normalized.leading k) = .ok fs := by
        rcases hresult with hmkdir | ⟨code, heq, _⟩
        · exact hmkdir.symm
        · cases heq
      obtain ⟨hgrows, hstat⟩ := FileSystem.mkdir_eq_ok hmkdir
      have hwalking : Walking { s with fs } k := by
        refine ⟨h.clean, h.made, h.calls, h.pos, h.le, fun j hj hjk => ?_⟩
        obtain ⟨kind, hkind⟩ := h.visited j hj hjk
        exact ⟨kind, hgrows.stat hkind⟩
      exact (hwalking.proceed hstat).congr ⟨fun _ => trivial, fun _ _ => rfl⟩

theorem stat_leading_eq_iff (h : s.Walking k) :
    Pending.stat (s.normalized.leading k) = .stat s.normalized ↔
      k = s.normalized.elements.length := by
  constructor
  · intro heq
    by_contra hne
    have hshort := length_leading_lt_path h.clean (Nat.lt_of_le_of_ne h.le hne)
    rw [Pending.stat.inj heq] at hshort
    exact Nat.lt_irrefl _ hshort
  · rintro rfl
    rw [leading_length h.clean]

theorem Phase.step (h : s.Phase) (hstep : s.step answer = some s') :
    s'.Phase ∧ s'.rank < s.rank ∧ (s'.Truthful ↔ s.Truthful ∧ s.NoSpecialFile answer) := by
  cases h with
  | stat k hwalking hpending =>
      have hrank : s.rank = 2 * (s.normalized.elements.length - k) + 2 := by
        rw [rank, hpending]
        dsimp only
        rw [length_elements_leading hwalking.clean hwalking.le]
      have htrue := truthful_of_calls_eq_nil hwalking.calls
      rw [MakeAllDirs.step, hpending] at hstep
      dsimp only at hstep
      rw [nextPath_leading hwalking.clean hwalking.le] at hstep
      cases answer with
      | posix =>
          cases hstep
          obtain ⟨hphase, hless, htruthful⟩ := hwalking.onStat (.inl rfl)
          refine ⟨hphase, by omega, htruthful.trans ?_⟩
          rw [NoSpecialFile, hpending, stat_leading_eq_iff hwalking, and_iff_right htrue]
          refine imp_congr_right fun heq => ?_
          rw [heq, leading_length hwalking.clean]
          exact (imp_iff_right rfl).symm
      | failed error =>
          dsimp only at hstep
          split at hstep
          · cases hstep
          · cases hstep
            have hcode : error.val.code ≠ .ok := by simpa [Error.isError] using error.property
            obtain ⟨hphase, hless, htruthful⟩ := hwalking.onStat (.inr ⟨_, rfl, hcode⟩)
            refine ⟨hphase, by omega, htruthful.trans ?_⟩
            exact iff_of_true (fun _ => by simp) ⟨htrue, fun _ hposix => by cases hposix⟩
  | mkdir k hwalking hpending =>
      have hrank : s.rank = 2 * (s.normalized.elements.length - k) + 1 := by
        rw [rank, hpending]
        dsimp only
        rw [length_elements_leading hwalking.clean hwalking.le]
      have hgood : s.Truthful ∧ s.NoSpecialFile answer := by
        refine ⟨truthful_of_calls_eq_nil hwalking.calls, fun hstat => ?_⟩
        rw [hpending] at hstat
        cases hstat
      rw [MakeAllDirs.step, hpending] at hstep
      cases answer with
      | posix =>
          cases hstep
          obtain ⟨hphase, hless, htruthful⟩ := hwalking.onMakeDir (.inl rfl)
          exact ⟨hphase, by omega, htruthful.trans (iff_of_true trivial hgood)⟩
      | failed error =>
          cases hstep
          have hcode : error.val.code ≠ .ok := by simpa [Error.isError] using error.property
          obtain ⟨hphase, hless, htruthful⟩ := hwalking.onMakeDir (.inr ⟨_, rfl, hcode⟩)
          exact ⟨hphase, by omega, htruthful.trans (iff_of_true trivial hgood)⟩
  | ended hended =>
      rw [MakeAllDirs.step, hended.pending] at hstep
      cases hstep

/-! ## The report -/

variable {answers : List Answer}

/-- What is expected of `make_all_dirs` after the given answers: they are not too many, and there is
a next call until the callback is called, once. Only beginnings of the normalized path are made. -/
structure Orderly (s : MakeAllDirs) (answers : List Answer) : Prop where
  bounded : answers.length ≤ 2 * s.normalized.elements.length
  progress : s.pending ≠ .ended → ∃ answer s', s.step answer = some s'
  called : s.calls.length = if s.pending = .ended then 1 else 0
  made : ∀ p ∈ s.made, s.Beginning p

def FirstKept (path : Path) : Prop :=
  ∃ normalized ∈ path.lexicallyNormal, path.begin.element = normalized.begin.element

instance (path : Path) : Decidable (FirstKept path) :=
  inferInstanceAs (Decidable (∃ normalized ∈ path.lexicallyNormal, _))

/-- Nothing was reported yet. -/
theorem Walking.orderly (h : s.Walking k) (hpending : s.pending ≠ .ended)
    (hbounded : answers.length ≤ 2 * s.normalized.elements.length)
    (hprogress : ∃ answer s', s.step answer = some s') : s.Orderly answers := by
  refine ⟨hbounded, fun _ => hprogress, ?_, h.made⟩
  rw [h.calls, if_neg hpending]
  rfl

theorem Phase.orderly (h : s.Phase) (hbounded : answers.length ≤ 2 * s.normalized.elements.length) :
    s.Orderly answers := by
  cases h with
  | stat k hwalking hpending =>
      refine hwalking.orderly (by simp [hpending]) hbounded ⟨.posix, ?_⟩
      rw [MakeAllDirs.step, hpending]
      dsimp only
      rw [nextPath_leading hwalking.clean hwalking.le]
      exact ⟨_, rfl⟩
  | mkdir k hwalking hpending =>
      refine hwalking.orderly (by simp [hpending]) hbounded ⟨.posix, ?_⟩
      rw [MakeAllDirs.step, hpending]
      exact ⟨_, rfl⟩
  | ended hended =>
      refine ⟨hbounded, fun hne => absurd hended.pending hne, ?_, hended.made⟩
      rw [hended.calls, if_pos hended.pending]

/-! ## Runs -/

theorem step_normalized (hstep : s.step answer = some s') : s'.normalized = s.normalized := by
  rw [MakeAllDirs.step] at hstep
  split at hstep
  · split at hstep
    · cases hstep
    · split at hstep
      · cases hstep
        simp
      · split at hstep <;> cases hstep
        simp
  · split at hstep <;> cases hstep <;> simp
  · cases hstep

theorem length_elements_pos {path : Path} (hne : path ≠ []) : 1 ≤ path.elements.length := by
  obtain ⟨es, hes⟩ := exists_elements hne
  rw [hes]
  simp

variable {normalized first : Path}

/-- The walk starts at the first beginning when the first element is kept. -/
theorem phase_start (fs : FileSystem) (hclean : normalized.Clean) (hne : normalized ≠ [])
    (hfirst : first = normalized.begin.element) :
    Phase { normalized, fs, pending := .stat first } ∧
      rank { normalized, fs, pending := .stat first } ≤ 2 * normalized.elements.length := by
  have hlength := length_elements_pos hne
  have hleading : first = normalized.leading 1 := by
    have hhead := head?_elements hne
    rw [leading, List.take_one, hhead, hfirst]
    exact (nil_operatorSlash _).symm
  constructor
  · refine .stat 1 ⟨hclean, ?_, rfl, Nat.le_refl _, hlength, ?_⟩ (by rw [hleading])
    · intro p hp
      cases hp
    · intro j hj hjk
      omega
  · rw [rank]
    dsimp only
    rw [hleading, elements_leading hclean, List.length_take_of_le hlength]
    omega

/-- A walk along the normalized path is in order, and what it reports is true unless the whole path
is found to be a special file. -/
theorem orderly_of_phase {s₀ s : MakeAllDirs} (hphase : s₀.Phase)
    (hrank : s₀.rank ≤ 2 * s₀.normalized.elements.length) (hcalls : s₀.calls = [])
    (hrun : exec step s₀ answers = some s) :
    s.Orderly answers ∧ (s.Truthful ↔ Along step NoSpecialFile s₀ answers) := by
  have hkeep (s₁ : MakeAllDirs) (answer : Answer) (s₂ : MakeAllDirs) (h : s₁.Phase)
      (hstep : s₁.step answer = some s₂) : s₂.Phase := (h.step hstep).1
  have hsame (s₁ : MakeAllDirs) (answer : Answer) (s₂ : MakeAllDirs)
      (h : s₁.normalized = s₀.normalized) (hstep : s₁.step answer = some s₂) :
      s₂.normalized = s₀.normalized := (step_normalized hstep).trans h
  have hlength : answers.length + s.rank ≤ s₀.rank :=
    exec_length_le hkeep (fun _ _ _ h hstep => (h.step hstep).2.1) hphase hrun
  constructor
  · refine (exec_invariant hkeep hphase hrun).orderly ?_
    rw [exec_invariant hsame rfl hrun]
    omega
  · rw [exec_iff_along hkeep (fun _ _ _ h hstep => (h.step hstep).2.2) hphase hrun,
      and_iff_right (truthful_of_calls_eq_nil hcalls)]

def emptyFileSystem : FileSystem where
  tree := .root
  cwd := []
  working := rfl
  noLinks := by
    intro l
    rw [FileTree.kind_root]
    split <;> simp

variable {n : Path}

theorem stat_emptyFileSystem (h : Plain n) :
    emptyFileSystem.stat n = .error .noSuchFileOrDirectory := by
  have hsplit : n.splitOn '/' = [n] := FileSystem.splitOn_separator h.1.2
  have hdescend : emptyFileSystem.descend [] n = .ok [n] := by
    rw [FileSystem.descend, show emptyFileSystem.tree.kind [] = some .directory from rfl]
    dsimp only
    rw [if_neg (by simp [h.1.1, h.2.1]), if_neg h.2.2]
  have hlocate : emptyFileSystem.locate n = .ok [n] := by
    rw [FileSystem.locate, if_neg h.1.1, hsplit]
    split <;> exact congrArg (· >>= fun l => Except.ok l) hdescend
  rw [FileSystem.stat, hlocate]
  dsimp only
  rw [show emptyFileSystem.tree.kind [n] = none from FileTree.kind_root [n]]

theorem not_root_of_isName (h : IsName n) : ¬ (n.rootName.equal n ∨ n.rootDirectory.equal n) := by
  have hnil : Path.equal [] n = false := by
    rw [equal_def, h.elements]
    rfl
  have hname : n.rootName = [] := by
    have hbegin : n.begin.element = n := by
      have hhead := head?_elements h.1
      rw [h.elements] at hhead
      exact (Option.some.inj hhead).symm
    have hsep : n.isDirectorySeparator 0 = false := by
      have hhead := h.head? []
      rw [List.append_nil] at hhead
      rw [isDirectorySeparator_eq, List.drop_zero, hhead]
    rw [rootName, hbegin, hsep, if_neg (by simp)]
  have hdirectory : n.rootDirectory = [] := by
    have hstart := rootDirectoryStart_relative h [] n.length
    rw [List.append_nil] at hstart
    rw [rootDirectory, hstart]
  rw [hname, hdirectory, hnil]
  simp

theorem made_of_plain (hplain : Plain first) (hlength : 1 ≤ normalized.elements.length) :
    ∃ s, exec step { normalized, fs := emptyFileSystem, pending := .stat first } [.posix] =
      some s ∧ first ∈ s.made ∧ s.normalized = normalized := by
  obtain ⟨next, hnext⟩ : ∃ next, nextPath normalized first = some next := by
    rw [nextPath, hplain.1.elements, List.length_singleton, if_pos hlength]
    exact ⟨_, rfl⟩
  let start : MakeAllDirs := { normalized, fs := emptyFileSystem, pending := .stat first }
  have hmake : start.makeDir first next =
      { start with pending := .mkdir first next, made := [first] } := by
    rw [makeDir, if_neg hplain.1.1, if_neg (not_root_of_isName hplain.1)]
    rfl
  have hstep : start.step .posix = some (start.makeDir first next) := by
    rw [MakeAllDirs.step]
    dsimp only [start]
    rw [hnext]
    dsimp only
    rw [stat_emptyFileSystem hplain, MakeAllDirs.onStat, if_pos rfl]
  refine ⟨start.makeDir first next, ?_, ?_, ?_⟩
  · rw [exec_cons_of_step hstep]
    rfl
  · rw [hmake]
    exact List.mem_singleton.mpr rfl
  · rw [hmake]

/-- A name that is a beginning is the first element. -/
theorem first_of_beginning {s : MakeAllDirs} (hclean : s.normalized.Clean) (hne : s.normalized ≠ [])
    (hn : IsName n) (h : s.Beginning n) : n = s.normalized.begin.element := by
  obtain ⟨k, hk, _, rfl⟩ := h
  have helements := elements_leading hclean k
  rw [hn.elements] at helements
  have hhead := head?_elements hne
  have htake : (s.normalized.elements.take k).head? = s.normalized.elements.head? := by
    rw [List.head?_take, if_neg (by omega)]
  rw [← helements, hhead] at htake
  exact Option.some.inj htake

end MakeAllDirs

open MakeAllDirs

/-- In every file system `make_all_dirs` is in order, and what it reports is true exactly when the
whole path is not found to be a special file. This is so exactly when the path and the normalized
path begin with the same element. -/
theorem make_all_dirs_correct_iff {path : Path} (hne : path ≠ []) :
    (∀ fs, ∃ s₀, makeAllDirs fs path = some s₀ ∧
      ∀ answers s, exec step s₀ answers = some s →
        s.Orderly answers ∧ (s.Truthful ↔ Along step NoSpecialFile s₀ answers)) ↔
      FirstKept path := by
  obtain ⟨es, _, _, hnormal, _⟩ := Path.lexicallyNormal_eq hne
  obtain ⟨⟨hclean, hnil⟩, hfirst⟩ := Path.clean_of_lexicallyNormal hne hnormal
  have hstart (fs : FileSystem) : makeAllDirs fs path =
      some { normalized := Path.render es, fs, pending := .stat path.begin.element } := by
    rw [makeAllDirs, hnormal, Option.map_some, if_neg hne]
  constructor
  · intro h
    refine ⟨Path.render es, hnormal, ?_⟩
    rcases hfirst with hplain | hkept
    · -- In the empty file system the first name is made, so it has to be a beginning.
      obtain ⟨s₀, hs₀, hcorrect⟩ := h emptyFileSystem
      obtain rfl := Option.some.inj ((hstart emptyFileSystem).symm.trans hs₀)
      obtain ⟨s, hrun, hmade, hnormalized⟩ := made_of_plain hplain (length_elements_pos hnil)
      have hbeginning := (hcorrect _ s hrun).1.made _ hmade
      rw [← hnormalized] at hclean hnil ⊢
      exact first_of_beginning hclean hnil hplain.1 hbeginning
    · exact hkept
  · rintro ⟨normalized, hmem, hkept⟩ fs
    obtain rfl := Option.some.inj (hnormal.symm.trans hmem)
    refine ⟨_, hstart fs, fun answers s hrun => ?_⟩
    obtain ⟨hphase, hrank⟩ := phase_start fs hclean hnil hkept
    exact orderly_of_phase hphase hrank rfl hrun

theorem make_all_dirs_correct_iff_two :
    FirstKept ['a', '/', 'b'] ∧ ∀ fs, ∃ s₀, makeAllDirs fs ['a', '/', 'b'] = some s₀ ∧
      ∀ answers s, exec step s₀ answers = some s →
        s.Orderly answers ∧ (s.Truthful ↔ Along step NoSpecialFile s₀ answers) := by
  have hkept : FirstKept ['a', '/', 'b'] := by decide
  exact ⟨hkept, (make_all_dirs_correct_iff (by decide)).mpr hkept⟩

def specialFileSystem (n : Path) (tree : FileTree Path)
    (h : FileTree.root.create [n] .special = some tree) : FileSystem where
  tree
  cwd := []
  working := by
    rw [(FileTree.create_eq_some h).2.2 [] (by simp), FileTree.kind_root, if_pos rfl]
  noLinks := by
    obtain ⟨_, hnew, hframe⟩ := FileTree.create_eq_some h
    intro l
    by_cases hl : l = [n]
    · rw [hl, hnew]
      simp
    · rw [hframe l hl]
      exact emptyFileSystem.noLinks l

/-- For `a/../b` the directory `a` is made and success is reported, and there is no `b`. For a
special file `b` success is reported as well. -/
theorem make_all_dirs_removed_first :
    (∃ s₀ ∈ makeAllDirs emptyFileSystem ['a', '/', '.', '.', '/', 'b'],
      ∃ s ∈ exec step s₀ [.posix, .posix],
        s.normalized = ['b'] ∧ s.made = [['a']] ∧ s.calls = [(['a'], {})] ∧
          s.fs.tree.kind [['b']] = none) ∧
    ∃ tree, ∃ h : FileTree.root.create [['b']] .special = some tree,
      ∃ s₀ ∈ makeAllDirs (specialFileSystem ['b'] tree h) ['b'],
        ∃ s ∈ exec step s₀ [.posix],
          s.calls = [(['b'], {})] ∧ s.fs.stat ['b'] = .ok .special := by
  refine ⟨by decide +kernel, _, rfl, ?_⟩
  decide +kernel

end TarmIo.Fs
