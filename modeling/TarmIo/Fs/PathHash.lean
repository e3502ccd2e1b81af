import TarmIo.Fs.PathShape

/-!
# Hashes of paths

On POSIX `hash_value` is `hash_range` over the characters of the string, but `operator==` compares
elements. A path with a separator that may be repeated has other spellings that are equal to it,
and one of them has another hash: the low two bits of a hash are the exclusive or of two bits for
each character, so three more separators change them. `std::size_t` has 64 bits.
-/

namespace TarmIo.Fs

def hashCombineImpl (h k : BitVec 64) : BitVec 64 :=
  let m : BitVec 64 := 0xc6a4a7935bd1e995#64
  let r := 47
  let k := k * m
  let k := k ^^^ (k >>> r)
  let k := k * m
  let h := h ^^^ k
  let h := h * m
  h + 0xe6546b64#64

/-- `hasher` is `std::hash<char>`. -/
def hashCombine (hasher : Char → BitVec 64) (seed : BitVec 64) (v : Char) : BitVec 64 :=
  hashCombineImpl seed (hasher v)

def hashRange (hasher : Char → BitVec 64) (range : List Char) : BitVec 64 :=
  range.foldl (hashCombine hasher) 0

def Path.hashValue (hasher : Char → BitVec 64) (x : Path) : BitVec 64 := hashRange hasher x

/-! ## The low two bits of a hash -/

/-- The multiplier is one and the number added is zero, as far as these bits go. -/
theorem setWidth_hashCombineImpl (h k : BitVec 64) :
    (hashCombineImpl h k).setWidth 2 =
      h.setWidth 2 ^^^ (hashCombineImpl 0 k).setWidth 2 := by
  have hm : BitVec.setWidth 2 0xc6a4a7935bd1e995#64 = 1#2 := by decide
  have hc : BitVec.setWidth 2 0xe6546b64#64 = 0#2 := by decide
  unfold hashCombineImpl
  simp only [BitVec.setWidth_add _ _ (show 2 ≤ 64 by omega),
    BitVec.setWidth_mul _ _ (show 2 ≤ 64 by omega), BitVec.setWidth_xor, hm, hc]
  simp

def lowBits (hasher : Char → BitVec 64) : List Char → BitVec 2
  | [] => 0
  | c :: cs => (hashCombineImpl 0 (hasher c)).setWidth 2 ^^^ lowBits hasher cs

theorem lowBits_append (hasher : Char → BitVec 64) (cs ds : List Char) :
    lowBits hasher (cs ++ ds) = lowBits hasher cs ^^^ lowBits hasher ds := by
  induction cs with
  | nil => simp [lowBits]
  | cons c cs ih => rw [List.cons_append, lowBits, lowBits, ih, BitVec.xor_assoc]

theorem setWidth_foldl (hasher : Char → BitVec 64) (cs : List Char) (seed : BitVec 64) :
    (cs.foldl (hashCombine hasher) seed).setWidth 2 = seed.setWidth 2 ^^^ lowBits hasher cs := by
  induction cs generalizing seed with
  | nil => simp [lowBits]
  | cons c cs ih =>
      rw [List.foldl_cons, ih, hashCombine, setWidth_hashCombineImpl, lowBits, BitVec.xor_assoc]

theorem setWidth_hashRange (hasher : Char → BitVec 64) (range : List Char) :
    (hashRange hasher range).setWidth 2 = lowBits hasher range := by
  rw [hashRange, setWidth_foldl]
  simp

namespace Path

/-- Three more separators change the hash, if the hash of a separator is its value. -/
theorem hashValue_ne {hasher : Char → BitVec 64} (hsep : hasher '/' = 47#64) (u v : Path)
    (k : Nat) :
    hashValue hasher (u ++ (List.replicate (k + 1) '/' ++ v)) ≠
      hashValue hasher (u ++ (List.replicate (k + 4) '/' ++ v)) := by
  intro heq
  have hthree : lowBits hasher (List.replicate 3 '/') = 2#2 := by
    simp only [List.replicate, lowBits, hsep]
    decide
  have hsplit : List.replicate (k + 4) '/' =
      List.replicate (k + 1) '/' ++ List.replicate 3 '/' := by
    rw [List.replicate_append_replicate]
  have hlow := congrArg (BitVec.setWidth 2) heq
  rw [hashValue, hashValue, setWidth_hashRange, setWidth_hashRange, hsplit, lowBits_append,
    lowBits_append, lowBits_append, lowBits_append, lowBits_append, hthree] at hlow
  revert hlow
  generalize lowBits hasher u = a
  generalize lowBits hasher (List.replicate (k + 1) '/') = b
  generalize lowBits hasher v = c
  revert a b c
  decide

/-! ## Spellings -/

variable {p : Path} {q : Path} {es : List Path}

/-- No separators, or only the two before a network name. -/
def OneSpelling (p : Path) : Prop := '/' ∉ p ∨ p.take 2 = ['/', '/'] ∧ '/' ∉ p.drop 2

instance (p : Path) : Decidable (OneSpelling p) := inferInstanceAs (Decidable (_ ∨ _))

theorem OneSpelling.elements (h : OneSpelling p) : p = [] ∨ p.elements = [p] ∧ p ≠ ['/'] := by
  rcases h with hnone | ⟨htwo, hrest⟩
  · by_cases hne : p = []
    · exact .inl hne
    · have hname : IsName p := ⟨hne, hnone⟩
      refine .inr ⟨hname.elements, ?_⟩
      rintro rfl
      exact hnone (by simp)
  · have hpath : p = '/' :: '/' :: p.drop 2 := by
      have hsplit := List.take_append_drop 2 p
      rw [htwo] at hsplit
      exact hsplit.symm
    refine .inr ⟨?_, fun h => by rw [h] at htwo; cases htwo⟩
    by_cases hne : p.drop 2 = []
    · rw [hpath, hne]
      rfl
    · exact elements_net_alone ⟨_, ⟨hne, hrest⟩, hpath⟩

theorem IsNet.oneSpelling {e : Path} (he : IsNet e) : OneSpelling e := by
  obtain ⟨name, hname, rfl⟩ := he
  exact .inr ⟨rfl, hname.2⟩

theorem Parsed.eq_nil (h : Parsed q []) : q = [] := by
  generalize hes : ([] : List Path) = es at h
  cases h with
  | rooted h h' =>
      obtain ⟨hroot, hnames⟩ := List.append_eq_nil_iff.mp hes.symm
      subst hroot hnames
      cases h with
      | relative =>
          cases h' with
          | nil => rfl
          | spelled h' =>
              obtain ⟨_, _, _, _, _, _, hcons⟩ := h'.exists_name
              cases hcons
  | separators => cases hes
  | net he => cases hes

/-- The path of one element that is not the root directory. -/
theorem Parsed.eq_of_singleton {q e : Path} (h : Parsed q [e]) (he : e ≠ ['/']) : q = e := by
  generalize hes : [e] = es at h
  cases h with
  | rooted h h' =>
      cases h with
      | relative =>
          cases h' with
          | nil => cases hes
          | spelled h' =>
              cases h' with
              | last hn => exact (List.singleton_inj.mp hes).symm
              | trailing k hn => cases hes
              | cons k hn h =>
                  obtain ⟨_, _, _, _, _, _, hcons⟩ := h.exists_name
                  rw [hcons] at hes
                  cases hes
      | absolute hk => exact absurd (List.cons.inj hes).1 he
      | net he k => cases hes
  | separators => exact (List.singleton_inj.mp hes).symm
  | net he => exact (List.singleton_inj.mp hes).symm

theorem OneSpelling.eq {p q : Path} (h : OneSpelling p) (hequal : equal p q = true) : q = p := by
  obtain ⟨es, hes⟩ := exists_parsed q
  rw [equal_def, beq_iff_eq, hes.elements] at hequal
  subst hequal
  rcases h.elements with rfl | ⟨helements, hne⟩
  · exact hes.eq_nil
  · rw [helements] at hes
    exact hes.eq_of_singleton hne

/-- Separators after a name may be repeated. -/
theorem Spelled.repeated (h : Spelled q es) :
    IsName q ∨ ∃ u v k, q = u ++ (List.replicate (k + 1) '/' ++ v) ∧
      Spelled (u ++ (List.replicate (k + 4) '/' ++ v)) es := by
  cases h with
  | last hn => exact .inl hn
  | @trailing n k hn =>
      refine .inr ⟨n, [], k, by rw [List.append_nil], ?_⟩
      rw [List.append_nil]
      exact .trailing (k + 3) hn
  | @cons n q es k hn h => exact .inr ⟨n, q, k, rfl, .cons (k + 3) hn h⟩

theorem Parsed.repeated (h : Parsed p es) :
    OneSpelling p ∨ ∃ u v k, p = u ++ (List.replicate (k + 1) '/' ++ v) ∧
      Parsed (u ++ (List.replicate (k + 4) '/' ++ v)) es := by
  cases h with
  | @rooted p q root es h h' =>
      cases h with
      | relative =>
          cases h' with
          | nil => exact .inl (.inl (by simp))
          | spelled h' =>
              rcases h'.repeated with hn | ⟨u, v, k, hq, h⟩
              · exact .inl (.inl hn.2)
              · have hmore : Parsed ([] ++ (u ++ (List.replicate (k + 4) '/' ++ v))) ([] ++ es) :=
                  .rooted .relative (.spelled h)
                exact .inr ⟨u, v, k, hq, hmore⟩
      | @absolute k hk =>
          have hmore : Parsed (List.replicate (k + 4) '/' ++ q) ([['/']] ++ es) :=
            .rooted (.absolute (by omega)) h'
          exact .inr ⟨[], q, k, rfl, hmore⟩
      | @net e he k =>
          refine .inr ⟨e, q, k, List.append_assoc _ _ _, ?_⟩
          rw [← List.append_assoc]
          exact .rooted (.net he (k + 3)) h'
  | separators => exact .inl (by decide)
  | net he => exact .inl he.oneSpelling

/-- The paths that are equal to `p` have its hash only if there is one spelling of `p`. -/
theorem hash_value_eq_iff {hasher : Char → BitVec 64} (hsep : hasher '/' = 47#64) (p : Path) :
    (∀ q, equal p q = true → hashValue hasher p = hashValue hasher q) ↔ OneSpelling p := by
  constructor
  · intro hall
    obtain ⟨es, hes⟩ := exists_parsed p
    rcases hes.repeated with hone | ⟨u, v, k, rfl, hes'⟩
    · exact hone
    · refine absurd (hall _ ?_) (hashValue_ne hsep u v k)
      rw [equal_def, hes.elements, hes'.elements, beq_self_eq_true]
  · intro hone q hequal
    rw [hone.eq hequal]

theorem hash_value_eq_network_name :
    OneSpelling ['/', '/', 'n'] ∧ ∀ q, equal ['/', '/', 'n'] q = true →
      hashValue (fun c => BitVec.ofNat 64 c.toNat) ['/', '/', 'n'] =
        hashValue (fun c => BitVec.ofNat 64 c.toNat) q :=
  ⟨by decide, (hash_value_eq_iff (by decide) _).mpr (by decide)⟩

theorem hash_value_differs :
    equal ['a', '/', 'b'] ['a', '/', '/', 'b'] = true ∧
      hashValue (fun c => BitVec.ofNat 64 c.toNat) ['a', '/', 'b'] ≠
        hashValue (fun c => BitVec.ofNat 64 c.toNat) ['a', '/', '/', 'b'] := by
  decide

end Path

end TarmIo.Fs
