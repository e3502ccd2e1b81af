import TarmIo.Fs.Path

/-!
# Paths in streams

`operator<<` and `operator>>` of `Path`, by `quoted`. An input stream is what is left of it and
whether it is `good`; it skips whitespace before a value, as streams do unless told otherwise. A
character that could not be read keeps the value it had.
-/

namespace TarmIo.Fs

structure InputStream where
  rest : List Char
  good : Bool

def isSpace (c : Char) : Bool := c ∈ [' ', '\t', '\n', '\x0b', '\x0c', '\r']

/-- What the loop of `basic_string_inserter_imp` writes. -/
def escaped (escape delim : Char) (string : List Char) : List Char :=
  string.flatMap fun c => if c = delim ∨ c = escape then [escape, c] else [c]

/-- The loop of the extractor, under `noskipws`: the string and the stream. -/
def extractLoop (escape delim : Char) : List Char → List Char × InputStream
  | [] => ([], ⟨[], false⟩)
  | c :: cs =>
    if c = escape then
      match cs with
      | [] => ([], ⟨[], false⟩)
      | d :: ds => (extractLoop escape delim ds).map (d :: ·) id
    else if c = delim then ([], ⟨cs, true⟩)
    else (extractLoop escape delim cs).map (c :: ·) id

/-- The extractor; `none` where it compares a character it has not read. -/
def extractQuoted (escape delim : Char) (is : InputStream) : Option (List Char × InputStream) :=
  match is.good, is.rest.dropWhile isSpace with
  | false, _ | _, [] => none
  | true, c :: cs =>
    if c = delim then some (extractLoop escape delim cs)
    else
      -- After `unget` a string is read up to whitespace; the end of the stream sets `eofbit`.
      let left := (c :: cs).dropWhile (!isSpace ·)
      some ((c :: cs).takeWhile (!isSpace ·), ⟨left, left ≠ []⟩)

variable {escape delim : Char}

theorem extractLoop_plain {c : Char} (hc : c ≠ escape) (cs : List Char) :
    extractLoop escape delim (c :: cs) =
      if c = delim then ([], ⟨cs, true⟩) else (extractLoop escape delim cs).map (c :: ·) id := by
  cases cs <;> simp [extractLoop, hc]

theorem extractLoop_escaped (h : delim ≠ escape) (s rest : List Char) :
    extractLoop escape delim (escaped escape delim s ++ delim :: rest) = (s, ⟨rest, true⟩) := by
  induction s with
  | nil => simp [escaped, extractLoop_plain h]
  | cons c s ih =>
    rw [escaped, List.flatMap_cons, ← escaped, List.append_assoc]
    split
    · simp [extractLoop, ih]
    · rename_i hplain
      rw [not_or] at hplain
      simp [extractLoop_plain hplain.2, hplain.1, ih]

/-- A loop that has met its delimiter has not seen what follows. -/
theorem extractLoop_append {cs : List Char} (rest : List Char)
    (hgood : (extractLoop escape delim cs).2.good = true) :
    extractLoop escape delim (cs ++ rest) = ((extractLoop escape delim cs).1,
      ⟨(extractLoop escape delim cs).2.rest ++ rest, true⟩) := by
  fun_induction extractLoop escape delim cs <;> simp_all [extractLoop, extractLoop_plain]

namespace Path

/-- `operator<<`. -/
def inserted (p : Path) : List Char := '"' :: escaped '&' '"' p ++ ['"']

/-- `operator>>`. -/
def extracted (is : InputStream) : Option (Path × InputStream) := extractQuoted '&' '"' is

def extractedMany : Nat → InputStream → Option (List Path × InputStream)
  | 0, is => some ([], is)
  | count + 1, is => do
    let (p, is) ← extracted is
    let (ps, is) ← extractedMany count is
    some (p :: ps, is)

theorem extracted_inserted {gap : List Char} (hgap : gap.all isSpace) (p : Path)
    (rest : List Char) : extracted ⟨gap ++ p.inserted ++ rest, true⟩ = some (p, ⟨rest, true⟩) := by
  have hskip : (gap ++ p.inserted ++ rest).dropWhile isSpace =
      '"' :: (escaped '&' '"' p ++ '"' :: rest) := by
    rw [List.append_assoc, List.dropWhile_append_of_pos (List.all_eq_true.mp hgap)]
    simp [inserted, isSpace]
  rw [extracted, extractQuoted, hskip]
  exact congrArg some (extractLoop_escaped (by decide) p rest)

/-- Whitespace may stand before each path, and anything after the last one. -/
theorem extractedMany_inserted (written : List ({gap : List Char // gap.all isSpace} × Path))
    (rest : List Char) :
    extractedMany written.length ⟨written.flatMap (fun w => w.1 ++ w.2.inserted) ++ rest, true⟩ =
      some (written.map Prod.snd, ⟨rest, true⟩) := by
  induction written with
  | nil => rfl
  | cons w written ih =>
    rw [List.flatMap_cons, List.append_assoc, List.length_cons, extractedMany,
      extracted_inserted w.1.2]
    simp [ih]

/-- A written path that is cut short does not leave the stream good. -/
theorem extracted_take_good_iff (p : Path) (n : Nat) :
    (extracted ⟨p.inserted.take n, true⟩).any (·.2.good) = true ↔ p.inserted.length ≤ n := by
  constructor
  · intro hgood
    cases n with
    | zero => cases hgood
    | succ n =>
      rw [inserted, List.cons_append, List.take_succ_cons] at hgood
      have happend := extractLoop_append ((escaped '&' '"' p ++ ['"']).drop n) hgood
      rw [List.take_append_drop, extractLoop_escaped (by decide) p []] at happend
      have hrest := congrArg (·.2.rest) happend
      have hall := List.drop_eq_nil_iff.mp (List.append_eq_nil_iff.mp hrest.symm).2
      simpa [inserted] using hall
  · intro hall
    have hread := @extracted_inserted [] rfl p []
    rw [List.take_of_length_le hall]
    simp_all

end Path

end TarmIo.Fs
