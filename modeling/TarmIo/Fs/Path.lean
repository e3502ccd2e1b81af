import Mathlib.Control.Traversable.Instances
import Mathlib.Data.List.Basic

/-!
# `fs/Path.cpp` for POSIX

The iterators over the elements of a path in both directions, `filename`, `parent_path`,
`remove_filename`, `operator/=`, `operator==`, `root_name`, `root_directory`, `relative_path`,
`lexically_normal` and `lexically_relative`. A path is the string `m_pathname`, without null
characters; a `Char` of it stands for one `char`, a byte. Positions are those of the source, and
`npos` is `none`. A path that begins with exactly two separators has a network name as its first
element, on POSIX as well.

The functions that `lexically_normal` calls are written once, in `Path.Code`, for any monad in
which an access to a string may be checked. Each of them is then a function of the path, where
nothing is checked, with its equation.
-/

namespace TarmIo.Fs

/-- `Path`, by its `m_pathname`. -/
abbrev Path := List Char

namespace Path

def dotPath : Path := ['.']

def dotDotPath : Path := ['.', '.']

/-! ## Functions that access no position -/

/-- `is_directory_separator(str[pos])`. -/
def isDirectorySeparator (str : Path) (pos : Nat) : Bool := str[pos]? == some '/'

def findFirstOf (str : Path) (pos : Nat) : Option Nat :=
  ((str.drop pos).findIdx? (· == '/')).map (· + pos)

/-- `str.find_last_of(separators, end_pos - 1)`. -/
def findLastOf (str : Path) : Nat → Option Nat
  | 0 => none
  | pos + 1 => if str.isDirectorySeparator pos then some pos else findLastOf str pos

def wasNet (element : Path) : Bool :=
  2 < element.length && element.isDirectorySeparator 0 && element.isDirectorySeparator 1 &&
    !element.isDirectorySeparator 2

def appendSeparatorIfNeeded (path : Path) : Path :=
  if path ≠ [] ∧ path.getLast? ≠ some '/' then path ++ ['/'] else path

/-- `operator/=`. -/
def operatorSlash (path p : Path) : Path :=
  if p = [] then path
  else if p.isDirectorySeparator 0 then path ++ p
  else path.appendSeparatorIfNeeded ++ p

/-- The names that a following `..` removes. A name of two characters is none if one of them is a
dot. -/
def Removable (lf : Path) : Prop :=
  lf ≠ [] ∧ (lf.length ≠ 1 ∨ (lf[0]? ≠ some '.' ∧ lf[0]? ≠ some '/')) ∧
    (lf.length ≠ 2 ∨ (lf[0]? ≠ some '.' ∧ lf[1]? ≠ some '.'))

instance (lf : Path) : Decidable (Removable lf) := inferInstanceAs (Decidable (_ ∧ _))

structure Iterator where
  element : Path
  pos : Nat
deriving DecidableEq

/-- `end`; the element is never read. -/
def stop (path : Path) : Iterator where
  element := []
  pos := path.length

/-! ## Accesses -/

/-- A monad that may check what an access or an assertion requires. -/
class Checks (m : Type → Type) where
  require (p : Prop) [Decidable p] : m Unit

instance : Checks Id where
  require _ := ()

instance : Checks Option where
  require p := if p then some () else none

namespace Code

variable {m : Type → Type} [Monad m] [Checks m]

/-- The operator `&&`: the right operand is not evaluated if the left one is false. -/
def both (a b : m Bool) : m Bool := do
  if ← a then b else return false

/-- A string may be read up to its size, where the terminating null character is. -/
def isDirectorySeparator (str : Path) (pos : Nat) : m Bool := do
  Checks.require (pos ≤ str.length)
  return str.isDirectorySeparator pos

/-- `substr` throws for a position past the size. -/
def substr (str : Path) (pos count : Nat) : m Path := do
  Checks.require (pos ≤ str.length)
  return (str.drop pos).take count

def erase (str : Path) (pos : Nat) : m Path := do
  Checks.require (pos ≤ str.length)
  return str.take pos

/-! ### Positions -/

def leftmost (str : Path) : Nat → m Nat
  | 0 => return 0
  | pos + 1 => do
      if ← isDirectorySeparator str pos then leftmost str pos else return pos + 1

def isRootSeparator (str : Path) (pos : Nat) : m Bool := do
  Checks.require (str ≠ [] ∧ str.isDirectorySeparator pos = true)
  let pos ← leftmost str pos
  if pos = 0 then return true
  else if pos < 3 then return false
  else if ← both (isDirectorySeparator str 0) (isDirectorySeparator str 1) then
    return str.findFirstOf 2 == some pos
  else return false

def filenamePos (str : Path) (endPos : Nat) : m Nat := do
  if ← both (return endPos = 2)
      (both (isDirectorySeparator str 0) (isDirectorySeparator str 1)) then
    return 0
  else if ← both (return endPos ≠ 0) (isDirectorySeparator str (endPos - 1)) then
    return endPos - 1
  else
    -- At zero `end_pos - 1` is `npos`.
    match str.findLastOf (if endPos = 0 then str.length else endPos) with
    | none => return 0
    | some pos =>
        if ← both (return pos = 1) (isDirectorySeparator str 0) then return 0 else return pos + 1

def rootDirectoryStart (path : Path) (size : Nat) : m (Option Nat) := do
  if ← both (return size = 2)
      (both (isDirectorySeparator path 0) (isDirectorySeparator path 1)) then
    return none
  else if ← both (return 3 < size) (both (isDirectorySeparator path 0)
      (both (isDirectorySeparator path 1) ((!·) <$> isDirectorySeparator path 2))) then
    return (path.findFirstOf 2).filter (· < size)
  else if ← both (return 0 < size) (isDirectorySeparator path 0) then return some 0
  else return none

/-- The position and the size of the first element. The loops read a character after comparing
the position with the size. -/
def firstElement (src : Path) : m (Nat × Nat) := do
  if src = [] then return (0, 0)
  else if ← both (return 2 ≤ src.length) (both (isDirectorySeparator src 0)
      (both (isDirectorySeparator src 1)
        (if src.length = 2 then return true else (!·) <$> isDirectorySeparator src 2))) then
    return (0, 2 + ((src.drop 2).takeWhile (· != '/')).length)
  else if ← isDirectorySeparator src 0 then
    return (((src.drop 1).takeWhile (· == '/')).length, 1)
  else return (0, (src.takeWhile (· != '/')).length)

/-- The loop that skips separators to the left, unless at the root directory. -/
def skipSeparators (str : Path) (rootDirPos : Option Nat) : Nat → m Nat
  | 0 => return 0
  | endPos + 1 => do
      if ← both (return some endPos ≠ rootDirPos) (isDirectorySeparator str endPos) then
        skipSeparators str rootDirPos endPos
      else return endPos + 1

/-! ### Iterators -/

def begin (path : Path) : m Iterator := do
  let (pos, size) ← firstElement path
  let element ← substr path pos size
  return { element, pos }

def elementAt (path : Path) (pos : Nat) : m Iterator := do
  let endPos := (path.findFirstOf pos).getD path.length
  let element ← substr path pos (endPos - pos)
  return { element, pos }

/-- `m_path_iterator_increment`. A trailing separator is an element `.`. -/
def increment (path : Path) (it : Iterator) : m Iterator := do
  Checks.require (it.pos < path.length)
  let pos := it.pos + it.element.length
  if pos = path.length then return { element := [], pos }
  else if ← isDirectorySeparator path pos then
    if wasNet it.element then return { element := ['/'], pos }
    else
      let pos := pos + ((path.drop pos).takeWhile (· == '/')).length
      if ← both (return pos = path.length) ((!·) <$> isRootSeparator path (pos - 1)) then
        return { element := dotPath, pos := pos - 1 }
      else elementAt path pos
  else elementAt path pos

def decrement (path : Path) (it : Iterator) : m Iterator := do
  Checks.require (it.pos ≠ 0)
  if ← both (return it.pos = path.length ∧ 1 < path.length)
      (both (isDirectorySeparator path (it.pos - 1))
        ((!·) <$> isRootSeparator path (it.pos - 1))) then
    return { element := dotPath, pos := it.pos - 1 }
  else
    let rootDirPos ← rootDirectoryStart path it.pos
    let endPos ← skipSeparators path rootDirPos it.pos
    let pos ← filenamePos path endPos
    -- Where `end_pos - m_pos` wraps, the element is the rest of the string.
    let element ← substr path pos (if endPos < pos then path.length else endPos - pos)
    return { element, pos }

/-- The iterators from the given one to the end. Each one is to the right of the one before it. -/
def iteratorsFrom (path : Path) : Nat → Iterator → m (List Iterator)
  | 0, _ => return []
  | fuel + 1, it => do
      if it.pos = path.length then return []
      else
        let next ← increment path it
        return it :: (← iteratorsFrom path fuel next)

def iterators (path : Path) : m (List Iterator) := do
  iteratorsFrom path path.length (← begin path)

/-! ### Paths -/

/-- `operator==`, which compares the elements; here all of them are read. -/
def equal (lhs rhs : Path) : m Bool := do
  let lhs ← iterators lhs
  let rhs ← iterators rhs
  return lhs.map Iterator.element == rhs.map Iterator.element

def filename (path : Path) : m Path := do
  let pos ← filenamePos path path.length
  if ← both (return path ≠ [] ∧ pos ≠ 0)
      (both (isDirectorySeparator path pos) ((!·) <$> isRootSeparator path pos)) then
    return dotPath
  else
    Checks.require (pos ≤ path.length)
    return path.drop pos

def parentPathEnd (path : Path) : m (Option Nat) := do
  let filenamePos ← filenamePos path path.length
  let filenameWasSeparator ← both (return path ≠ []) (isDirectorySeparator path filenamePos)
  let rootDirPos ← rootDirectoryStart path filenamePos
  let endPos ← skipSeparators path rootDirPos filenamePos
  if endPos = 1 ∧ rootDirPos = some 0 ∧ filenameWasSeparator = true then return none
  else return some endPos

/-- `remove_filename`. Without a parent path `std::string::erase` throws. -/
def removeFilename (path : Path) : m (Option Path) := do
  match ← parentPathEnd path with
  | none => return none
  | some endPos => return some (← erase path endPos)

/-- The loop of `lexically_normal`, with the iterators that are left. `operator/=` and the tests
on names read characters after comparing sizes. -/
def normalLoop (start last : Iterator) : Path → List Iterator → m (Option Path)
  | temp, [] => return some temp
  | temp, itr :: rest => do
      if itr.element = dotPath ∧ itr.pos ≠ start.pos ∧ itr.pos ≠ last.pos then
        normalLoop start last temp rest
      else if ← both (return temp ≠ [] ∧ itr.element = dotDotPath)
          ((decide <| Removable ·) <$> filename temp) then
        match ← removeFilename temp with
        | none => return none
        | some temp =>
            if ← both (return temp = [] ∧ (rest.head?.any (·.pos = last.pos)) = true)
                (equal last.element dotPath) then
              normalLoop start last (temp.operatorSlash dotPath) rest
            else normalLoop start last temp rest
      else normalLoop start last (temp.operatorSlash itr.element) rest

def lexicallyNormal (path : Path) : m (Option Path) := do
  if path = [] then return some path
  else
    let start ← begin path
    let last ← decrement path path.stop
    let its ← iterators path
    let temp ← normalLoop start last [] its
    return temp.map fun temp : Path => if temp = [] then temp.operatorSlash dotPath else temp

/-! ### Without checks -/

section

variable {α β : Type}

@[simp] theorem id_bind (x : Id α) (f : α → Id β) : (x >>= f) = f x := rfl

@[simp] theorem id_pure (x : α) : (pure x : Id α) = x := rfl

@[simp] theorem id_map (f : α → β) (x : Id α) : (f <$> x : Id β) = f x := rfl

@[simp] theorem id_both (a b : Id Bool) : (both a b : Id Bool) = and a b := by
  rw [both, id_bind]
  cases a <;> rfl

@[simp] theorem id_isDirectorySeparator (str : Path) (pos : Nat) :
    (isDirectorySeparator str pos : Id Bool) = str.isDirectorySeparator pos := rfl

end

end Code

/-! ## Functions of the path -/

def leftmost (str : Path) (pos : Nat) : Nat := (Code.leftmost str pos : Id Nat)

theorem leftmost_succ (str : Path) (pos : Nat) :
    str.leftmost (pos + 1) = if str.isDirectorySeparator pos then str.leftmost pos else pos + 1 :=
  rfl

def isRootSeparator (str : Path) (pos : Nat) : Bool := (Code.isRootSeparator str pos : Id Bool)

theorem isRootSeparator_def (str : Path) (pos : Nat) :
    str.isRootSeparator pos =
      if str.leftmost pos = 0 then true
      else if str.leftmost pos < 3 ∨ ¬ str.isDirectorySeparator 0 ∨
        ¬ str.isDirectorySeparator 1 then false
      else str.findFirstOf 2 == some (str.leftmost pos) := by
  simp [isRootSeparator, Code.isRootSeparator, leftmost]
  grind

def filenamePos (str : Path) (endPos : Nat) : Nat := (Code.filenamePos str endPos : Id Nat)

theorem filenamePos_def (str : Path) (endPos : Nat) :
    str.filenamePos endPos =
      if endPos = 2 ∧ str.isDirectorySeparator 0 ∧ str.isDirectorySeparator 1 then 0
      else if endPos ≠ 0 ∧ str.isDirectorySeparator (endPos - 1) then endPos - 1
      else
        match str.findLastOf (if endPos = 0 then str.length else endPos) with
        | none => 0
        | some pos => if pos = 1 ∧ str.isDirectorySeparator 0 then 0 else pos + 1 := by
  simp [filenamePos, Code.filenamePos]
  rfl

def rootDirectoryStart (path : Path) (size : Nat) : Option Nat :=
  (Code.rootDirectoryStart path size : Id (Option Nat))

theorem rootDirectoryStart_def (path : Path) (size : Nat) :
    path.rootDirectoryStart size =
      if size = 2 ∧ path.isDirectorySeparator 0 ∧ path.isDirectorySeparator 1 then none
      else if 3 < size ∧ path.isDirectorySeparator 0 ∧ path.isDirectorySeparator 1 ∧
          ¬ path.isDirectorySeparator 2 then
        (path.findFirstOf 2).filter (· < size)
      else if 0 < size ∧ path.isDirectorySeparator 0 then some 0
      else none := by
  simp [rootDirectoryStart, Code.rootDirectoryStart]

def firstElement (src : Path) : Nat × Nat := (Code.firstElement src : Id (Nat × Nat))

theorem firstElement_def (src : Path) :
    src.firstElement =
      if src = [] then (0, 0)
      else if 2 ≤ src.length ∧ src.isDirectorySeparator 0 ∧ src.isDirectorySeparator 1 ∧
          (src.length = 2 ∨ ¬ src.isDirectorySeparator 2) then
        (0, 2 + ((src.drop 2).takeWhile (· != '/')).length)
      else if src.isDirectorySeparator 0 then (((src.drop 1).takeWhile (· == '/')).length, 1)
      else (0, (src.takeWhile (· != '/')).length) := by
  simp [firstElement, Code.firstElement]
  grind

def skipSeparators (str : Path) (rootDirPos : Option Nat) (endPos : Nat) : Nat :=
  (Code.skipSeparators str rootDirPos endPos : Id Nat)

theorem skipSeparators_succ (str : Path) (rootDirPos : Option Nat) (endPos : Nat) :
    str.skipSeparators rootDirPos (endPos + 1) =
      if some endPos ≠ rootDirPos ∧ str.isDirectorySeparator endPos then
        str.skipSeparators rootDirPos endPos
      else endPos + 1 := by
  simp [skipSeparators, Code.skipSeparators]

/-! ### Iterators -/

def begin (path : Path) : Iterator := (Code.begin path : Id Iterator)

theorem begin_def (path : Path) :
    path.begin =
      { element := (path.drop path.firstElement.1).take path.firstElement.2
        pos := path.firstElement.1 } := rfl

def elementAt (path : Path) (pos : Nat) : Iterator := (Code.elementAt path pos : Id Iterator)

/-- Up to the next separator or the end. -/
theorem take_findFirstOf (path : Path) (pos : Nat) :
    (path.drop pos).take ((path.findFirstOf pos).getD path.length - pos) =
      (path.drop pos).takeWhile (· != '/') := by
  have hnot : (fun c : Char => !(c != '/')) = (· == '/') := by
    funext c
    rw [bne, Bool.not_not]
  rw [List.takeWhile_eq_take_findIdx_not, hnot, findFirstOf]
  cases hfind : (path.drop pos).findIdx? (· == '/') with
  | none =>
      have hend := List.findIdx_eq_length_of_false (List.findIdx?_eq_none_iff.mp hfind)
      rw [Option.map_none, Option.getD_none, hend, List.length_drop]
  | some i =>
      obtain ⟨_, hi⟩ := List.findIdx?_eq_some_iff_findIdx_eq.mp hfind
      rw [Option.map_some, Option.getD_some, Nat.add_sub_cancel, hi]

theorem elementAt_def (path : Path) (pos : Nat) :
    path.elementAt pos = { element := (path.drop pos).takeWhile (· != '/'), pos } := by
  rw [← take_findFirstOf]
  rfl

def increment (path : Path) (it : Iterator) : Iterator := (Code.increment path it : Id Iterator)

theorem increment_def (path : Path) (it : Iterator) :
    path.increment it =
      let pos := it.pos + it.element.length
      if pos = path.length then { element := [], pos }
      else if path.isDirectorySeparator pos then
        if wasNet it.element then { element := ['/'], pos }
        else
          let pos := pos + ((path.drop pos).takeWhile (· == '/')).length
          if pos = path.length ∧ ¬ path.isRootSeparator (pos - 1) then
            { element := dotPath, pos := pos - 1 }
          else path.elementAt pos
      else path.elementAt pos := by
  simp [increment, Code.increment]
  rfl

def decrement (path : Path) (it : Iterator) : Iterator := (Code.decrement path it : Id Iterator)

theorem decrement_def (path : Path) (it : Iterator) :
    path.decrement it =
      if it.pos = path.length ∧ 1 < path.length ∧ path.isDirectorySeparator (it.pos - 1) ∧
          ¬ path.isRootSeparator (it.pos - 1) then
        { element := dotPath, pos := it.pos - 1 }
      else
        let endPos := path.skipSeparators (path.rootDirectoryStart it.pos) it.pos
        let pos := path.filenamePos endPos
        { element := (path.drop pos).take (if endPos < pos then path.length else endPos - pos)
          pos } := by
  simp [decrement, Code.decrement, and_assoc]
  rfl

def iteratorsFrom (path : Path) (fuel : Nat) (it : Iterator) : List Iterator :=
  (Code.iteratorsFrom path fuel it : Id (List Iterator))

theorem iteratorsFrom_succ (path : Path) (fuel : Nat) (it : Iterator) :
    path.iteratorsFrom (fuel + 1) it =
      if it.pos = path.length then [] else it :: path.iteratorsFrom fuel (path.increment it) := rfl

def iterators (path : Path) : List Iterator := (Code.iterators path : Id (List Iterator))

theorem iterators_def (path : Path) :
    path.iterators = path.iteratorsFrom path.length path.begin := rfl

def elements (path : Path) : List Path := path.iterators.map Iterator.element

structure ReverseIterator where
  itr : Iterator
  element : Path
deriving DecidableEq

def reverseOf (path : Path) (itr : Iterator) : ReverseIterator where
  itr
  element := if itr.pos ≠ path.begin.pos then (path.decrement itr).element else []

/-- `ReverseIterator::increment`. At the beginning of the path the element is left. -/
def reverseIncrement (path : Path) (it : ReverseIterator) : ReverseIterator :=
  let itr := path.decrement it.itr
  { itr
    element := if itr.pos ≠ path.begin.pos then (path.decrement itr).element else it.element }

def rbegin (path : Path) : ReverseIterator := path.reverseOf path.stop

def rend (path : Path) : ReverseIterator := path.reverseOf path.begin

/-! ### Paths -/

def equal (lhs rhs : Path) : Bool := (Code.equal lhs rhs : Id Bool)

theorem equal_def (lhs rhs : Path) : lhs.equal rhs = (lhs.elements == rhs.elements) := rfl

def rootName (path : Path) : Path :=
  let itr := path.begin
  if itr.pos ≠ path.length ∧ 1 < itr.element.length ∧ itr.element.isDirectorySeparator 0 ∧
      itr.element.isDirectorySeparator 1 then
    itr.element
  else []

def rootDirectory (path : Path) : Path :=
  match path.rootDirectoryStart path.length with
  | none => []
  | some pos => (path.drop pos).take 1

def positionOf (path : Path) (its : List Iterator) : Nat := its.head?.elim path.length Iterator.pos

/-- Without the elements that begin with a separator. -/
def relativePath (path : Path) : Path :=
  path.drop (path.positionOf (path.iterators.dropWhile (·.element.isDirectorySeparator 0)))

def filename (path : Path) : Path := (Code.filename path : Id Path)

theorem filename_def (path : Path) :
    path.filename =
      let pos := path.filenamePos path.length
      if path ≠ [] ∧ pos ≠ 0 ∧ path.isDirectorySeparator pos ∧ ¬ path.isRootSeparator pos then
        dotPath
      else path.drop pos := by
  simp [filename, Code.filename, and_assoc]
  rfl

def parentPathEnd (path : Path) : Option Nat := (Code.parentPathEnd path : Id (Option Nat))

theorem parentPathEnd_def (path : Path) :
    path.parentPathEnd =
      let filenamePos := path.filenamePos path.length
      let rootDirPos := path.rootDirectoryStart filenamePos
      let endPos := path.skipSeparators rootDirPos filenamePos
      if endPos = 1 ∧ rootDirPos = some 0 ∧ path ≠ [] ∧ path.isDirectorySeparator filenamePos then
        none
      else some endPos := by
  simp [parentPathEnd, Code.parentPathEnd]
  rfl

def parentPath (path : Path) : Path :=
  match path.parentPathEnd with
  | none => []
  | some endPos => path.take endPos

def removeFilename (path : Path) : Option Path := (Code.removeFilename path : Id (Option Path))

theorem removeFilename_def (path : Path) :
    path.removeFilename = path.parentPathEnd.map fun endPos => path.take endPos := by
  simp only [removeFilename, Code.removeFilename, Code.id_bind, parentPathEnd]
  cases (Code.parentPathEnd path : Id (Option Nat)) <;> rfl

/-! ### `lexically_normal` -/

def normalLoop (start last : Iterator) (temp : Path) (its : List Iterator) : Option Path :=
  (Code.normalLoop start last temp its : Id (Option Path))

theorem normalLoop_cons (start last : Iterator) (temp : Path) (itr : Iterator)
    (rest : List Iterator) :
    normalLoop start last temp (itr :: rest) =
      if itr.element = dotPath ∧ itr.pos ≠ start.pos ∧ itr.pos ≠ last.pos then
        normalLoop start last temp rest
      else if temp ≠ [] ∧ itr.element = dotDotPath ∧ Removable temp.filename then
        match temp.removeFilename with
        | none => none
        | some temp =>
            if temp = [] ∧ (rest.head?.any (·.pos = last.pos)) = true ∧
                equal last.element dotPath = true then
              normalLoop start last (temp.operatorSlash dotPath) rest
            else normalLoop start last temp rest
      else normalLoop start last (temp.operatorSlash itr.element) rest := by
  simp [normalLoop, Code.normalLoop, and_assoc]
  rfl

def lexicallyNormal (path : Path) : Option Path := (Code.lexicallyNormal path : Id (Option Path))

theorem lexicallyNormal_def (path : Path) :
    path.lexicallyNormal =
      if path = [] then some path
      else
        (normalLoop path.begin (path.decrement path.stop) [] path.iterators).map
          fun temp : Path => if temp = [] then temp.operatorSlash dotPath else temp := rfl

/-! ### `lexically_relative` -/

/-- `detail::mismatch`, on the iterators that are left of both paths. -/
def mismatch : List Iterator → List Iterator → List Iterator × List Iterator
  | it1 :: its1, it2 :: its2 =>
      if equal it1.element it2.element = true then mismatch its1 its2
      else (it1 :: its1, it2 :: its2)
  | its1, its2 => (its1, its2)

def lexicallyRelative (path base : Path) : Path :=
  let mm := mismatch path.iterators base.iterators
  if path.positionOf mm.1 = path.begin.pos ∧ base.positionOf mm.2 = base.begin.pos then []
  else if path.positionOf mm.1 = path.length ∧ base.positionOf mm.2 = base.length then dotPath
  else
    let tmp := mm.2.foldl (fun tmp _ => operatorSlash tmp dotDotPath) []
    mm.1.foldl (fun tmp itr => operatorSlash tmp itr.element) tmp

end Path

end TarmIo.Fs
