import Mathlib.Data.List.DropRight
import TarmIo.Foundation.Execution
import TarmIo.Foundation.FileTree
import TarmIo.Fs.FsCommon
import TarmIo.Fs.Path

/-!
# `make_all_dirs`

`make_all_dirs_impl` with `make_dir_impl` and `stat`, from one system call to the next, on a file
tree without symbolic links. A call answers what POSIX says, or it fails for a reason that the tree
does not know, such as missing permissions. A request that libuv refuses at once fails like one that
fails later. The callback of `make_all_dirs` is not null.

The mode of the directories is left out, since it is only passed on.
-/

namespace TarmIo.Fs

open Foundation

/-! ## POSIX -/

/-- A file tree without symbolic links, and the working directory. -/
structure FileSystem where
  tree : FileTree Path
  cwd : List Path
  working : tree.kind cwd = some .directory
  noLinks : ∀ l, tree.kind l ≠ some .link

namespace FileSystem

/-- From a directory to what a component of a path names in it. -/
def descend (fs : FileSystem) (l : List Path) (component : Path) : Except StatusCode (List Path) :=
  match fs.tree.kind l with
  | none => .error .noSuchFileOrDirectory
  | some .directory =>
      if component = [] ∨ component = Path.dotPath then .ok l
      else if component = Path.dotDotPath then .ok l.tail
      else .ok (component :: l)
  | some .regular | some .link | some .special => .error .notADirectory

/-- Path resolution. What the last component names need not exist. -/
def locate (fs : FileSystem) (path : Path) : Except StatusCode (List Path) :=
  if path = [] then .error .noSuchFileOrDirectory
  else
    (path.splitOn '/').foldlM fs.descend (if path.isDirectorySeparator 0 then [] else fs.cwd)

def stat (fs : FileSystem) (path : Path) : Except StatusCode FileKind :=
  match fs.locate path with
  | .error code => .error code
  | .ok l =>
      match fs.tree.kind l with
      | none => .error .noSuchFileOrDirectory
      | some kind => .ok kind

def extend (fs : FileSystem) (l : List Path) (tree : FileTree Path)
    (h : fs.tree.create l .directory = some tree) : FileSystem where
  tree
  cwd := fs.cwd
  working := by
    obtain ⟨hfree, _, hframe⟩ := FileTree.create_eq_some h
    rw [hframe]
    · exact fs.working
    · intro heq
      rw [← heq, fs.working] at hfree
      cases hfree
  noLinks := by
    obtain ⟨_, hnew, hframe⟩ := FileTree.create_eq_some h
    intro m
    by_cases hm : m = l
    · rw [hm, hnew]
      simp
    · rw [hframe m hm]
      exact fs.noLinks m

/-- `mkdir` of POSIX. Separators at the end do not matter. -/
def mkdir (fs : FileSystem) (path : Path) : Except StatusCode FileSystem :=
  if path ≠ [] ∧ path.rdropWhile (· == '/') = [] then .error .fileOrDirAlreadyExists
  else
    match fs.locate (path.rdropWhile (· == '/')) with
    | .error code => .error code
    | .ok l =>
        match h : fs.tree.create l .directory with
        | none => .error .fileOrDirAlreadyExists
        | some tree => .ok (fs.extend l tree h)

end FileSystem

/-! ## The code -/

namespace MakeAllDirs

inductive Pending
  | stat (p : Path)
  | mkdir (p next : Path)
  | ended
deriving DecidableEq

/-- What the call returns: what POSIX says, or another error. -/
inductive Answer
  | posix
  | failed (error : Failure)
deriving DecidableEq

end MakeAllDirs

/-- `calls` are the calls of the callback. `made` is only observed: the paths that `uv_fs_mkdir` was
called for. -/
structure MakeAllDirs where
  normalized : Path
  fs : FileSystem
  pending : MakeAllDirs.Pending
  made : List Path := []
  calls : List (Path × Error) := []

namespace MakeAllDirs

def errorAt (p : Path) (code : StatusCode) : Error := { code, additionalInfo := String.ofList p }

def onEnd (s : MakeAllDirs) (p : Path) (error : Error) : MakeAllDirs :=
  { s with pending := .ended, calls := s.calls ++ [(p, error)] }

/-- As many elements of the normalized path as `p` has are skipped, and the next one is joined to
`p`; at the end it is empty. An iterator is never incremented past the end. -/
def nextPath (normalized p : Path) : Option Path :=
  if p.elements.length ≤ normalized.elements.length then
    some (p.operatorSlash (normalized.elements[p.elements.length]?.getD []))
  else none

/-- `p` is a directory, or taken for one. -/
def proceed (s : MakeAllDirs) (p next : Path) : MakeAllDirs :=
  if p.length ≠ s.normalized.length then { s with pending := .stat next } else s.onEnd p {}

/-- `make_dir_impl`, up to the system call. -/
def makeDir (s : MakeAllDirs) (p next : Path) : MakeAllDirs :=
  if p = [] then s.onEnd p (errorAt p .invalidArgument)
  else if p.rootName.equal p ∨ p.rootDirectory.equal p then
    s.onEnd p (errorAt p .illegalOperationOnADirectory)
  else { s with pending := .mkdir p next, made := s.made ++ [p] }

def onStat (s : MakeAllDirs) (p next : Path) : Except StatusCode FileKind → MakeAllDirs
  | .error code =>
      if code = .noSuchFileOrDirectory then s.makeDir p next else s.onEnd p (errorAt p code)
  | .ok kind =>
      if kind = .regular then s.onEnd p (errorAt p .notADirectory) else s.proceed p next

def onMakeDir (s : MakeAllDirs) (p next : Path) : Except StatusCode FileSystem → MakeAllDirs
  | .error code => s.onEnd p (errorAt p code)
  | .ok fs => { s with fs }.proceed p next

def step (s : MakeAllDirs) (answer : Answer) : Option MakeAllDirs :=
  match s.pending with
  | .stat p =>
      match nextPath s.normalized p with
      | none => none
      | some next =>
          match answer with
          | .posix => some (s.onStat p next (s.fs.stat p))
          | .failed error =>
              if error.val.code = .noSuchFileOrDirectory then none
              else some (s.onStat p next (.error error.val.code))
  | .mkdir p next =>
      match answer with
      | .posix => some (s.onMakeDir p next (s.fs.mkdir p))
      | .failed error => some (s.onMakeDir p next (.error error.val.code))
  | .ended => none

end MakeAllDirs

/-- `make_all_dirs_impl`, up to the first system call; none if `lexically_normal` throws. -/
def makeAllDirs (fs : FileSystem) (path : Path) : Option MakeAllDirs :=
  path.lexicallyNormal.map fun normalized : Path =>
    if path = [] then
      { normalized, fs, pending := .ended, calls := [(path, .ofCode .invalidArgument)] }
    else { normalized, fs, pending := .stat path.begin.element }

end TarmIo.Fs
