import TarmIo.Foundation.Execution
import TarmIo.Foundation.FileTree
import TarmIo.Fs.FsCommon

/-!
# `remove_dir`

The worker of `remove_dir_impl` with `remove_dir_entry`, from one system call to the next. What
runs between two calls is one step; the answers of the calls are given, and a call that has
succeeded has its POSIX effect on a file tree. Paths are locations in the tree: `path` is that of
the directory to remove, and `subpath / name` is `name :: subpath`.

The path in the status is left out, since nothing reads it.
-/

namespace TarmIo.Fs

open Foundation

structure RemoveDirWorkEntry (ν : Type*) where
  path : List ν
  processed : Bool := false
deriving DecidableEq

/-- The arguments of `remove_dir`: the directory, and whether there is a progress callback. -/
structure RemoveDirRequest (ν : Type*) where
  path : List ν
  progressCallback : Bool

namespace RemoveDirWorker

/-- The system call that the worker waits for, with the variables that it needs afterwards. libuv
reports the entries that were in the directory when it was opened, in any order. -/
inductive Pending (ν : Type*)
  | openDir
  | readDir (subpath : List ν) (unread : List ν)
  | unlink (subpath : List ν) (unread : List ν) (name : ν)
  | rmdir
  | returned (status : Error)
deriving DecidableEq

inductive Answer (ν : Type*)
  | done
  | entry (name : ν)
  | failed (error : Failure)
deriving DecidableEq

def Answer.Succeeds {ν : Type*} : Answer ν → Prop
  | .done | .entry _ => True
  | .failed _ => False

end RemoveDirWorker

/-- The back of `work_data` is the head here. `reported` are the calls of the progress callback.
`removed` is only observed: what was unlinked or removed, in order. -/
structure RemoveDirWorker (ν : Type*) [DecidableEq ν] where
  tree : FileTree ν
  workData : List (RemoveDirWorkEntry ν)
  pending : RemoveDirWorker.Pending ν
  reported : List (List ν) := []
  removed : List (List ν) := []

namespace RemoveDirWorker

variable {ν : Type*} [DecidableEq ν]

def start (tree : FileTree ν) : RemoveDirWorker ν where
  tree
  workData := [{ path := [] }]
  pending := .openDir

def status (s : RemoveDirWorker ν) : Option Error :=
  match s.pending with
  | .returned status => some status
  | .openDir | .readDir .. | .unlink .. | .rmdir => none

/-- `remove_dir_entry` up to `uv_fs_opendir`, which follows. -/
def openDir (r : RemoveDirRequest ν) (s : RemoveDirWorker ν) (answer : Answer ν) :
    Option (RemoveDirWorker ν) :=
  match s.workData with
  | [] => none
  | back :: rest =>
      let workData := { back with processed := true } :: rest
      match answer with
      | .done =>
          if s.tree.kind (back.path ++ r.path) = some .directory then
            some
              { s with
                workData
                pending := .readDir back.path (s.tree.children (back.path ++ r.path)) }
          else none
      | .entry _ => none
      | .failed error => some { s with workData, pending := .returned error }

/-- After `remove_dir_entry` the back is removed, unless it has just been added. -/
def entryDone (s : RemoveDirWorker ν) : RemoveDirWorker ν :=
  match s.workData with
  | [] => s
  | back :: _ => { s with pending := if back.processed then .rmdir else .openDir }

/-- An entry: a directory becomes work, everything else is unlinked. -/
def readDir (r : RemoveDirRequest ν) (s : RemoveDirWorker ν) (subpath unread : List ν) :
    Answer ν → Option (RemoveDirWorker ν)
  | .entry name =>
      if name ∈ unread then
        let unread := unread.erase name
        match s.tree.kind (name :: subpath ++ r.path) with
        | none => none
        | some .directory =>
            some
              { s with
                workData := { path := name :: subpath } :: s.workData
                pending := .readDir subpath unread }
        | some .regular | some .link | some .special =>
            some { s with pending := .unlink subpath unread name }
      else none
  | .done => if unread = [] then some s.entryDone else none
  | .failed error => some { s with pending := .returned error }

def unlink (r : RemoveDirRequest ν) (s : RemoveDirWorker ν) (subpath unread : List ν) (name : ν) :
    Answer ν → Option (RemoveDirWorker ν)
  | .done =>
      (s.tree.unlink (name :: subpath ++ r.path)).map fun tree =>
        { s with
          tree
          removed := s.removed ++ [name :: subpath]
          pending := .readDir subpath unread }
  | .entry _ => none
  | .failed error => some { s with pending := .returned error }

def rmdir (r : RemoveDirRequest ν) (s : RemoveDirWorker ν) (answer : Answer ν) :
    Option (RemoveDirWorker ν) :=
  match s.workData with
  | [] => none
  | back :: rest =>
      match answer with
      | .done =>
          (s.tree.rmdir (back.path ++ r.path)).map fun tree =>
            { s with
              tree
              workData := rest
              reported := s.reported ++ if r.progressCallback then [back.path] else []
              removed := s.removed ++ [back.path]
              pending := if rest = [] then .returned {} else .openDir }
      | .entry _ => none
      | .failed error => some { s with pending := .returned error }

def step (r : RemoveDirRequest ν) (s : RemoveDirWorker ν) (answer : Answer ν) :
    Option (RemoveDirWorker ν) :=
  match s.pending with
  | .openDir => s.openDir r answer
  | .readDir subpath unread => s.readDir r subpath unread answer
  | .unlink subpath unread name => s.unlink r subpath unread name answer
  | .rmdir => s.rmdir r answer
  | .returned _ => none

section Equations

variable (r : RemoveDirRequest ν) {s : RemoveDirWorker ν} (answer : Answer ν)

theorem step_openDir (h : s.pending = .openDir) : s.step r answer = s.openDir r answer := by
  rw [step, h]

theorem step_readDir {subpath unread : List ν} (h : s.pending = .readDir subpath unread) :
    s.step r answer = s.readDir r subpath unread answer := by
  rw [step, h]

theorem step_unlink {subpath unread : List ν} {name : ν}
    (h : s.pending = .unlink subpath unread name) :
    s.step r answer = s.unlink r subpath unread name answer := by
  rw [step, h]

theorem step_rmdir (h : s.pending = .rmdir) : s.step r answer = s.rmdir r answer := by
  rw [step, h]

theorem step_returned {status : Error} (h : s.pending = .returned status) :
    s.step r answer = none := by
  rw [step, h]

end Equations

end RemoveDirWorker

end TarmIo.Fs
