/-
The file system a patch is verified against and applied to.

A world holds what every path names and a schedule of failures.  The operations of
the executor's file system run against it one at a time, and the `n`-th operation
fails when the schedule says so.  A failed write may leave anything at the path it
was writing, and a failed remove may or may not have removed the file: neither is
told to the caller.  What a failure does not do is lie about absence: a read that
answers `notFound` found nothing, so a failing read or look at the metadata has another
kind.

There are no symbolic links here, so `follow_symlinks` changes nothing and is left
out, and `isSymlink` is false throughout.
-/
import SushiGpt.ApplyPatch.Patch

namespace SushiGpt.ApplyPatch

/-- What a path names.  `binary` is a regular file whose bytes are not text. -/
inductive Node where
  | text (contents : Text)
  | binary
  | directory
  deriving DecidableEq

structure Fault where
  /-- Of a write, a remove or the making of directories. -/
  error : IoError
  /-- Of a read. -/
  readError : IoError
  not_notFound : readError.kind ≠ .notFound
  /-- What a failed write leaves at its path, if it touched it at all. -/
  leftover : Option (Option Node)
  /-- Whether a failed remove had removed the file. -/
  removed : Bool

structure World (K : Type) where
  files : K → Option Node
  faults : Nat → Option Fault
  clock : Nat

structure Metadata where
  isFile : Bool
  isDirectory : Bool
  isSymlink : Bool

def Node.metadata : Node → Metadata
  | .text _ => ⟨true, false, false⟩
  | .binary => ⟨true, false, false⟩
  | .directory => ⟨false, true, false⟩

def Node.asText : Node → Option Text
  | .text t => some t
  | _ => none

namespace World

variable {K : Type}

def notFound : IoError := ⟨.notFound, "No such file or directory".toList⟩
def isDirectory : IoError := ⟨.other, "Is a directory".toList⟩
def notDirectory : IoError := ⟨.other, "Not a directory".toList⟩
def notUtf8 : IoError := ⟨.invalidData, "stream did not contain valid UTF-8".toList⟩

/-- The failure scheduled for the next operation. -/
def fault (w : World K) : Option Fault := w.faults w.clock

def tick (w : World K) : World K := { w with clock := w.clock + 1 }

/-- A world in which every operation on a regular file succeeds. -/
def healthy (files : K → Option Text) : World K :=
  ⟨fun k => (files k).map .text, fun _ => none, 0⟩

/-- The regular text files of a world. -/
def texts (w : World K) : K → Option Text := fun k => (w.files k).bind Node.asText

def readFileText (w : World K) (path : K) : World K × Except IoError Text :=
  match w.fault with
  | some f => (w.tick, .error f.readError)
  | none =>
    match w.files path with
    | some (.text t) => (w.tick, .ok t)
    | some .binary => (w.tick, .error notUtf8)
    | some .directory => (w.tick, .error isDirectory)
    | none => (w.tick, .error notFound)

def getMetadata (w : World K) (path : K) : World K × Except IoError Metadata :=
  match w.fault with
  | some f => (w.tick, .error f.readError)
  | none =>
    match w.files path with
    | some node => (w.tick, .ok node.metadata)
    | none => (w.tick, .error notFound)

variable [DecidableEq K]

def set (w : World K) (path : K) (node : Option Node) : World K :=
  { w with files := Function.update w.files path node }

def writeFile (w : World K) (path : K) (contents : Text) : World K × Except IoError Unit :=
  match w.fault with
  | some f =>
    match f.leftover with
    | some node => (w.tick.set path node, .error f.error)
    | none => (w.tick, .error f.error)
  | none =>
    match w.files path with
    | some .directory => (w.tick, .error isDirectory)
    | _ => (w.tick.set path (some (.text contents)), .ok ())

/-- Removing one file.  Directories are refused before this is reached. -/
def remove (w : World K) (path : K) : World K × Except IoError Unit :=
  match w.fault with
  | some f => (if f.removed then w.tick.set path none else w.tick, .error f.error)
  | none =>
    match w.files path with
    | none => (w.tick, .error notFound)
    | some .directory => (w.tick, .error isDirectory)
    | some _ => (w.tick.set path none, .ok ())

/-- `create_dir_all`: every missing directory of `dirs` comes into being. -/
def createDirectory (w : World K) (dirs : List K) : World K × Except IoError Unit :=
  match w.fault with
  | some f => (w.tick, .error f.error)
  | none =>
    if dirs.any fun d => decide (w.files d ≠ none ∧ w.files d ≠ some .directory) then
      (w.tick, .error notDirectory)
    else
      ({ w.tick with files := fun k => if k ∈ dirs then some .directory else w.files k }, .ok ())

end World

end SushiGpt.ApplyPatch
