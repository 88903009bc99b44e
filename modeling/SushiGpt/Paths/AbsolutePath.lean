/-
Absolute paths on a POSIX host: `utils/absolute-path`.

An `AbsolutePathBuf` is normalised when it is made: the text is split into components,
`.` disappears, `..` takes the component before it away and stops at the root.  What
is left is the list of names from the root, and that list is the model's path.  Two
paths are equal as `Path`s exactly when these lists are.

A path is bytes on a POSIX host, so its text is read one character per byte.
-/
import SushiGpt.Lib.Text
import Mathlib.Data.List.Lex
import Mathlib.Data.Char

namespace SushiGpt

/-- What one component of a path can be. -/
def isFileName (t : Text) : Bool := t ≠ [] && !t.contains '/' && t ≠ ['.'] && t ≠ ['.', '.']

/-- The name of a file in its directory. -/
structure FileName where
  text : Text
  valid : isFileName text = true
  deriving DecidableEq

/-- Names are ordered by their bytes, and paths name by name, as `Path` compares them. -/
instance : LinearOrder FileName :=
  LinearOrder.lift' FileName.text fun a b h => by cases a; cases b; cases h; rfl

/-- A name, if the text is one: neither empty nor `.` nor `..`, and without a slash. -/
def FileName.ofText? (t : Text) : Option FileName :=
  if h : isFileName t = true then some ⟨t, h⟩ else none

/-- A normalised absolute path: the names from the root down. -/
abbrev AbsolutePath := List FileName

/-- What path parsing reads from the process: its directory and the user's home. -/
structure PathEnv where
  currentDir : Option Text
  homeDirectory : Option Text

namespace AbsolutePath

/-- One component of a path text, pushed onto the names before it. -/
def pushComponent (names : AbsolutePath) (component : Text) : AbsolutePath :=
  if component = ['.', '.'] then names.dropLast
  else names ++ (FileName.ofText? component).toList

/-- `normalize_path` of a text read from `base`. -/
def normalizeFrom (base : AbsolutePath) (path : Text) : AbsolutePath :=
  (Text.split '/' path).foldl pushComponent base

def isAbsolute (path : Text) : Bool := path.head? == some '/'

/-- A leading `~` stands for the home directory, alone or before a slash. -/
def maybeExpandHomeDirectory (env : PathEnv) (path : Text) : Text :=
  match path, env.homeDirectory with
  | ['~'], some home => home
  | '~' :: '/' :: rest, some home => home ++ '/' :: rest.dropWhile (· == '/')
  | path, _ => path

def resolvePathAgainstBase (env : PathEnv) (path : Text) (base : AbsolutePath) : AbsolutePath :=
  let expanded := maybeExpandHomeDirectory env path
  normalizeFrom (if isAbsolute expanded then [] else base) expanded

/-- `join`: a relative text is read from the path. -/
def join (env : PathEnv) (path : AbsolutePath) (text : Text) : AbsolutePath :=
  resolvePathAgainstBase env text path

/-- `from_absolute_path`: a relative text is read from the process's directory, which
is the only thing that can fail. -/
def fromAbsolutePath (env : PathEnv) (path : Text) : Option AbsolutePath :=
  let expanded := maybeExpandHomeDirectory env path
  if isAbsolute expanded then some (normalizeFrom [] expanded)
  else env.currentDir.map fun dir => normalizeFrom (normalizeFrom [] dir) expanded

/-- `from_absolute_path_checked`: a relative text is refused. -/
def fromAbsolutePathChecked (env : PathEnv) (path : Text) : Option AbsolutePath :=
  let expanded := maybeExpandHomeDirectory env path
  if isAbsolute expanded then some (normalizeFrom [] expanded) else none

def toText : AbsolutePath → Text
  | [] => ['/']
  | names => names.flatMap fun name => '/' :: name.text

/-- The text of a relative path, as `strip_prefix` leaves one. -/
def relativeText (names : List FileName) : Text := Text.join '/' (names.map FileName.text)

/-- `Path::file_name`: the root has none. -/
def fileName (path : AbsolutePath) : Option Text := path.getLast?.map FileName.text

end AbsolutePath

end SushiGpt
