/-
File URIs: `utils/path-uri`.

A `PathUri` is a `file:` URL.  Nearly all of what the code asks of one is lexical: the
path is cut at its slashes into percent-encoded segments, and questions of containment
compare the decoded segments.  A native path that has no URL of its own is kept as its
bytes in an opaque fallback URI, which contains only itself.

What convention a URI follows is read off its shape: a host or a drive-shaped first
segment make it a Windows path, everything else is POSIX.

Segments are texts of bytes, one character each.  The spelling of segments and the shape
of a file URL belong to the `urlencoding` and `url` crates; they are written out here, since
containment is a statement about them.  A few more things come from elsewhere and
are parameters: how the `url` crate appends a segment to a path, the base64 of a
fallback URI's bytes, the native spelling of a URI (which only glob patterns are built
from), and what is particular to Windows paths.
-/
import SushiGpt.Lib.Percent
import SushiGpt.Paths.AbsolutePath

namespace SushiGpt

inductive PathConvention where
  | posix
  | windows
  deriving DecidableEq

/-- A `file:` URL by its host and the segments of its path, or native path bytes.  A URL
whose path decodes to a NUL byte is refused by every constructor of the source. -/
inductive PathUri where
  | url (host : Option Text) (segments : List Text)
      (valid : ∀ s ∈ segments, '\x00' ∉ Percent.decode s)
  | fallback (bytes : Text)
  deriving DecidableEq

inductive PathUriParseError where
  | invalidFileUriPath (path : Text)
  | joinPathMustBeDescendant (path : Text)

/-- What the paths take from elsewhere. -/
structure UrlOps where
  /-- `PathSegmentsMut::push`: the path with one more segment. -/
  push : List Text → Text → List Text
  /-- URL-safe base64 without padding. -/
  base64 : Text → Text
  /-- `inferred_native_path_string`. -/
  nativeString : PathUri → Text
  /-- `validate_glob_directory`, with the text of its error. -/
  validateGlobDirectory : PathUri → PathConvention → Except Text Unit
  /-- `PathUri::join` on a base that follows the Windows convention. -/
  windowsJoin : PathUri → Text → Except PathUriParseError PathUri
  /-- `from_absolute_native_path` on Windows path text. -/
  fromAbsoluteWindowsPath : Text → Option PathUri

/-! ### Segments -/

/-- Bytes that a path segment of a `file:` URL spells out: controls, bytes outside
ASCII, and the twelve that have a meaning in a URL. -/
def reservedInSegment (c : Char) : Bool :=
  c.toNat < 0x20 || 0x7F ≤ c.toNat ||
    [0x20, 0x22, 0x23, 0x25, 0x2F, 0x3C, 0x3E, 0x3F, 0x5C, 0x60, 0x7B, 0x7D].contains c.toNat

/-- A path segment that names a drive, with its colon as it is or spelled out. -/
def isWindowsDriveUriSegment : Text → Bool
  | [drive, ':'] => drive.isAlpha
  | [drive, '%', '3', a] => drive.isAlpha && (a == 'A' || a == 'a')
  | _ => false

/-- The segments that count: a doubled or trailing slash leaves an empty one behind. -/
def nonEmptySegments (segments : List Text) : List Text := segments.filter fun s => !s.isEmpty

/-- A path that ends in a slash without it.  The path `/` has one empty segment. -/
def popIfEmpty (segments : List Text) : List Text :=
  if segments ≠ [[]] ∧ segments.getLast? = some [] then segments.dropLast else segments

def popSegment (segments : List Text) : List Text :=
  if segments.length ≤ 1 then [[]] else segments.dropLast

/-- A lower-case drive letter in front becomes an upper-case one. -/
def normalizeDriveLetter : List Text → List Text
  | [] => []
  | [] :: rest => [] :: normalizeDriveLetter rest
  | (c :: cs) :: rest =>
    if isWindowsDriveUriSegment (c :: cs) then (c.toUpper :: cs) :: rest else (c :: cs) :: rest

/-! ### Well-formed UTF-8

A decoded segment is shown as text only if its bytes are UTF-8. -/

def isContinuation (c : Char) : Bool := 0x80 ≤ c.toNat && c.toNat < 0xC0

/-- The bytes a second byte may have after the given first one of three or four. -/
def secondByteOk (a b : Char) : Bool :=
  isContinuation b &&
    (a.toNat != 0xE0 || 0xA0 ≤ b.toNat) && (a.toNat != 0xED || b.toNat < 0xA0) &&
    (a.toNat != 0xF0 || 0x90 ≤ b.toNat) && (a.toNat != 0xF4 || b.toNat < 0x90)

def isUtf8 : Text → Bool
  | [] => true
  | a :: rest =>
    if a.toNat < 0x80 then isUtf8 rest
    else match rest with
      | [] => false
      | b :: rest =>
        if 0xC2 ≤ a.toNat && a.toNat < 0xE0 then isContinuation b && isUtf8 rest
        else match rest with
          | [] => false
          | c :: rest =>
            if 0xE0 ≤ a.toNat && a.toNat < 0xF0 then
              secondByteOk a b && isContinuation c && isUtf8 rest
            else match rest with
              | [] => false
              | d :: rest =>
                0xF0 ≤ a.toNat && a.toNat < 0xF5 && secondByteOk a b &&
                  isContinuation c && isContinuation d && isUtf8 rest

/-- `decode_uri_path`: the decoded text, or the spelling when it is not UTF-8. -/
def decodeUriPath (segment : Text) : Text :=
  let decoded := Percent.decode segment
  if isUtf8 decoded then decoded else segment

def eqIgnoreAsciiCase (s t : Text) : Bool := s.map Char.toLower == t.map Char.toLower

namespace PathConvention

def homeRelativeSuffix (convention : PathConvention) : Text → Option Text
  | '~' :: suffix =>
    if suffix = [] ∨ suffix.head? = some '/' ∨
        (convention = .windows ∧ suffix.head? = some '\\') then some suffix
    else none
  | _ => none

def isSeparator (convention : PathConvention) (c : Char) : Bool :=
  c == '/' || (convention == .windows && c == '\\')

/-- Native path text cut at its separators. -/
def pathSegments (convention : PathConvention) (path : Text) : List Text :=
  path.splitOnP convention.isSeparator

end PathConvention

namespace PathUri

/-! ### What a URI looks like -/

def urlString (host : Option Text) (segments : List Text) : Text :=
  "file://".toList ++ host.getD [] ++ '/' :: Text.join '/' segments

/-- The canonical string, which is what a URI displays as. -/
def toText (u : UrlOps) : PathUri → Text
  | url host segments _ => urlString host segments
  | fallback bytes => "file:///%00/bad/path/".toList ++ u.base64 bytes

/-- `try_from` a URL: a NUL is refused and the drive letter normalised. -/
def tryFrom (host : Option Text) (segments : List Text) : Except PathUriParseError PathUri :=
  let normalized := if host.isSome then segments else normalizeDriveLetter segments
  if h : ∀ s ∈ normalized, '\x00' ∉ Percent.decode s then .ok (.url host normalized h)
  else .error (.invalidFileUriPath (urlString host segments))

/-- The convention of a fallback URI's bytes: an absolute POSIX path, or the UTF-16 of an
absolute Windows path. -/
def inferOpaquePathConvention (bytes : Text) : Option PathConvention :=
  match bytes with
  | '/' :: _ => some .posix
  | a :: b :: c :: d :: _ =>
    if bytes.length % 2 = 0 ∧ b = '\x00' ∧ d = '\x00' ∧
        ((a.isAlpha ∧ c = ':') ∨ (a = '\\' ∧ c = '\\')) then some .windows
    else none
  | _ => none

def inferPathConvention : PathUri → Option PathConvention
  | fallback bytes => inferOpaquePathConvention bytes
  | url (some _) _ _ => some .windows
  | url none segments _ =>
    match nonEmptySegments segments with
    | first :: _ => if isWindowsDriveUriSegment first then some .windows else some .posix
    | [] => some .posix

def isOpaque : PathUri → Bool
  | fallback _ => true
  | url .. => false

def hostStr : PathUri → Option Text
  | fallback _ => none
  | url host _ _ => host

/-- The segments containment compares, unless one hides a separator. -/
def containmentPathSegments (segments : List Text) (convention : PathConvention) :
    Option (List Text) :=
  if (nonEmptySegments segments).any fun s => (Percent.decode s).any convention.isSeparator
  then none
  else some (nonEmptySegments segments)

def lexicalDepth (uri : PathUri) : Option Nat :=
  match uri with
  | fallback _ => none
  | url _ segments _ => do
    let convention ← uri.inferPathConvention
    let segments ← containmentPathSegments segments convention
    pure segments.length

/-- The whole path decoded. -/
def decodedPathBytes (u : UrlOps) : PathUri → Text
  | fallback bytes => Percent.decode ("/%00/bad/path/".toList ++ u.base64 bytes)
  | url _ segments _ => segments.flatMap fun s => '/' :: Percent.decode s

/-- The decoded final segment, for display and comparison. -/
def basename : PathUri → Option Text
  | fallback _ => none
  | url _ segments _ => (nonEmptySegments segments).getLast?.map decodeUriPath

/-! ### Equality and containment -/

/-- What identifies a Windows path, up to the case of its letters. -/
def windowsIdentityPathBytes (uri : PathUri) : Option Text :=
  match uri with
  | fallback _ => none
  | url _ segments _ =>
    if uri.inferPathConvention ≠ some .windows ∨
        segments.any (fun s => (Percent.decode s).any PathConvention.windows.isSeparator)
    then none
    else some (segments.flatMap fun s => '/' :: Percent.decode s)

/-- `PartialEq`: the same URL, or Windows paths that differ in case only. -/
def same (uri other : PathUri) : Bool :=
  uri == other ||
    match uri.windowsIdentityPathBytes, other.windowsIdentityPathBytes with
    | some path, some otherPath =>
      uri.hostStr == other.hostStr && eqIgnoreAsciiCase path otherPath
    | _, _ => false

def nativeSegmentMatches (convention : PathConvention) (path base : Text) : Bool :=
  match convention with
  | .posix => Percent.decode path == Percent.decode base
  | .windows =>
    eqIgnoreAsciiCase path base || eqIgnoreAsciiCase (decodeUriPath path) (decodeUriPath base)

def nativePathSegmentsStartWith (path base : List Text) (convention : PathConvention) : Bool :=
  base.length ≤ path.length && (path.zip base).all fun (p, b) => nativeSegmentMatches convention p b

def startsWith (uri base : PathUri) : Bool :=
  uri.same base ||
    match uri, base with
    | url host segments _, url baseHost baseSegments _ =>
      host == baseHost && uri.inferPathConvention == base.inferPathConvention &&
        let convention := uri.inferPathConvention.getD .posix
        match containmentPathSegments segments convention,
            containmentPathSegments baseSegments convention with
        | some path, some base => nativePathSegmentsStartWith path base convention
        | _, _ => false
    | _, _ => false

/-- Whether one of the two trees contains the other, where that can be told. -/
def overlaps (uri other : PathUri) : Option Bool :=
  if uri.same other then some true
  else if uri.lexicalDepth.isNone ∨ other.lexicalDepth.isNone then none
  else some (uri.startsWith other || other.startsWith uri)

/-! ### Parents -/

theorem popSegment_valid {gs : List Text} (v : ∀ s ∈ gs, '\x00' ∉ Percent.decode s) :
    ∀ s ∈ popSegment (popIfEmpty gs), '\x00' ∉ Percent.decode s := by
  intro s hs
  have hsub : ∀ t ∈ popIfEmpty gs, t ∈ gs := by
    intro t ht
    unfold popIfEmpty at ht
    split at ht
    · exact List.mem_of_mem_dropLast ht
    · exact ht
  unfold popSegment at hs
  split at hs
  · rw [List.mem_singleton] at hs
    subst hs
    simp [Percent.decode]
  · exact v s (hsub s (List.mem_of_mem_dropLast hs))

/-- A drive or a share stays: its segment is the root of a Windows path. -/
def parent (uri : PathUri) : Option PathUri :=
  match uri with
  | fallback _ => none
  | url host segments valid => do
    let convention ← uri.inferPathConvention
    let anchorDepth := if convention = .windows then 1 else 0
    if (nonEmptySegments segments).length ≤ anchorDepth then none
    else some (url host (popSegment (popIfEmpty segments)) (popSegment_valid valid))

/-- The last of at most `fuel` steps through the parents. -/
def lastAncestorFrom : Nat → PathUri → PathUri
  | 0, uri => uri
  | fuel + 1, uri =>
    match uri.parent with
    | none => uri
    | some up => lastAncestorFrom fuel up

/-- `ancestors().last()`.  Every step up takes a segment away. -/
def lastAncestor (uri : PathUri) : PathUri :=
  match uri with
  | fallback _ => uri
  | url _ segments _ => lastAncestorFrom (segments.length + 1) uri

/-! ### Joins -/

/-- The segments of an absolute POSIX path in one pass: the ones kept, and whether the
text ended in a slash. -/
def normalizeSegment (state : List Text × Bool) (segment : Text) : List Text × Bool :=
  if segment = [] then (state.1, true)
  else if segment = ['.'] then (state.1, false)
  else if segment = ['.', '.'] then (state.1.dropLast, false)
  else (state.1 ++ [segment], false)

/-- `path_uri_from_segments` for POSIX. -/
def pathUriFromSegments (u : UrlOps) (segments : List Text) : Option PathUri :=
  let state := segments.foldl normalizeSegment ([], false)
  let kept := if state.2 then state.1 ++ [[]] else state.1
  (tryFrom none (kept.foldl u.push [[]])).toOption

/-- Absolute POSIX path text.  A path whose URL would look like a Windows one keeps its
bytes instead. -/
def fromAbsolutePosixPath (u : UrlOps) (path : Text) : Option PathUri :=
  match path with
  | '/' :: rest => do
    let uri ← if '\x00' ∈ rest then some (fallback path)
      else pathUriFromSegments u (Text.split '/' rest)
    if uri.hostStr ≠ some [] ∧ uri.inferPathConvention = some .posix then some uri
    else some (fallback path)
  | _ => none

def fromAbsoluteNativePath (u : UrlOps) (path : Text) : PathConvention → Option PathUri
  | .posix => fromAbsolutePosixPath u path
  | .windows => u.fromAbsoluteWindowsPath path

/-- One component of a relative POSIX path.  The depth says how often `..` may still go
up. -/
def joinComponent (u : UrlOps) (state : List Text × Nat) (component : Text) : List Text × Nat :=
  if component = [] ∨ component = ['.'] then state
  else if component = ['.', '.'] then
    if 0 < state.2 then (popSegment state.1, state.2 - 1) else state
  else (u.push state.1 component, state.2 + 1)

/-- Native path text read from the URI: absolute text replaces the path, relative text is
appended to it. -/
def join (u : UrlOps) (base : PathUri) (path : Text) : Except PathUriParseError PathUri :=
  if '\x00' ∈ path then .error (.invalidFileUriPath path)
  else if path = [] then .ok base
  else match base.inferPathConvention with
    | none => .error (.invalidFileUriPath (base.toText u))
    | some .windows => u.windowsJoin base path
    | some .posix =>
      match fromAbsolutePosixPath u path, base with
      | some absolute, _ => .ok absolute
      | none, fallback _ => .error (.invalidFileUriPath (base.toText u))
      | none, url host segments _ =>
        let start := (popIfEmpty segments, (nonEmptySegments segments).length)
        tryFrom host ((Text.split '/' path).foldl (joinComponent u) start).1

/-- A join that must stay at or below the base. -/
def joinDescendant (u : UrlOps) (base : PathUri) (path : Text) :
    Except PathUriParseError PathUri := do
  let descendant ← base.join u path
  let windows := base.inferPathConvention = some .windows
  if path.head? = some '/' ∨
      (windows ∧ (path.head? = some '\\' ∨
        (PathConvention.windows.pathSegments path).any fun s => s.contains ':')) ∨
      !descendant.startsWith base then
    .error (.joinPathMustBeDescendant path)
  else pure descendant

/-! ### Native paths on a POSIX host -/

/-- `Url::from_file_path`. -/
def fileUrlSegments (path : AbsolutePath) : List Text :=
  match path with
  | [] => [[]]
  | names => names.map fun name => Percent.encode reservedInSegment name.text

/-- The URI of a native path.  Its bytes stand in where a URL would be read as something
else. -/
def fromAbsPath (path : AbsolutePath) : PathUri :=
  match tryFrom none (fileUrlSegments path) with
  | .ok uri => if uri.inferPathConvention = some .posix then uri else fallback path.toText
  | .error _ => fallback path.toText

/-- The native path of a URI, when it has one on this host. -/
def toAbsPath (env : PathEnv) (uri : PathUri) : Option AbsolutePath :=
  if uri.inferPathConvention ≠ some .posix then none
  else match uri with
    | fallback bytes => do
      let path ← AbsolutePath.fromAbsolutePathChecked env bytes
      if (fromAbsPath path).same uri then some path else none
    | url _ segments _ =>
      AbsolutePath.fromAbsolutePathChecked env (segments.flatMap fun s => '/' :: Percent.decode s)

end PathUri

end SushiGpt
