/-
How an update hunk rewrites one file.

This is `apply-patch/src/file_update.rs` with the two helpers it stands on,
`seek_sequence.rs` and `text_file.rs`.  A hunk's chunks are located one after the
other in the lines of the file, each location becomes a replacement, and the
replacements rewrite the lines.  The two update modes differ in what a line is:
`normalizeToLf` splits at `\n` and joins with `\n` again, while
`preserveLineEndings` keeps the ending of every line it does not replace.
-/
import SushiGpt.Lib.Text
import Mathlib.Data.List.Sort

namespace SushiGpt.ApplyPatch

/-- How an update reconstructs the file once its chunks are located. -/
inductive UpdateMode where
  | normalizeToLf
  | preserveLineEndings
  deriving DecidableEq

structure UpdateFileChunk where
  changeContext : Option Text
  oldLines : List Text
  newLines : List Text
  /-- Pairs of positions in `oldLines` and `newLines` parsed as context lines. -/
  contextLineIndices : List (Nat × Nat)
  isEndOfFile : Bool

/-- A replacement: where it starts, how many lines it covers, what it puts there. -/
abbrev Replacement := Nat × Nat × List Text

/-! ### Locating a sequence of lines -/

/-- The typographic characters the last pass folds onto their ASCII spelling. -/
def normaliseChar (c : Char) : Char :=
  let n := c.toNat
  if (0x2010 ≤ n && n ≤ 0x2015) || n == 0x2212 then '-'
  else if 0x2018 ≤ n && n ≤ 0x201B then Char.ofNat 39
  else if 0x201C ≤ n && n ≤ 0x201F then '"'
  else if n == 0xA0 || (0x2002 ≤ n && n ≤ 0x200A) || n == 0x202F || n == 0x205F ||
      n == 0x3000 then ' '
  else c

def normalise (line : Text) : Text := (Text.trim line).map normaliseChar

/-- Whether `pattern` stands at line `i`, both read through `view`. -/
def matchesAt (view : Text → Text) (lines pattern : List Text) (i : Nat) : Bool :=
  ((lines.drop i).take pattern.length).map view == pattern.map view

/-- The first position from `first` to `last` at which `pattern` stands. -/
def findMatch (view : Text → Text) (lines pattern : List Text) (first last : Nat) : Option Nat :=
  (List.range' first (last + 1 - first)).find? (matchesAt view lines pattern)

/-- The passes of the search, from the strictest reading of a line to the laxest. -/
def seekViews : List (Text → Text) := [id, Text.trimEnd, Text.trim, normalise]

def seekSequence (lines pattern : List Text) (start : Nat) (eof : Bool)
    (mode : UpdateMode) : Option Nat :=
  if pattern.isEmpty then some start
  else if lines.length < pattern.length then none
  else
    let searchStart :=
      if eof then
        let eofStart := lines.length - pattern.length
        match mode with
        | .normalizeToLf => eofStart
        | .preserveLineEndings => max eofStart start
      else start
    seekViews.findSome? fun view =>
      findMatch view lines pattern searchStart (lines.length - pattern.length)

/-! ### From chunks to replacements -/

/-- The one error of this layer, with the message the caller reports. -/
structure ComputeReplacementsError where
  message : Text
  deriving DecidableEq

def contextNotFound (ctxLine path : Text) : ComputeReplacementsError :=
  ⟨"Failed to find context '".toList ++ ctxLine ++ "' in ".toList ++ path⟩

def linesNotFound (path : Text) (oldLines : List Text) : ComputeReplacementsError :=
  ⟨"Failed to find expected lines in ".toList ++ path ++ ":\n".toList ++ Text.join '\n' oldLines⟩

def endsWithEmpty (lines : List Text) : Bool := lines.getLast? == some []

/-- Where the lines of a chunk without old lines go. -/
def insertionIndex (originalLines : List Text) : UpdateMode → Nat
  | .normalizeToLf =>
    if endsWithEmpty originalLines then originalLines.length - 1 else originalLines.length
  | .preserveLineEndings => originalLines.length

/-- The replacement after the last context line of a located chunk, if any is left. -/
def lastReplacement (startIdx : Nat) (pattern newSlice : List Text) (oldStart newStart : Nat) :
    List Replacement :=
  if oldStart ≠ pattern.length ∨ newStart ≠ newSlice.length then
    [(startIdx + oldStart, pattern.length - oldStart, newSlice.drop newStart)]
  else []

/-- The loop over the context lines of a located chunk: everything between two
context lines is one replacement, and the context lines themselves stay. -/
def contextReplacements (startIdx : Nat) (pattern newSlice : List Text) :
    List (Nat × Nat) → Nat → Nat → List Replacement
  | [], oldStart, newStart => lastReplacement startIdx pattern newSlice oldStart newStart
  | (oldContext, newContext) :: rest, oldStart, newStart =>
    if pattern.length ≤ oldContext ∨ newSlice.length ≤ newContext then
      -- The trailing empty context line was taken off both sides: stop here.
      lastReplacement startIdx pattern newSlice oldStart newStart
    else
      let here :=
        if oldStart ≠ oldContext ∨ newStart ≠ newContext then
          [(startIdx + oldStart, oldContext - oldStart, (newSlice.take newContext).drop newStart)]
        else []
      here ++ contextReplacements startIdx pattern newSlice rest (oldContext + 1) (newContext + 1)

/-- The replacements a located chunk contributes. -/
def chunkReplacements (mode : UpdateMode) (chunk : UpdateFileChunk) (startIdx : Nat)
    (pattern newSlice : List Text) : List Replacement :=
  match mode with
  | .normalizeToLf => [(startIdx, pattern.length, newSlice)]
  | .preserveLineEndings =>
    contextReplacements startIdx pattern newSlice chunk.contextLineIndices 0 0

/-- The old lines of a chunk, located: first as they stand, then without the empty
last line that stands for the final newline of the file. -/
def locateChunk (originalLines : List Text) (chunk : UpdateFileChunk) (lineIndex : Nat)
    (mode : UpdateMode) : Option (Nat × List Text × List Text) :=
  match seekSequence originalLines chunk.oldLines lineIndex chunk.isEndOfFile mode with
  | some start => some (start, chunk.oldLines, chunk.newLines)
  | none =>
    if endsWithEmpty chunk.oldLines then
      let pattern := chunk.oldLines.dropLast
      let newSlice :=
        if endsWithEmpty chunk.newLines then chunk.newLines.dropLast else chunk.newLines
      (seekSequence originalLines pattern lineIndex chunk.isEndOfFile mode).map
        fun start => (start, pattern, newSlice)
    else none

/-- Where the search for a chunk's old lines starts, once its context is found. -/
def seekContext (originalLines : List Text) (path : Text) (chunk : UpdateFileChunk)
    (lineIndex : Nat) (mode : UpdateMode) : Except ComputeReplacementsError Nat :=
  match chunk.changeContext with
  | none => .ok lineIndex
  | some ctxLine =>
    match seekSequence originalLines [ctxLine] lineIndex false mode with
    | some idx => .ok (idx + 1)
    | none => .error (contextNotFound ctxLine path)

/-- The loop over the chunks.  `lineIndex` is where the next search starts. -/
def collectReplacements (originalLines : List Text) (path : Text) (mode : UpdateMode) :
    List UpdateFileChunk → Nat → Except ComputeReplacementsError (List Replacement)
  | [], _ => .ok []
  | chunk :: rest, lineIndex =>
    match seekContext originalLines path chunk lineIndex mode with
    | .error e => .error e
    | .ok lineIndex =>
      if chunk.oldLines.isEmpty then
        (collectReplacements originalLines path mode rest lineIndex).map
          ((insertionIndex originalLines mode, 0, chunk.newLines) :: ·)
      else
        match locateChunk originalLines chunk lineIndex mode with
        | none => .error (linesNotFound path chunk.oldLines)
        | some (start, pattern, newSlice) =>
          (collectReplacements originalLines path mode rest
            (start + pattern.length)).map
            (chunkReplacements mode chunk start pattern newSlice ++ ·)

/-- Replacements in source order.  The sort is stable, as `sort_by_key` is. -/
def sortReplacements (replacements : List Replacement) : List Replacement :=
  replacements.insertionSort fun a b => a.1 ≤ b.1

def computeReplacements (originalLines : List Text) (path : Text) (chunks : List UpdateFileChunk)
    (mode : UpdateMode) : Except ComputeReplacementsError (List Replacement) :=
  (collectReplacements originalLines path mode chunks 0).map sortReplacements

/-! ### Rewriting the lines, `normalizeToLf` -/

/-- One replacement: take the old lines out, put the new ones in. -/
def applyReplacement (lines : List Text) (r : Replacement) : List Text :=
  lines.take r.1 ++ r.2.2 ++ lines.drop (r.1 + r.2.1)

/-- The replacements are applied from the last to the first, so that none of them
shifts the positions of the ones still to come. -/
def applyReplacements (lines : List Text) (replacements : List Replacement) : List Text :=
  replacements.foldr (fun r acc => applyReplacement acc r) lines

def normalizedLines (contents : Text) : List Text :=
  let lines := Text.split '\n' contents
  if endsWithEmpty lines then lines.dropLast else lines

def joinNormalized (lines : List Text) : Text :=
  Text.join '\n' (if endsWithEmpty lines then lines else lines ++ [[]])

/-! ### Rewriting the lines, `preserveLineEndings` -/

inductive LineEnding where
  | lf
  | crLf
  | cr

def LineEnding.asText : LineEnding → Text
  | .lf => ['\n']
  | .crLf => ['\r', '\n']
  | .cr => ['\r']

structure SourceLine where
  text : Text
  ending : Option LineEnding

structure SourceFile where
  lines : List SourceLine
  preferredEnding : LineEnding

/-- The lines of the rest of a file whose current line has read `current` so far. -/
def parseLines : Text → Text → List SourceLine
  | [], current => if current.isEmpty then [] else [⟨current, none⟩]
  | '\r' :: '\n' :: rest, current => ⟨current, some .crLf⟩ :: parseLines rest []
  | '\r' :: rest, current => ⟨current, some .cr⟩ :: parseLines rest []
  | '\n' :: rest, current => ⟨current, some .lf⟩ :: parseLines rest []
  | c :: rest, current => parseLines rest (current ++ [c])

/-- The first ending of the file is the one inserted lines get; without one, LF. -/
def SourceFile.parse (contents : Text) : SourceFile :=
  let lines := parseLines contents []
  ⟨lines, (lines.findSome? SourceLine.ending).getD .lf⟩

def SourceFile.lineTexts (file : SourceFile) : List Text := file.lines.map SourceLine.text

/-- The single pass over the source lines: copy up to the replacement, skip what it
covers, put in its lines. -/
def spliceLines (preferred : LineEnding) :
    List Replacement → Nat → List SourceLine → List SourceLine
  | [], _, source => source
  | (start, oldLen, newSegment) :: rest, sourceIndex, source =>
    source.take (start - sourceIndex) ++
      newSegment.map (fun text => ⟨text, some preferred⟩) ++
      spliceLines preferred rest (start + oldLen) ((source.drop (start - sourceIndex)).drop oldLen)

def SourceFile.applyReplacements (file : SourceFile) (replacements : List Replacement) :
    SourceFile :=
  let lines := spliceLines file.preferredEnding replacements 0 file.lines
  { file with lines := lines.map fun line =>
      { line with ending := some (line.ending.getD file.preferredEnding) } }

def SourceLine.contents (line : SourceLine) : Text :=
  line.text ++ (line.ending.map LineEnding.asText).getD []

def SourceFile.intoContents (file : SourceFile) : Text :=
  file.lines.flatMap SourceLine.contents

/-! ### The new contents of a file -/

/-- What `derive_new_contents_from_chunks` computes from the text it has read. -/
def newContents (mode : UpdateMode) (path : Text) (chunks : List UpdateFileChunk)
    (original : Text) : Except ComputeReplacementsError Text :=
  match mode with
  | .normalizeToLf =>
    let lines := normalizedLines original
    (computeReplacements lines path chunks mode).map fun replacements =>
      joinNormalized (ApplyPatch.applyReplacements lines replacements)
  | .preserveLineEndings =>
    let file := SourceFile.parse original
    (computeReplacements file.lineTexts path chunks mode).map fun replacements =>
      (file.applyReplacements replacements).intoContents

end SushiGpt.ApplyPatch
