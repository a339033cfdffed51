import NewtonKrylov.Document.Plain
import NewtonKrylov.Document.Quoted

/-!
# The tokens of a document

The structure of a document is given by its indentation and, inside brackets, by punctuation. The
tokens make both explicit: an indented collection starts with a token and ends with another.

Whether a text is a key is known only at the colon after it. So the place of each possible key is
remembered, one for each depth of brackets, and the tokens that make it a key are inserted there
later. A possible key that is the first thing at its indentation has to become one.

Anchors, aliases, tags, directives and block texts are not part of configuration documents, and a
document with one of them is malformed.

Tokens are read as they are asked for, and one that may turn out to be a key is not given out before
this is settled. So where the text cannot be read any further, `scan` gives the tokens that were
settled before the last reading and the fault in place of the next one.

A text is also examined in pieces as it is asked for. A piece with a character that is not allowed
cannot be read, and what comes before it is a text without an end.
-/

namespace NewtonKrylov

namespace Document

/-- A token. -/
inductive Token where
  | documentStart
  | documentEnd
  | blockSequenceStart
  | blockMappingStart
  | blockEnd
  | flowSequenceStart
  | flowSequenceEnd
  | flowMappingStart
  | flowMappingEnd
  | blockEntry
  | flowEntry
  | key
  | value
  | plain (text : String)
  /-- A text in quotes, by its code numbers. -/
  | quoted (codes : List Nat)
  | fault (cause : Fault)
  deriving Repr, DecidableEq

namespace Token

/-- A place where a key may have started. -/
structure PossibleKey where
  depth : Nat
  /-- The number of tokens before it. -/
  position : Nat
  /-- Must it become a key? -/
  required : Bool
  cursor : Cursor

/-- Where the reading of tokens is. -/
structure State where
  cursor : Cursor
  tokens : List Token := []
  depth : Nat := 0
  /-- The indentations of the open collections, the innermost first. -/
  indents : List Nat := []
  /-- May a key start here? -/
  keyAllowed : Bool := true
  keys : List PossibleKey := []
  /-- The number of tokens that were settled before the present reading. -/
  known : Nat := 0

/-- A reading that may fail. -/
abbrev Reader := ExceptT Fault (StateM State)

/-- Go on from a place. -/
def moveTo (c : Cursor) : Reader Unit := modify fun s => { s with cursor := c }

/-- Add a token at the end. -/
def emit (t : Token) : Reader Unit := modify fun s => { s with tokens := s.tokens ++ [t] }

/-- Say whether a key may start here. -/
def allowKey (allowed : Bool) : Reader Unit := modify fun s => { s with keyAllowed := allowed }

/-- The text is malformed. -/
def malformed {α : Type} : Reader α := throw .malformed

/-! ### Possible keys -/

/-- Is a key too far back to be one? -/
def PossibleKey.isStale (k : PossibleKey) (c : Cursor) : Bool :=
  k.cursor.line != c.line || c.index - k.cursor.index > 1024

/-- Drop the possible keys that are too far back. -/
def dropStaleKeys : Reader Unit := do
  let s ← get
  let (stale, fresh) := s.keys.partition (·.isStale s.cursor)
  if stale.any (·.required) then malformed
  set { s with keys := fresh }

/-- Drop the possible key at the present depth. -/
def dropKey : Reader Unit := do
  let s ← get
  let (here, others) := s.keys.partition (·.depth = s.depth)
  if here.any (·.required) then malformed
  set { s with keys := others }

/-- A key may start here. -/
def saveKey : Reader Unit := do
  let s ← get
  if s.keyAllowed then
    dropKey
    let required := s.depth = 0 && s.indents.head? == some s.cursor.column
    modify fun s =>
      { s with keys := s.keys ++ [⟨s.depth, s.tokens.length, required, s.cursor⟩] }

/-! ### Indentation -/

/-- Open a collection at a column, if it is indented further than the present one. -/
def indentTo (column : Nat) : Reader Bool := do
  let s ← get
  let deeper := match s.indents with
    | [] => true
    | i :: _ => i < column
  if deeper then set { s with indents := column :: s.indents }
  return deeper

/-- Close the collections that are indented further than a test allows. -/
def closeWhile (p : Nat → Bool) : Reader Unit := modify fun s =>
  if s.depth ≠ 0 then s
  else
    { s with
      tokens := s.tokens ++ (s.indents.takeWhile p).map fun _ => blockEnd
      indents := s.indents.dropWhile p }

/-! ### Reading -/

/-- Skip blanks, comments and line breaks. After a line break a key may start. -/
def skipToToken : Nat → Reader Unit
  | 0 => pure ()
  | n + 1 => do
    let s ← get
    let c := s.cursor.skipWhile (· = ' ')
    let c := if c.peek = '#' then c.skipWhile (!isBreakOrEnd ·) else c
    if isBreak c.peek then
      moveTo (c.takeBreak).2
      if s.depth = 0 then allowKey true
      skipToToken n
    else moveTo c

/-- Read a document marker. -/
def readMarker (t : Token) : Reader Unit := do
  closeWhile fun _ => true
  dropKey
  allowKey false
  let s ← get
  moveTo (s.cursor.advance 3)
  emit t

/-- Read an opening bracket. -/
def readOpening (t : Token) : Reader Unit := do
  saveKey
  modify fun s => { s with depth := s.depth + 1, keyAllowed := true, cursor := s.cursor.next }
  emit t

/-- Read a closing bracket. -/
def readClosing (t : Token) : Reader Unit := do
  dropKey
  modify fun s => { s with depth := s.depth - 1, keyAllowed := false, cursor := s.cursor.next }
  emit t

/-- Read a sign that opens an indented collection where it is the first of its kind. -/
def readIndicator (opening t : Token) (allowedAfter : Bool) : Reader Unit := do
  let s ← get
  if s.depth = 0 then
    if !s.keyAllowed then malformed
    if ← indentTo s.cursor.column then emit opening
  allowKey allowedAfter
  dropKey
  modify fun s => { s with cursor := s.cursor.next }
  emit t

/-- Make the possible key at the present depth a key. -/
def insertKey (k : PossibleKey) : Reader Unit := do
  modify fun s =>
    { s with
      keys := s.keys.filter (·.depth ≠ s.depth)
      tokens := s.tokens.insertIdx k.position key }
  if (← get).depth = 0 then
    if ← indentTo k.cursor.column then
      modify fun s => { s with tokens := s.tokens.insertIdx k.position blockMappingStart }
  allowKey false

/-- Read the colon before a value. -/
def readValue : Reader Unit := do
  let s ← get
  match s.keys.find? (·.depth = s.depth) with
  | some k =>
    insertKey k
    modify fun s => { s with cursor := s.cursor.next }
    emit value
  | none => readIndicator blockMappingStart value (s.depth = 0)

/-- Read a text in quotes. -/
def readQuoted : Reader Unit := do
  saveKey
  allowKey false
  let s ← get
  let (codes, c) ← Quoted.read s.cursor
  moveTo c
  emit (quoted codes)

/-- Read a text without quotes. -/
def readPlain : Reader Unit := do
  saveKey
  let s ← get
  let indent := match s.indents with
    | [] => 0
    | i :: _ => i + 1
  let (text, c, broken) := Plain.read (s.depth != 0) indent s.cursor
  moveTo c
  allowKey broken
  emit (plain text)

/-- Read the next token. -/
def readToken : Reader Unit := do
  let s ← get
  let c := s.cursor
  let a := c.peek
  let inFlow := s.depth != 0
  let beforeBoundary := isBoundary (c.ahead 1)
  if c.column = 0 && c.atMarker then
    readMarker (if a = '-' then documentStart else documentEnd)
  else if a = '[' then readOpening flowSequenceStart
  else if a = '\x7b' then readOpening flowMappingStart
  else if a = ']' then readClosing flowSequenceEnd
  else if a = '\x7d' then readClosing flowMappingEnd
  else if a = ',' then
    allowKey true
    dropKey
    moveTo c.next
    emit flowEntry
  else if a = '-' && beforeBoundary then readIndicator blockSequenceStart blockEntry true
  else if a = '?' && (inFlow || beforeBoundary) then
    readIndicator blockMappingStart key (!inFlow)
  else if a = ':' && (inFlow || beforeBoundary) then readValue
  else if a = '\'' || a = '"' then readQuoted
  else if Plain.startsAt inFlow c then readPlain
  else malformed

/-- The number of tokens that stay what they are whatever becomes of the possible keys. -/
def settled (s : State) : Nat := (s.keys.map (·.position)).foldl min s.tokens.length

/-- Only a text that is finished can be left at its end. -/
def requireRest (finished : Bool) : Reader Unit := do
  if !finished && (← get).cursor.rest.isEmpty then malformed

/-- Read tokens up to the end of the text. -/
def readAll (finished : Bool) : Nat → Reader Unit
  | 0 => malformed
  | n + 1 => do
    dropStaleKeys
    modify fun s => { s with known := settled s }
    skipToToken n
    requireRest finished
    dropStaleKeys
    let s ← get
    closeWhile (s.cursor.column < ·)
    if s.cursor.rest.isEmpty then
      closeWhile fun _ => true
      dropKey
    else
      readToken
      requireRest finished
      readAll finished n

/-- May a document contain a character? -/
def isAllowed (c : Char) : Bool :=
  let n := c.toNat
  c = '\t' || c = '\n' || c = '\r' || (0x20 ≤ n && n ≤ 0x7e) || n = 0x85
    || (0xa0 ≤ n && n ≤ 0xfffd) || 0x10000 ≤ n

/-- The number of characters in a piece of a text. -/
def pieceLength : Nat := 4096

/-- The number of characters that can be read: all of them, or those in the pieces before the first
one with a character that is not allowed. The first two pieces are examined together. -/
def readable (cs : List Char) : Nat :=
  let allowed := (cs.takeWhile isAllowed).length
  if allowed = cs.length then allowed
  else if allowed < 2 * pieceLength then 0
  else allowed / pieceLength * pieceLength

/-- The tokens of a text. -/
def scan (text : String) : List Token :=
  let all := text.toList
  let cs := all.take (readable all)
  let start := if cs.head? = some '\uFEFF' then cs.drop 1 else cs
  let reading := readAll (cs.length = all.length) (cs.length + 2)
  let (result, s) := reading.run { cursor := { rest := start } }
  match result with
  | .ok () => s.tokens
  | .error cause => s.tokens.take s.known ++ [fault cause]

end Token

end Document

end NewtonKrylov
