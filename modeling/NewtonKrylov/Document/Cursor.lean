/-!
# A place in a document

A `Cursor` is what is left of a text, with the position that the eye would give it: the line and the
column count from zero, and a line ends at a line break. Past the end of the text there is the
character NUL, which no document contains.
-/

namespace NewtonKrylov

namespace Document

/-- Does a character end a line? -/
def isBreak (c : Char) : Bool :=
  c = '\n' || c = '\r' || c = '\x85' || c = '\u2028' || c = '\u2029'

/-- Does a character end a line or the text? -/
def isBreakOrEnd (c : Char) : Bool := c = '\x00' || isBreak c

/-- Is a character blank, or does it end a line or the text? -/
def isBoundary (c : Char) : Bool := c = ' ' || c = '\t' || isBreakOrEnd c

/-- A place in a text. -/
structure Cursor where
  rest : List Char
  /-- The number of characters before the place. -/
  index : Nat := 0
  /-- The number of line breaks before the place. -/
  line : Nat := 0
  /-- The number of characters before the place on its line. -/
  column : Nat := 0

namespace Cursor

/-- The character at a distance from the place. -/
def ahead (c : Cursor) (k : Nat) : Char := c.rest.getD k '\x00'

/-- The character at the place. -/
def peek (c : Cursor) : Char := c.ahead 0

/-- Go on by one character. -/
def next (c : Cursor) : Cursor :=
  match c.rest with
  | [] => c
  | a :: rest =>
    if isBreak a && !(a == '\r' && rest.headD '\x00' == '\n') then
      ⟨rest, c.index + 1, c.line + 1, 0⟩
    else if a = '\uFEFF' then ⟨rest, c.index + 1, c.line, c.column⟩
    else ⟨rest, c.index + 1, c.line, c.column + 1⟩

/-- Go on by some characters. -/
def advance : Nat → Cursor → Cursor
  | 0, c => c
  | n + 1, c => advance n c.next

/-- The characters up to the first that fails a test, and the place of that one. -/
def takeWhile (p : Char → Bool) (c : Cursor) : List Char × Cursor :=
  let cs := c.rest.takeWhile p
  (cs, c.advance cs.length)

/-- Go on to the first character that fails a test. -/
def skipWhile (p : Char → Bool) (c : Cursor) : Cursor := (c.takeWhile p).2

/-- Read a line break, which counts as a newline unless it is a separator of its own kind. -/
def takeBreak (c : Cursor) : List Char × Cursor :=
  match c.rest with
  | '\r' :: '\n' :: _ => (['\n'], c.advance 2)
  | a :: _ =>
    if a = '\u2028' || a = '\u2029' then ([a], c.next)
    else if isBreak a then (['\n'], c.next)
    else ([], c)
  | [] => ([], c)

/-- Is there a marker of the start or of the end of a document? -/
def atMarker (c : Cursor) : Bool :=
  (c.rest.take 3 == ['-', '-', '-'] || c.rest.take 3 == ['.', '.', '.']) && isBoundary (c.ahead 3)

/-- What a line break and the empty lines after it mean in a text that goes on: a blank, or as many
newlines as there are empty lines. -/
def foldBreaks (first breaks : List Char) : List Char :=
  if first ≠ ['\n'] then first ++ breaks else if breaks.isEmpty then [' '] else breaks

end Cursor

end Document

end NewtonKrylov
