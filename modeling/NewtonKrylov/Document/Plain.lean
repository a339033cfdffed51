import NewtonKrylov.Document.Cursor

/-!
# Plain texts

A text without quotes ends before a colon that stands before a blank, before a hash sign after a
blank, and inside brackets before every sign of their syntax. It goes on over line breaks as long as
the lines are indented, and a line break in it stands for one blank.
-/

namespace NewtonKrylov

namespace Document

namespace Plain

/-- May a plain text start here? -/
def startsAt (inFlow : Bool) (c : Cursor) : Bool :=
  let a := c.peek
  let special := "-?:,[]\x7b\x7d#&*!|>'\"%@".toList.contains a || a == '\x60'
  (!isBoundary a && !special)
    || (!isBoundary (c.ahead 1) && (a == '-' || (!inFlow && (a == '?' || a == ':'))))

/-- Does a run of a plain text end here? -/
def endsAt (inFlow : Bool) (a following : Char) : Bool :=
  isBoundary a
    || (a == ':' && (isBoundary following || (inFlow && ",[]\x7b\x7d".toList.contains following)))
    || (inFlow && ",?[]\x7b\x7d".toList.contains a)

/-- The number of characters up to the end of a run. -/
def runLength (inFlow : Bool) : List Char → Nat
  | [] => 0
  | a :: rest =>
    if endsAt inFlow a (rest.headD '\x00') then 0 else runLength inFlow rest + 1

/-- Skip the empty lines after a line break, unless a document marker starts one of them. -/
def emptyLines : Nat → Cursor → Option (List Char) × Cursor
  | 0, c => (some [], c)
  | n + 1, c =>
    if c.peek = ' ' then emptyLines n c.next
    else if isBreak c.peek then
      let (b, c) := c.takeBreak
      if c.atMarker then (none, c)
      else
        let (more, c) := emptyLines n c
        (more.map (b ++ ·), c)
    else (some [], c)

/-- The blanks and line breaks after a run. The last component tells whether there was a line
break. -/
def gap (c : Cursor) : List Char × Cursor × Bool :=
  let (spaces, c) := c.takeWhile (· = ' ')
  if isBreak c.peek then
    let (b, c) := c.takeBreak
    if c.atMarker then ([], c, true)
    else
      let (breaks, c) := emptyLines (c.rest.length + 1) c
      match breaks with
      | none => ([], c, true)
      | some bs => (Cursor.foldBreaks b bs, c, true)
  else (spaces, c, false)

/-- Read runs and the gaps between them, from a line indented by at least `indent`. The last
component tells whether the text ended after a line break. -/
def runs (inFlow : Bool) (indent : Nat) (before : List Char) :
    Nat → Cursor → List Char × Cursor × Bool
  | 0, c => ([], c, false)
  | n + 1, c =>
    let length := if c.peek = '#' then 0 else runLength inFlow c.rest
    if length = 0 then ([], c, false)
    else
      let run := before ++ c.rest.take length
      let (between, c, broken) := gap (c.advance length)
      if between.isEmpty || c.peek = '#' || (!inFlow && c.column < indent) then (run, c, broken)
      else
        let (more, c, last) := runs inFlow indent between n c
        (run ++ more, c, if more.isEmpty then broken else last)

/-- Read a plain text. -/
def read (inFlow : Bool) (indent : Nat) (c : Cursor) : String × Cursor × Bool :=
  let (text, c, broken) := runs inFlow indent [] (c.rest.length + 1) c
  (String.ofList text, c, broken)

end Plain

end Document

end NewtonKrylov
