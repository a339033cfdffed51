import NewtonKrylov.Document.Cursor
import NewtonKrylov.Document.Fault

/-!
# Quoted texts

A text in single quotes is literal, and a quote in it is written twice. In double quotes a backslash
starts an escape sequence. In both, a line break together with the blanks around it stands for one
blank, and empty lines stand for newlines. A text that does not end, or in which a document marker
starts a line, is malformed.

An escape sequence may give the code number of a character in base sixteen. There are characters up
to a largest code number; beyond it, numbers of up to 31 bits are unreadable and larger ones too
large. The numbers of the halves of a character count as well, so that a quoted text is a list of
code numbers.
-/

namespace NewtonKrylov

namespace Document

namespace Quoted

/-- The characters that one letter after a backslash stands for. -/
def simpleEscape : Char → Option Char
  | '0' => some '\x00'
  | 'a' => some '\x07'
  | 'b' => some '\x08'
  | 't' => some '\t'
  | '\t' => some '\t'
  | 'n' => some '\n'
  | 'v' => some '\x0b'
  | 'f' => some '\x0c'
  | 'r' => some '\r'
  | 'e' => some '\x1b'
  | ' ' => some ' '
  | '"' => some '"'
  | '\\' => some '\\'
  | '/' => some '/'
  | 'N' => some '\x85'
  | '_' => some '\xa0'
  | 'L' => some '\u2028'
  | 'P' => some '\u2029'
  | _ => none

/-- The number of hexadecimal digits that a letter after a backslash announces. -/
def codeLength : Char → Option Nat
  | 'x' => some 2
  | 'u' => some 4
  | 'U' => some 8
  | _ => none

/-- The value of a hexadecimal digit. -/
def hexValue (c : Char) : Option Nat :=
  if c.isDigit then some (c.toNat - '0'.toNat)
  else if 'a' ≤ c ∧ c ≤ 'f' then some (c.toNat - 'a'.toNat + 10)
  else if 'A' ≤ c ∧ c ≤ 'F' then some (c.toNat - 'A'.toNat + 10)
  else none

/-- The number written by hexadecimal digits. -/
def hexNumber (cs : List Char) : Option Nat :=
  cs.foldl (fun n c => do return 16 * (← n) + (← hexValue c)) (some 0)

/-- A number, if it is a code number. -/
def code (n : Nat) : Except Fault Nat :=
  if n < 0x110000 then .ok n
  else if n < 0x80000000 then .error .unreadable
  else .error .tooLarge

/-- The code numbers of characters. -/
def codesOf (cs : List Char) : List Nat := cs.map Char.toNat

/-- Skip the blanks and line breaks at the start of lines, and collect the breaks. -/
def lineBreaks : Nat → Cursor → Except Fault (List Char × Cursor)
  | 0, _ => .error .malformed
  | n + 1, c =>
    if c.atMarker then .error .malformed
    else
      let c := c.skipWhile fun a => a = ' ' || a = '\t'
      if isBreak c.peek then do
        let (b, c) := c.takeBreak
        let (more, c) ← lineBreaks n c
        return (b ++ more, c)
      else .ok ([], c)

/-- Read blanks inside quotes, and what the line breaks among them stand for. -/
def blanks (c : Cursor) : Except Fault (List Char × Cursor) := do
  let (spaces, c) := c.takeWhile fun a => a = ' ' || a = '\t'
  if c.rest.isEmpty then throw .malformed
  else if isBreak c.peek then
    let (b, c) := c.takeBreak
    let (more, c) ← lineBreaks (c.rest.length + 1) c
    return (Cursor.foldBreaks b more, c)
  else return (spaces, c)

/-- Read an escape sequence after its backslash. -/
def escape (c : Cursor) : Except Fault (List Nat × Cursor) :=
  match simpleEscape c.peek with
  | some a => .ok ([a.toNat], c.next)
  | none =>
    match codeLength c.peek with
    | some n =>
      let c := c.next
      let digits := c.rest.take n
      match hexNumber digits with
      | some number =>
        if digits.length < n then .error .malformed
        else return ([← code number], c.advance n)
      | none => .error .malformed
    | none =>
      if isBreak c.peek then do
        let c := (c.takeBreak).2
        let (breaks, c) ← lineBreaks (c.rest.length + 1) c
        return (codesOf breaks, c)
      else .error .malformed

/-- Read the rest of a quoted text, up to and with the closing quote. -/
def body (double : Bool) : Nat → Cursor → Except Fault (List Nat × Cursor)
  | 0, _ => .error .malformed
  | n + 1, c =>
    let a := c.peek
    let goOn (piece : List Nat) (c : Cursor) := do
      let (more, c) ← body double n c
      return (piece ++ more, c)
    if c.rest.isEmpty then .error .malformed
    else if a = '\'' && !double then
      if c.ahead 1 = '\'' then goOn [a.toNat] (c.advance 2) else .ok ([], c.next)
    else if a = '"' && double then .ok ([], c.next)
    else if a = '\\' && double then do
      let (piece, c) ← escape c.next
      goOn piece c
    else if isBoundary a then do
      let (piece, c) ← blanks c
      goOn (codesOf piece) c
    else goOn [a.toNat] c.next

/-- Read a quoted text from its opening quote. -/
def read (c : Cursor) : Except Fault (List Nat × Cursor) :=
  body (c.peek == '"') (c.rest.length + 1) c.next

end Quoted

end Document

end NewtonKrylov
