import NewtonKrylov.Configuration.Basic
import NewtonKrylov.Document.Content
import NewtonKrylov.Text.Digit

/-!
# Configurations from a document

A configuration document is a mapping from the names of fields to values. Loading it reports, in
this order, keys that are no fields, real numbers that cannot be read, and requirements that are not
met. A document without content gives no field a value.

The real numbers of a configuration may also be given as integers, as truth values, and as texts
with blanks around the number, digits of any script and single underscores between digits.
-/

namespace NewtonKrylov

namespace Configuration

/-! ### Real numbers -/

/-- The characters of a number in common digits, where every blank is the common one. Underscores
between digits are left out, and other underscores stay. -/
def commonDigits (s : String) : List Char :=
  s.toList.map fun c =>
    if c.toNat < 127 then c else if Text.isBlank c then ' ' else (Text.asciiDigit? c).getD '?'

/-- Leave out the blanks at both ends. -/
def trimBlanks (cs : List Char) : List Char :=
  ((cs.dropWhile Text.isBlank).reverse.dropWhile Text.isBlank).reverse

/-- Leave out the underscores between digits, unless there is one elsewhere. -/
def joinDigits? (before : Char) : List Char → Option (List Char)
  | [] => if before = '_' then none else some []
  | c :: cs =>
    if c = '_' then (if before.isDigit then joinDigits? c cs else none)
    else if before = '_' && !c.isDigit then none
    else (joinDigits? c cs).map (c :: ·)

/-- The real number that a text is. -/
def realOfText? (s : String) : Option Float :=
  joinDigits? ' ' (trimBlanks (commonDigits s)) >>= Decimal.read?

/-- Read a value as a real number. -/
def toReal : Value → Except Refusal Float
  | .bool b => .ok (if b then 1 else 0)
  | .int n =>
    let x := Float.ofInt n
    if x.isInf then .error (.fault .tooLarge) else .ok x
  | .float x => .ok x
  | .text s => match realOfText? s with
    | some x => .ok x
    | none => .error (.fault .unreadable)
  | .codes _ => .error (.fault .unreadable)
  | _ => .error .wrongKind

/-! ### Keys -/

/-- Can a value be written out? Integers with too many decimal digits cannot. -/
def isWritable : Value → Bool
  | .int n => n.natAbs < Nat.pow 10 Decimal.digitLimit
  | _ => true

/-- Refuse keys that are no fields, which are listed in increasing order. -/
def refuseUnknown (path : String) (keys : List Value) : Refusal :=
  match Value.sort? keys with
  | none => .wrongKind
  | some sorted =>
    if sorted.all isWritable then .unknownKeys path sorted else .fault .unreadable

/-- Does a document count as one without content? -/
def isNothing : Value → Bool
  | .null => true
  | .bool b => !b
  | .int n => n == 0
  | .float x => x == 0
  | .text s => s.isEmpty
  | .list vs => vs.isEmpty
  | .mapping es => es.isEmpty
  | _ => false

/-- The keys of a document: those of a mapping, the items of a list, the characters of a text. -/
def keysOf : Value → Except Refusal (List Value)
  | .mapping entries => .ok (entries.map Prod.fst)
  | .list vs => if vs.all Value.isKey then .ok (Value.distinct vs) else .error .wrongKind
  | v => match v.codes? with
    | some cs => .ok (Value.distinct (cs.map fun c => Value.ofCodes [c]))
    | none => .error .wrongKind

/-- Is a value the name of a field? -/
def isKnown : Value → Bool
  | .text s => (Field.ofName? s).isSome
  | _ => false

/-! ### Loading -/

/-- The value that a mapping gives a field. -/
def given? (entries : List (Value × Value)) (f : Field) : Option Value :=
  (entries.find? fun (k, _) => k.sameKey (.text f.name)).map Prod.snd

/-- Read a field as a real number, if it is given a value. -/
def readReal (p : Configuration) (f : Field) (v : Option Value) : Except Refusal Configuration :=
  match v with
  | none => .ok p
  | some .null => .ok p
  | some v => return p.set f (.float (← toReal v))

/-- The configuration that a mapping gives, before it is checked. -/
def ofEntries (entries : List (Value × Value)) : Except Refusal Configuration :=
  let start : Configuration := ⟨fun f => (given? entries f).getD f.default⟩
  Field.reals.foldlM (fun p f => readReal p f (given? entries f)) start

/-- The configuration in a document with a given content. -/
def ofContent (path : String) (content : Value) : Except Refusal Configuration := do
  let content := if isNothing content then .mapping [] else content
  let unknown := (← keysOf content).filter (!isKnown ·)
  if !unknown.isEmpty then throw (refuseUnknown path unknown)
  match content with
  | .mapping entries =>
    let p ← ofEntries entries
    p.check
    return p
  | _ => throw .notAMapping

/-- Load a configuration from the text of a document, if there is one. -/
def load (path : String) : Option String → Except Refusal Configuration
  | none => .error .missing
  | some text => do ofContent path (← (Document.content text).mapError Refusal.fault)

end Configuration

end NewtonKrylov
