import NewtonKrylov.Document.Key
import NewtonKrylov.Document.Node
import NewtonKrylov.Document.Scalar

/-!
# The content of a document

The value that a document stands for. Of the entries of a mapping with one key the last one counts,
in the place of the first. A collection cannot be a key.

An entry with the merge mark as its key stands for the entries of its value, which is a mapping or a
sequence of mappings. They come before the other entries, so that these count; of a sequence of
mappings the first one counts.

A document may have several faults. Collections are filled in from the outside to the inside, so the
fault nearest to the root is reported, and of several equally near the first. A mapping is merged
before its texts are read, so that it cannot be merged counts before a fault in one of them.
-/

namespace NewtonKrylov

namespace Document

/-- A fault with its distance. -/
structure Misfit where
  /-- The distance from the part of the document that is looked at. It is zero if the part cannot be
  merged, one for the texts of the part, and more inside the collections in it. -/
  distance : Nat
  /-- The fault. -/
  fault : Fault
  deriving Repr

/-- What a part of a document stands for. -/
abbrev Meaning (β : Type) := Except Misfit β

namespace Meaning

variable {β γ δ : Type}

/-- A fault in a text. -/
def ofText (x : Except Fault β) : Meaning β := x.mapError fun fault => ⟨1, fault⟩

/-- A fault in what is to be merged. -/
def unmergeable : Meaning β := .error ⟨0, .malformed⟩

/-- The meaning of a collection, seen from where it is. Seen from there, whether it cannot be merged
or has a fault in a text makes no difference. -/
def inside (x : Meaning β) : Meaning β :=
  x.mapError fun e => { e with distance := max e.distance 1 + 1 }

/-- The meaning of two parts in order. Of two faults the nearer one counts. -/
def both (f : β → γ → δ) (x : Meaning β) (y : Meaning γ) : Meaning δ :=
  match x, y with
  | .ok a, .ok b => .ok (f a b)
  | .ok _, .error e => .error e
  | .error d, .ok _ => .error d
  | .error d, .error e => .error (if e.distance < d.distance then e else d)

end Meaning

open Meaning

namespace Node

/-- Is a key the mark of a merge? -/
def isMerge : Node → Bool
  | .plain text => text == Scalar.mergeMark
  | _ => false

/-- The value of a key. -/
def key : Node → Meaning Value
  | .plain text =>
    if text == Scalar.valueMark then .ok (.text text) else ofText (Scalar.ofPlain text)
  | .quoted codes => .ok (Value.ofCodes codes)
  | _ => ofText (.error .malformed)

mutual

/-- The value of a node. -/
def value : Node → Meaning Value
  | .plain text => ofText (Scalar.ofPlain text)
  | .quoted codes => .ok (Value.ofCodes codes)
  | .sequence items => inside ((values items).map Value.list)
  | .mapping entries =>
    let (merged, own) := entryValues entries
    inside ((both (· ++ ·) merged own).map fun es =>
      .mapping (es.foldl (fun before (k, v) => Value.addEntry k v before) []))

/-- The values of nodes. -/
def values : List Node → Meaning (List Value)
  | [] => .ok []
  | n :: rest => both (· :: ·) (value n) (values rest)

/-- The values of entries, those that are merged apart from the others. -/
def entryValues :
    List (Node × Node) → Meaning (List (Value × Value)) × Meaning (List (Value × Value))
  | [] => (.ok [], .ok [])
  | (k, v) :: rest =>
    let (merged, own) := entryValues rest
    if k.isMerge then (both (· ++ ·) (mergeValues v) merged, own)
    else (merged, both (· :: ·) (both Prod.mk k.key (value v)) own)

/-- The entries that the value of a merge mark stands for. -/
def mergeValues : Node → Meaning (List (Value × Value))
  | .mapping entries =>
    let (merged, own) := entryValues entries
    both (· ++ ·) merged own
  | .sequence items => mergeItems items
  | _ => unmergeable

/-- The entries that a sequence of mappings stands for as the value of a merge mark. -/
def mergeItems : List Node → Meaning (List (Value × Value))
  | [] => .ok []
  | .mapping entries :: rest =>
    let (merged, own) := entryValues entries
    both (· ++ ·) (mergeItems rest) (both (· ++ ·) merged own)
  | _ => unmergeable

end

end Node

/-- The line breaks of a text as newlines. -/
def newlines : List Char → List Char
  | '\r' :: '\n' :: rest => '\n' :: newlines rest
  | '\r' :: rest => '\n' :: newlines rest
  | c :: rest => c :: newlines rest
  | [] => []

/-- The value that the text of a document stands for. A text without a document stands for no
value. -/
def content (text : String) : Except Fault Value := do
  match ← Node.ofTokens (Token.scan (String.ofList (newlines text.toList))) with
  | none => return .null
  | some node => node.value.mapError Misfit.fault

end Document

end NewtonKrylov
