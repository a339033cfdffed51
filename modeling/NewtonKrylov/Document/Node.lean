import NewtonKrylov.Document.Token

/-!
# The nodes of a document

A node is a text, a sequence of nodes, or a mapping from nodes to nodes. What is missing where a
node could stand is the empty text. A text holds at most one document.

`Node.ofTokens` follows the grammar of tokens, and fails at the first token that has no place there
or begins one collection too many. Some collections have no tokens of their own at their ends: a
sequence that is the value of a key may have its dashes in the column of the key, and an item of a
sequence in brackets may be a mapping of one entry.
-/

namespace NewtonKrylov

namespace Document

/-- A node of a document. -/
inductive Node where
  | plain (text : String)
  /-- A text in quotes, by its code numbers. -/
  | quoted (codes : List Nat)
  | sequence (items : List Node)
  | mapping (entries : List (Node × Node))
  deriving Repr, Inhabited

namespace Node

/-- What is missing. -/
def missing : Node := .plain ""

/-- The next token, if there is one, has no place here. -/
def unexpected {β : Type} : List Token → Except Fault β
  | .fault cause :: _ => .error cause
  | _ => .error .malformed

/-- How many collections may be open at a time. -/
def depthLimit : Nat := 489

/-- The room inside a collection, from the number of collections there is room for outside. -/
def roomInside : Nat → Except Fault Nat
  | 0 => .error .tooDeep
  | room + 1 => .ok room

/-- Skip the comma before an item, which the first item does not have. -/
def afterComma (first : Bool) (ts : List Token) : Except Fault (List Token) :=
  match first, ts with
  | true, ts => .ok ts
  | false, .flowEntry :: rest => .ok rest
  | false, ts => unexpected ts

mutual

/-- Read a node where there is room for so many collections. In brackets there are no indented
collections. -/
def read (room : Nat) (block indentless : Bool) :
    Nat → List Token → Except Fault (Node × List Token)
  | 0, ts => unexpected ts
  | n + 1, ts =>
    match ts with
    | .plain text :: rest => .ok (.plain text, rest)
    | .quoted codes :: rest => .ok (.quoted codes, rest)
    | .flowSequenceStart :: rest => do
      let (items, rest) ← flowItems (← roomInside room) true n rest
      return (.sequence items, rest)
    | .flowMappingStart :: rest => do
      let (entries, rest) ← flowEntries (← roomInside room) true n rest
      return (.mapping entries, rest)
    | .blockSequenceStart :: rest =>
      if block then do
        let (items, rest) ← blockItems (← roomInside room) n rest
        return (.sequence items, rest)
      else unexpected ts
    | .blockMappingStart :: rest =>
      if block then do
        let (entries, rest) ← blockEntries (← roomInside room) n rest
        return (.mapping entries, rest)
      else unexpected ts
    | .blockEntry :: _ =>
      if indentless then do
        let (items, rest) ← indentlessItems (← roomInside room) n ts
        return (.sequence items, rest)
      else unexpected ts
    | _ => unexpected ts
termination_by structural n => n

/-- Read a node, unless one of some tokens shows that it is missing. -/
def readUnless (room : Nat) (ends : List Token) (block indentless : Bool) :
    Nat → List Token → Except Fault (Node × List Token)
  | 0, ts => unexpected ts
  | n + 1, ts =>
    match ts with
    | [] => unexpected ts
    | t :: _ => if ends.contains t then .ok (missing, ts) else read room block indentless n ts
termination_by structural n => n

/-- Read the items of an indented sequence. -/
def blockItems (room : Nat) : Nat → List Token → Except Fault (List Node × List Token)
  | 0, ts => unexpected ts
  | n + 1, .blockEntry :: rest => do
    let (item, rest) ← readUnless room [.blockEntry, .blockEnd] true false n rest
    let (items, rest) ← blockItems room n rest
    return (item :: items, rest)
  | _, .blockEnd :: rest => .ok ([], rest)
  | _, ts => unexpected ts
termination_by structural n => n

/-- Read the items of a sequence in the column of its key. -/
def indentlessItems (room : Nat) : Nat → List Token → Except Fault (List Node × List Token)
  | 0, ts => unexpected ts
  | n + 1, .blockEntry :: rest => do
    let (item, rest) ← readUnless room [.blockEntry, .key, .value, .blockEnd] true false n rest
    let (items, rest) ← indentlessItems room n rest
    return (item :: items, rest)
  | _, ts => .ok ([], ts)
termination_by structural n => n

/-- Read the value of a key, if there is one. -/
def readValue (room : Nat) (ends : List Token) (block : Bool) :
    Nat → List Token → Except Fault (Node × List Token)
  | 0, ts => unexpected ts
  | n + 1, .value :: rest => readUnless room ends block block n rest
  | _, ts => .ok (missing, ts)
termination_by structural n => n

/-- Read the entries of an indented mapping. -/
def blockEntries (room : Nat) : Nat → List Token → Except Fault (List (Node × Node) × List Token)
  | 0, ts => unexpected ts
  | n + 1, .key :: rest => do
    let ends := [Token.key, .value, .blockEnd]
    let (key, rest) ← readUnless room ends true true n rest
    let (value, rest) ← readValue room ends true n rest
    let (entries, rest) ← blockEntries room n rest
    return ((key, value) :: entries, rest)
  | _, .blockEnd :: rest => .ok ([], rest)
  | _, ts => unexpected ts
termination_by structural n => n

/-- Read the items of a sequence in brackets. An item may be a mapping of one entry. -/
def flowItems (room : Nat) (first : Bool) :
    Nat → List Token → Except Fault (List Node × List Token)
  | 0, ts => unexpected ts
  | n + 1, ts =>
    match ts with
    | .flowSequenceEnd :: rest => .ok ([], rest)
    | _ => do
      let ts ← afterComma first ts
      match ts with
      | .flowSequenceEnd :: rest => return ([], rest)
      | .key :: rest =>
        let room' ← roomInside room
        let (key, rest) ← readUnless room' [.value, .flowEntry, .flowSequenceEnd] false false n rest
        let (value, rest) ← readValue room' [.flowEntry, .flowSequenceEnd] false n rest
        let (items, rest) ← flowItems room false n rest
        return (.mapping [(key, value)] :: items, rest)
      | _ =>
        let (item, rest) ← read room false false n ts
        let (items, rest) ← flowItems room false n rest
        return (item :: items, rest)
termination_by structural n => n

/-- Read the entries of a mapping in braces. -/
def flowEntries (room : Nat) (first : Bool) :
    Nat → List Token → Except Fault (List (Node × Node) × List Token)
  | 0, ts => unexpected ts
  | n + 1, ts =>
    match ts with
    | .flowMappingEnd :: rest => .ok ([], rest)
    | _ => do
      let ts ← afterComma first ts
      match ts with
      | .flowMappingEnd :: rest => return ([], rest)
      | .key :: rest =>
        let (key, rest) ← readUnless room [.value, .flowEntry, .flowMappingEnd] false false n rest
        let (value, rest) ← readValue room [.flowEntry, .flowMappingEnd] false n rest
        let (entries, rest) ← flowEntries room false n rest
        return ((key, value) :: entries, rest)
      | _ =>
        let (key, rest) ← read room false false n ts
        let (entries, rest) ← flowEntries room false n rest
        return ((key, missing) :: entries, rest)
termination_by structural n => n

end

/-- The end of a text, where nothing but marks of the end of a document may be left. -/
def finish (rest : List Token) : Except Fault Unit :=
  match rest.dropWhile (· == .documentEnd) with
  | [] => .ok ()
  | ts => unexpected ts

/-- The document that the tokens of a text hold, if there is one. -/
def ofTokens (ts : List Token) : Except Fault (Option Node) := do
  let fuel := 2 * ts.length + 2
  match ts with
  | [] => return none
  | .documentStart :: rest =>
    match rest with
    | [] | .documentStart :: _ | .documentEnd :: _ =>
      finish rest
      return some missing
    | _ =>
      let (node, rest) ← read depthLimit true false fuel rest
      finish rest
      return some node
  | ts =>
    let (node, rest) ← read depthLimit true false fuel ts
    finish rest
    return some node

end Node

end Document

end NewtonKrylov
