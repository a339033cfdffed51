import NewtonKrylov.Configuration.Basic
import NewtonKrylov.Configuration.Operand
import NewtonKrylov.Decimal.Rounding
import NewtonKrylov.Newton.Settings

/-!
# The settings of a configuration

`Configuration.settings` reads a configuration as the settings of a Newton iteration. A value that
is of the wrong kind for its use becomes a setting that fails where it is used.

What a value is good for depends on what it meets. A list counts as an array where it meets a number
that comes out of a computation with arrays, and is nothing to a plain number. A text is never good
for anything, but it fails as an array of texts or as something that is no number.
-/

namespace NewtonKrylov

namespace Configuration

/-- A real number as a limit for a count. -/
def realLimit (x : Float) : CountLimit :=
  match Decimal.Parts.ofFloat x with
  | .finite negative m => .number (m.ceiling negative) m.isWhole
  | .infinite negative => if negative then .nothing else .infinite
  | .nan => .nothing

/-- A value as a limit for a count. -/
def limit : Value → Setting CountLimit
  | .bool b => .ok (.number (if b then 1 else 0) true)
  | .int n => .ok (.count n)
  | .float x => .ok (realLimit x)
  | _ => .error .wrongType

/-- The patience for what has no limit. -/
def patience : Nat := Nat.pow 10 15

/-- A value as a limit for repetitions. -/
def repeats (v : Value) : Setting Limit := (limit v).map (CountLimit.toLimit patience)

/-- A value as a number of repetitions. -/
def repetitions : Value → Setting Nat
  | .bool b => .ok (if b then 1 else 0)
  | .int n => .ok n.toNat
  | _ => .error .wrongType

/-- A number as the factor of a number that comes out of a computation with arrays. Integers beyond
the number format are refused. -/
def factor : Value → Setting Float
  | .bool b => .ok (if b then 1 else 0)
  | .int n =>
    let x := Float.ofInt n
    if x.isInf then .error .overflow else .ok x
  | .float x => .ok x
  | _ => .error .wrongType

/-- A number for comparisons with plain numbers. An integer beyond the number format counts as the
largest finite number of its sign, with which finite numbers compare alike. -/
def plainBound : Value → Setting Float
  | .int n =>
    let x := Float.ofInt n
    let largest := 1.7976931348623157e308
    .ok (if x.isInf then (if n < 0 then -largest else largest) else x)
  | v => factor v

/-- The entry of an array that has a single one. -/
def single {β : Type} (t : Tensor β) : Setting β :=
  match t.entries with
  | [a] => .ok a
  | _ => .error .shapeMismatch

/-- The entries of an array for comparisons. They are compared one by one, so that entries that are
no numbers of the format are compared as plain numbers. -/
def bounds : Operand → Setting (Tensor Float)
  | .numbers t => .ok t
  | .texts => .error .textOperand
  | .values t => return ⟨t.shape, ← t.entries.mapM plainBound⟩

/-- A value for comparisons with numbers that come out of a computation with arrays. An array needs
a single entry, which counts only after all entries have been compared. -/
def computedBound (v : Value) : Setting Float :=
  match v with
  | .list _ | .text _ | .codes _ => Operand.ofValue v >>= bounds >>= single
  | v => factor v

/-- A value as a tolerance. -/
def tolerance (v : Value) : Tolerance Float := ⟨computedBound v, plainBound v⟩

/-- The entries of an array as scales of finite differences. -/
def scales : Operand → Setting (Tensor (Setting Float))
  | .numbers t => .ok (t.map .ok)
  | .texts => .error .textOperand
  | .values t => .ok (t.map factor)

/-- A value as the scale of finite differences. A text counts as an array of texts. -/
def differenceScale (v : Value) : DifferenceScale Float :=
  match v with
  | .list _ | .text _ | .codes _ => .array (Operand.ofValue v >>= scales)
  | v => .number (factor v)

/-- A value as the path of a directory, the names in which have at most 255 bytes. -/
def path : Value → Setting String
  | .text s =>
    if s.isEmpty then .error .emptyPath
    else if s.contains '\x00' then .error .malformedPath
    else if (s.splitOn "/").any (255 < ·.utf8ByteSize) then .error .pathTooLong
    else .ok s
  | .codes _ => .error .unencodablePath
  | _ => .error .wrongType

/-- A value that may be missing. -/
def optional {β : Type} (read : Value → Setting β) : Value → Option (Setting β)
  | .null => none
  | v => some (read v)

/-- The field of a hook. -/
def hookField : HookPoint → Field
  | .presolve => .presolve
  | .postsolve => .postsolve
  | .prestep => .prestep
  | .poststep => .poststep

/-- A hook that is installed at a point where the configuration has a value, which must be a
function if it is anything. -/
def hook (installed : Option (Hook Float)) : Value → Option (Setting (Hook Float))
  | .null | .callable => installed.map .ok
  | _ => some (.error .wrongType)

/-- The settings of an iteration with the given hooks. -/
def settings (p : Configuration) (hooks : HookPoint → Option (Hook Float))
    (extraPasses : Nat) : Settings Float where
  newtonDirectory := optional path (p.get .newtonDirectory)
  krylovDirectory := optional path (p.get .krylovDirectory)
  searchDirectory := optional path (p.get .searchDirectory)
  maxIterations := repeats (p.get .newtonSteps)
  tolerance := computedBound (p.get .newtonTolerance)
  stepTolerance := optional factor (p.get .stepTolerance)
  difference := differenceScale (p.get .difference)
  restarts := repetitions (p.get .restarts)
  krylovSteps := optional limit (p.get .krylovSteps)
  krylovTolerance := tolerance (p.get .krylovTolerance)
  threshold := factor (p.get .threshold)
  searchSteps := repeats (p.get .searchSteps)
  searchTolerance := tolerance (p.get .searchTolerance)
  hooks := fun point => hook (hooks point) (p.get (hookField point))
  extraPasses := extraPasses

end Configuration

end NewtonKrylov
