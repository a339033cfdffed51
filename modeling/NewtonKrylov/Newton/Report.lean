/-!
# Reports

An iteration may leave reports in files: one line per Newton step, the linear residuals of each
linear solve, and the trials of each line search. A `ReportLine` holds the numbers of a line, and
`ReportFiles` the lines of each file by its path.
-/

namespace NewtonKrylov

/-- A line of a report. -/
inductive ReportLine (α : Type) where
  | newtonHeading
  /-- A Newton step with the residual norm, the size of the step and the norm of the state. -/
  | newton (step : Int) (residual size state : α)
  | krylovHeading
  | krylov (step : Nat) (residual : α)
  | searchHeading
  | search (trial : Nat) (scale residual : α)
  deriving Repr

/-- The lines of the files written so far, by path. -/
abbrev ReportFiles (α : Type) := List (String × List (ReportLine α))

namespace ReportFiles

variable {α : Type}

/-- Change the lines of a file, which is empty if it does not exist yet. -/
def modify (path : String) (f : List (ReportLine α) → List (ReportLine α)) :
    ReportFiles α → ReportFiles α
  | [] => [(path, f [])]
  | (p, lines) :: rest =>
    if p = path then (p, f lines) :: rest else (p, lines) :: modify path f rest

/-- Add lines at the end of a file. -/
def append (files : ReportFiles α) (path : String) (lines : List (ReportLine α)) :
    ReportFiles α :=
  modify path (· ++ lines) files

/-- Write a file from its beginning. -/
def write (files : ReportFiles α) (path : String) (lines : List (ReportLine α)) :
    ReportFiles α :=
  modify path (fun _ => lines) files

end ReportFiles

/-- The decimal digits of an integer, with zeros in front up to a width that counts the sign. -/
def padded (width : Nat) (n : Int) : String :=
  let sign := if n < 0 then "-" else ""
  let digits := toString n.natAbs
  sign ++ String.ofList (List.replicate (width - sign.length - digits.length) '0') ++ digits

/-- The path of the report on the iteration. -/
def newtonPath (directory : String) : String := directory ++ "/newton.txt"

/-- The path of the report on the linear solve of a Newton step. -/
def krylovPath (directory : String) (step : Int) : String :=
  directory ++ "/gmres_iN" ++ padded 2 step ++ ".txt"

/-- The path of the report on the line search of a Newton step. -/
def searchPath (directory : String) (step : Int) : String :=
  directory ++ "/linesearch_iN" ++ padded 2 step ++ ".txt"

end NewtonKrylov
