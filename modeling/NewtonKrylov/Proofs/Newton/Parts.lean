import NewtonKrylov.Newton.Solve
import NewtonKrylov.Proofs.Effects

/-!
# The parts of a run

A run of `solve` prepares an iteration, makes its passes and concludes. The parts before the first
pass and behind the last one have names here, so that a statement about runs is put together from
one about each part.
-/

namespace NewtonKrylov

namespace Solver

variable {α : Type} [CheckedScalar α]

/-- Where the passes of a run begin. -/
structure Outset (α : Type) where
  /-- The residual norm there. -/
  norm : α
  start : Iteration α
  /-- The limit for the number of Newton steps. -/
  limit : Limit
  /-- The number of passes allowed. -/
  room : Nat

/-- Does a first pass follow? -/
def Outset.begins (o : Outset α) : Bool := o.start.goesOn o.limit && !o.start.exited

/-- What a run from a vector does before its first pass, once there is a work space. -/
def outset (v : Vec α) : SolverM α (Outset α) := do
  let x := Tensor.ofVec v
  let pre ← callHook .presolve x
  let system ← boundSystem
  record (.guarded x)
  let x ← system.guard.value x
  let r ← evaluate x
  record (.started x)
  let p ← (← get).preconditioner.startAt x
  modify fun s => { s with preconditioner := p }
  reportNewton 0 r.norm 0 x true
  let settings := (← get).settings
  let tolerance ← settings.tolerance
  let limit ← settings.maxIterations
  let start : Iteration α :=
    { state := x
      normPending := !decide (r.norm ≤ tolerance)
      exited := pre.asksFor .exit }
  return ⟨r.norm, start, limit, limit.room + settings.extraPasses⟩

/-- What a run does before its first pass. -/
def prepare (x : Tensor α) : SolverM α (Outset α) := do
  modify fun s => { s with log := [] }
  if (← get).system.isNone then throw .noResidual
  let v ← initialState x
  let _ ← allocate v.length
  outset v

/-- What a run does behind its last pass. -/
def conclude (norm : α) (last : Iteration α) : SolverM α (Solution α) := do
  let answer ← callHook .postsolve last.state
  return ⟨last.state, last.iterations, norm, last.norms, last.converged, last.reason, answer,
    (← get).log⟩

variable {β : Type} (x : Tensor α)

/-- What comes before the first pass, with a continuation. -/
lemma prepare_bind (f : Outset α → SolverM α β) :
    prepare x >>= f = (do
      modify fun s => { s with log := [] }
      let s ← get
      if s.system.isNone then throw .noResidual
      else do
        let v ← initialState x
        let _ ← allocate v.length
        let o ← outset v
        f o) := by
  unfold prepare
  simp only [bind_assoc]
  refine bind_congr fun _ => bind_congr fun s => ?_
  split_ifs
  · rfl
  · simp only [bind_assoc]

/-- A run is its three parts. -/
theorem solve_eq :
    solve x = (do
      let o ← prepare x
      let last ← if o.begins then passes o.room o.start else pure o.start
      conclude o.norm last) := by
  rw [prepare_bind]
  unfold solve outset conclude
  refine bind_congr fun _ => bind_congr fun s => ?_
  split_ifs
  · rfl
  · simp only [bind_assoc, pure_bind]
    rfl

variable {x}

/-- What is left of a run behind its first part. -/
lemma solve_run_of_prepared {s t : Solver α} {o : Outset α}
    (prepared : (prepare x).run s = (.ok o, t)) : (solve x).run s = (do
      let last ← if o.begins then passes o.room o.start else pure o.start
      conclude o.norm last : SolverM α (Solution α)).run t := by
  rw [solve_eq]
  exact run_bind_of_ok prepared

end Solver

end NewtonKrylov
