import NewtonKrylov.Newton.Solve

/-!
# Implicit Euler steps

A spatial discretization gives the right hand side of `dq/dt = rhs q`. An implicit Euler step of
size `dt` from the state `last` solves `q = last + dt rhs q`, which is the zero of a residual. A
`Stepper` holds the discretization, the last accepted state and the size of the step. The last state
may have any shape that goes with the one looked for.
-/

namespace NewtonKrylov

/-- A discretization of a time-dependent problem in space. -/
structure Discretization (α : Type) where
  name : String
  rhs : α → Operator α
  /-- The Jacobian applied to a vector, if it is known. -/
  jacobian : Option (α → Operator α) := none
  /-- The blocks on the diagonal of the Jacobian, if they are known. -/
  blockDiagonal : Option (α → Operator α) := none
  /-- Does the right hand side depend on time? -/
  timed : Bool := true
  time : α

/-- What is offered as a discretization: one, or something else with the name of its kind. -/
inductive DiscretizationCandidate (α : Type) where
  | discretization (s : Discretization α)
  | other (name : String)

/-- Implicit Euler steps for a spatial discretization. -/
structure Stepper (α : Type) where
  spatial : Option (Discretization α)
  /-- The last accepted state, once there is one. -/
  last : Option (Tensor α) := none
  dt : α

namespace Discretization

variable {α : Type}

/-- Move to a time. -/
def advance (s : Discretization α) (t : α) : Discretization α :=
  if s.timed then { s with time := t } else s

end Discretization

namespace Stepper

variable {α : Type}

/-- Bind a discretization. -/
def bind (s : Stepper α) : DiscretizationCandidate α → Except Error (Stepper α)
  | .discretization d => .ok { s with spatial := some d }
  | .other name => .error (.notADiscretization name)

/-- The discretization, which must be bound. -/
def boundSpatial (s : Stepper α) : Except Error (Discretization α) :=
  match s.spatial with
  | some d => .ok d
  | none => .error .notSet

/-- Accept a state, set the size of the next step and move to a time. The state and the size are
kept even if there is no discretization to move. -/
def update (q : Tensor α) (t dt : α) : ExceptT Error (StateM (Stepper α)) Unit := do
  modify fun s => { s with last := some q, dt := dt }
  let d ← (← get).boundSpatial
  modify fun s => { s with spatial := some (d.advance t) }

/-- The right hand side at the present time. -/
def rhs (s : Stepper α) : Operator α := fun q => do
  let d ← s.boundSpatial
  d.rhs d.time q

/-- The Jacobian of the right hand side, applied to a vector. -/
def jacobian (s : Stepper α) : Operator α := fun q => do
  let d ← s.boundSpatial
  match d.jacobian with
  | some J => J d.time q
  | none => throw (.noJacobian d.name)

/-- The blocks on the diagonal of the Jacobian. -/
def blockDiagonal (s : Stepper α) : Operator α := fun q => do
  let d ← s.boundSpatial
  match d.blockDiagonal with
  | some D => D d.time q
  | none => throw (.noBlockDiagonal d.name)

variable [Scalar α]

/-- The state that the step arrives at if the right hand side is taken at `q`. -/
def star (s : Stepper α) : Operator α := fun q => do
  let change := (← s.rhs q).smul s.dt
  match s.last with
  | none => throw .wrongType
  | some last => Tensor.combine (· + ·) last change

/-- The residual of the step. -/
def residual (s : Stepper α) : Operator α := fun q => do
  Tensor.combine (· - ·) q (← s.star q)

/-- The system of the step, with a guard for its states. -/
def system (s : Stepper α) (guard : Guard α) : NonlinearSystem α := ⟨s.residual, guard⟩

/-- The diagonal of the Jacobian of the residual. -/
def diagonal (s : Stepper α) : Operator α := fun q =>
  return ((← s.blockDiagonal q).smul s.dt).map (1 - ·)

end Stepper

end NewtonKrylov
