import NewtonKrylov.Configuration.Loading
import NewtonKrylov.Configuration.Settings
import NewtonKrylov.LinearSystem
import NewtonKrylov.LineSearch.Search
import NewtonKrylov.Newton.ReportText
import NewtonKrylov.Proofs.LinearSystem.Termination
import NewtonKrylov.TimeMarch
import NewtonKrylov.Proofs.Krylov.Uniqueness
import NewtonKrylov.Proofs.LinearSystem.Threshold
import NewtonKrylov.Proofs.Extended
import NewtonKrylov.Proofs.LineSearch.Quadratic
import NewtonKrylov.Proofs.LineSearch.Run
import NewtonKrylov.Proofs.LineSearch.Contraction
import NewtonKrylov.Proofs.Comparison
import NewtonKrylov.Proofs.Effects
import NewtonKrylov.Proofs.Newton.Run
import NewtonKrylov.Proofs.Newton.Descent
import NewtonKrylov.Proofs.Newton.Log
import NewtonKrylov.Proofs.Newton.Bookkeeping
import NewtonKrylov.Proofs.Newton.Reason
import NewtonKrylov.Proofs.Newton.Statistics
import NewtonKrylov.Proofs.Newton.Convergence
import NewtonKrylov.Proofs.Newton.LinearSolve
import NewtonKrylov.Proofs.Preconditioner
import NewtonKrylov.Proofs.Newton.Affine
import NewtonKrylov.Proofs.Krylov.Optimality
import NewtonKrylov.Proofs.LinearSystem.Steps
import NewtonKrylov.Proofs.LinearSystem.Decay
import NewtonKrylov.Proofs.Newton.Restarts
import NewtonKrylov.Proofs.Newton.Indifference
import NewtonKrylov.Proofs.Newton.Protocol
import NewtonKrylov.Proofs.Newton.Progress
import NewtonKrylov.Proofs.Spreading
import NewtonKrylov.Proofs.Guard
import NewtonKrylov.Proofs.LineSearch.Scale
import NewtonKrylov.Proofs.Newton.Bounds
import NewtonKrylov.Proofs.Krylov.Directions
import NewtonKrylov.Proofs.Newton.Probes
import NewtonKrylov.Proofs.Newton.Termination
import NewtonKrylov.Proofs.Newton.Reuse
import NewtonKrylov.Proofs.Newton.OneStep
import NewtonKrylov.Proofs.Krylov.Eigenvector
import NewtonKrylov.Proofs.Newton.Inversion
import NewtonKrylov.Proofs.ImplicitEuler
import NewtonKrylov.Proofs.BackSubstitution
import NewtonKrylov.Proofs.LineSearch.Minimizer
import NewtonKrylov.Proofs.LineSearch.Evaluations
import NewtonKrylov.Proofs.Newton.Rejection
import NewtonKrylov.Proofs.Krylov.InPlace
import NewtonKrylov.Proofs.LinearSystem.Reduction
import NewtonKrylov.Proofs.LinearSystem.Scaling
import NewtonKrylov.Proofs.LinearSystem.Resumption
import NewtonKrylov.Proofs.Shortening
import NewtonKrylov.Proofs.Arena.Prefix
import NewtonKrylov.Proofs.Krylov.Choices
import NewtonKrylov.Proofs.Householder
import NewtonKrylov.Proofs.Configuration.Loading
