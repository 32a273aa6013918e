import CuOpt.BranchAndBound.DeterministicReplay
import CuOpt.BranchAndBound.LowerBoundScan
import CuOpt.BranchAndBound.OwnedTreeClosing
import CuOpt.BranchAndBound.DivingQueueInvariant
import CuOpt.BranchAndBound.ReducedCostBoundsSound
import CuOpt.Grpc.IncumbentDelivery
import CuOpt.Simplex.ColorGraphCoarsest
import CuOpt.Cuts.CliqueSearch
import CuOpt.Cuts.ConflictCutsSound
import CuOpt.Cuts.ZeroHalfCutsSound
import CuOpt.Presolve.Gf2PresolveSound
import CuOpt.Cuts.ImpliedBoundCuts
import CuOpt.Cuts.RationalCoefficients
import CuOpt.Presolve.CoeffReduceSound
import CuOpt.Cuts.LatticeRuns
import CuOpt.Presolve.BveForcingsSound
import CuOpt.Presolve.BveReducerSound
import CuOpt.Presolve.SemiContinuousSound
import CuOpt.BranchAndBound.BranchingBoundsSound
import CuOpt.Presolve.IndicatorStrengtheningSound
import CuOpt.Presolve.BoundStandardization
import CuOpt.Simplex.DualCorrection
import CuOpt.Simplex.DualCrush
import CuOpt.Simplex.FreeEliminationExact
import CuOpt.Io.CooCanonicalSound
import CuOpt.Io.FastScanSound
import CuOpt.Io.LpParserSound
import CuOpt.BranchAndBound.SymmetryGraphSound
import CuOpt.Grpc.ResultDownloadSound
import CuOpt.Grpc.ChunkTransfer
import CuOpt.Grpc.DispatchOrder
import CuOpt.Grpc.PendingData
import CuOpt.FeasibilityJump.RowScoresExact
import CuOpt.FeasibilityJump.ImpliedIntegersSound
import CuOpt.Grpc.JobStatuses
