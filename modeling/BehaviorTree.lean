import BehaviorTree.Config.Read
import BehaviorTree.Proofs.Board.Coalescing
import BehaviorTree.Proofs.Board.Replay
import BehaviorTree.Proofs.Board.Soundness
import BehaviorTree.Proofs.Composites.Arbitration
import BehaviorTree.Proofs.Composites.GivingUp
import BehaviorTree.Proofs.Composites.SelectorMirror
import BehaviorTree.Proofs.Composites.SequenceScripts
import BehaviorTree.Proofs.Conditions.InactiveStop
import BehaviorTree.Proofs.Conditions.SelfAbort
import BehaviorTree.Proofs.Conditions.TakeOver
import BehaviorTree.Proofs.Equivalence.ChildRows
import BehaviorTree.Proofs.Equivalence.Composites
import BehaviorTree.Proofs.Equivalence.Decorators
import BehaviorTree.Proofs.Equivalence.Likeness
import BehaviorTree.Proofs.Equivalence.LinkedObservers
import BehaviorTree.Proofs.Equivalence.LinkedTimers
import BehaviorTree.Proofs.Equivalence.LinkedWorlds
import BehaviorTree.Proofs.Equivalence.RestingTrees
import BehaviorTree.Proofs.Equivalence.Rewriting
import BehaviorTree.Proofs.Equivalence.Roots
import BehaviorTree.Proofs.Equivalence.SequenceFlattening
import BehaviorTree.Proofs.Equivalence.ServiceTransparency
import BehaviorTree.Proofs.Leaves.EndOnce
import BehaviorTree.Proofs.Lifecycle.ActivePath
import BehaviorTree.Proofs.Lifecycle.Fit
import BehaviorTree.Proofs.Lifecycle.Handles
import BehaviorTree.Proofs.Lifecycle.OneActiveChild
import BehaviorTree.Proofs.Lifecycle.Positions
import BehaviorTree.Proofs.Lifecycle.Session
import BehaviorTree.Proofs.Lifecycle.Stopping
import BehaviorTree.Proofs.Lifecycle.TickFit
import BehaviorTree.Proofs.Lifecycle.Validation
import BehaviorTree.Proofs.Loading.Arity
import BehaviorTree.Proofs.Loading.Breaks
import BehaviorTree.Proofs.Loading.Inlining
import BehaviorTree.Proofs.Loading.Recursion
import BehaviorTree.Proofs.Recipes.AimedFire
import BehaviorTree.Proofs.Recipes.Reactions
import BehaviorTree.Proofs.Restart.AfterStop
import BehaviorTree.Proofs.Restart.AlikeStates
import BehaviorTree.Proofs.Restart.ShiftedWorlds
import BehaviorTree.Proofs.Source.ErrorPosition
import BehaviorTree.Proofs.Source.Escapes
import BehaviorTree.Proofs.Source.Layout
import BehaviorTree.Proofs.Source.ParserRuns
import BehaviorTree.Proofs.Source.ReadArguments
import BehaviorTree.Proofs.Source.ReadWritten
import BehaviorTree.Proofs.Source.TokenAccount
import BehaviorTree.Proofs.Time.Advance
import BehaviorTree.Proofs.Time.Cadence
import BehaviorTree.Proofs.Time.Firing
import BehaviorTree.Proofs.Time.OuterFirst
import BehaviorTree.Proofs.Time.Overflow
import BehaviorTree.Proofs.Time.ServiceTimers
import BehaviorTree.Proofs.Waits.Sum
import BehaviorTree.Proofs.Warnings.OncePerKey
