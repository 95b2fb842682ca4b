import ReflectGen.Main
import ReflectGen.Proofs.StructuredScan
import ReflectGen.Proofs.DirectiveAccount
import ReflectGen.Proofs.IntendedMembers
import ReflectGen.Proofs.FirstFileWins
import ReflectGen.Proofs.SplitScan
import ReflectGen.Proofs.ReadBack
import ReflectGen.Proofs.CallShape
import ReflectGen.Proofs.HiddenCalls
import ReflectGen.Proofs.MarkerScope
import ReflectGen.Proofs.MergeLaws
import ReflectGen.Proofs.AcceptedCapacities
import ReflectGen.Proofs.ReportedPositions
import ReflectGen.Proofs.QualifiedNames
import ReflectGen.Proofs.RenamedField
import ReflectGen.Proofs.SecondRun
import ReflectGen.Proofs.RemainingCalls
import ReflectGen.Proofs.LoweredComments
import ReflectGen.Proofs.AccessLabels
import ReflectGen.Proofs.DocumentOrder
import ReflectGen.Proofs.NestedMarker
import ReflectGen.Proofs.SequenceInstances
import ReflectGen.Proofs.ArenaWalk
import ReflectGen.Proofs.NestedScopes
import ReflectGen.Proofs.RegisteredOnce
import ReflectGen.Proofs.LinkedPaths
import ReflectGen.Proofs.SettledWrite
import ReflectGen.Proofs.LabelOffsets
import ReflectGen.Proofs.IncludedFiles
import ReflectGen.Proofs.ConfiguredSettings
import ReflectGen.Proofs.DirectiveSteps
import ReflectGen.Proofs.KnownOutput
