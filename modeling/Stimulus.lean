import Stimulus.Campaign.Batch
import Stimulus.Sealed.Event
import Stimulus.Proofs.History
import Stimulus.Proofs.BindingPass
import Stimulus.Proofs.Sealing
import Stimulus.Proofs.SealedBindings
import Stimulus.Proofs.Unrolling
import Stimulus.Proofs.Sealability
import Stimulus.Proofs.Marks
import Stimulus.Proofs.BuildLog
import Stimulus.Proofs.ReplayOrder
import Stimulus.Proofs.StreamExpansion
import Stimulus.Proofs.BlockIndices
import Stimulus.Proofs.LabelPlaces
import Stimulus.Proofs.DataSections
import Stimulus.Proofs.FilledSections
import Stimulus.Proofs.LostScopes
import Stimulus.Proofs.SituationCopies
import Stimulus.Proofs.BlockKinds
import Stimulus.Proofs.BlockPositions
import Stimulus.Build.Draft
import Stimulus.Proofs.BuildParts
import Stimulus.Proofs.DataCommutes
import Stimulus.Proofs.DraftCalls
import Stimulus.Proofs.Interleavings
import Stimulus.Proofs.RefusedCommands
import Stimulus.Proofs.RepeatedPlaceholders
import Stimulus.Proofs.SituationCover
import Stimulus.Proofs.DataLabels
import Stimulus.Proofs.ModelNames
import Stimulus.Proofs.ModelCalls
import Stimulus.Proofs.Resources
import Stimulus.Proofs.SequenceAllocations
import Stimulus.Proofs.Spellings
import Stimulus.Proofs.RespelledBuilds
import Stimulus.Proofs.BatchRuns
import Stimulus.Proofs.UnboundResources
import Stimulus.Proofs.BlockDistance
import Stimulus.Proofs.ScopedResolution
import Stimulus.Proofs.LabelTables
import Stimulus.Proofs.NumberRanges
import Stimulus.Proofs.CursorMoves
import Stimulus.Request.AllocationDraft
import Stimulus.Proofs.AllocationClauses
import Stimulus.Proofs.RegisterLoads
import Stimulus.Proofs.Insertions
import Stimulus.Proofs.RegisterStores
import Stimulus.Proofs.OpenedBlocks
import Stimulus.Proofs.AttributeInheritance
import Stimulus.Proofs.ValueRanges
import Stimulus.Proofs.Distributions
import Stimulus.Proofs.ModelTables
import Stimulus.Proofs.Substitutions
import Stimulus.Proofs.ResourceSpellings
import Stimulus.Proofs.IndexedStreams
import Stimulus.Proofs.ValueSlices
import Stimulus.Proofs.TreeMetric
