import Retrace.ObjectHash
import Retrace.HandoffBaton
import Retrace.OtherSpaces
import Retrace.CoordinateOrder
import Retrace.DeltaDecodes
import Retrace.FreshSpaces
import Retrace.StepRun
import Retrace.SpaceCallbacks
import Retrace.ThreadIds
import Retrace.ThreadIdSchedules
import Retrace.PointerHashes
import Retrace.RootActivations
import Retrace.SpaceAttachment
import Retrace.TargetOwners
import Retrace.TargetHits
import Retrace.TargetPlays
import Retrace.CallbackBodies
import Retrace.SwitchStream
import Retrace.SwitchCursors
import Retrace.SwitchAlgorithm
import Retrace.HandoffReturns
import Retrace.HandoffTimeouts
import Retrace.DeltaFailures
import Retrace.Registrations
import Retrace.RegistryRuns
import Retrace.CachedHashes
import Retrace.StackWalkers
import Retrace.HashWords
import Retrace.CoordinateJumps
import Retrace.TableSizes
import Retrace.TargetComparison
import Retrace.FreshCoordinates
import Retrace.PublicIdents
import Retrace.HandoffProgress
import Retrace.MemoryRuns
import Retrace.CallbackErasure
import Retrace.SharedDeltas
import Retrace.CoordinateReads
import Retrace.SpaceMaps
import Retrace.ThreadSeeds
