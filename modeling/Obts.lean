import Obts.AccountDisabling
import Obts.ApplyResumption
import Obts.BasesMerge
import Obts.CanvasEdits
import Obts.ChangeHints
import Obts.CollapsedDiffs
import Obts.ContentPatches
import Obts.DeletionSafety
import Obts.DeviceLeases
import Obts.DirectoryEvents
import Obts.EmbeddingFreshness
import Obts.EventPolling
import Obts.EventSnapshots
import Obts.GluedLines
import Obts.GraphPaths
import Obts.ImpactCompleteness
import Obts.IndexInventories
import Obts.KeptFrontmatter
import Obts.LinkRewrites
import Obts.LiveUpdates
import Obts.LocalHistory
import Obts.ManifestSoundness
import Obts.MovedTrees
import Obts.OperationRuns
import Obts.PathIndexes
import Obts.PathMutationGate
import Obts.ProposalPartition
import Obts.ProposalRuns
import Obts.PullResponse
import Obts.RefHistory
import Obts.RemovalConsent
import Obts.RemovalPlans
import Obts.RepairOutcomes
import Obts.RequestFence
import Obts.ResolutionTrees
import Obts.ScopeEquivalence
import Obts.SettingsRecovery
import Obts.SnapshotAgreement
import Obts.StructuralSymmetry
import Obts.TempResidue
import Obts.TimestampMerge
import Obts.TransferRuns
import Obts.TreeDifferences
import Obts.UndisturbedNames
import Obts.VaultCreation
