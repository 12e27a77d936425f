import Wildbloom.GuardedRuns
import Wildbloom.RequestTables
import Wildbloom.ClaimCache
import Wildbloom.GroupGateModel
import Wildbloom.GroupHoldings
import Wildbloom.GroupGateTasks
import Wildbloom.GroupGateSteps
import Wildbloom.GroupGateSoundness
import Wildbloom.GroupGateMoves
import Wildbloom.GroupGateGuards
import Wildbloom.GroupAcknowledgedUploads
import Wildbloom.GroupHoldingsCoherence
import Wildbloom.GroupLedger
import Wildbloom.GroupBudget
import Wildbloom.GroupCeiling
import Wildbloom.AuthorityGateModel
import Wildbloom.AuthorityReads
import Wildbloom.OwnerClaimModel
import Wildbloom.OwnerClaimSurvival
import Wildbloom.DeviceGrantRows
import Wildbloom.DeviceGrantMembers
import Wildbloom.DeviceGrantModel
import Wildbloom.DeviceGrantTrust
import Wildbloom.DeviceAuthorisation
import Wildbloom.DeviceGrantRoles
import Wildbloom.DeviceGrantShelter
import Wildbloom.DeviceGrantStranding
import Wildbloom.KeyListModel
import Wildbloom.KeySyncModel
import Wildbloom.KeySyncCoverage
import Wildbloom.KeySyncDescent
import Wildbloom.FileEntryModel
import Wildbloom.FileEntryTruth
import Wildbloom.FolderPassModel
import Wildbloom.FolderPassKeeping
import Wildbloom.FileCopiesModel
import Wildbloom.FileCopiesSoundness
import Wildbloom.SupersededRemovals
import Wildbloom.RemovedCopies
import Wildbloom.ShareFlowModel
import Wildbloom.ShareFlowSteps
import Wildbloom.SharedCopyTelling
import Wildbloom.SharedCopyCustody
import Wildbloom.SharedCopyNames
import Wildbloom.GroupGrantRows
import Wildbloom.GroupGrantModel
import Wildbloom.GroupGrantTables
import Wildbloom.GroupGrantSteps
import Wildbloom.GroupGrantRuns
import Wildbloom.GroupGrantFinality
import Wildbloom.GroupGrantUniqueness
import Wildbloom.GroupGrantGrace
import Wildbloom.GroupGrantCeilings
import Wildbloom.DeviceGrantMoves
import Wildbloom.KeyKinds
import Wildbloom.DeviceGrantOrder
import Wildbloom.DeviceGrantFlights
import Wildbloom.OwnerClaimReturn
import Wildbloom.EnrolmentModel
import Wildbloom.EnrolmentRevisions
import Wildbloom.EnrolmentIntake
import Wildbloom.EnrolmentChunks
import Wildbloom.CheckoutInvariant
import Wildbloom.CheckoutSteps
import Wildbloom.CheckoutOutcomes
import Wildbloom.ErasureField
import Wildbloom.RowReduction
import Wildbloom.ErasureMatrices
import Wildbloom.ErasureRepair
import Wildbloom.EnvelopeModel
import Wildbloom.EnvelopeNames
import Wildbloom.EnvelopeRecords
import Wildbloom.EnvelopeRoundTrip
import Wildbloom.EnvelopeCanonical
import Wildbloom.KeyListJoin
import Wildbloom.FolderWatchModel
import Wildbloom.RemovalBrake
import Wildbloom.MissingFiles
import Wildbloom.DeleteTokens
import Wildbloom.CalendarDates
import Wildbloom.Positional
import Wildbloom.OnionHosts
