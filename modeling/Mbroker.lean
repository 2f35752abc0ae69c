import Mbroker.RunAlone
import Mbroker.FailedRequests
import Mbroker.OpenFiles
import Mbroker.SubscriberCounts
import Mbroker.SubscriberEnd
import Mbroker.RemovalWakeups
import Mbroker.ListingChunks
import Mbroker.Uninitialised
import Mbroker.Sessions
import Mbroker.QueueLocks
import Mbroker.QueueSlots
import Mbroker.TfsIsolation
import Mbroker.TfsUnlinks
import Mbroker.TfsFailedOpens
import Mbroker.TfsOffsets
import Mbroker.TfsBlocks
import Mbroker.TfsAppends
import Mbroker.TfsOwnData
import Mbroker.TfsRefinement
import Mbroker.Delivery
import Mbroker.HandOff
import Mbroker.SubscriberSlots
import Mbroker.BoxRequests
import Mbroker.BoxDeletions
import Mbroker.Shutdown
import Mbroker.QueueIndices
import Mbroker.WireData
import Mbroker.PublisherClient
import Mbroker.TfsInit
import Mbroker.WholeMessages
import Mbroker.BoxSizes
import Mbroker.TfsThreads
import Mbroker.HandlerThreads
import Mbroker.BoxThreads
import Mbroker.RelayEnd
import Mbroker.Lifetime
import Mbroker.ManagerRuns
import Mbroker.TfsRoundTrip
import Mbroker.ShutdownMemory
