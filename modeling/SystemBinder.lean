import SystemBinder.RefLaws
import SystemBinder.ParcelSpace
import SystemBinder.ParcelPeer
import SystemBinder.ParcelLookup
import SystemBinder.ParcelToken
import SystemBinder.ParcelTwins
import SystemBinder.ParcelSensitive
import SystemBinder.ParcelCounters
import SystemBinder.StringTravel
import SystemBinder.HashMapLaws
import SystemBinder.DeathLaws
import SystemBinder.ProxyRoutes
import SystemBinder.BpServiceManager
import SystemBinder.SocketLaws
import SystemBinder.CpcNotifications
import SystemBinder.ServiceRegistry
import SystemBinder.ServiceReplies
import SystemBinder.BpRefLaws
import SystemBinder.DerefLaws
import SystemBinder.ThreadLocks
import SystemBinder.ParcelCuts
import SystemBinder.ParcelShortage
import SystemBinder.ParcelPlaces
import SystemBinder.ParcelPossession
import SystemBinder.StatusTravel
import SystemBinder.VectorLaws
import SystemBinder.BBinder
import SystemBinder.ProxyCounts
import SystemBinder.DumpArguments
import SystemBinder.ServiceWatches
import SystemBinder.ThreadPool
import SystemBinder.CallResults
import SystemBinder.CallerIdentity
import SystemBinder.CommandStream
import SystemBinder.CpcWaits
import SystemBinder.ThreadLoops
import SystemBinder.ParcelLedger
import SystemBinder.FilesClosedOnce
import SystemBinder.BorrowedBalance
