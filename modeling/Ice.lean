import Ice.IceStorm.Placeholders
import Ice.IceStormElection.Unstuck
import Ice.Streams.Hostile
import Ice.IceGrid.Holding
import Ice.Connection.BatchOrder
import Ice.IceGrid.ServerSync
import Ice.References.Conflict
import Ice.Glacier2.ClientBlobject
import Ice.Resend.Runs
import Ice.Locator.Transparency
import Ice.Connection.DispatchRuns
import Ice.IceUtil.TimerRuns
import Ice.Glacier2.RequestQueueRuns
import Ice.IceGrid.RegistryIndexes
import Ice.Glacier2.SessionRouterRuns
import Ice.IceStormElection.Generation
import Ice.IceStorm.Mirroring
import Ice.IcePatch2.Checksums
import Ice.IceDiscovery.LookupRuns
import Ice.GC.Runs
import Ice.IcePatch2.PatchRuns
import Ice.Streams.Unread
import Ice.Streams.Conversion
import Ice.IceGrid.Substitution
import Ice.IceGrid.ReplicaGroupSync
import Ice.IceGrid.FileIterator
import Ice.IceGrid.TailOffset
import Ice.Connection.WSPong
import Ice.Connection.HttpBoundary
import Ice.Connection.CloseWait
import Ice.Router.RouterInfo
import Ice.IceGrid.EscapedValue
import Ice.IceUtil.Unescaped
import Ice.Connection.Base64
import Ice.IceGrid.EnvironmentEval
import Ice.IcePatch2.FileServer
import Ice.IceGrid.NodeObserverRuns
import Ice.Metrics.MetricsRuns
import Ice.Connection.Compression
import Ice.IceStorm.DeliveryRuns
import Ice.Slice.WireSizes
