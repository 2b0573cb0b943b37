import AxumServer.Interleaving.Exec
import AxumServer.Interleaving.History
import AxumServer.Interleaving.Pool
import AxumServer.Waiters
import AxumServer.Server.Accounts
import AxumServer.Server.DrainResult
import AxumServer.Server.FirstRequest
import AxumServer.Server.GracePeriod
import AxumServer.Server.Graceful
import AxumServer.Server.Listening
import AxumServer.Server.Shutdown
import AxumServer.Server.StopListening
import AxumServer.Tls.HotReload
import AxumServer.Tls.Info
import AxumServer.Tls.Pairing
import AxumServer.Tls.Pem
import AxumServer.Tls.Stack
import AxumServer.Server.Deadline
import AxumServer.Server.Lifecycle
import AxumServer.Fleet.Stopping
import AxumServer.Server.Arrivals
import AxumServer.Server.ServiceClones
import AxumServer.Fleet.Handshakes
import AxumServer.Fleet.Announcing
import AxumServer.Fleet.Periods
