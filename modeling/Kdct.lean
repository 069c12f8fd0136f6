import Kdct.ControlStream
import Kdct.ControlChannel.Succession
import Kdct.ControlChannel.Newcomers
import Kdct.ControlChannel.DeadEntries
import Kdct.ControlChannel.Events
import Kdct.Server.Conflicts
import Kdct.Server.AllOrNothing
import Kdct.Migration.Calls
import Kdct.NodeStore
import Kdct.DataChannels
import Kdct.Acme
import Kdct.Handshake
import Kdct.Server.PoolReservation
import Kdct.Server.OwnPorts
import Kdct.Server.HostPorts
import Kdct.Server.Edits
import Kdct.Client.ControlLoop
import Kdct.Client.NodeIdentity
import Kdct.Client.Containers
import Kdct.PortPool.Partition
import Kdct.Server.NodeRemoval
import Kdct.Proxy
import Kdct.Server.PortPlanning
import Kdct.Database.Replacing
import Kdct.Client.Builds
import Kdct.Client.Answers
import Kdct.CertFile
import Kdct.UdpTraffic
import Kdct.PortPool.Binding
import Kdct.Server.Routes
import Kdct.Redirect.Segmentation
import Kdct.Server.HubQueries
import Kdct.Client.UdpRecovery
import Kdct.MultiMap
import Kdct.Client.ContainerNames
import Kdct.Server.Progress
import Kdct.Server.Integrity
import Kdct.UdpTunnel
import Kdct.TcpTunnel.Visitors
import Kdct.Settings
import Kdct.Redirect.Challenges
import Kdct.Handshake.Agreement
import Kdct.Server.PanelFiles
import Kdct.LoadJobs
import Kdct.Server.HttpApi
