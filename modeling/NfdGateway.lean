import NfdGateway.Cs.LastUse
import NfdGateway.Cs.Queues
import NfdGateway.Cs.Rightmost
import NfdGateway.Face.FragmentSizes
import NfdGateway.Face.LinkService
import NfdGateway.Face.Network
import NfdGateway.Face.StreamTransport
import NfdGateway.Fw.DeadNonces
import NfdGateway.Fw.FloodTimer
import NfdGateway.Fw.FlowBalance
import NfdGateway.Fw.NackRound
import NfdGateway.Fw.OutgoingInterest
import NfdGateway.Fw.Scope
import NfdGateway.Fw.Timers
import NfdGateway.Location.CurrentNeighbors
import NfdGateway.Location.Incoming
import NfdGateway.Nwd.Arrivals
import NfdGateway.Nwd.FaceIdFetcher
import NfdGateway.Nwd.NeighborPrefixes
import NfdGateway.Nwd.WaitData
import NfdGateway.Pit.DataMatch
import NfdGateway.Rib.ExpirationEvents
import NfdGateway.Rib.FibCommands
import NfdGateway.Rib.PropagationStates
import NfdGateway.Rib.RecordedRoutes
import NfdGateway.Rib.SigningIdentity
import NfdGateway.Rib.StatusDataset
import NfdGateway.Serial.Framing
import NfdGateway.Serial.HandleInterest
import NfdGateway.Serial.NodeMapping
import NfdGateway.Serial.TopologyTree
import NfdGateway.Serial.UsbWrite
import NfdGateway.Table.DeadNonceEvents
import NfdGateway.Table.Shared
import NfdGateway.Table.Strategies
