import SikUdp.Library.BigEndian
import SikUdp.Library.NulTerminated
import SikUdp.Library.BoundedFifo
import SikUdp.Library.Backlog
import SikUdp.Library.IntervalQueue
import SikUdp.Library.TracedRun
import SikUdp.Library.DeliveryLog
import SikUdp.Library.LossyChannel
import SikUdp.Library.Relay
import SikUdp.Library.Gregorian
import SikUdp.Library.Decimal
import SikUdp.Library.SelfDelimiting
import SikUdp.Program.System
import SikUdp.Program.Protocol
import SikUdp.Program.Communication
import SikUdp.Program.Buffer
import SikUdp.Program.File
import SikUdp.Program.Poll
import SikUdp.Program.Connections
import SikUdp.Program.Server
import SikUdp.Program.Client
import SikUdp.Program.Parse
import SikUdp.Program.Main
import SikUdp.Containers.Fifo
import SikUdp.Containers.PollSet
import SikUdp.Containers.PollBounds
import SikUdp.Wire.Decoding
import SikUdp.Wire.Formats
import SikUdp.Wire.Isolation
import SikUdp.Wire.Timestamps
import SikUdp.Roster.Presence
import SikUdp.Roster.Histories
import SikUdp.Roster.Renewal
import SikUdp.Roster.Traversal
import SikUdp.Roster.Retention
import SikUdp.Roster.Recency
import SikUdp.Startup.Arguments
import SikUdp.Startup.FileContent
import SikUdp.Runs.Transitions
import SikUdp.Runs.Reachability
import SikUdp.Runs.EventLoop
import SikUdp.Runs.Safety
import SikUdp.Runs.Acceptance
import SikUdp.Runs.Senders
import SikUdp.Runs.Calls
import SikUdp.Runs.DeliveryOrder
import SikUdp.Runs.Losses
import SikUdp.Runs.Observations
import SikUdp.Runs.Recipients
import SikUdp.Runs.Strangers
import SikUdp.Runs.Output
import SikUdp.Runs.Sending
import SikUdp.Runs.Records
import SikUdp.Runs.Recency
import SikUdp.Runs.Rest
import SikUdp.Runs.Indifference
import SikUdp.Runs.Relay
import SikUdp.Startup.ServerProgram
import SikUdp.Startup.ClientProgram
import SikUdp.Network.Model
import SikUdp.Network.Parties
import SikUdp.Network.Origins
import SikUdp.Network.Delivery
import SikUdp.Network.Completion
import SikUdp.Network.Conformance
