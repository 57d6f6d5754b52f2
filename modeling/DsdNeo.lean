import DsdNeo.Models.M17.Agreement
import DsdNeo.Models.M17.PacketProtocol
import DsdNeo.Models.Tetra.Block
import DsdNeo.Models.Talkgroup.AvoidRuns
import DsdNeo.Models.Talkgroup.Blocking
import DsdNeo.Models.P25.Display
import DsdNeo.Models.Keys.Edit
import DsdNeo.Models.Calls.Reacquire
import DsdNeo.Models.Tetra.Rebuilt
import DsdNeo.Models.P25.Isch
import DsdNeo.Models.Input.Fifo
import DsdNeo.Models.Dmr.Superframes
import DsdNeo.Models.Tetra.CmcePrefix
import DsdNeo.Models.Identity.Kept
import DsdNeo.Models.Tetra.SdsDelivered
import DsdNeo.Models.Search.Tuples
import DsdNeo.Models.Tetra.Exact
import DsdNeo.Models.Tetra.ReedMuller
import DsdNeo.Models.Nxdn.Likelihood
import DsdNeo.Models.ChannelScan.Runs
import DsdNeo.Models.Fec.ReedSolomonRuns
import DsdNeo.Models.Fec.BchExact
import DsdNeo.Models.ChannelScan.OperatorKept
import DsdNeo.Models.ChannelScan.RowEdits
import DsdNeo.Models.P25.HalfRate
import DsdNeo.Models.Dmr.Rate34Best
import DsdNeo.Models.Fec.Rs129Exact
import DsdNeo.Models.Fec.BptcDouble
import DsdNeo.Models.M17.Callsign
import DsdNeo.Models.M17.Prbs9
import DsdNeo.Models.M17.Lich
import DsdNeo.Models.P25.Golay24Verdict
import DsdNeo.Models.Dmr.LateEntry
import DsdNeo.Models.Talkgroup.Refresh
import DsdNeo.Models.Trunk.Fair
import DsdNeo.Models.Trunk.LockoutRuns
import DsdNeo.Models.P25.NeighborRuns
import DsdNeo.Models.P25.SeedRuns
import DsdNeo.Models.P25.BandplanExport
import DsdNeo.Models.Calls.Revisions
import DsdNeo.Models.Tetra.Undone
import DsdNeo.Models.DmrTrunk.Rejected
import DsdNeo.Models.Dmr.AggregateRuns
import DsdNeo.Models.P25Trunk.StaleRuns
import DsdNeo.Models.Alias.Records
import DsdNeo.Models.DStar.RoundTrip
import DsdNeo.Models.Iq.Replay
import DsdNeo.Models.Ysf.Channels
import DsdNeo.Models.Iq.WavWalk
import DsdNeo.Models.Scan.Visit
import DsdNeo.Models.Fec.FrameChecks
