import SecFw.Acl.Lookup
import SecFw.Acl.Faithful
import SecFw.Acl.PreBuildHSTree
import SecFw.Srv.Rule
import SecFw.Srv.SockMap
import SecFw.Srv.Octeon
import SecFw.Decode.Reassembly
import SecFw.Flow.Safety
import SecFw.Common.Message
import SecFw.Srv.Framing
import SecFw.Srv.Request
import SecFw.Platform.PoolExhaustion
import SecFw.Platform.PoolInit
import SecFw.Common.SosMalloc
import SecFw.Common.SosRegion
import SecFw.Common.SosCounters
import SecFw.Decode.Grammar
import SecFw.Decode.FragTable
import SecFw.Packets.Calls
import SecFw.Packets.Disposal
import SecFw.Defrag.Safety
import SecFw.Segments.Tiling
import SecFw.Decode.Fragment
import SecFw.Decode.Handled
import SecFw.Decode.FragList
import SecFw.Decode.Tiling
import SecFw.Decode.Carried
import SecFw.Acl.Calls
import SecFw.Acl.Leaves
import SecFw.Acl.SplitArith
import SecFw.Cells.Basic
import SecFw.Acl.PointTable
import SecFw.Acl.WordArrays
import SecFw.Acl.PointArrays
import SecFw.Acl.SegPointPasses
import SecFw.Acl.Prediction
import SecFw.Acl.IPRange
import SecFw.Decode.Checksum
import SecFw.Client.Rule
import SecFw.Client.Show
import SecFw.Platform.TxRing
import SecFw.Platform.RxWork
import SecFw.Platform.TxPort
import SecFw.Flow.AgeingRun
import SecFw.Client.History
import SecFw.Client.Words
import SecFw.Client.Fsm
import SecFw.Client.Undo
import SecFw.Client.Commands
import SecFw.Client.Values
import SecFw.Client.Input
import SecFw.Client.Sync
import SecFw.Client.Execute
import SecFw.Client.Stack
import SecFw.Client.Generator
import SecFw.Client.Linked
import SecFw.Client.Help
