import Greenplum.DtmAtomicity
import Greenplum.UdpDelivery
import Greenplum.FtsSafety
import Greenplum.BitmapBounds
import Greenplum.VisimapFinish
import Greenplum.BlockDirectorySearch
import Greenplum.AppendOnlyInsert
import Greenplum.VarBlockCheck
import Greenplum.VarBlockRoundTrip
import Greenplum.CdbColocation
import Greenplum.AoStorageHeaders
import Greenplum.AoStorageSkip
import Greenplum.AoStoragePositions
import Greenplum.PartitionRouting
import Greenplum.MkHeapReaders
import Greenplum.GddVictims
import Greenplum.DtmAbort
import Greenplum.DtmRedo
import Greenplum.DistributedLogSafety
import Greenplum.DatumStreamRuns
import Greenplum.TupleStoreLobs
import Greenplum.AoTupleIds
