import Bcachefs.Lib.WordStream
import Bcachefs.Bkey.Format
import Bcachefs.Bkey.Pack
import Bcachefs.Bkey.Cmp
import Bcachefs.Lib.SortedRuns
import Bcachefs.Bset.Node
import Bcachefs.Bkey.FormatState
import Bcachefs.Bkey.PackPos
import Bcachefs.Bkey.Transform
import Bcachefs.Bset.Iter
import Bcachefs.Lib.Loop
import Bcachefs.Journal.Keys
import Bcachefs.Extents.Entry
import Bcachefs.Alloc.Backpointers
import Bcachefs.Extents.Merge
import Bcachefs.Extents.Cut
import Bcachefs.Extents.Ptrs
import Bcachefs.Lib.HeapSort
import Bcachefs.Lib.Coalesce
import Bcachefs.WriteBuffer.KeyRef
import Bcachefs.WriteBuffer.Flush
import Bcachefs.WriteBuffer.Replay
import Bcachefs.Lib.Bytes
import Bcachefs.Dirent.Key
import Bcachefs.Lib.Eytzinger
import Bcachefs.Lib.EytzingerSort
import Bcachefs.Accounting.Mem
import Bcachefs.Accounting.Ledger
import Bcachefs.Accounting.Commit
import Bcachefs.Journal.Update
import Bcachefs.Util.TimeStats
import Bcachefs.Lib.Chain
import Bcachefs.Snapshot.Ancestor
import Bcachefs.Util.Varint
import Bcachefs.Lib.Bitfield
import Bcachefs.Inode.Pack
import Bcachefs.Super.Fields
import Bcachefs.Lib.EytzingerWalk
import Bcachefs.Util.Eytzinger
import Bcachefs.Lib.EytzingerSearch
import Bcachefs.Util.EytzingerFind
import Bcachefs.Journal.SeqBlacklist
import Bcachefs.Util.Bitflags
import Bcachefs.Extents.CrcAppend
import Bcachefs.Lib.DoubleWord
import Bcachefs.Util.MeanAndVariance
import Bcachefs.Util.Printbuf
import Bcachefs.Util.PrintbufInvariant
import Bcachefs.Lib.Crc
import Bcachefs.Util.Crc
import Bcachefs.Util.Checksum
import Bcachefs.Lib.Runs
import Bcachefs.Journal.Sb
import Bcachefs.Bset.Sort
