import MisFITS.Cache
import MisFITS.Isolation
import MisFITS.Tiling
import MisFITS.Bits
import MisFITS.Cursors
import MisFITS.CreatedColumns
import MisFITS.RejectedCopy
import MisFITS.UnflushedRows
import MisFITS.SharedFile
import MisFITS.Keywords
import MisFITS.BitStore
import MisFITS.AddedStrings
import MisFITS.HduList
import MisFITS.CopiedNames
import MisFITS.ResizedColumns
import MisFITS.BlockRows
import MisFITS.Attempts
import MisFITS.KeywordIterator
import MisFITS.ErrorText
import MisFITS.EqualExtents
import MisFITS.BitSetIterator
import MisFITS.StaleRows
import MisFITS.CopiedRecords
import MisFITS.MirroredRows
import MisFITS.Readers
import MisFITS.Likenesses
import MisFITS.KeywordStore
