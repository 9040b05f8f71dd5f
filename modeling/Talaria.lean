import Talaria.Typeof
import Talaria.Column
import Talaria.Block
import Talaria.Flush
import Talaria.Disk
import Talaria.Disk.Iterator
import Talaria.Disk.Storage
import Talaria.Compact.Tick
import Talaria.Presto.Codec
import Talaria.Compact.System
import Talaria.Compact.Conserve
import Talaria.Ingest.Parquet
import Talaria.Writer.Talaria
