import Warpfile.Protocol.Agreement
import Warpfile.Protocol.Codecs
import Warpfile.Storage.Formats
import Warpfile.Storage.Partition
import Warpfile.Storage.ReceiptRuns
import Warpfile.Storage.SerdeJson
import Warpfile.V02.Course
import Warpfile.V02.Failure
import Warpfile.V02.Interruption
import Warpfile.V02.Soundness
import Warpfile.V03.ChunkMap
import Warpfile.V03.Completion
import Warpfile.V03.Confinement
import Warpfile.V03.Coverage
import Warpfile.V03.Emission
import Warpfile.V03.Interruption
import Warpfile.V03.Inventory
import Warpfile.V03.Manifest
import Warpfile.V03.Preparation
import Warpfile.V03.Publication
import Warpfile.V03.Soundness
