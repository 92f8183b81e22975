import Bp2p.AnswerRequest
import Bp2p.AvailFormat
import Bp2p.Availability
import Bp2p.ChunkRange
import Bp2p.Commands
import Bp2p.Completes
import Bp2p.Connection
import Bp2p.CreateTorrent
import Bp2p.Delivered
import Bp2p.InsertAtomic
import Bp2p.Intact
import Bp2p.MissingChunk
import Bp2p.Origins
import Bp2p.OverChannel
import Bp2p.OwnFlags
import Bp2p.PackagePath
import Bp2p.PackageUid
import Bp2p.PutChunk
import Bp2p.PutStream
import Bp2p.Reload
import Bp2p.RequestMemory
import Bp2p.RequestRun
import Bp2p.Restart
import Bp2p.Seeded
import Bp2p.SendRequest
import Bp2p.Sharing
import Bp2p.Shutdown
import Bp2p.Swarm
import Bp2p.TempFile
import Bp2p.TorrentListFormat
import Bp2p.TorrentObject
