import Bp2p.Tokenize

/-! # Requests and responses

The four packet classes, the bytes each writes and reads, and the factory that
picks the class of a received request. A packet carries the request message, the
response message and the two devices; each class adds what it asks for and what
it was told.
-/

namespace Bp2p

/-- A Bluetooth device. The class compares, orders and hashes devices by address. -/
structure DeviceDescriptor where
  addr : Bytes
  deriving DecidableEq

namespace DeviceDescriptor

/-- The address keeps `addrLen` characters. -/
def addrLen : Nat := 17

/-- `DeviceDescriptor(addr)`: the address is resized to `addrLen`. -/
def create (addr : Bytes) : DeviceDescriptor :=
  ⟨(addr ++ List.replicate addrLen 0).take addrLen⟩

/-- Devices are ordered by their addresses. -/
instance : Ord DeviceDescriptor := ⟨fun first second => compare first.addr second.addr⟩

/-- The order of devices is one. -/
instance : Std.TransOrd DeviceDescriptor where
  eq_swap {first second} :=
    @Std.OrientedCmp.eq_swap Bytes compare _ first.addr second.addr
  isLE_trans {first second third} :=
    @Std.TransCmp.isLE_trans Bytes compare _ first.addr second.addr third.addr

/-- Devices of one address are the same. -/
instance : Std.LawfulEqOrd DeviceDescriptor where
  eq_of_compare := fun {first second} same => by
    cases first
    cases second
    exact congrArg DeviceDescriptor.mk (@Std.LawfulEqCmp.eq_of_compare Bytes compare _ _ _ same)

end DeviceDescriptor

/-- The bytes of a message and the size sent with them. -/
structure Message where
  data : Bytes := []
  size : UInt32 := 0
  deriving DecidableEq

/-- Copying a text behind the data, with the size of the text alone. -/
def Message.push (message : Message) (text : Bytes) : Message where
  data := message.data ++ text
  size := UInt32.ofNat text.length

/-- What every packet class carries. -/
structure RRPacket where
  req : Message := {}
  rsp : Message := {}
  localAddr : DeviceDescriptor := ⟨[]⟩
  remoteAddr : DeviceDescriptor := ⟨[]⟩
  deriving DecidableEq

namespace RRPacket

/-- What requests start with. -/
def commString : Bytes := ascii ['b', 'p', '2', 'p']

/-- The byte `|`. -/
def bar : UInt8 := 124

/-- The separator of the fields of requests and responses, `||`. -/
def commSeparator : Utils.Sep := ⟨[bar, bar], List.cons_ne_nil _ _⟩

/-- `RequestType`; the numbers are the ones sent. -/
inductive RequestType
  | badReq
  | torrentList
  | torrentFile
  | torrentAvailability
  | chunk
  deriving DecidableEq, Repr

/-- `static_cast<int>`. -/
def RequestType.code : RequestType → Int32
  | .badReq => 0
  | .torrentList => 1
  | .torrentFile => 2
  | .torrentAvailability => 3
  | .chunk => 4

/-- `static_cast<RequestType>`; other numbers are no enumerator. -/
def RequestType.ofCode (code : Int32) : Option RequestType :=
  [.badReq, .torrentList, .torrentFile, .torrentAvailability, .chunk].find? (·.code == code)

/-- The protocol's name, the separator and the type: the front of every request. -/
def requestHead (type : RequestType) : Bytes :=
  commString ++ commSeparator.val ++ toString32 type.code

end RRPacket

open RRPacket

/-- A request for the names of a device's torrents. -/
structure TorrentListReq extends RRPacket where
  torrentList : List Bytes := []
  deriving DecidableEq

namespace TorrentListReq

/-- `create(remoteAddr, localAddr)`. -/
def create (packet : TorrentListReq) (remoteAddr localAddr : DeviceDescriptor) : TorrentListReq :=
  { packet with localAddr, remoteAddr }

/-- A list request has the head only. -/
def createRequest (packet : TorrentListReq) : TorrentListReq :=
  { packet with req := packet.req.push (requestHead .torrentList) }

/-- Every name with a separator behind it, less the last separator. -/
def serializeTorrentList (torrentNames : List Bytes) : Bytes :=
  let serializedList := torrentNames.flatMap fun torrentName => torrentName ++ commSeparator.val
  if 2 < serializedList.length then serializedList.dropLast.dropLast else serializedList

/-- The response is the list of names. -/
def processRequest (packet : TorrentListReq) (torrentList : List Bytes) : TorrentListReq :=
  { packet with torrentList, rsp := packet.rsp.push (serializeTorrentList torrentList) }

/-- The names are the tokens of the response. -/
def parseTorrentList (rsp : Bytes) : List Bytes :=
  Utils.tokenize rsp commSeparator []

/-- The response is kept with the names in it. -/
def processResponse (packet : TorrentListReq) (msg : Message) : TorrentListReq :=
  { packet with rsp := msg, torrentList := parseTorrentList msg.data }

end TorrentListReq

/-- The third token of a request, kept when there is none. -/
def nameToken (request current : Bytes) : Bytes :=
  let tokens := Utils.tokenize request commSeparator []
  if 2 < tokens.length then tokens.getD 2 [] else current

/-- A request for the description of a torrent. -/
structure TorrentFileReq extends RRPacket where
  torrentName : Bytes := []
  serializedTorrent : Bytes := []
  deriving DecidableEq

namespace TorrentFileReq

/-- `create(remoteAddr, localAddr, torrentName)`. -/
def create (packet : TorrentFileReq) (remoteAddr localAddr : DeviceDescriptor)
    (torrentName : Bytes) : TorrentFileReq :=
  { packet with localAddr, remoteAddr, torrentName }

/-- The name stands behind the head. -/
def createRequest (packet : TorrentFileReq) : TorrentFileReq :=
  { packet with
    req := packet.req.push (requestHead .torrentFile ++ (commSeparator.val ++ packet.torrentName)) }

/-- The name in a request. -/
def extractTorrentName (packet : TorrentFileReq) : Bytes :=
  nameToken packet.req.data []

/-- The response is the description. -/
def processRequest (packet : TorrentFileReq) (serializedTorrent : Bytes) : TorrentFileReq :=
  { packet with serializedTorrent, rsp := packet.rsp.push serializedTorrent }

/-- The response is kept, and is the description. -/
def processResponse (packet : TorrentFileReq) (msg : Message) : TorrentFileReq :=
  { packet with rsp := msg, serializedTorrent := msg.data }

end TorrentFileReq

/-- A request for the indices of the chunks a device has of a torrent. -/
structure TorrentAvailReq extends RRPacket where
  torrentName : Bytes := []
  torrentAvail : List Int32 := []
  deriving DecidableEq

namespace TorrentAvailReq

/-- `create(torrentName, remoteAddr, localAddr)`. -/
def create (packet : TorrentAvailReq) (torrentName : Bytes)
    (remoteAddr localAddr : DeviceDescriptor) : TorrentAvailReq :=
  { packet with torrentName, localAddr, remoteAddr }

/-- The name stands behind the head. -/
def createRequest (packet : TorrentAvailReq) : TorrentAvailReq :=
  { packet with
    req := packet.req.push
      (requestHead .torrentAvailability ++ (commSeparator.val ++ packet.torrentName)) }

/-- Unlike its siblings this one clears the packet's own name and leaves the
caller's name when there is no third token. -/
def extractTorrentName (packet : TorrentAvailReq) (torrentName : Bytes) :
    TorrentAvailReq × Bytes :=
  ({ packet with torrentName := [] }, nameToken packet.req.data torrentName)

/-- The numbers with a separator between any two. -/
def serializeAvail : List Int32 → Bytes
  | [] => []
  | [last] => toString32 last
  | first :: rest => toString32 first ++ commSeparator.val ++ serializeAvail rest

/-- The response is the list of indices. -/
def processRequest (packet : TorrentAvailReq) (torrentAvail : List Int32) : TorrentAvailReq :=
  { packet with torrentAvail, rsp := packet.rsp.push (serializeAvail torrentAvail) }

/-- The loop of `processResponse`. An `invalid_argument` clears what was read and
stops the loop; an `out_of_range` is not caught. -/
def parseAvail : List Bytes → List Int32 → Except StoiError (List Int32)
  | [], torrentAvail => .ok torrentAvail
  | strAvailChunk :: rest, torrentAvail =>
      match stoi strAvailChunk with
      | .ok availChunk => parseAvail rest (torrentAvail ++ [availChunk])
      | .error .invalidArgument => .ok []
      | .error .outOfRange => .error .outOfRange

/-- The response is kept with the indices in it, unless `stoi` throws on one. -/
def processResponse (packet : TorrentAvailReq) (msg : Message) :
    Except StoiError TorrentAvailReq :=
  match parseAvail (Utils.tokenize msg.data commSeparator []) packet.torrentAvail with
  | .ok torrentAvail => .ok { packet with rsp := msg, torrentAvail }
  | .error thrown => .error thrown

end TorrentAvailReq

/-- A request for a chunk. -/
structure ChunkReq extends RRPacket where
  torrentName : Bytes := []
  index : Int32 := -1
  deriving DecidableEq

namespace ChunkReq

/-- The name and the index stand behind the head. -/
def createRequest (packet : ChunkReq) : ChunkReq :=
  { packet with
    req := packet.req.push
      (requestHead .chunk ++ (commSeparator.val ++ packet.torrentName) ++
        (commSeparator.val ++ toString32 packet.index)) }

/-- The name in a request. -/
def extractTorrentName (strreq : Bytes) : Bytes :=
  nameToken strreq []

/-- The fourth token as a number, `-1` when it is missing or unreadable. -/
def extractIndexFromReq (strreq : Bytes) : Int32 :=
  let tokens := Utils.tokenize strreq commSeparator []
  if 3 < tokens.length then
    match stoi (tokens.getD 3 []) with
    | .ok index => index
    | .error _ => -1
  else -1

/-- The name and the index in a request. -/
def extractNameAndIndex (packet : ChunkReq) : Bytes × Int32 :=
  (extractTorrentName packet.req.data, extractIndexFromReq packet.req.data)

/-- The response is the chunk. -/
def processRequest (packet : ChunkReq) (chunk : Bytes) : ChunkReq :=
  { packet with rsp := { data := chunk, size := UInt32.ofNat chunk.length } }

/-- The response is kept. -/
def processResponse (packet : ChunkReq) (msg : Message) : ChunkReq :=
  { packet with rsp := msg }

/-- `getChunk`. -/
def chunk (packet : ChunkReq) : Bytes := packet.rsp.data

end ChunkReq

/-- A `shared_ptr<RRPacket>` or `RRPacket&` with its dynamic type. -/
inductive Packet
  | list (packet : TorrentListReq)
  | file (packet : TorrentFileReq)
  | avail (packet : TorrentAvailReq)
  | chunk (packet : ChunkReq)
  deriving DecidableEq

namespace Packet

/-- What all packets have. -/
def base : Packet → RRPacket
  | .list packet => packet.toRRPacket
  | .file packet => packet.toRRPacket
  | .avail packet => packet.toRRPacket
  | .chunk packet => packet.toRRPacket

/-- The class of a packet. -/
def type : Packet → RequestType
  | .list _ => .torrentList
  | .file _ => .torrentFile
  | .avail _ => .torrentAvailability
  | .chunk _ => .chunk

/-- `createRequest` of the packet's class. -/
def createRequest : Packet → Packet
  | .list packet => .list packet.createRequest
  | .file packet => .file packet.createRequest
  | .avail packet => .avail packet.createRequest
  | .chunk packet => .chunk packet.createRequest

/-- `processResponse` of the packet's class. -/
def processResponse (msg : Message) : Packet → Except StoiError Packet
  | .list packet => .ok (.list (packet.processResponse msg))
  | .file packet => .ok (.file (packet.processResponse msg))
  | .avail packet => (packet.processResponse msg).map .avail
  | .chunk packet => .ok (.chunk (packet.processResponse msg))

end Packet

namespace RRFactory

/-- The type of a request. `after` is the memory behind the copied request: the
number is read from a `char*` into the data, which carries no terminator. -/
def getReqTypeFromReq (req : Message) (after : Bytes) : Option RequestType :=
  let front := commString ++ commSeparator.val
  if req.data.length ≤ front.length then some .badReq
  else if Separator.find front req.data ≠ some 0 then some .badReq
  else
    match stoi (cString (req.data.drop front.length ++ after)) with
    | .error _ => some .badReq
    | .ok iReqType => RequestType.ofCode iReqType

/-- A new packet of the type that a request names, with the request in it. -/
def create (req : Message) (after : Bytes) : Option Packet :=
  match getReqTypeFromReq req after with
  | some .torrentFile => some (.file { req })
  | some .chunk => some (.chunk { req })
  | some .torrentList => some (.list { req })
  | some .torrentAvailability => some (.avail { req })
  | some .badReq => none
  | none => none

end RRFactory

end Bp2p
