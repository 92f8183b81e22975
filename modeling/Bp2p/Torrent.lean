import Bp2p.Json
import Bp2p.Lib.Blocks
import Bp2p.Package
import Bp2p.TorrentDB

/-! # The torrent object

The fields of a `Torrent` and its member functions. A function that may throw
returns the object as the exception leaves it. The object keeps its uid twice: in
its own field, and in the `TorrentDB` it contains, which is what the statements
are executed with. Copying and assigning carry over every field except that one.
-/

namespace Bp2p

/-- What the torrent code is given: `std::hash<string>`, the JSON library, the
packaging steps and the directory of the application. -/
structure Env where
  hash : Bytes → UInt64
  json : JsonLib
  tools : PackageTools
  applicationPath : Bytes

/-- Strings are hashed to their length, and files are not packaged. -/
def Env.byLength (json : JsonLib) : Env where
  hash bytes := .ofNat bytes.length
  json
  tools := .idle
  applicationPath := []

/-- `Torrent::Chunk`. -/
structure Chunk where
  index : UInt32 := 0
  hash : UInt64 := 0
  existing : Bool := false
  deriving DecidableEq

/-- A torrent, with the `TorrentDB` of its own. -/
structure Torrent where
  name : Bytes := []
  files : List Bytes := []
  packagePath : Bytes := []
  uid : UInt64 := 0
  numPieces : UInt32 := 0
  chunks : List Chunk := []
  size : UInt64 := 0
  jobj : Json := .null
  serializedObj : Bytes := []
  db : TorrentDB := {}

namespace Torrent

/-- `Torrent::chunkSize`. -/
def chunkSize : Nat := 32768

/-- `Torrent(name, files)`. -/
def ofFiles (name : Bytes) (files : List Bytes) : Torrent := { name, files }

/-- `Torrent(name)`. -/
def ofName (name : Bytes) : Torrent := { name }

/-- `Torrent(uid)`; the constructor leaves `numPieces` and `size` unset. -/
def ofUid (uid : UInt64) (numPieces : UInt32) (size : UInt64) : Torrent := { uid, numPieces, size }

/-- The copy constructor; the copy's `TorrentDB` is a new one. -/
def copy (torrent : Torrent) : Torrent := { torrent with db := {} }

/-- `operator=`; the assigned object keeps its `TorrentDB`. -/
def assign (target torrent : Torrent) : Torrent := { torrent with db := target.db }

/-- The rows `createChunkRows` makes: indices and flags. -/
def createChunkRows (torrent : Torrent) : List (UInt32 × Bool) :=
  torrent.chunks.map fun chunk => (chunk.index, chunk.existing)

/-- `updateChunkStatusInDB`. -/
def updateChunkStatusInDB (torrent : Torrent) (tables : Database) : Database :=
  torrent.db.updateChunks torrent.createChunkRows tables

/-- The destructor. -/
def destroy (torrent : Torrent) (tables : Database) : Database :=
  torrent.updateChunkStatusInDB tables

/-- The directory of packages. -/
def torrentDataDir : Bytes := ascii ['t', 'o', 'r', 'r', 'e', 'n', 't', 'D', 'a', 't', 'a', '/']

/-- `getTorrentDataPath`. -/
def getTorrentDataPath (env : Env) : Bytes := env.applicationPath ++ torrentDataDir

/-- `getPackagePath`. -/
def getPackagePath (env : Env) (torrent : Torrent) : Bytes :=
  getTorrentDataPath env ++ torrent.name

/-- A torrent with chunks is complete if all exist. -/
def isComplete (torrent : Torrent) : Bool :=
  !torrent.chunks.isEmpty && torrent.chunks.all (·.existing)

/-- A torrent is valid if it has a name, pieces, chunks, a package path and a description. -/
def isValid (torrent : Torrent) : Bool :=
  decide (0 < torrent.numPieces) && !torrent.name.isEmpty && !torrent.packagePath.isEmpty &&
    !torrent.chunks.isEmpty && !torrent.serializedObj.isEmpty

/-- `torrentDataExists`. -/
def torrentDataExists (env : Env) (torrent : Torrent) (files : FileStore) : Bool :=
  files.doesFileExist (torrent.getPackagePath env)

/-- `getChunkAvail`: the indices of the chunks that exist. -/
def getChunkAvail (torrent : Torrent) : List Int32 :=
  (torrent.chunks.filter (·.existing)).map (·.index.toInt32)

/-- The loop of `getMissingChunkIndex`: draw positions until a chunk is missing.
`none` when it is still drawing after all the given draws. -/
def drawMissing (chunks : List Chunk) : List Nat → Option Chunk
  | [] => none
  | draw :: draws =>
      match chunks[draw % chunks.length]? with
      | some chunk => if chunk.existing then drawMissing chunks draws else some chunk
      | none => none

/-- `getMissingChunkIndex`; -1 stands for no chunk. -/
def getMissingChunkIndex (torrent : Torrent) (draws : List Nat) : Option Int32 :=
  if 0 < torrent.chunks.length ∧ torrent.isComplete = false then
    (drawMissing torrent.chunks draws).map (·.index.toInt32)
  else some (-1)

/-- `package`; a packaging that fails leaves the object as it is. -/
def package (env : Env) (files : FileStore) (torrent : Torrent) :
    Torrent × FileStore × Int32 :=
  if torrent.name.isEmpty || torrent.files.isEmpty then (torrent, files, -1)
  else
    let packagePath := torrent.getPackagePath env
    let (files, ret) := Package.package env.tools packagePath torrent.files files
    if ret = 0 then
      ({ torrent with packagePath, size := files.filesize packagePath }, files, ret)
    else (torrent, files, ret)

/-- `unpackage`; `none` when extracting exits the process. -/
def unpackage (env : Env) (files : FileStore) (torrent : Torrent) : Option (FileStore × Int32) :=
  Package.unpackage env.tools (torrent.getPackagePath env) files

/-- `setDBuid`. -/
def setDBuid (torrent : Torrent) : Torrent := { torrent with db := { uid := torrent.uid } }

/-- One turn of the loop of `generateChunks` on the bytes `read` has returned. The
text hashed ends at `begin + gcount - 1`, one byte before the last one read. -/
def addChunk (env : Env) (i : Nat) (fileChunk : Bytes) (torrent : Torrent) : Torrent :=
  let strChunk := fileChunk.take (fileChunk.length - 1)
  let chunkHash := env.hash strChunk
  { torrent with
    chunks := torrent.chunks ++ [{ index := .ofNat i, hash := chunkHash, existing := true }]
    uid := (torrent.uid ^^^ (chunkHash <<< 1)) >>> 1 }

/-- The loop of `generateChunks` over the bytes that are still to be read. The end
of the file is noticed by a read that finds fewer bytes than it asks for. -/
def generateLoop (env : Env) (i : Nat) (rest : Bytes) (torrent : Torrent) :
    Except Torrent Torrent :=
  -- the range of an empty read is negative, and `assign` throws
  if rest.length = 0 then .error torrent
  else if rest.length < chunkSize then .ok (torrent.addChunk env i rest)
  else generateLoop env (i + 1) (rest.drop chunkSize)
    (torrent.addChunk env i (rest.take chunkSize))
termination_by rest.length
decreasing_by
  rw [List.length_drop]
  unfold chunkSize at *
  omega

/-- `generateChunks` of the package, from no chunks on. -/
def generateChunks (env : Env) (files : FileStore) (torrent : Torrent) :
    Except Torrent (Torrent × Int32) :=
  let torrent := { torrent with chunks := [] }
  if torrent.packagePath.isEmpty then .ok (torrent, -1)
  else
    match generateLoop env 0 ((files torrent.packagePath).getD []) torrent with
    | .error torrent => .error torrent
    | .ok torrent =>
        .ok ({ torrent.setDBuid with numPieces := .ofNat torrent.chunks.length }, 0)

/-- `getChunk`; the offset is computed in 32 bits. -/
def getChunk (files : FileStore) (torrent : Torrent) (index : UInt32) : Bytes :=
  match files torrent.packagePath with
  | some content => (content.drop (index * UInt32.ofNat chunkSize).toNat).take chunkSize
  | none => []

/-- A chunk is valid if it has the hash listed for the index. -/
def validateChunk (env : Env) (torrent : Torrent) (chunk : Bytes) (index : UInt32) : Bool :=
  match torrent.chunks[index.toNat]? with
  | some validChunk => validChunk.hash == env.hash chunk
  | none => false

/-- `this->chunks[index].exists = true`. -/
def markExisting (torrent : Torrent) (index : UInt32) : Torrent :=
  { torrent with
    chunks := torrent.chunks.modify index.toNat fun chunk => { chunk with existing := true } }

/-- `putChunk`; the package is opened without being created. -/
def putChunk (env : Env) (files : FileStore) (torrent : Torrent) (chunk : Bytes)
    (index : UInt32) : Torrent × FileStore × Bool :=
  if torrent.validateChunk env chunk index then
    let fullpath := torrent.getPackagePath env
    match files fullpath with
    | some content =>
        let offset := (UInt32.ofNat chunkSize * index).toNat
        (torrent.markExisting index, files.write fullpath (Blocks.writeAt 0 content offset chunk),
          true)
    | none => (torrent, files, false)
  else (torrent, files, false)

/-- `createTorrentDataFile`: a NUL byte written at the last position of an empty
file. A position from `2 ^ 63` on is a negative stream offset, and seeking there fails. -/
def createTorrentDataFile (env : Env) (files : FileStore) (torrent : Torrent) : FileStore :=
  let position := (torrent.size - 1).toNat
  files.write (torrent.getPackagePath env)
    (if position < 2 ^ 63 then Blocks.writeAt 0 [] position [0] else [])

/-- The key of the name. -/
def nameKey : Bytes := ascii ['n', 'a', 'm', 'e']

/-- The key of the uid. -/
def uidKey : Bytes := ascii ['u', 'i', 'd']

/-- The key of the number of pieces. -/
def numPiecesKey : Bytes := ascii ['n', 'u', 'm', 'P', 'i', 'e', 'c', 'e', 's']

/-- The key of the size. -/
def sizeKey : Bytes := ascii ['s', 'i', 'z', 'e']

/-- The loop of `serialize`: one member for each chunk, named by its position. -/
def serializeChunks (i : Nat) : List Chunk → Json → Option Json
  | [], jobj => some jobj
  | chunk :: rest, jobj =>
      match jobj.assign (Decimal.numeral i)
          (.array [.unsigned chunk.hash, .boolean chunk.existing]) with
      | some jobj => serializeChunks (i + 1) rest jobj
      | none => none

/-- The members `serialize` sets, `none` when the value has no members. -/
def serializeFields (torrent : Torrent) : Option Json := do
  let jobj ← torrent.jobj.assign nameKey (.string torrent.name)
  let jobj ← jobj.assign uidKey (.unsigned torrent.uid)
  let jobj ← jobj.assign numPiecesKey (.unsigned torrent.numPieces.toUInt64)
  let jobj ← jobj.assign sizeKey (.unsigned torrent.size)
  serializeChunks 0 torrent.chunks jobj

/-- `serialize`: a torrent without a name, pieces or chunks keeps the text it has. -/
def serialize (env : Env) (torrent : Torrent) : Except Torrent Torrent :=
  if torrent.name.isEmpty || torrent.numPieces == 0 || torrent.chunks.isEmpty then .ok torrent
  else
    match torrent.serializeFields with
    | none => .error torrent
    | some jobj =>
        match env.json.dump jobj with
        | none => .error { torrent with jobj }
        | some serializedObj => .ok { torrent with jobj, serializedObj }

/-- `this->jobj[key]` followed by a conversion, either of which may throw. -/
def fetch {α : Type} (convert : Json → Option α) (key : Bytes) (torrent : Torrent) :
    Except Torrent (Torrent × α) :=
  match torrent.jobj.access key with
  | none => .error torrent
  | some (jobj, value) =>
      match convert value with
      | none => .error { torrent with jobj }
      | some result => .ok ({ torrent with jobj }, result)

/-- `hashpair[0]` and, unless the torrent is new here, `hashpair[1]`. -/
def convertChunk (json : JsonLib) (create : Bool) (hashpair : Json) : Option (UInt64 × Bool) := do
  let hash ← json.getSizeT (← hashpair.element 0)
  if create then some (hash, false)
  else
    let existing ← json.getBool (← hashpair.element 1)
    some (hash, existing)

/-- The loop of `deserialize`, with the number of turns left. -/
def deserializeChunks (env : Env) (create : Bool) :
    (left i : Nat) → Torrent → Except Torrent Torrent
  | 0, _, torrent => .ok torrent
  | left + 1, i, torrent => do
      let (torrent, hash, existing) ←
        torrent.fetch (convertChunk env.json create) (Decimal.numeral i)
      deserializeChunks env create left (i + 1)
        { torrent with chunks := torrent.chunks ++ [{ index := .ofNat i, hash, existing }] }

/-- The fields `deserialize` reads once the text is parsed. -/
def deserializeFields (env : Env) (create : Bool) (torrent : Torrent) :
    Except Torrent Torrent := do
  let (torrent, name) ← torrent.fetch env.json.getString nameKey
  let (torrent, numPieces) ← { torrent with name }.fetch env.json.getUnsignedInt numPiecesKey
  let (torrent, uid) ← { torrent with numPieces }.fetch env.json.getSizeT uidKey
  let (torrent, size) ← { torrent with uid }.fetch env.json.getUnsignedLongLong sizeKey
  let torrent := { torrent with size }
  deserializeChunks env create numPieces.toNat 0
    { torrent with packagePath := torrent.getPackagePath env }

/-- `deserialize`; what throws is caught, and the fields read so far stay. -/
def deserialize (env : Env) (create : Bool) (torrent : Torrent) : Torrent :=
  if torrent.serializedObj.isEmpty then torrent
  else
    let torrent := { torrent with chunks := [] }
    let torrent :=
      match env.json.parse torrent.serializedObj with
      | none => torrent
      | some jobj =>
          match deserializeFields env create { torrent with jobj } with
          | .ok torrent => torrent
          | .error torrent => { torrent with chunks := [] }
    { torrent with
      chunks := torrent.chunks.mergeSort fun first second => first.index ≤ second.index }

/-- The loop of `insertTorrentToDB`. -/
def insertChunks (refuses : Insert → Bool) (db : TorrentDB) :
    List Chunk → Database → Database × Bool
  | [], tables => (tables, true)
  | chunk :: rest, tables =>
      match db.insertIntoChunks refuses chunk.index chunk.hash chunk.existing tables with
      | some tables => insertChunks refuses db rest tables
      | none => (tables, false)

/-- `insertTorrentToDB`; the inserts made before one fails stay. -/
def insertTorrentToDB (refuses : Insert → Bool) (torrent : Torrent) (tables : Database) :
    Database × Bool :=
  match torrent.db.insertIntoTorrents refuses torrent.name torrent.numPieces torrent.size
      tables with
  | none => (tables, false)
  | some tables =>
      match torrent.db.insertIntoFiles refuses torrent.files tables with
      | (tables, true) => insertChunks refuses torrent.db torrent.chunks tables
      | (tables, false) => (tables, false)

/-- `createTorrentFromRow`; files and chunks go behind the ones there are. -/
def createTorrentFromRow (torrent : Torrent) (row : TorrentDB.TorrentJoined) : Torrent :=
  { torrent with
    uid := row.torrentInfo.uid
    name := row.torrentInfo.name
    numPieces := row.torrentInfo.numPieces
    size := row.torrentInfo.size
    files := torrent.files ++ row.files.map (·.name)
    chunks := torrent.chunks ++ row.chunks.map fun chunk =>
      { index := chunk.index, hash := chunk.hash.toUInt64, existing := chunk.existing } }

/-- `getTorrentFromDB`. -/
def getTorrentFromDB (order : RowOrder) (tables : Database) (torrent : Torrent) : Torrent :=
  torrent.createTorrentFromRow (torrent.db.getJoinedTorrent order tables)

/-- `getAllTorrents`. -/
def getAllTorrents (order : RowOrder) (tables : Database) : List Torrent :=
  (TorrentDB.getAllTorrentRows order tables).map ({} : Torrent).createTorrentFromRow

/-- The insert of a valid torrent that ends `create` and its sibling. -/
def insertIfValid (refuses : Insert → Bool) (torrent : Torrent) (tables : Database) :
    Database × Bool :=
  if torrent.isValid then torrent.insertTorrentToDB refuses tables else (tables, false)

/-- `create()`. -/
def create (env : Env) (refuses : Insert → Bool) (torrent : Torrent) (files : FileStore)
    (tables : Database) : Except Torrent (Torrent × Bool) × FileStore × Database :=
  let (torrent, files, _) := torrent.package env files
  match torrent.generateChunks env files with
  | .error torrent => (.error torrent, files, tables)
  | .ok (torrent, _) =>
      match torrent.serialize env with
      | .error torrent => (.error torrent, files, tables)
      | .ok torrent =>
          let (tables, res) := torrent.insertIfValid refuses tables
          (.ok (torrent, res), files, tables)

/-- `createTorrentFromSerializedObj`; unlike `generateChunks` it does not pass the
uid on to the `TorrentDB`. -/
def createTorrentFromSerializedObj (env : Env) (refuses : Insert → Bool) (serializedObj : Bytes)
    (torrent : Torrent) (tables : Database) : Except Torrent (Torrent × Bool) × Database :=
  if serializedObj.isEmpty then (.ok (torrent, false), tables)
  else
    match (deserialize env true { torrent with serializedObj }).serialize env with
    | .error torrent => (.error torrent, tables)
    | .ok torrent =>
        let (tables, res) := torrent.insertIfValid refuses tables
        (.ok (torrent, res), tables)

end Torrent

/-- `open()`. -/
def Torrent.open (env : Env) (order : RowOrder) (tables : Database) (torrent : Torrent) :
    Except Torrent (Torrent × Bool) :=
  if torrent.uid = 0 then .ok (torrent, false)
  else
    let torrent := torrent.setDBuid.getTorrentFromDB order tables
    match { torrent with packagePath := torrent.getPackagePath env }.serialize env with
    | .error torrent => .error torrent
    | .ok torrent => .ok (torrent, torrent.isValid)

/-- `open(uid)`. -/
def Torrent.openUid (env : Env) (order : RowOrder) (tables : Database) (uid : UInt64)
    (torrent : Torrent) : Except Torrent (Torrent × Bool) :=
  { torrent with uid }.open env order tables

end Bp2p
