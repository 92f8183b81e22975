import Bp2p.Utils

/-! # The torrent database

The three tables, the statements `TorrentDB` executes on them, and what its
functions return. Every statement is atomic and committed on its own. Numbers are
bound with `setUInt`, so the 64-bit uid and chunk hashes are reduced to 32 bits
on their way into a table. A query returns the rows in an order of the server's
choosing (`Bp2p.RowOrder`); an insert may be refused by the server for any reason
besides a violated key.
-/

namespace Bp2p

/-- A row of the table `torrents`. -/
structure TorrentsRecord where
  uid : UInt32
  name : Bytes
  numPieces : UInt32
  size : UInt64
  deriving DecidableEq

/-- A row of the table `files`. -/
structure FilesRecord where
  uid : UInt32
  name : Bytes
  deriving DecidableEq

/-- A row of the table `chunks`; `chunkExists` is stored as 0 or 1. -/
structure ChunksRecord where
  uid : UInt32
  chunkIndex : UInt32
  chunkHash : UInt32
  chunkExists : Bool
  deriving DecidableEq

/-- The tables of the database. -/
structure Database where
  torrents : List TorrentsRecord := []
  files : List FilesRecord := []
  chunks : List ChunksRecord := []
  deriving DecidableEq

/-- The order in which queries return rows. -/
structure RowOrder where
  torrents : List TorrentsRecord → List TorrentsRecord
  files : List FilesRecord → List FilesRecord
  chunks : List ChunksRecord → List ChunksRecord
  torrents_perm : ∀ rows, (torrents rows).Perm rows
  files_perm : ∀ rows, (files rows).Perm rows
  chunks_perm : ∀ rows, (chunks rows).Perm rows

/-- Rows in the order they were inserted. -/
def RowOrder.insertion : RowOrder where
  torrents := id
  files := id
  chunks := id
  torrents_perm _ := .refl _
  files_perm _ := .refl _
  chunks_perm _ := .refl _

/-- An insert with its bound values. -/
inductive Insert
  | torrents (row : TorrentsRecord)
  | files (row : FilesRecord)
  | chunks (row : ChunksRecord)
  deriving DecidableEq

namespace Database

/-- The table `torrents` has a row of the uid. -/
def hasTorrent (tables : Database) (uid : UInt32) : Bool :=
  tables.torrents.any (·.uid == uid)

/-- An insert, unless it violates a primary or foreign key. -/
def insert (tables : Database) : Insert → Option Database
  | .torrents row =>
      if tables.hasTorrent row.uid then none
      else some { tables with torrents := tables.torrents ++ [row] }
  | .files row =>
      if tables.files.any (fun other => other.uid == row.uid && other.name == row.name) ||
          !tables.hasTorrent row.uid then none
      else some { tables with files := tables.files ++ [row] }
  | .chunks row =>
      if tables.chunks.any (fun other => other.uid == row.uid &&
          other.chunkIndex == row.chunkIndex) || !tables.hasTorrent row.uid then none
      else some { tables with chunks := tables.chunks ++ [row] }

/-- `execute` of an insert; `refuses` are the inserts the server fails. -/
def execute (refuses : Insert → Bool) (tables : Database) (statement : Insert) :
    Option Database :=
  if refuses statement then none else tables.insert statement

/-- `UPDATE chunks SET chunk_exists=? WHERE uid=? AND chunk_index=?`. -/
def updateChunk (tables : Database) (uid chunkIndex : UInt32) (chunkExists : Bool) : Database :=
  { tables with
    chunks := tables.chunks.map fun row =>
      if row.uid = uid ∧ row.chunkIndex = chunkIndex then { row with chunkExists } else row }

end Database

/-- The part of a `TorrentDB` object that its functions use. -/
structure TorrentDB where
  uid : UInt64 := 0
  deriving DecidableEq

namespace TorrentDB

/-- A row of a query for torrents. -/
structure TorrentInfoRow where
  uid : UInt64 := 0
  name : Bytes := []
  numPieces : UInt32 := 0
  size : UInt64 := 0
  deriving DecidableEq

/-- A row of a query for files. -/
structure FileRow where
  name : Bytes
  deriving DecidableEq

/-- A row of a query for chunks. -/
structure ChunkRow where
  index : UInt32
  hash : UInt32
  existing : Bool
  deriving DecidableEq

/-- What the tables have of a torrent. -/
structure TorrentJoined where
  torrentInfo : TorrentInfoRow
  files : List FileRow
  chunks : List ChunkRow
  deriving DecidableEq

/-- The uid as `setUInt` binds it. -/
def key (db : TorrentDB) : UInt32 := db.uid.toUInt32

/-- `insertIntoTorrents`. -/
def insertIntoTorrents (refuses : Insert → Bool) (db : TorrentDB) (name : Bytes)
    (numPieces : UInt32) (size : UInt64) (tables : Database) : Option Database :=
  tables.execute refuses (.torrents { uid := db.key, name, numPieces, size })

/-- One insert for each file; what was inserted before a failure stays. -/
def insertIntoFiles (refuses : Insert → Bool) (db : TorrentDB) :
    List Bytes → Database → Database × Bool
  | [], tables => (tables, true)
  | name :: rest, tables =>
      match tables.execute refuses (.files { uid := db.key, name }) with
      | some tables => insertIntoFiles refuses db rest tables
      | none => (tables, false)

/-- `insertIntoChunks`; the hash is bound as 32 bits. -/
def insertIntoChunks (refuses : Insert → Bool) (db : TorrentDB) (index : UInt32) (hash : UInt64)
    (existing : Bool) (tables : Database) : Option Database :=
  tables.execute refuses (.chunks
    { uid := db.key, chunkIndex := index, chunkHash := hash.toUInt32, chunkExists := existing })

/-- `updateChunks`: an `UPDATE` for each chunk. -/
def updateChunks (db : TorrentDB) (chunks : List (UInt32 × Bool)) (tables : Database) :
    Database :=
  chunks.foldl (fun tables chunk => tables.updateChunk db.key chunk.1 chunk.2) tables

/-- The row's values, or those of a default row when there is none. -/
def getTorrentInfo (db : TorrentDB) (tables : Database) : TorrentInfoRow :=
  match tables.torrents.find? (·.uid == db.key) with
  | some row =>
      { uid := db.uid, name := row.name, numPieces := row.numPieces, size := row.size }
  | none => {}

/-- The rows a query for a uid selects from `files`. -/
def getTorrentFiles (order : RowOrder) (uid : UInt32) (tables : Database) : List FileRow :=
  (order.files (tables.files.filter (·.uid == uid))).map fun row => { name := row.name }

/-- The rows a query for a uid selects from `chunks`. -/
def getTorrentChunks (order : RowOrder) (uid : UInt32) (tables : Database) : List ChunkRow :=
  (order.chunks (tables.chunks.filter (·.uid == uid))).map fun row =>
    { index := row.chunkIndex, hash := row.chunkHash, existing := row.chunkExists }

/-- `getJoinedTorrent`. -/
def getJoinedTorrent (order : RowOrder) (db : TorrentDB) (tables : Database) : TorrentJoined where
  torrentInfo := db.getTorrentInfo tables
  files := getTorrentFiles order db.key tables
  chunks := getTorrentChunks order db.key tables

/-- `getAllTorrentInfoRows`. -/
def getAllTorrentInfoRows (order : RowOrder) (tables : Database) : List TorrentInfoRow :=
  (order.torrents tables.torrents).map fun row =>
    { uid := row.uid.toUInt64, name := row.name, numPieces := row.numPieces, size := row.size }

/-- `getAllTorrentRows`. -/
def getAllTorrentRows (order : RowOrder) (tables : Database) : List TorrentJoined :=
  (getAllTorrentInfoRows order tables).map fun torrentInfo =>
    { torrentInfo
      files := getTorrentFiles order torrentInfo.uid.toUInt32 tables
      chunks := getTorrentChunks order torrentInfo.uid.toUInt32 tables }

end TorrentDB

end Bp2p
