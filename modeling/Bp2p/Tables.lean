import Bp2p.Inserts
import Bp2p.Serialized

/-! # What the statements do to the tables

The insert of a torrent appends its rows under the uid of the `TorrentDB`, up to the first
insert that fails; updates change flags only.
-/

namespace Bp2p

@[simp] theorem Database.updateChunk_torrents (tables : Database) (uid chunkIndex : UInt32)
    (chunkExists : Bool) : (tables.updateChunk uid chunkIndex chunkExists).torrents =
      tables.torrents :=
  rfl

@[simp] theorem TorrentDB.updateChunks_torrents (db : TorrentDB) (chunks : List (UInt32 × Bool))
    (tables : Database) : (db.updateChunks chunks tables).torrents = tables.torrents := by
  unfold updateChunks
  induction chunks generalizing tables with
  | nil => rfl
  | cons chunk rest ih => exact ih _

@[simp] theorem Torrent.destroy_torrents (torrent : Torrent) (tables : Database) :
    (torrent.destroy tables).torrents = tables.torrents :=
  TorrentDB.updateChunks_torrents ..

/-- Changing flags keeps the keys. -/
theorem Database.Keyed.updateChunk {tables : Database} (keyed : tables.Keyed)
    (uid chunkIndex : UInt32) (chunkExists : Bool) :
    (tables.updateChunk uid chunkIndex chunkExists).Keyed := by
  have kept : ∀ row : ChunksRecord,
      (if row.uid = uid ∧ row.chunkIndex = chunkIndex then { row with chunkExists } else row).uid =
        row.uid ∧
      (if row.uid = uid ∧ row.chunkIndex = chunkIndex then
        { row with chunkExists } else row).chunkIndex = row.chunkIndex := by
    intro row
    split
    · exact ⟨rfl, rfl⟩
    · exact ⟨rfl, rfl⟩
  refine ⟨keyed.torrents, ?_, fun row member => ?_, keyed.fileReferences⟩
  · simp only [Database.updateChunk, List.map_map, Function.comp_def, kept]
    exact keyed.chunks
  · obtain ⟨old, there, rfl⟩ := List.mem_map.mp member
    rw [(kept old).1]
    exact keyed.references old there

namespace Torrent

/-- The row of the table `torrents` an object inserts. -/
def torrentsRecord (torrent : Torrent) : TorrentsRecord where
  uid := torrent.db.key
  name := torrent.name
  numPieces := torrent.numPieces
  size := torrent.size

/-- The row of the table `chunks` an object inserts for a chunk. -/
def chunksRecord (torrent : Torrent) (chunk : Chunk) : ChunksRecord where
  uid := torrent.db.key
  chunkIndex := chunk.index
  chunkHash := chunk.hash.toUInt32
  chunkExists := chunk.existing

/-- The row of the table `files` an object inserts for a file. -/
def filesRecord (torrent : Torrent) (name : Bytes) : FilesRecord where
  uid := torrent.db.key
  name

/-- The inserts of a torrent's files and chunks, which refer to its row. -/
def dependents (torrent : Torrent) : List Insert :=
  (torrent.files.map torrent.filesRecord).map .files ++
    (torrent.chunks.map torrent.chunksRecord).map .chunks

/-- The inserts of file names are one statement each. -/
theorem insertIntoFiles_eq (refuses : Insert → Bool) (torrent : Torrent) (names : List Bytes)
    (tables : Database) :
    torrent.db.insertIntoFiles refuses names tables =
      Database.executeAll refuses ((names.map torrent.filesRecord).map .files) tables := by
  induction names generalizing tables with
  | nil => rfl
  | cons name rest ih =>
      rw [TorrentDB.insertIntoFiles, List.map_cons, List.map_cons, Database.executeAll]
      simp only [ih]
      rfl

/-- The inserts of chunks are one statement each. -/
theorem insertChunks_eq (refuses : Insert → Bool) (torrent : Torrent) (chunks : List Chunk)
    (tables : Database) :
    insertChunks refuses torrent.db chunks tables =
      Database.executeAll refuses ((chunks.map torrent.chunksRecord).map .chunks) tables := by
  induction chunks generalizing tables with
  | nil => rfl
  | cons chunk rest ih =>
      rw [insertChunks, List.map_cons, List.map_cons, Database.executeAll]
      simp only [ih]
      rfl

/-- The insert of a torrent: its row, then the rows that refer to it. -/
theorem insertTorrentToDB_eq (refuses : Insert → Bool) (torrent : Torrent) (tables : Database) :
    torrent.insertTorrentToDB refuses tables =
      Database.executeAll refuses (.torrents torrent.torrentsRecord :: torrent.dependents)
        tables := by
  rw [insertTorrentToDB, Database.executeAll]
  simp only [insertIntoFiles_eq, insertChunks_eq, dependents, Database.executeAll_append]
  have same : torrent.db.insertIntoTorrents refuses torrent.name torrent.numPieces torrent.size
      tables = tables.execute refuses (.torrents torrent.torrentsRecord) := rfl
  rw [same]
  cases tables.execute refuses (.torrents torrent.torrentsRecord) with
  | none => rfl
  | some after =>
      simp only
      cases Database.executeAll refuses ((torrent.files.map torrent.filesRecord).map .files)
          after with
      | mk listed done => cases done <;> rfl

theorem mem_dependents {torrent : Torrent} {statement : Insert} :
    statement ∈ torrent.dependents ↔
      (∃ name ∈ torrent.files, .files (torrent.filesRecord name) = statement) ∨
        ∃ chunk ∈ torrent.chunks, .chunks (torrent.chunksRecord chunk) = statement := by
  simp only [dependents, List.mem_append, List.mem_map, exists_exists_and_eq_and]

/-- The inserts of files and chunks leave all their rows. -/
theorem foldl_append_dependents (torrent : Torrent) (tables : Database) :
    torrent.dependents.foldl Database.append tables =
      { tables with
        files := tables.files ++ torrent.files.map torrent.filesRecord
        chunks := tables.chunks ++ torrent.chunks.map torrent.chunksRecord } := by
  rw [dependents, List.foldl_append, Database.foldl_append_files, Database.foldl_append_chunks]

/-- The first of these inserts leave the first of the rows. -/
theorem foldl_append_of_prefix {torrent : Torrent} {executed : List Insert}
    (front : executed <+: torrent.dependents) (tables : Database) :
    ∃ files added, added <+: torrent.chunks.map torrent.chunksRecord ∧
      executed.foldl Database.append tables =
        { tables with files := tables.files ++ files, chunks := tables.chunks ++ added } := by
  have files : ∀ (rows : List FilesRecord) n,
      (rows.map Insert.files).take n = (rows.take n).map .files := fun _ _ => List.map_take.symm
  have chunks : ∀ (rows : List ChunksRecord) n,
      (rows.map Insert.chunks).take n = (rows.take n).map .chunks := fun _ _ => List.map_take.symm
  rw [List.prefix_iff_eq_take.mp front, dependents, List.take_append, files, chunks,
    List.foldl_append, Database.foldl_append_files, Database.foldl_append_chunks]
  exact ⟨_, _, List.take_prefix .., rfl⟩

/-- What the insert of a torrent leaves: the tables as they were, or the row of the
torrent, rows of its files and the rows of its first chunks, all of them on
success. -/
theorem insertTorrentToDB_spec (refuses : Insert → Bool) (torrent : Torrent) (tables : Database) :
    (torrent.insertTorrentToDB refuses tables = (tables, false) ∧
        (tables.hasTorrent torrent.db.key = true ∨
          refuses (.torrents torrent.torrentsRecord) = true)) ∨
      (tables.hasTorrent torrent.db.key = false ∧
        refuses (.torrents torrent.torrentsRecord) = false ∧
        ∃ files added, added <+: torrent.chunks.map torrent.chunksRecord ∧
          (torrent.insertTorrentToDB refuses tables).1 =
            { torrents := tables.torrents ++ [torrent.torrentsRecord], files,
              chunks := tables.chunks ++ added } ∧
          ((torrent.insertTorrentToDB refuses tables).2 = true →
            added = torrent.chunks.map torrent.chunksRecord) ∧
          (tables.Keyed → (torrent.insertTorrentToDB refuses tables).1.Keyed)) := by
  rw [insertTorrentToDB_eq, Database.executeAll]
  cases executed : tables.execute refuses (.torrents torrent.torrentsRecord) with
  | none => exact .inl ⟨rfl, Database.refused_of_execute executed⟩
  | some after =>
      right
      obtain ⟨accepted, fresh, there, rfl⟩ := Database.execute_eq_some_iff.mp executed
      refine ⟨Bool.eq_false_iff.mpr fun present => fresh ?_, accepted, ?_⟩
      · exact List.mem_map.mp (Database.hasTorrent_iff.mp present)
      · obtain ⟨inserts, front, left, all, _, keyed⟩ :=
          Database.executeAll_spec refuses torrent.dependents
            (tables.append (.torrents torrent.torrentsRecord))
        have kept : tables.Keyed →
            (Database.executeAll refuses torrent.dependents
              (tables.append (.torrents torrent.torrentsRecord))).1.Keyed :=
          fun valid => keyed (valid.append fresh there)
        simp only
        cases done : (Database.executeAll refuses torrent.dependents
            (tables.append (.torrents torrent.torrentsRecord))).2 with
        | true =>
            rw [all done, foldl_append_dependents] at left
            exact ⟨_, _, List.prefix_rfl, left, fun _ => rfl, kept⟩
        | false =>
            obtain ⟨files, added, first, rows⟩ := foldl_append_of_prefix front
              (tables.append (.torrents torrent.torrentsRecord))
            rw [rows] at left
            exact ⟨_, added, first, left, fun succeeds => absurd succeeds Bool.false_ne_true,
              kept⟩

/-- The server fails none of the inserts of a torrent. -/
structure AcceptedBy (torrent : Torrent) (refuses : Insert → Bool) : Prop where
  row : refuses (.torrents torrent.torrentsRecord) = false
  files : ∀ name ∈ torrent.files, refuses (.files { uid := torrent.db.key, name }) = false
  chunks : ∀ chunk ∈ torrent.chunks, refuses (.chunks (torrent.chunksRecord chunk)) = false

/-- The primary keys of a torrent's files and chunks are distinct exactly if no name and no
index occurs twice. -/
theorem nodup_dependents_iff (torrent : Torrent) :
    (torrent.dependents.map Insert.key).Nodup ↔
      torrent.files.Nodup ∧ (torrent.chunks.map (·.index)).Nodup := by
  have files : ((torrent.files.map torrent.filesRecord).map Insert.files).map Insert.key =
      torrent.files.map (PrimaryKey.files torrent.db.key) := by
    rw [List.map_map, List.map_map]
    rfl
  have chunks : ((torrent.chunks.map torrent.chunksRecord).map Insert.chunks).map Insert.key =
      (torrent.chunks.map (·.index)).map (PrimaryKey.chunks torrent.db.key) := by
    rw [List.map_map, List.map_map, List.map_map]
    rfl
  have apart : List.Disjoint (torrent.files.map (PrimaryKey.files torrent.db.key))
      ((torrent.chunks.map (·.index)).map (PrimaryKey.chunks torrent.db.key)) := by
    intro key named listed
    obtain ⟨name, _, rfl⟩ := List.mem_map.mp named
    obtain ⟨index, _, same⟩ := List.mem_map.mp listed
    cases same
  rw [dependents, List.map_append, files, chunks, List.nodup_append', and_iff_left apart,
    List.nodup_map_iff fun _ _ same => (PrimaryKey.files.inj same).2,
    List.nodup_map_iff fun _ _ same => (PrimaryKey.chunks.inj same).2]

/-- Nothing keeps a torrent from being inserted: the server fails none of its inserts, its uid
is new, no name and no index occurs twice, and no row has the key of one of them. -/
structure Insertable (torrent : Torrent) (refuses : Insert → Bool) (tables : Database) :
    Prop where
  accepted : torrent.AcceptedBy refuses
  absent : tables.hasTorrent torrent.db.key = false
  files : torrent.files.Nodup
  indices : (torrent.chunks.map (·.index)).Nodup
  unheld : ∀ statement ∈ torrent.dependents, ¬ tables.Holds statement.key

/-- An object is accepted if none of its statements is refused. -/
theorem acceptedBy_iff {torrent : Torrent} {refuses : Insert → Bool} :
    torrent.AcceptedBy refuses ↔ refuses (.torrents torrent.torrentsRecord) = false ∧
      ∀ statement ∈ torrent.dependents, refuses statement = false := by
  constructor
  · refine fun accepted => ⟨accepted.row, fun statement member => ?_⟩
    rcases mem_dependents.mp member with ⟨name, listed, rfl⟩ | ⟨chunk, listed, rfl⟩
    · exact accepted.files name listed
    · exact accepted.chunks chunk listed
  · rintro ⟨row, accepts⟩
    exact ⟨row, fun name listed => accepts _ (mem_dependents.mpr (.inl ⟨name, listed, rfl⟩)),
      fun chunk listed => accepts _ (mem_dependents.mpr (.inr ⟨chunk, listed, rfl⟩))⟩

/-- The files and chunks of a torrent refer to its row. -/
theorem referenced_dependent {torrent : Torrent} {statement : Insert}
    (member : statement ∈ torrent.dependents) (tables : Database) :
    (tables.append (.torrents torrent.torrentsRecord)).Referenced statement := by
  have there : (tables.append (.torrents torrent.torrentsRecord)).hasTorrent torrent.db.key =
      true := by
    rw [Database.hasTorrent_iff, Database.append, List.map_append]
    exact List.mem_append_right _ (List.mem_singleton_self _)
  rcases mem_dependents.mp member with ⟨name, _, rfl⟩ | ⟨chunk, _, rfl⟩
  · exact there
  · exact there

/-- The row of the torrent has none of the keys of its files and chunks. -/
theorem holds_append_dependent {torrent : Torrent} {statement : Insert}
    (member : statement ∈ torrent.dependents) (tables : Database) (row : TorrentsRecord) :
    (tables.append (.torrents row)).Holds statement.key ↔ tables.Holds statement.key := by
  rw [Database.holds_append]
  refine or_iff_left fun same => ?_
  rcases mem_dependents.mp member with ⟨name, _, rfl⟩ | ⟨chunk, _, rfl⟩
  · cases same
  · cases same

/-- The insert of a torrent succeeds exactly if nothing keeps the torrent from it. -/
theorem insertTorrentToDB_true_iff {refuses : Insert → Bool} {torrent : Torrent}
    {tables : Database} :
    (torrent.insertTorrentToDB refuses tables).2 = true ↔ torrent.Insertable refuses tables := by
  rw [insertTorrentToDB_eq, Database.executeAll]
  cases executed : tables.execute refuses (.torrents torrent.torrentsRecord) with
  | none =>
      refine iff_of_false Bool.false_ne_true fun insertable => ?_
      rcases Database.refused_of_execute executed with there | refused
      · have absent : tables.hasTorrent torrent.torrentsRecord.uid = false := insertable.absent
        rw [there] at absent
        cases absent
      · rw [insertable.accepted.row] at refused
        cases refused
  | some after =>
      obtain ⟨accepted, fresh, _, rfl⟩ := Database.execute_eq_some_iff.mp executed
      simp only
      rw [Database.executeAll_true_iff fun _ member => referenced_dependent member tables,
        nodup_dependents_iff]
      constructor
      · rintro ⟨accepts, ⟨files, indices⟩, unheld⟩
        refine ⟨acceptedBy_iff.mpr ⟨accepted, accepts⟩, ?_, files, indices,
          fun statement member held => unheld statement member ?_⟩
        · exact Database.hasTorrent_false_iff.mpr fun row member same =>
            fresh ⟨row, member, same⟩
        · exact (holds_append_dependent member ..).mpr held
      · rintro ⟨accepts, _, files, indices, unheld⟩
        exact ⟨(acceptedBy_iff.mp accepts).2, ⟨files, indices⟩, fun statement member held =>
          unheld statement member ((holds_append_dependent member ..).mp held)⟩

/-- The foreign keys leave no row of a torrent that has none itself. -/
theorem unheld_of_absent {torrent : Torrent} {tables : Database} (keyed : tables.Keyed)
    (absent : tables.hasTorrent torrent.db.key = false) {statement : Insert}
    (member : statement ∈ torrent.dependents) : ¬ tables.Holds statement.key := by
  have unused : ∀ uid, tables.hasTorrent uid = true → uid ≠ torrent.db.key := by
    rintro uid present rfl
    rw [absent] at present
    cases present
  rcases mem_dependents.mp member with ⟨name, _, rfl⟩ | ⟨chunk, _, rfl⟩
  · rintro ⟨row, stored, own, _⟩
    exact unused _ (keyed.fileReferences row stored) own
  · rintro ⟨row, stored, own, _⟩
    exact unused _ (keyed.references row stored) own

/-- A server that accepts them inserts all rows of a torrent whose uid is new, if no
file and no index occurs twice. -/
theorem insertTorrentToDB_ok {refuses : Insert → Bool} {torrent : Torrent} {tables : Database}
    (accepted : torrent.AcceptedBy refuses) (keyed : tables.Keyed)
    (absent : tables.hasTorrent torrent.db.key = false) (files : torrent.files.Nodup)
    (indices : (torrent.chunks.map (·.index)).Nodup) :
    torrent.insertTorrentToDB refuses tables =
      ({ torrents := tables.torrents ++ [torrent.torrentsRecord]
         files := tables.files ++ torrent.files.map fun name => { uid := torrent.db.key, name }
         chunks := tables.chunks ++ torrent.chunks.map torrent.chunksRecord }, true) := by
  have done : (torrent.insertTorrentToDB refuses tables).2 = true :=
    insertTorrentToDB_true_iff.mpr ⟨accepted, absent, files, indices,
      fun _ member => unheld_of_absent keyed absent member⟩
  obtain ⟨executed, _, left, all, _, _⟩ := Database.executeAll_spec refuses
    (.torrents torrent.torrentsRecord :: torrent.dependents) tables
  rw [insertTorrentToDB_eq] at done ⊢
  rw [all done, List.foldl_cons, foldl_append_dependents] at left
  exact Prod.ext left done

/-- The insert of a torrent adds at most its own row to the table `torrents`. -/
theorem insertIfValid_torrents (refuses : Insert → Bool) (torrent : Torrent) (tables : Database) :
    (torrent.insertIfValid refuses tables).1.torrents = tables.torrents ∨
      (torrent.insertIfValid refuses tables).1.torrents =
        tables.torrents ++ [torrent.torrentsRecord] := by
  unfold insertIfValid
  split
  · rcases insertTorrentToDB_spec refuses torrent tables with
      ⟨unchanged, _⟩ | ⟨_, _, files, added, _, same, _⟩
    · exact .inl (by rw [unchanged])
    · exact .inr (by rw [same])
  · exact .inl rfl

/-- Nothing is inserted for an object that is not valid, or whose uid has a row. -/
theorem insertIfValid_unchanged (refuses : Insert → Bool) {torrent : Torrent} {tables : Database}
    (there : torrent.isValid = true → tables.hasTorrent torrent.db.key = true) :
    torrent.insertIfValid refuses tables = (tables, false) := by
  unfold insertIfValid
  split
  · next valid =>
      rcases insertTorrentToDB_spec refuses torrent tables with ⟨unchanged, _⟩ | ⟨absent, _⟩
      · exact unchanged
      · rw [there valid] at absent
        cases absent
  · rfl

/-- A new object of a text is what serializing the described torrent leaves, and is inserted. -/
theorem createTorrentFromSerializedObj_of_serialize {env : Env} (refuses : Insert → Bool)
    (torrent : Torrent) (tables : Database) {text : Bytes} {after : Torrent} (nonempty : text ≠ [])
    (serialized : (deserialize env true { torrent with serializedObj := text }).serialize env =
      .ok after) :
    torrent.createTorrentFromSerializedObj env refuses text tables =
      (.ok (after, (after.insertIfValid refuses tables).2),
        (after.insertIfValid refuses tables).1) := by
  simp only [createTorrentFromSerializedObj, List.isEmpty_iff, nonempty, ↓reduceIte, serialized]

/-- Serializing changes only the document and its text. -/
theorem serialize_frame (env : Env) (torrent : Torrent) :
    ∃ jobj serializedObj, torrent.serialize env = .ok { torrent with jobj, serializedObj } ∨
      torrent.serialize env = .error { torrent with jobj, serializedObj } := by
  unfold serialize
  split
  · exact ⟨_, _, .inl rfl⟩
  · split
    · exact ⟨_, _, .inr rfl⟩
    · split
      · exact ⟨_, _, .inr rfl⟩
      · exact ⟨_, _, .inl rfl⟩

/-- The object `open` serializes. -/
def loaded (env : Env) (order : RowOrder) (tables : Database) (torrent : Torrent) : Torrent :=
  let torrent := torrent.setDBuid.getTorrentFromDB order tables
  { torrent with packagePath := torrent.getPackagePath env }

/-- Opening is valid if the torrent loaded can be serialized and is valid. -/
theorem open_of_serialize {env : Env} {order : RowOrder} {tables : Database}
    {torrent after : Torrent} (identified : torrent.uid ≠ 0)
    (serialized : (torrent.loaded env order tables).serialize env = .ok after) :
    torrent.open env order tables = .ok (after, after.isValid) := by
  unfold loaded at serialized
  simp only [Torrent.open, if_neg identified, serialized]

/-- A uid without a row has no information. -/
theorem getTorrentInfo_of_absent {db : TorrentDB} {tables : Database}
    (absent : tables.hasTorrent db.key = false) : db.getTorrentInfo tables = {} := by
  have none : tables.torrents.find? (·.uid == db.key) = none := by
    rw [List.find?_eq_none]
    intro row member
    rw [beq_iff_eq]
    exact Database.hasTorrent_false_iff.mp absent row member
  rw [TorrentDB.getTorrentInfo, none]

/-- An object whose uid selects no row is not valid once opened. -/
theorem open_of_absent (env : Env) (order : RowOrder) {tables : Database} {torrent : Torrent}
    (identified : torrent.uid ≠ 0) (absent : tables.hasTorrent torrent.uid.toUInt32 = false) :
    torrent.open env order tables = .ok (torrent.loaded env order tables, false) := by
  have none := getTorrentInfo_of_absent (show tables.hasTorrent torrent.setDBuid.db.key = false
    from absent)
  have blank : (torrent.loaded env order tables).name = [] ∧
      (torrent.loaded env order tables).numPieces = 0 := by
    simp only [loaded, getTorrentFromDB, createTorrentFromRow, TorrentDB.getJoinedTorrent, none,
      and_self]
  have serialized : (torrent.loaded env order tables).serialize env =
      .ok (torrent.loaded env order tables) := by
    simp only [serialize, blank.1, List.isEmpty_nil, Bool.true_or, ↓reduceIte]
  have invalid : (torrent.loaded env order tables).isValid = false :=
    Bool.eq_false_iff.mpr fun valid => (isValid_iff.mp valid).2.1 blank.2
  rw [open_of_serialize identified serialized, invalid]

/-- The tables of the torrent of one byte. -/
def letterTables : Database where
  torrents := [{ uid := 7, name := [97], numPieces := 1, size := 1 }]
  chunks := [{ uid := 7, chunkIndex := 0, chunkHash := 1, chunkExists := true }]

end Torrent

end Bp2p
