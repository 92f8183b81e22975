import Bp2p.Mirror

/-! # Reading back what was inserted

A torrent's rows hold the uid and the chunk hashes in columns of 32 bits, while the object
has 64, and names in columns of 255 characters. A torrent that is inserted is read back
from the tables as it was exactly when its uid, its hashes and the names of its files
fit (`Bp2p.Torrent.readsBack_iff_fits`). Sizes are bound with `setUInt64`, and fit.
-/

namespace Bp2p

/-- The characters of a text in UTF-8: the bytes that do not continue one. -/
def characters (text : Bytes) : Nat := text.countP fun byte => byte &&& 0xC0 != 0x80

/-- The length of the columns for names. -/
def varchar : Nat := 255

/-- The inserts that a column of names is too short for, which the server fails. -/
def Insert.overlong : Insert → Bool
  | .torrents row => decide (varchar < characters row.name)
  | .files row => decide (varchar < characters row.name)
  | .chunks _ => false

namespace Torrent

/-- The tables hold a torrent that `createTorrentFromRow` makes the same of: with its uid,
its name, pieces and size, the names of its files, and its chunks. -/
def ReadsBack (order : RowOrder) (tables : Database) (torrent : Torrent) : Prop :=
  ∃ row ∈ TorrentDB.getAllTorrentRows order tables, ∃ back,
    ({} : Torrent).createTorrentFromRow row = back ∧ back.uid = torrent.uid ∧
    back.name = torrent.name ∧ back.numPieces = torrent.numPieces ∧ back.size = torrent.size ∧
    (∀ file, file ∈ back.files ↔ file ∈ torrent.files) ∧
    ∀ chunk, chunk ∈ back.chunks ↔ chunk ∈ torrent.chunks

/-- The numbers and names of the torrent fit their columns. -/
structure FitsColumns (torrent : Torrent) : Prop where
  uid : torrent.uid.toNat < 2 ^ 32
  hashes : ∀ chunk ∈ torrent.chunks, chunk.hash.toNat < 2 ^ 32
  files : ∀ file ∈ torrent.files, characters file ≤ varchar

/-- Reading a torrent back, said of the rows. -/
theorem readsBack_iff {order : RowOrder} {tables : Database} {torrent : Torrent} :
    ReadsBack order tables torrent ↔
      ∃ row ∈ tables.torrents, row.uid.toUInt64 = torrent.uid ∧ row.name = torrent.name ∧
        row.numPieces = torrent.numPieces ∧ row.size = torrent.size ∧
        (∀ file, ⟨row.uid, file⟩ ∈ tables.files ↔ file ∈ torrent.files) ∧
        ∀ chunk, chunk ∈ rowChunks tables row.uid ↔ chunk ∈ torrent.chunks := by
  have files : ∀ (row : TorrentsRecord) (file : Bytes),
      file ∈ (TorrentDB.getTorrentFiles order row.uid tables).map (·.name) ↔
        (⟨row.uid, file⟩ : FilesRecord) ∈ tables.files := by
    intro row file
    simp only [TorrentDB.getTorrentFiles, List.map_map, List.mem_map, Function.comp_apply,
      (order.files_perm _).mem_iff, List.mem_filter, beq_iff_eq]
    constructor
    · rintro ⟨⟨uid, name⟩, ⟨member, rfl⟩, rfl⟩
      exact member
    · exact fun member => ⟨⟨row.uid, file⟩, ⟨member, rfl⟩, rfl⟩
  have chunks : ∀ (row : TorrentsRecord) (chunk : Chunk),
      chunk ∈ (localTorrent order tables row).chunks ↔ chunk ∈ rowChunks tables row.uid :=
    fun row chunk => (localTorrent_chunks order tables row).mem_iff
  have rows : ReadsBack order tables torrent ↔ ∃ back ∈ getAllTorrents order tables,
      back.uid = torrent.uid ∧ back.name = torrent.name ∧ back.numPieces = torrent.numPieces ∧
        back.size = torrent.size ∧ (∀ file, file ∈ back.files ↔ file ∈ torrent.files) ∧
        ∀ chunk, chunk ∈ back.chunks ↔ chunk ∈ torrent.chunks := by
    constructor
    · rintro ⟨row, member, _, rfl, same⟩
      exact ⟨_, List.mem_map_of_mem member, same⟩
    · rintro ⟨back, member, same⟩
      obtain ⟨row, inside, rfl⟩ := List.mem_map.mp member
      exact ⟨row, inside, _, rfl, same⟩
  rw [rows, getAllTorrents_eq]
  constructor
  · rintro ⟨back, member, uid, name, numPieces, size, named, listed⟩
    obtain ⟨row, inside, rfl⟩ := List.mem_map.mp member
    exact ⟨row, (order.torrents_perm _).mem_iff.mp inside, uid, name, numPieces, size,
      fun file => (files row file).symm.trans (named file),
      fun chunk => (chunks row chunk).symm.trans (listed chunk)⟩
  · rintro ⟨row, inside, uid, name, numPieces, size, named, listed⟩
    exact ⟨_, List.mem_map_of_mem ((order.torrents_perm _).mem_iff.mpr inside), uid, name,
      numPieces, size, fun file => (files row file).trans (named file),
      fun chunk => (chunks row chunk).trans (listed chunk)⟩

/-- A file row that is there after a torrent was inserted was there before, or the server
accepted it. -/
theorem insertTorrentToDB_accepted {refuses : Insert → Bool} {torrent : Torrent}
    {tables : Database} {row : FilesRecord}
    (member : row ∈ (torrent.insertTorrentToDB refuses tables).1.files) :
    row ∈ tables.files ∨ refuses (.files row) = false := by
  obtain ⟨executed, _, left, _, accepted, _⟩ := Database.executeAll_spec refuses
    (.torrents torrent.torrentsRecord :: torrent.dependents) tables
  rw [insertTorrentToDB_eq, left, Database.mem_files_foldl_append] at member
  exact member.imp_right (accepted _)

/-- **Reading a torrent back.** A torrent whose uid is new is read back from the tables it is
inserted into exactly when its numbers and the names of its files fit their columns. -/
theorem readsBack_iff_fits (order : RowOrder) (tables : Database) (torrent : Torrent)
    (keyed : tables.Keyed) (own : torrent.db.uid = torrent.uid)
    (named : characters torrent.name ≤ varchar) (files : torrent.files.Nodup)
    (indices : (torrent.chunks.map (·.index)).Nodup)
    (fresh : ∀ row ∈ tables.torrents, row.uid.toUInt64 ≠ torrent.uid) :
    ReadsBack order (torrent.insertTorrentToDB Insert.overlong tables).1 torrent ↔
      torrent.FitsColumns := by
  rw [readsBack_iff]
  constructor
  · rintro ⟨row, _, uid, _, _, _, listed, chunks⟩
    refine ⟨?_, fun chunk member => ?_, fun file member => ?_⟩
    · rw [← uid, UInt32.toNat_toUInt64]
      exact row.uid.toNat_lt
    · obtain ⟨record, _, _, rfl⟩ := mem_rowChunks.mp ((chunks chunk).mpr member)
      rw [UInt32.toNat_toUInt64]
      exact record.chunkHash.toNat_lt
    · rcases insertTorrentToDB_accepted ((listed file).mpr member) with old | accepted
      · obtain ⟨other, there, same⟩ :=
          List.mem_map.mp (Database.hasTorrent_iff.mp (keyed.fileReferences _ old))
        exact absurd ((congrArg UInt32.toUInt64 same).trans uid) (fresh other there)
      · simpa only [Insert.overlong, decide_eq_false_iff_not, Nat.not_lt] using accepted
  · intro fits
    have key : torrent.db.key.toUInt64 = torrent.uid := by
      rw [TorrentDB.key, own, toUInt64_toUInt32 fits.uid]
    have absent : tables.hasTorrent torrent.db.key = false := by
      apply Database.hasTorrent_false_iff.mpr
      intro row member same
      exact fresh row member ((congrArg UInt32.toUInt64 same).trans key)
    have accepted : torrent.AcceptedBy Insert.overlong :=
      ⟨decide_eq_false (Nat.not_lt.mpr named),
        fun name member => decide_eq_false (Nat.not_lt.mpr (fits.files name member)),
        fun _ _ => rfl⟩
    rw [insertTorrentToDB_ok accepted keyed absent files indices]
    refine ⟨torrent.torrentsRecord, List.mem_append_right _ (List.mem_singleton_self _), key,
      rfl, rfl, rfl, fun file => ?_, fun chunk => ?_⟩
    · rw [List.mem_append, List.mem_map]
      constructor
      · rintro (old | ⟨name, member, same⟩)
        · have there : tables.hasTorrent torrent.db.key = true := keyed.fileReferences _ old
          rw [absent] at there
          cases there
        · cases same
          exact member
      · exact fun member => .inr ⟨file, member, rfl⟩
    · have mine : torrent.torrentsRecord.uid = torrent.db.key := rfl
      rw [mine, rowChunks_append rfl fits.hashes, if_pos rfl, rowChunks_of_absent keyed absent,
        List.nil_append]

/-- The torrent of one byte as `create` leaves it. -/
def ownedTorrent (hash : UInt64) : Torrent := { letterTorrent 7 hash true with db := { uid := 7 } }

theorem keyed_empty : ({} : Database).Keyed :=
  ⟨by decide, by decide, by decide, by decide⟩

/-- The torrent of one byte, inserted into empty tables. -/
theorem readsBack_iff_fits_letter :
    ReadsBack .insertion ((ownedTorrent 1).insertTorrentToDB Insert.overlong {}).1
      (ownedTorrent 1) :=
  (readsBack_iff_fits .insertion {} (ownedTorrent 1) keyed_empty rfl (by decide) List.nodup_nil
    (by decide) (fun _ member => absurd member List.not_mem_nil)).mpr
    ⟨by decide, by decide, fun _ member => absurd member List.not_mem_nil⟩

/-- A chunk whose hash has 33 bits refutes the reading back. -/
theorem readsBack_iff_fits_fails :
    ¬ ∀ (order : RowOrder) (tables : Database) (torrent : Torrent), tables.Keyed →
      torrent.db.uid = torrent.uid → characters torrent.name ≤ varchar → torrent.files.Nodup →
      (torrent.chunks.map (·.index)).Nodup →
      (∀ row ∈ tables.torrents, row.uid.toUInt64 ≠ torrent.uid) →
      ReadsBack order (torrent.insertTorrentToDB Insert.overlong tables).1 torrent := by
  intro always
  have reads := always .insertion {} (ownedTorrent (2 ^ 32 + 1)) keyed_empty rfl (by decide)
    List.nodup_nil (by decide) (fun _ member => absurd member List.not_mem_nil)
  obtain ⟨row, _, _, _, _, _, _, chunks⟩ := readsBack_iff.mp reads
  obtain ⟨record, _, _, same⟩ := mem_rowChunks.mp ((chunks _).mpr (List.mem_singleton_self _))
  have hash : record.chunkHash.toUInt64 = 2 ^ 32 + 1 := congrArg Chunk.hash same
  have narrow := record.chunkHash.toNat_lt
  rw [← UInt32.toNat_toUInt64, hash] at narrow
  exact absurd narrow (by decide)

end Torrent

end Bp2p
