import Bp2p.Flags

/-! # The rows a destructor writes

A destructor writes under the uid of the object's `TorrentDB`, which is the object's own
uid after `create` and `open` and another one in copies, in assigned objects and in those
read from a description or by `getAllTorrents`. No row of another uid changes, and the rows of
an object whose chunks have distinct indices get its flags, exactly if the two uids are bound
alike or what is written is all there already (`Bp2p.Torrent.writesOwnFlags_iff`).
-/

namespace Bp2p

namespace Torrent

/-- A row of the object's own uid. -/
def Owns (torrent : Torrent) (row : ChunksRecord) : Prop := row.uid.toUInt64 = torrent.uid

/-- What the destructor is to do: change rows of the object's uid only and, where the indices
of its chunks are distinct, leave them with the flags of the chunks. -/
structure WritesOwnFlags (torrent : Torrent) (tables : Database) : Prop where
  torrents : (torrent.destroy tables).torrents = tables.torrents
  files : (torrent.destroy tables).files = tables.files
  others : List.Forall₂ (fun row after => torrent.Owns row ∨ after = row) tables.chunks
    (torrent.destroy tables).chunks
  flags : (torrent.chunks.map (·.index)).Nodup → ∀ chunk ∈ torrent.chunks,
    ∀ row ∈ (torrent.destroy tables).chunks,
      torrent.Owns row → row.chunkIndex = chunk.index → row.chunkExists = chunk.existing

/-- A row as the destructor leaves it. -/
def rewritten (torrent : Torrent) (row : ChunksRecord) : ChunksRecord :=
  if row.uid = torrent.db.key then
    { row with
      chunkExists := TorrentDB.lastFlag row.chunkIndex torrent.createChunkRows row.chunkExists }
  else row

/-- Every row of the uid has the flag of the last chunk of its index. -/
def MatchesLast (torrent : Torrent) (uid : UInt32) (tables : Database) : Prop :=
  ∀ row ∈ tables.chunks, row.uid = uid → ∀ chunk,
    (torrent.chunks.filter (·.index = row.chunkIndex)).getLast? = some chunk →
      row.chunkExists = chunk.existing

theorem destroy_eq (torrent : Torrent) (tables : Database) :
    torrent.destroy tables = { tables with chunks := tables.chunks.map torrent.rewritten } :=
  TorrentDB.updateChunks_eq ..

@[simp] theorem rewritten_uid (torrent : Torrent) (row : ChunksRecord) :
    (torrent.rewritten row).uid = row.uid := by
  unfold rewritten
  split
  · rfl
  · rfl

@[simp] theorem rewritten_chunkIndex (torrent : Torrent) (row : ChunksRecord) :
    (torrent.rewritten row).chunkIndex = row.chunkIndex := by
  unfold rewritten
  split
  · rfl
  · rfl

/-- An object owns the rows of its uid. -/
theorem owns_iff {torrent : Torrent} (small : torrent.uid.toNat < 2 ^ 32) {row : ChunksRecord} :
    torrent.Owns row ↔ row.uid = torrent.uid.toUInt32 := by
  unfold Owns
  constructor
  · intro own
    rw [← own, UInt32.toUInt32_toUInt64]
  · intro own
    rw [own, ← UInt64.toNat_inj, UInt32.toNat_toUInt64, UInt64.toNat_toUInt32,
      Nat.mod_eq_of_lt small]

/-- Of distinct indices, the flag written for a chunk is the chunk's. -/
theorem lastFlag_of_mem {torrent : Torrent} {chunk : Chunk}
    (distinct : (torrent.chunks.map (·.index)).Nodup) (there : chunk ∈ torrent.chunks)
    (before : Bool) :
    TorrentDB.lastFlag chunk.index torrent.createChunkRows before = chunk.existing := by
  refine TorrentDB.lastFlag_of_agree (fun flag made listed => ?_)
    (.inr ⟨_, List.mem_map_of_mem there, rfl⟩)
  obtain ⟨other, stored, rfl⟩ := List.mem_map.mp made
  rw [List.inj_on_of_nodup_map distinct stored there listed]

/-- A row of the `TorrentDB`'s uid has the flag of its chunk afterwards. -/
theorem rewritten_chunkExists {torrent : Torrent} {chunk : Chunk} {row : ChunksRecord}
    (distinct : (torrent.chunks.map (·.index)).Nodup) (there : chunk ∈ torrent.chunks)
    (key : row.uid = torrent.db.key) (listed : row.chunkIndex = chunk.index) :
    (torrent.rewritten row).chunkExists = chunk.existing := by
  rw [rewritten, if_pos key]
  simp only [listed]
  exact lastFlag_of_mem distinct there _

/-- A row of the `TorrentDB`'s uid stays as it is if it has the flag of the last chunk of its
index. -/
theorem rewritten_eq_self_iff {torrent : Torrent} {row : ChunksRecord}
    (key : row.uid = torrent.db.key) :
    torrent.rewritten row = row ↔ ∀ chunk,
      (torrent.chunks.filter (·.index = row.chunkIndex)).getLast? = some chunk →
        row.chunkExists = chunk.existing := by
  have written : TorrentDB.lastFlag row.chunkIndex torrent.createChunkRows row.chunkExists =
      ((torrent.chunks.filter (·.index = row.chunkIndex)).getLast?.map (·.existing)).getD
        row.chunkExists := by
    rw [TorrentDB.lastFlag_eq_getLast, createChunkRows, List.filter_map, List.getLast?_map,
      Option.map_map]
    rfl
  obtain ⟨uid, chunkIndex, chunkHash, chunkExists⟩ := row
  rw [rewritten, if_pos key]
  simp only [written, ChunksRecord.mk.injEq, true_and]
  cases (torrent.chunks.filter (·.index = chunkIndex)).getLast? with
  | none => exact iff_of_true rfl fun _ none => by cases none
  | some chunk =>
      simp only [Option.map_some, Option.getD_some, Option.some.injEq, forall_eq']
      exact eq_comm

/-- **The flags of an object.** The destructor changes no row of another uid and, of an object
with distinct indices, writes the flags to the rows of its uid, exactly if it writes under its
own uid, or every row it would write has the flag already and the rows of the object have those
of its chunks. -/
theorem writesOwnFlags_iff (torrent : Torrent) (tables : Database)
    (small : torrent.uid.toNat < 2 ^ 32) :
    torrent.WritesOwnFlags tables ↔
      torrent.db.key = torrent.uid.toUInt32 ∨
        torrent.MatchesLast torrent.db.key tables ∧
          ((torrent.chunks.map (·.index)).Nodup →
            torrent.MatchesRows torrent.uid.toUInt32 tables) := by
  constructor
  · intro writes
    refine or_iff_not_imp_left.mpr fun foreign => ?_
    obtain ⟨_, _, others, flags⟩ := writes
    rw [destroy_eq] at others flags
    rw [List.forall₂_map_right_iff, List.forall₂_same] at others
    constructor
    · intro row member key
      rcases others row member with own | same
      · exact absurd (key.symm.trans ((owns_iff small).mp own)) foreign
      · exact (rewritten_eq_self_iff key).mp same
    · intro distinct row member own chunk there listed
      have kept : torrent.rewritten row = row :=
        if_neg fun key => foreign (key.symm.trans own)
      have written := flags distinct chunk there row (List.mem_map.mpr ⟨row, member, kept⟩)
        ((owns_iff small).mpr own) listed.symm
      exact written.symm
  · rintro (own | ⟨written, already⟩)
    · refine ⟨by rw [destroy_eq], by rw [destroy_eq], ?_, ?_⟩
      · rw [destroy_eq, List.forall₂_map_right_iff, List.forall₂_same]
        intro row _
        by_cases key : row.uid = torrent.db.key
        · exact .inl ((owns_iff small).mpr (key.trans own))
        · exact .inr (if_neg key)
      · intro distinct chunk there row member owned listed
        rw [destroy_eq] at member
        obtain ⟨before, _, rfl⟩ := List.mem_map.mp member
        rw [owns_iff small, rewritten_uid] at owned
        exact rewritten_chunkExists distinct there (owned.trans own.symm)
          ((rewritten_chunkIndex ..).symm.trans listed)
    · have unchanged : torrent.destroy tables = tables := by
        rw [destroy_eq, TorrentDB.map_eq_self]
        intro row member
        by_cases key : row.uid = torrent.db.key
        · exact (rewritten_eq_self_iff key).mpr (written row member key)
        · exact if_neg key
      refine ⟨by rw [unchanged], by rw [unchanged], ?_, ?_⟩
      · rw [unchanged, List.forall₂_same]
        exact fun _ _ => .inr rfl
      · rw [unchanged]
        intro distinct chunk there row member owned listed
        exact (already distinct row member ((owns_iff small).mp owned) chunk there
          listed.symm).symm

/-- The torrent of one byte, opened: its `TorrentDB` has its uid. -/
theorem writesOwnFlags_iff_letter :
    { letterTorrent 7 1 false with db := { uid := 7 } }.WritesOwnFlags letterTables :=
  (writesOwnFlags_iff { letterTorrent 7 1 false with db := { uid := 7 } } letterTables
    (by decide)).mpr (.inl rfl)

/-- A copy whose chunk is marked refutes it, as `completeRequest` makes one of a chunk it
has put: the mark is written under uid 0, and the row of the torrent stays as it was. -/
theorem writesOwnFlags_fails :
    ¬ ∀ (torrent : Torrent) (tables : Database), torrent.uid.toNat < 2 ^ 32 →
      torrent.WritesOwnFlags tables := by
  intro claim
  let row : ChunksRecord := { uid := 7, chunkIndex := 0, chunkHash := 1, chunkExists := false }
  have writes := claim ((letterTorrent 7 1 false).copy.markExisting 0)
    { letterTables with chunks := [row] } (by decide)
  exact absurd (writes.flags (List.nodup_singleton 0) { index := 0, hash := 1, existing := true }
    List.mem_cons_self row List.mem_cons_self rfl rfl) (by decide)

end Torrent

end Bp2p
