import Bp2p.Tables

/-! # Flags in the database

The destructor of a torrent writes the flags of its chunks under the uid of its
`TorrentDB`. The last flag written for an index stays
(`Bp2p.TorrentDB.updateChunks_eq`), so an object writes nothing new if its flags are
those of the rows of that uid. An object that `open` has filled from the rows writes
back what it has read. Every copy has a new `TorrentDB` and writes to the rows of uid 0,
whatever its own uid is.
-/

namespace Bp2p

namespace TorrentDB

/-- The last flag listed for an index, or the one before. -/
def lastFlag (chunkIndex : UInt32) (chunks : List (UInt32 × Bool)) (before : Bool) : Bool :=
  chunks.foldl (fun flag chunk => if chunk.1 = chunkIndex then chunk.2 else flag) before

/-- Flags that all agree for an index leave the agreed one, if there is any. -/
theorem lastFlag_of_agree {chunkIndex : UInt32} {chunks : List (UInt32 × Bool)}
    {before flag : Bool} (agree : ∀ chunk ∈ chunks, chunk.1 = chunkIndex → chunk.2 = flag)
    (set : before = flag ∨ ∃ chunk ∈ chunks, chunk.1 = chunkIndex) :
    lastFlag chunkIndex chunks before = flag := by
  induction chunks generalizing before with
  | nil => exact set.resolve_right fun ⟨_, member, _⟩ => absurd member List.not_mem_nil
  | cons chunk rest ih =>
      apply ih (fun other member => agree other (List.mem_cons_of_mem _ member))
      by_cases same : chunk.1 = chunkIndex
      · exact .inl ((if_pos same).trans (agree chunk List.mem_cons_self same))
      · refine set.imp (fun known => (if_neg same).trans known) fun ⟨other, member, listed⟩ => ?_
        rcases List.mem_cons.mp member with rfl | later
        · exact absurd listed same
        · exact ⟨other, later, listed⟩

/-- The flag written last for an index. -/
theorem lastFlag_eq_getLast (chunkIndex : UInt32) (chunks : List (UInt32 × Bool)) (before : Bool) :
    lastFlag chunkIndex chunks before =
      ((chunks.filter (·.1 = chunkIndex)).getLast?.map Prod.snd).getD before := by
  induction chunks using List.reverseRecOn with
  | nil => rfl
  | append_singleton chunks chunk ih =>
      rw [lastFlag, List.foldl_append, List.filter_append, List.filter_singleton]
      by_cases listed : chunk.1 = chunkIndex
      · simp only [listed, decide_true, cond_true, List.getLast?_concat]
        exact if_pos listed
      · simp only [listed, decide_false, cond_false, List.append_nil]
        exact (if_neg listed).trans ih

theorem map_eq_self {α : Type} {change : α → α} {items : List α}
    (same : ∀ item ∈ items, change item = item) : items.map change = items :=
  (List.map_congr_left same).trans (List.map_id' items)

/-- Updating sets the last flag listed for the index of every row of the uid. -/
theorem updateChunks_eq (db : TorrentDB) (chunks : List (UInt32 × Bool)) (tables : Database) :
    db.updateChunks chunks tables =
      { tables with
        chunks := tables.chunks.map fun row =>
          if row.uid = db.key then
            { row with chunkExists := lastFlag row.chunkIndex chunks row.chunkExists }
          else row } := by
  unfold updateChunks
  induction chunks generalizing tables with
  | nil =>
      exact congrArg (fun rows => { tables with chunks := rows })
        (map_eq_self fun row _ => ite_self _).symm
  | cons chunk rest ih =>
      rw [List.foldl_cons, ih, Database.updateChunk]
      simp only [List.map_map, Database.mk.injEq, true_and]
      apply List.map_congr_left
      intro row _
      simp only [Function.comp_apply, lastFlag, List.foldl_cons]
      by_cases own : row.uid = db.key
      · by_cases same : row.chunkIndex = chunk.1
        · simp only [own, same, and_self, ↓reduceIte]
        · simp only [own, same, Ne.symm same, and_false, ↓reduceIte]
      · simp only [own, false_and, ↓reduceIte]

/-- A chunk that is queried comes from a row of the uid. -/
theorem mem_getTorrentChunks {order : RowOrder} {uid : UInt32} {tables : Database}
    {chunk : ChunkRow} : chunk ∈ getTorrentChunks order uid tables ↔
      ∃ row ∈ tables.chunks, row.uid = uid ∧
        { index := row.chunkIndex, hash := row.chunkHash, existing := row.chunkExists } =
          chunk := by
  simp only [getTorrentChunks, List.mem_map, (order.chunks_perm _).mem_iff, List.mem_filter,
    beq_iff_eq, and_assoc]

/-- Flags the rows have already change nothing. -/
theorem updateChunks_eq_self {db : TorrentDB} {chunks : List (UInt32 × Bool)}
    {tables : Database} (agree : ∀ row ∈ tables.chunks, row.uid = db.key →
      lastFlag row.chunkIndex chunks row.chunkExists = row.chunkExists) :
    db.updateChunks chunks tables = tables := by
  rw [updateChunks_eq, map_eq_self]
  intro row member
  split
  · next own => rw [agree row member own]
  · rfl

end TorrentDB

namespace Torrent

/-- The flags of an object are those of the rows of a uid, where both have an index. -/
def MatchesRows (torrent : Torrent) (uid : UInt32) (tables : Database) : Prop :=
  ∀ row ∈ tables.chunks, row.uid = uid → ∀ chunk ∈ torrent.chunks,
    chunk.index = row.chunkIndex → chunk.existing = row.chunkExists

theorem MatchesRows.of_perm {torrent other : Torrent} {uid : UInt32} {tables : Database}
    (same : other.MatchesRows uid tables) (perm : torrent.chunks.Perm other.chunks) :
    torrent.MatchesRows uid tables :=
  fun row member own chunk there => same row member own chunk (perm.mem_iff.mp there)

/-- Any object matches the rows of a uid without a torrent: there are none. -/
theorem matchesRows_of_absent {uid : UInt32} {tables : Database} (keyed : tables.Keyed)
    (absent : tables.hasTorrent uid = false) (torrent : Torrent) :
    torrent.MatchesRows uid tables := by
  rintro row member rfl
  have there := keyed.references row member
  rw [absent] at there
  cases there

/-- An object with the flags of the rows of its `TorrentDB` writes nothing new. -/
theorem destroy_of_matchesRows {torrent : Torrent} {tables : Database}
    (same : torrent.MatchesRows torrent.db.key tables) : torrent.destroy tables = tables := by
  apply TorrentDB.updateChunks_eq_self
  intro row member own
  refine TorrentDB.lastFlag_of_agree (fun chunk made listed => ?_) (.inl rfl)
  obtain ⟨source, there, rfl⟩ := List.mem_map.mp made
  exact same row member own source there listed

/-- Objects that write nothing new leave the tables as they are. -/
theorem foldl_destroy_eq_self {torrents : List Torrent} {tables : Database}
    (same : ∀ torrent ∈ torrents, torrent.destroy tables = tables) :
    torrents.foldl (fun tables torrent => torrent.destroy tables) tables = tables := by
  induction torrents with
  | nil => rfl
  | cons torrent rest ih =>
      rw [List.foldl_cons, same torrent List.mem_cons_self]
      exact ih fun other member => same other (List.mem_cons_of_mem _ member)

/-- An object filled from the rows of its uid writes back what the rows have, whatever
its flags were before. -/
theorem destroy_of_loaded (env : Env) (order : RowOrder) (torrent : Torrent) {tables : Database}
    (keyed : tables.Keyed) (jobj : Json) (serializedObj : Bytes) :
    ({ torrent.loaded env order tables with jobj, serializedObj } : Torrent).destroy tables =
      tables := by
  apply TorrentDB.updateChunks_eq_self
  intro row member own
  have key : row.uid = torrent.uid.toUInt32 := own
  let rows := TorrentDB.getTorrentChunks order torrent.uid.toUInt32 tables
  have written : createChunkRows { torrent.loaded env order tables with jobj, serializedObj } =
      torrent.createChunkRows ++ rows.map fun chunk => (chunk.index, chunk.existing) := by
    simp only [createChunkRows, loaded, getTorrentFromDB, createTorrentFromRow, List.map_append,
      List.map_map]
    rfl
  have split : ∀ before, TorrentDB.lastFlag row.chunkIndex (createChunkRows
      { torrent.loaded env order tables with jobj, serializedObj }) before =
        TorrentDB.lastFlag row.chunkIndex (rows.map fun chunk => (chunk.index, chunk.existing))
          (TorrentDB.lastFlag row.chunkIndex torrent.createChunkRows before) := by
    intro before
    rw [written, TorrentDB.lastFlag, List.foldl_append]
    rfl
  rw [split]
  refine TorrentDB.lastFlag_of_agree (fun chunk made same => ?_) (.inr ?_)
  · obtain ⟨read, there, rfl⟩ := List.mem_map.mp made
    obtain ⟨other, stored, sameUid, rfl⟩ := TorrentDB.mem_getTorrentChunks.mp there
    have equal : other = row := List.inj_on_of_nodup_map keyed.chunks stored member
      (Prod.ext (sameUid.trans key.symm) same)
    rw [equal]
  · exact ⟨(row.chunkIndex, row.chunkExists), List.mem_map.mpr
      ⟨_, TorrentDB.mem_getTorrentChunks.mpr ⟨row, member, key, rfl⟩, rfl⟩, rfl⟩

/-- The chunk of an index, marked. -/
def mark (index : UInt32) (chunk : Chunk) : Chunk :=
  if chunk.index = index then { chunk with existing := true } else chunk

@[simp] theorem mark_index (index : UInt32) (chunk : Chunk) :
    (mark index chunk).index = chunk.index := by
  unfold mark
  split
  · rfl
  · rfl

/-- Marking an index marks its chunk and no other. -/
theorem mark_existing (index : UInt32) (chunk : Chunk) :
    (mark index chunk).existing = if chunk.index = index then true else chunk.existing := by
  unfold mark
  split
  · rfl
  · rfl

/-- Marking the chunk at a position marks the one of its index. -/
theorem markExisting_chunks {torrent : Torrent} {position : UInt32} {chunk : Chunk}
    (held : torrent.chunks[position.toNat]? = some chunk)
    (distinct : (torrent.chunks.map (·.index)).Nodup) :
    (torrent.markExisting position).chunks = torrent.chunks.map (mark chunk.index) := by
  refine List.ext_getElem? fun i => ?_
  rw [markExisting, List.getElem?_modify, List.getElem?_map]
  cases read : torrent.chunks[i]? with
  | none => rfl
  | some other =>
      by_cases same : position.toNat = i
      · subst same
        rw [held, Option.some.injEq] at read
        subst read
        simp only [mark, ↓reduceIte, Option.map_eq_map, Option.map_some]
      · have different : other.index ≠ chunk.index := by
          intro equal
          have first : (torrent.chunks.map (·.index))[position.toNat]? = some chunk.index := by
            rw [List.getElem?_map, held, Option.map_some]
          have second : (torrent.chunks.map (·.index))[i]? = some chunk.index := by
            rw [List.getElem?_map, read, Option.map_some, equal]
          have inside := (List.getElem?_eq_some_iff.mp first).1
          exact same ((List.getElem?_inj inside distinct).mp (first.trans second.symm))
        simp only [mark, same, different, ↓reduceIte, Option.map_eq_map, Option.map_some]

/-- Marking a chunk that exists changes nothing. -/
theorem markExisting_of_existing {torrent : Torrent} {position : UInt32} {chunk : Chunk}
    (held : torrent.chunks[position.toNat]? = some chunk) (existing : chunk.existing = true) :
    torrent.markExisting position = torrent := by
  have unchanged : torrent.chunks.modify position.toNat
      (fun chunk => { chunk with existing := true }) = torrent.chunks := by
    refine List.ext_getElem? fun i => ?_
    rw [List.getElem?_modify]
    by_cases same : position.toNat = i
    · subst same
      simp only [held, ↓reduceIte, Option.map_eq_map, Option.map_some, ← existing]
    · simp only [same, ↓reduceIte, Option.map_eq_map, Option.map_id_fun', id_eq]
  rw [markExisting, unchanged]

/-- The flag an object writes for a row whose flag it had before a chunk was marked. -/
theorem lastFlag_mark {torrent : Torrent} {uid : UInt32} {tables : Database} {chunk : Chunk}
    (there : chunk ∈ torrent.chunks) (same : torrent.MatchesRows uid tables)
    {row : ChunksRecord} (member : row ∈ tables.chunks) (own : row.uid = uid) :
    TorrentDB.lastFlag row.chunkIndex ((torrent.chunks.map (mark chunk.index)).map fun chunk =>
        (chunk.index, chunk.existing)) row.chunkExists =
      if row.chunkIndex = chunk.index then true else row.chunkExists := by
  refine TorrentDB.lastFlag_of_agree (fun flag made written => ?_) ?_
  · obtain ⟨_, marked, rfl⟩ := List.mem_map.mp made
    obtain ⟨source, stored, rfl⟩ := List.mem_map.mp marked
    simp only [mark_index] at written
    simp only [mark_existing, written]
    split
    · rfl
    · exact same row member own source stored written
  · split
    · next listed =>
        refine .inr ⟨_, List.mem_map_of_mem (List.mem_map_of_mem there), ?_⟩
        simp only [mark_index, listed]
    · exact .inl rfl

/-- An object that had the flags of the rows of its `TorrentDB`, with a chunk marked,
marks the row of that chunk. -/
theorem destroy_markExisting {torrent : Torrent} {tables : Database} {position : UInt32}
    {chunk : Chunk} (held : torrent.chunks[position.toNat]? = some chunk)
    (distinct : (torrent.chunks.map (·.index)).Nodup)
    (same : torrent.MatchesRows torrent.db.key tables) :
    (torrent.markExisting position).destroy tables =
      tables.updateChunk torrent.db.key chunk.index true := by
  have rows : (torrent.markExisting position).createChunkRows =
      (torrent.chunks.map (mark chunk.index)).map fun chunk => (chunk.index, chunk.existing) := by
    rw [createChunkRows, markExisting_chunks held distinct]
  have key : (torrent.markExisting position).db = torrent.db := rfl
  rw [destroy, updateChunkStatusInDB, rows, key, TorrentDB.updateChunks_eq, Database.updateChunk]
  congr 1
  apply List.map_congr_left
  intro row member
  by_cases own : row.uid = torrent.db.key
  · rw [if_pos own, lastFlag_mark (List.mem_of_getElem? held) same member own]
    by_cases listed : row.chunkIndex = chunk.index
    · rw [if_pos listed, if_pos ⟨own, listed⟩]
    · rw [if_neg listed, if_neg fun both => listed both.2]
  · rw [if_neg own, if_neg fun both => own both.1]

/-- An object matches the rows in which a flag was set if it matched them but for that flag. -/
theorem matchesRows_updateChunk {torrent : Torrent} {uid index : UInt32} {tables : Database}
    (same : ∀ row ∈ tables.chunks, row.uid = uid → ∀ chunk ∈ torrent.chunks,
      chunk.index = row.chunkIndex →
        chunk.existing = if row.chunkIndex = index then true else row.chunkExists) :
    torrent.MatchesRows uid (tables.updateChunk uid index true) := by
  intro row member own chunk there listed
  simp only [Database.updateChunk, List.mem_map] at member
  obtain ⟨old, stored, rfl⟩ := member
  by_cases updated : old.uid = uid ∧ old.chunkIndex = index
  · rw [if_pos updated] at listed ⊢
    rw [same old stored updated.1 chunk there listed, if_pos updated.2]
  · rw [if_neg updated] at own listed ⊢
    rw [same old stored own chunk there listed, if_neg fun equal => updated ⟨own, equal⟩]

end Torrent

end Bp2p
