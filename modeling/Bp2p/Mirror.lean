import Bp2p.Flags
import Bp2p.TorrentMap

/-! # What a restart finds

When a node shuts down, the torrents of its map go out of scope in an unspecified
order; the next process reads its map from what they leave in the tables. The map
survives a shutdown if the tables mirror it (`Bp2p.Node.Mirrors`): every entry has a row
of its name and every row an entry, the two agree, and no torrent has a flag that
differs from one its destructor would write over, which are those of uid 0.
-/

namespace Bp2p

namespace Torrent

/-- The torrents agree in what the tables hold of them, chunks in any order. -/
structure SameAs (torrent other : Torrent) : Prop where
  name : torrent.name = other.name
  uid : torrent.uid = other.uid
  numPieces : torrent.numPieces = other.numPieces
  size : torrent.size = other.size
  chunks : torrent.chunks.Perm other.chunks

theorem SameAs.trans {first second third : Torrent} (left : first.SameAs second)
    (right : second.SameAs third) : first.SameAs third :=
  ⟨left.name.trans right.name, left.uid.trans right.uid, left.numPieces.trans right.numPieces,
    left.size.trans right.size, left.chunks.trans right.chunks⟩

/-- The chunks of the rows of a uid. -/
def rowChunks (tables : Database) (uid : UInt32) : List Chunk :=
  (tables.chunks.filter (·.uid == uid)).map fun row =>
    { index := row.chunkIndex, hash := row.chunkHash.toUInt64, existing := row.chunkExists }

theorem localTorrent_chunks (order : RowOrder) (tables : Database) (row : TorrentsRecord) :
    (localTorrent order tables row).chunks.Perm (rowChunks tables row.uid) := by
  simp only [localTorrent, TorrentDB.getTorrentChunks, List.map_map, rowChunks]
  exact (order.chunks_perm _).map _

/-- The order of the rows does not matter for what is read. -/
theorem localTorrent_sameAs (order other : RowOrder) (tables : Database) (row : TorrentsRecord) :
    (localTorrent order tables row).SameAs (localTorrent other tables row) :=
  ⟨rfl, rfl, rfl, rfl,
    (localTorrent_chunks order tables row).trans (localTorrent_chunks other tables row).symm⟩

/-- A row is read the same way from tables with the same chunks under its uid. -/
theorem localTorrent_congr {tables after : Database} {row : TorrentsRecord}
    (same : rowChunks after row.uid = rowChunks tables row.uid) :
    (localTorrent .insertion tables row).SameAs (localTorrent .insertion after row) := by
  refine ⟨rfl, rfl, rfl, rfl, (localTorrent_chunks .insertion tables row).trans ?_⟩
  rw [← same]
  exact (localTorrent_chunks .insertion after row).symm

/-- An entry of a row is one of what else is read from it. -/
theorem SameAs.rel_map {held : Option Torrent} {found : Option TorrentsRecord}
    {before after : TorrentsRecord → Torrent}
    (entry : Option.Rel SameAs held (found.map before))
    (same : ∀ row, found = some row → (before row).SameAs (after row)) :
    Option.Rel SameAs held (found.map after) := by
  cases found with
  | none => exact entry
  | some row =>
      cases entry with
      | some equal => exact .some (equal.trans (same row rfl))

/-- A number that fits a column comes back as it was. -/
theorem toUInt64_toUInt32 {number : UInt64} (narrow : number.toNat < 2 ^ 32) :
    number.toUInt32.toUInt64 = number := by
  rw [← UInt64.toNat_inj, UInt32.toNat_toUInt64, UInt64.toNat_toUInt32, Nat.mod_eq_of_lt narrow]

/-- An object without chunks is filled with the torrent of its uid. -/
theorem loaded_sameAs (env : Env) (order : RowOrder) {tables : Database} {torrent : Torrent}
    {row : TorrentsRecord} (empty : torrent.chunks = []) (narrow : torrent.uid.toNat < 2 ^ 32)
    (found : tables.torrents.find? (·.uid == torrent.uid.toUInt32) = some row) :
    (torrent.loaded env order tables).SameAs (localTorrent .insertion tables row) := by
  have own := List.find?_some found
  rw [beq_iff_eq] at own
  have info := getTorrentInfo_of_find? found
  have chunks : (torrent.loaded env order tables).chunks =
      torrent.chunks ++ (localTorrent order tables row).chunks := by
    simp only [localTorrent, own]
    rfl
  refine ⟨congrArg (·.name) info, ?_, congrArg (·.numPieces) info, congrArg (·.size) info, ?_⟩
  · have wide : row.uid.toUInt64 = torrent.uid := by rw [own, toUInt64_toUInt32 narrow]
    exact (congrArg (·.uid) info).trans wide.symm
  · rw [chunks, empty, List.nil_append]
    exact (localTorrent_sameAs order .insertion tables row).chunks

/-- An update marks the chunk of the index among those of the uid. -/
theorem rowChunks_updateChunk (tables : Database) (uid index other : UInt32) :
    rowChunks (tables.updateChunk uid index true) other =
      if other = uid then (rowChunks tables other).map (mark index)
      else rowChunks tables other := by
  have kept : ((fun row : ChunksRecord => row.uid == other) ∘ fun row =>
      if row.uid = uid ∧ row.chunkIndex = index then { row with chunkExists := true } else row) =
        fun row => row.uid == other := by
    funext row
    simp only [Function.comp_apply]
    split
    · rfl
    · rfl
  simp only [rowChunks, Database.updateChunk, List.filter_map, List.map_map, kept]
  split
  · next same =>
      apply List.map_congr_left
      intro row member
      rw [List.mem_filter, beq_iff_eq, same] at member
      by_cases own : row.chunkIndex = index
      · simp only [Function.comp_apply, mark, member.2, own, and_self, ↓reduceIte]
      · simp only [Function.comp_apply, mark, own, and_false, ↓reduceIte]
  · next different =>
      apply List.map_congr_left
      intro row member
      rw [List.mem_filter, beq_iff_eq] at member
      have unmarked : ¬ (row.uid = uid ∧ row.chunkIndex = index) :=
        fun both => different (member.2.symm.trans both.1)
      simp only [Function.comp_apply, unmarked, ↓reduceIte]

/-- A uid without a torrent has no chunks. -/
theorem rowChunks_of_absent {tables : Database} (keyed : tables.Keyed) {uid : UInt32}
    (absent : tables.hasTorrent uid = false) : rowChunks tables uid = [] := by
  rw [rowChunks, List.map_eq_nil_iff, List.filter_eq_nil_iff]
  intro row member own
  have there := keyed.references row member
  rw [beq_iff_eq.mp own, absent] at there
  cases there

/-- The rows inserted for an object are its chunks, if their hashes fit the column. -/
theorem rowChunks_append {tables after : Database} {torrent : Torrent}
    (chunks : after.chunks = tables.chunks ++ torrent.chunks.map torrent.chunksRecord)
    (narrow : ∀ chunk ∈ torrent.chunks, chunk.hash.toNat < 2 ^ 32) (uid : UInt32) :
    rowChunks after uid =
      if uid = torrent.db.key then rowChunks tables uid ++ torrent.chunks
      else rowChunks tables uid := by
  simp only [rowChunks, chunks, List.filter_append, List.map_append, List.filter_map, List.map_map]
  split
  · next own =>
      have all : torrent.chunks.filter ((fun row => row.uid == uid) ∘ torrent.chunksRecord) =
          torrent.chunks := by
        rw [List.filter_eq_self]
        intro chunk _
        exact beq_iff_eq.mpr own.symm
      rw [all, TorrentDB.map_eq_self]
      intro chunk member
      simp only [Function.comp_apply, chunksRecord, toUInt64_toUInt32 (narrow chunk member)]
  · next other =>
      have none : torrent.chunks.filter ((fun row => row.uid == uid) ∘ torrent.chunksRecord) =
          [] := by
        rw [List.filter_eq_nil_iff]
        intro chunk _ own
        exact other (beq_iff_eq.mp own).symm
      rw [none, List.map_nil, List.append_nil]

theorem mem_rowChunks {tables : Database} {uid : UInt32} {chunk : Chunk} :
    chunk ∈ rowChunks tables uid ↔ ∃ row ∈ tables.chunks, row.uid = uid ∧
      { index := row.chunkIndex, hash := row.chunkHash.toUInt64, existing := row.chunkExists } =
        chunk := by
  simp only [rowChunks, List.mem_map, List.mem_filter, beq_iff_eq, and_assoc]

/-- The rows of a uid have different indices. -/
theorem rowChunks_distinct {tables : Database} (keyed : tables.Keyed) (uid : UInt32) :
    ((rowChunks tables uid).map (·.index)).Nodup := by
  rw [rowChunks, List.map_map]
  have rows := (List.nodup_map_iff_inj_on (keyed.chunks.of_map _)).mp keyed.chunks
  apply (List.nodup_map_iff_inj_on ((keyed.chunks.of_map _).filter _)).mpr
  intro row member other there same
  rw [List.mem_filter, beq_iff_eq] at member there
  exact rows row member.1 other there.1 (Prod.ext (member.2.trans there.2.symm) same)

end Torrent

namespace Node

/-- What the next process reads from the tables once the torrents have gone out of
scope. -/
def restart (server : Server) (node : Node) (torrents : List Torrent) : Node :=
  ({ files := node.files
     tables := torrents.foldl (fun tables torrent => torrent.destroy tables) node.tables } :
    Node).populateLocalTorrents server

/-- A restart finds the torrents of the map, in whatever order they go out of scope and
the rows are returned. -/
def Survives (node : Node) : Prop :=
  ∀ (server : Server) (torrents : List Torrent),
    torrents.Perm (node.name2torrent.toList.map (·.2)) → ∀ name : Bytes,
      Option.Rel Torrent.SameAs node.name2torrent[name]?
        (node.restart server torrents).name2torrent[name]?

/-- The tables hold what the map holds. -/
structure Mirrors (node : Node) : Prop where
  keyed : node.tables.Keyed
  distinct : (node.tables.torrents.map (·.name)).Nodup
  entries : ∀ name : Bytes, Option.Rel Torrent.SameAs node.name2torrent[name]?
    ((node.tables.torrents.find? (·.name == name)).map
      (Torrent.localTorrent .insertion node.tables))
  new : node.NewDBs
  zero : ∀ (name : Bytes) (torrent : Torrent), node.name2torrent[name]? = some torrent →
    torrent.MatchesRows 0 node.tables

/-- Whether the map mirrors the tables depends on both alone. -/
theorem Mirrors.of_eq {node after : Node} (mirrors : node.Mirrors)
    (same : ∀ name : Bytes, after.name2torrent[name]? = node.name2torrent[name]?)
    (tables : after.tables = node.tables) : after.Mirrors where
  keyed := tables ▸ mirrors.keyed
  distinct := tables ▸ mirrors.distinct
  entries name := by
    rw [same, tables]
    exact mirrors.entries name
  new name torrent held := mirrors.new name torrent (same name ▸ held)
  zero name torrent held := by
    rw [tables]
    exact mirrors.zero name torrent (same name ▸ held)

/-- An entry has the row of its name. -/
theorem Mirrors.row {node : Node} (mirrors : node.Mirrors) {name : Bytes} {torrent : Torrent}
    (found : node.name2torrent[name]? = some torrent) :
    ∃ row, node.tables.torrents.find? (·.name == name) = some row ∧
      torrent.SameAs (Torrent.localTorrent .insertion node.tables row) := by
  have entry := mirrors.entries name
  rw [found] at entry
  cases read : node.tables.torrents.find? (·.name == name) with
  | none =>
      rw [read] at entry
      cases entry
  | some row =>
      rw [read] at entry
      cases entry with
      | some same => exact ⟨row, rfl, same⟩

end Node

/-- Rows of different names are found in any order. -/
theorem find?_of_perm {rows other : List TorrentsRecord} (perm : other.Perm rows)
    (distinct : (rows.map (·.name)).Nodup) (name : Bytes) :
    other.find? (·.name == name) = rows.find? (·.name == name) := by
  cases found : rows.find? (·.name == name) with
  | none =>
      rw [List.find?_eq_none] at found ⊢
      exact fun row member => found row (perm.mem_iff.mp member)
  | some row =>
      have named := List.find?_some found
      have member := List.mem_of_find?_eq_some found
      cases again : other.find? (·.name == name) with
      | none => exact absurd named (List.find?_eq_none.mp again row (perm.mem_iff.mpr member))
      | some twin =>
          have sameName := List.find?_some again
          have there := perm.mem_iff.mp (List.mem_of_find?_eq_some again)
          rw [beq_iff_eq] at named sameName
          rw [List.inj_on_of_nodup_map distinct there member (sameName.trans named.symm)]

/-- A row is found by its name if no other one has it. -/
theorem find?_of_mem {rows : List TorrentsRecord} (distinct : (rows.map (·.name)).Nodup)
    {row : TorrentsRecord} (member : row ∈ rows) :
    rows.find? (·.name == row.name) = some row := by
  cases found : rows.find? (·.name == row.name) with
  | none => exact absurd (beq_self_eq_true _) (List.find?_eq_none.mp found row member)
  | some other =>
      have named := List.find?_some found
      rw [beq_iff_eq] at named
      rw [List.inj_on_of_nodup_map distinct (List.mem_of_find?_eq_some found) member named]

namespace Node

/-- A row has the entry of its name. -/
theorem Mirrors.entry {node : Node} (mirrors : node.Mirrors) {row : TorrentsRecord}
    (member : row ∈ node.tables.torrents) : ∃ torrent,
      node.name2torrent[row.name]? = some torrent ∧
      torrent.SameAs (Torrent.localTorrent .insertion node.tables row) := by
  have entry := mirrors.entries row.name
  rw [find?_of_mem mirrors.distinct member, Option.map_some] at entry
  cases held : node.name2torrent[row.name]? with
  | none =>
      rw [held] at entry
      cases entry
  | some torrent =>
      rw [held] at entry
      cases entry with
      | some same => exact ⟨torrent, rfl, same⟩

/-- A copy of a torrent of the map writes nothing new. -/
theorem Mirrors.destroy_copy {node : Node} (mirrors : node.Mirrors) {name : Bytes}
    {stored : Torrent} (found : node.name2torrent[name]? = some stored) :
    stored.copy.destroy node.tables = node.tables :=
  Torrent.destroy_of_matchesRows (mirrors.zero name stored found)

/-- The map survives a restart if the tables mirror it. -/
theorem Mirrors.survives {node : Node} (mirrors : node.Mirrors) : node.Survives := by
  intro server torrents perm name
  have left : torrents.foldl (fun tables torrent => torrent.destroy tables) node.tables =
      node.tables := by
    refine Torrent.foldl_destroy_eq_self fun torrent member => Torrent.destroy_of_matchesRows ?_
    obtain ⟨⟨key, held⟩, there, rfl⟩ := List.mem_map.mp (perm.mem_iff.mp member)
    have found := Std.TreeMap.mem_toList_iff_getElem?_eq_some.mp there
    rw [mirrors.new key _ found]
    exact mirrors.zero key _ found
  have rows : (server.order.torrents node.tables.torrents).reverse.Perm node.tables.torrents :=
    (List.reverse_perm _).trans (server.order.torrents_perm _)
  rw [restart, getElem?_populateLocalTorrents, left, find?_of_perm rows mirrors.distinct]
  exact Torrent.SameAs.rel_map (mirrors.entries name) fun row _ => Torrent.localTorrent_sameAs ..

theorem destroy_eq_self {node : Node} {torrent : Torrent}
    (same : torrent.destroy node.tables = node.tables) : node.destroy torrent = node := by
  rw [destroy, same]

/-- Kept torrents still mirror the tables. -/
theorem Mirrors.of_keepsTorrents {node after : Node} (mirrors : node.Mirrors)
    (keeps : node.KeepsTorrents after) : after.Mirrors := by
  obtain ⟨copies, made, tables⟩ := keeps.tables
  refine mirrors.of_eq (fun name => by rw [keeps.name2torrent]) (tables.trans ?_)
  apply Torrent.foldl_destroy_eq_self
  intro copied member
  obtain ⟨name, stored, found, rfl⟩ := made copied member
  exact mirrors.destroy_copy found

/-- Destructors change the tables one behind the other. -/
theorem foldl_destroy_tables (torList : List Torrent) (node : Node) :
    (torList.foldl destroy node).tables =
      torList.foldl (fun tables torrent => torrent.destroy tables) node.tables := by
  induction torList generalizing node with
  | nil => rfl
  | cons tor rest ih => exact ih _

theorem foldl_setTorrent_tables (torList : List Torrent) (node : Node) :
    (torList.foldl (fun node tor => node.setTorrent tor.name tor) node).tables = node.tables := by
  induction torList generalizing node with
  | nil => rfl
  | cons tor rest ih => exact (ih _).trans (setTorrent_tables node tor.name tor)

end Node

/-- Names and keys differ, and no flag differs from the one uid 0 has for the index. -/
structure Database.Consistent (tables : Database) : Prop where
  keyed : tables.Keyed
  distinct : (tables.torrents.map (·.name)).Nodup
  zero : ∀ row ∈ tables.chunks, row.uid = 0 → ∀ other ∈ tables.chunks,
    other.chunkIndex = row.chunkIndex → other.chunkExists = row.chunkExists

/-- A local torrent has the flags of the rows of uid 0. -/
theorem Database.Consistent.localTorrent {tables : Database} (consistent : tables.Consistent)
    (order : RowOrder) (row : TorrentsRecord) :
    (Torrent.localTorrent order tables row).MatchesRows 0 tables := by
  intro record member unset chunk listed index
  have read := (Torrent.localTorrent_chunks order tables row).mem_iff.mp listed
  obtain ⟨other, stored, _, rfl⟩ := Torrent.mem_rowChunks.mp read
  exact consistent.zero record member unset other stored index

namespace Node

/-- The map read from consistent tables is mirrored by them, if clearing the one before
has left them as they were. -/
theorem populateLocalTorrents_mirrors (server : Server) {node : Node}
    (cleared : node.clearTorrents.tables = node.tables) (consistent : node.tables.Consistent) :
    (node.populateLocalTorrents server).Mirrors := by
  have tables : (node.populateLocalTorrents server).tables = node.tables := by
    rw [populateLocalTorrents, foldl_destroy_tables, foldl_setTorrent_tables, cleared]
    refine Torrent.foldl_destroy_eq_self fun torrent member => Torrent.destroy_of_matchesRows ?_
    rw [Torrent.getAllTorrents_eq] at member
    obtain ⟨row, _, rfl⟩ := List.mem_map.mp member
    exact consistent.localTorrent server.order row
  have rows : (server.order.torrents node.tables.torrents).reverse.Perm node.tables.torrents :=
    (List.reverse_perm _).trans (server.order.torrents_perm _)
  have entries : ∀ name : Bytes, (node.populateLocalTorrents server).name2torrent[name]? =
      (node.tables.torrents.find? (·.name == name)).map
        (Torrent.localTorrent server.order node.tables) := by
    intro name
    rw [getElem?_populateLocalTorrents, find?_of_perm rows consistent.distinct]
  refine ⟨tables ▸ consistent.keyed, tables ▸ consistent.distinct, fun name => ?_,
    fun name torrent held => ?_, fun name torrent held => ?_⟩
  · rw [entries, tables]
    cases node.tables.torrents.find? (·.name == name) with
    | none => exact .none
    | some row => exact .some (Torrent.localTorrent_sameAs ..)
  · rw [entries] at held
    obtain ⟨row, _, rfl⟩ := Option.map_eq_some_iff.mp held
    rfl
  · rw [entries] at held
    obtain ⟨row, _, rfl⟩ := Option.map_eq_some_iff.mp held
    exact tables ▸ consistent.localTorrent server.order row

/-- A new process has no torrents to clear. -/
theorem clearTorrents_of_new {node : Node} (new : node.name2torrent = {}) :
    node.clearTorrents.tables = node.tables := by
  rw [clearTorrents, new]
  rfl

/-- Clearing a map that mirrors the tables changes none of them. -/
theorem Mirrors.clearTorrents {node : Node} (mirrors : node.Mirrors) :
    node.clearTorrents.tables = node.tables := by
  have kept : ∀ entries : List (Bytes × Torrent),
      (∀ entry ∈ entries, node.name2torrent[entry.1]? = some entry.2) →
      entries.foldl (fun node entry => node.destroy entry.2) node = node := by
    intro entries held
    induction entries with
    | nil => rfl
    | cons entry rest ih =>
        have found := held entry List.mem_cons_self
        have same : node.destroy entry.2 = node := by
          refine destroy_eq_self (Torrent.destroy_of_matchesRows ?_)
          rw [mirrors.new entry.1 _ found]
          exact mirrors.zero entry.1 _ found
        rw [List.foldl_cons, same]
        exact ih fun other member => held other (List.mem_cons_of_mem _ member)
  rw [Node.clearTorrents, Std.TreeMap.foldl_eq_foldl_toList, kept]
  exact fun entry member => Std.TreeMap.mem_toList_iff_getElem?_eq_some.mp member

/-- Tables that are mirrored are consistent. -/
theorem Mirrors.consistent {node : Node} (mirrors : node.Mirrors) : node.tables.Consistent where
  keyed := mirrors.keyed
  distinct := mirrors.distinct
  zero row member unset other stored index := by
    obtain ⟨owner, there, own⟩ := List.mem_map.mp (Database.hasTorrent_iff.mp
      (mirrors.keyed.references other stored))
    obtain ⟨torrent, found, same⟩ := mirrors.entry there
    have listed := (same.chunks.trans (Torrent.localTorrent_chunks ..)).mem_iff.mpr
      (Torrent.mem_rowChunks.mpr ⟨other, stored, own.symm, rfl⟩)
    exact mirrors.zero owner.name torrent found row member unset _ listed index

/-- A torrent of the tables is stored under its name again. -/
theorem Mirrors.restore {node after : Node} (mirrors : node.Mirrors) {row : TorrentsRecord}
    (member : row ∈ node.tables.torrents) {torrent : Torrent}
    (stores : node.Stores after row.name torrent) (tables : after.tables = node.tables)
    (same : torrent.SameAs (Torrent.localTorrent .insertion node.tables row))
    (new : torrent.db = {}) : after.Mirrors where
  keyed := tables ▸ mirrors.keyed
  distinct := tables ▸ mirrors.distinct
  entries name := by
    rw [stores name, tables]
    split
    · next own =>
        rw [← own, find?_of_mem mirrors.distinct member]
        exact .some same
    · exact mirrors.entries name
  new name other held := by
    rw [stores name] at held
    split at held
    · cases held
      exact new
    · exact mirrors.new name other held
  zero name other held := by
    rw [tables]
    rw [stores name] at held
    split at held
    · obtain ⟨before, found, old⟩ := mirrors.entry member
      cases held
      exact (mirrors.zero row.name before found).of_perm (same.chunks.trans old.chunks.symm)
    · exact mirrors.zero name other held

/-- The chunk of a torrent of uid 0 is marked in the map and in the tables. -/
theorem Mirrors.mark {node after : Node} (mirrors : node.Mirrors) {name : Bytes}
    {stored : Torrent} (found : node.name2torrent[name]? = some stored) {position : UInt32}
    {chunk : Chunk} (held : stored.chunks[position.toNat]? = some chunk) (zero : stored.uid = 0)
    (alone : ∀ (key : Bytes) (other : Torrent), key ≠ name → node.name2torrent[key]? = some other →
      ∀ twin ∈ other.chunks, twin.index = chunk.index → twin.existing = true)
    (stores : node.Stores after name (stored.markExisting position))
    (tables : after.tables = (stored.copy.markExisting position).destroy node.tables) :
    after.Mirrors := by
  obtain ⟨row, read, same⟩ := mirrors.row found
  have member := List.mem_of_find?_eq_some read
  have named := List.find?_some read
  rw [beq_iff_eq] at named
  have own : row.uid = 0 := by
    have wide : row.uid.toUInt64 = (0 : UInt32).toUInt64 := same.uid.symm.trans zero
    rw [← UInt32.toUInt32_toUInt64 row.uid, wide, UInt32.toUInt32_toUInt64]
  have rows := same.chunks.trans (Torrent.localTorrent_chunks .insertion node.tables row)
  have distinct : (stored.chunks.map (·.index)).Nodup :=
    (rows.map _).nodup_iff.mpr (Torrent.rowChunks_distinct mirrors.keyed row.uid)
  have marked := Torrent.markExisting_chunks held distinct
  have destroyed : (stored.copy.markExisting position).destroy node.tables =
      node.tables.updateChunk 0 chunk.index true :=
    Torrent.destroy_markExisting held distinct (mirrors.zero name stored found)
  have written := tables.trans destroyed
  constructor
  · exact written ▸ mirrors.keyed.updateChunk 0 chunk.index true
  · exact written ▸ mirrors.distinct
  · intro key
    rw [stores key, written, Database.updateChunk_torrents]
    split
    · next equal =>
        rw [← equal, read, Option.map_some]
        refine .some ⟨same.name, same.uid, same.numPieces, same.size, ?_⟩
        refine List.Perm.trans ?_ (Torrent.localTorrent_chunks .insertion _ row).symm
        rw [marked, Torrent.rowChunks_updateChunk, if_pos own]
        exact rows.map _
    · next different =>
        apply Torrent.SameAs.rel_map (mirrors.entries key)
        intro other last
        have nonzero : other.uid ≠ 0 := by
          intro equal
          have twin := List.inj_on_of_nodup_map mirrors.keyed.torrents
            (List.mem_of_find?_eq_some last) member (equal.trans own.symm)
          have keyed := List.find?_some last
          rw [beq_iff_eq, twin] at keyed
          exact different (named.symm.trans keyed)
        apply Torrent.localTorrent_congr
        rw [Torrent.rowChunks_updateChunk, if_neg nonzero]
  · intro key other there
    rw [stores key] at there
    split at there
    · cases there
      exact mirrors.new name stored found
    · exact mirrors.new key other there
  · intro key other there
    rw [written]
    apply Torrent.matchesRows_updateChunk
    intro old recorded unset twin listed index
    rw [stores key] at there
    split at there
    · cases there
      rw [marked] at listed
      obtain ⟨source, kept, rfl⟩ := List.mem_map.mp listed
      rw [Torrent.mark_index] at index
      rw [Torrent.mark_existing, index]
      split
      · rfl
      · exact mirrors.zero name stored found old recorded unset source kept index
    · next different =>
        split
        · next equal =>
            exact alone key other (Ne.symm different) there twin listed (index.trans equal)
        · exact mirrors.zero key other there old recorded unset twin listed index

/-- The rows of a new torrent hold what the object holds, its name is new, and no flag of
another torrent is written over one of uid 0. -/
structure RowsHold (node : Node) (name : Bytes) (seeder : Torrent) : Prop where
  unnamed : node.name2torrent.contains name = false
  narrow : seeder.uid.toNat < 2 ^ 32
  hashes : ∀ chunk ∈ seeder.chunks, chunk.hash.toNat < 2 ^ 32
  indices : (seeder.chunks.map (·.index)).Nodup
  files : seeder.files.Nodup
  zero : seeder.MatchesRows 0 node.tables
  others : seeder.uid = 0 → ∀ (key : Bytes) (other : Torrent),
    node.name2torrent[key]? = some other → ∀ twin ∈ other.chunks,
    twin.index ∈ seeder.chunks.map (·.index) → twin.existing = true

/-- A torrent whose rows hold it is inserted and stored. -/
theorem Mirrors.append {node after : Node} (mirrors : node.Mirrors) {torrent : Torrent}
    (own : torrent.db = { uid := torrent.uid })
    (absent : node.tables.hasTorrent torrent.db.key = false)
    (holds : node.RowsHold torrent.name torrent)
    (existing : ∀ chunk ∈ torrent.chunks, chunk.existing = true)
    (stores : node.Stores after torrent.name torrent.copy)
    (torrents : after.tables.torrents = node.tables.torrents ++ [torrent.torrentsRecord])
    (chunks : after.tables.chunks = node.tables.chunks ++ torrent.chunks.map torrent.chunksRecord)
    (keyed : after.tables.Keyed) : after.Mirrors := by
  have missing : node.name2torrent[torrent.name]? = none := by
    have unnamed := holds.unnamed
    rw [Std.TreeMap.contains_eq_isSome_getElem?, Option.isSome_eq_false_iff] at unnamed
    exact Option.isNone_iff_eq_none.mp unnamed
  have unlisted : node.tables.torrents.find? (·.name == torrent.name) = none := by
    have entry := mirrors.entries torrent.name
    rw [missing] at entry
    cases found : node.tables.torrents.find? (·.name == torrent.name) with
    | none => rfl
    | some row =>
        rw [found] at entry
        cases entry
  have key : torrent.db.key = torrent.uid.toUInt32 := by rw [own, TorrentDB.key]
  have rows := Torrent.rowChunks_append chunks holds.hashes
  constructor
  · exact keyed
  · rw [torrents, List.map_append, List.map_singleton]
    refine nodup_append_singleton.mpr ⟨mirrors.distinct, fun member => ?_⟩
    obtain ⟨row, there, same⟩ := List.mem_map.mp member
    exact List.find?_eq_none.mp unlisted row there (beq_iff_eq.mpr same)
  · intro name
    rw [stores name, torrents, List.find?_append]
    split
    · next same =>
        have found : [torrent.torrentsRecord].find? (·.name == name) =
            some torrent.torrentsRecord :=
          List.find?_singleton.trans (if_pos (beq_iff_eq.mpr same))
        rw [← same] at found ⊢
        rw [unlisted, Option.none_or, found, Option.map_some]
        refine .some ⟨rfl, ?_, rfl, rfl, ?_⟩
        · exact (Torrent.toUInt64_toUInt32 holds.narrow).symm.trans (congrArg _ key.symm)
        · refine List.Perm.trans ?_ (Torrent.localTorrent_chunks ..).symm
          have mine : torrent.torrentsRecord.uid = torrent.db.key := rfl
          rw [rows, if_pos mine, mine, Torrent.rowChunks_of_absent mirrors.keyed absent,
            List.nil_append]
          exact .refl _
    · next different =>
        have unfound : [torrent.torrentsRecord].find? (·.name == name) = none :=
          List.find?_singleton.trans (if_neg fun same => different (beq_iff_eq.mp same))
        rw [unfound, Option.or_none]
        apply Torrent.SameAs.rel_map (mirrors.entries name)
        intro row found
        apply Torrent.localTorrent_congr
        rw [rows, if_neg]
        exact Database.hasTorrent_false_iff.mp absent row (List.mem_of_find?_eq_some found)
  · intro name other held
    rw [stores name] at held
    split at held
    · cases held
      rfl
    · exact mirrors.new name other held
  · intro name other held row member unset twin listed index
    rw [stores name] at held
    rw [chunks] at member
    rcases List.mem_append.mp member with old | new
    · split at held
      · cases held
        exact holds.zero row old unset twin listed index
      · exact mirrors.zero name other held row old unset twin listed index
    · obtain ⟨chunk, source, rfl⟩ := List.mem_map.mp new
      refine Eq.trans ?_ (existing chunk source).symm
      split at held
      · cases held
        exact existing twin listed
      · have unidentified : torrent.uid = 0 := by
          rw [← Torrent.toUInt64_toUInt32 holds.narrow, ← key]
          exact congrArg _ unset
        apply holds.others unidentified name other held twin listed
        rw [index]
        exact List.mem_map_of_mem source

end Node

end Bp2p
