import Bp2p.Completes
import Bp2p.Origins

/-! # Nodes that seed

A node that has the whole package of a torrent, and has it under a uid, opens it for every
request: whoever asks for one of its chunks gets the piece (`Bp2p.Node.Seeds.answers`). A node
that seeds does so behind every step that spares the download
(`Bp2p.System.Step.seeds`).
-/

namespace Bp2p

namespace Torrent

variable {env : Env} {order : RowOrder} {tables : Database} {torrent tor : Torrent}
  {row : TorrentsRecord} {opened : Bool}

/-- What is opened from a row has the package of its name. -/
theorem open_of_find? (identified : torrent.uid ≠ 0)
    (found : tables.torrents.find? (·.uid == torrent.uid.toUInt32) = some row)
    (executed : torrent.open env order tables = .ok (tor, opened)) :
    tor.packagePath = packagePathOf env row.name ∧
      (opened = true ↔ torrent.RowsComplete tables row) := by
  obtain ⟨⟨jobj, serializedObj, rfl⟩, printable⟩ := open_ok identified executed
  obtain ⟨named, complete⟩ := loaded_of_find? env order found
  exact ⟨congrArg (packagePathOf env) named, printable.trans complete⟩

end Torrent

namespace Node

open Torrent RRPacket

/-- The node has the whole package of a torrent, and the torrent can be opened. -/
structure Seeds (env : Env) (content name : Bytes) (node : Node) : Prop where
  downloading : node.Downloading env content name
  whole : node.lacked content name = ∅
  identified : ∃ uid, uid ≠ 0 ∧ node.Identified name uid
  openable : node.Openable
  counted : ∀ row ∈ node.tables.torrents, row.numPieces ≠ 0

variable {env : Env} {content name : Bytes} {node after : Node} {server : Server}

theorem Seeds.file (seeds : node.Seeds env content name) (nonempty : 1 ≤ content.length) :
    node.files (packagePathOf env name) = some content := by
  obtain ⟨torrent, found, _⟩ := seeds.downloading.stored
  have complete := (seeds.downloading.isComplete_iff nonempty found).mpr seeds.whole
  exact seeds.downloading.file_of_isComplete found complete

/-- A chunk is read from the package. -/
theorem Seeds.retrieveChunk (seeds : node.Seeds env content name) (nonempty : 1 ≤ content.length)
    {index : Int32} {bytes : Bytes}
    (executed : node.retrieveChunk env server name index = some (after, bytes)) :
    bytes = piece (index.toUInt32.toNat % 2 ^ 17) content := by
  obtain ⟨torrent, found, titled, downloads⟩ := seeds.downloading.stored
  obtain ⟨uid, set, same, there, rfl⟩ := seeds.identified
  rw [found, Option.some.injEq] at there
  subst there
  obtain ⟨row, selected, named⟩ := (seeds.openable.stored name torrent found).row set
  simp only [Node.retrieveChunk, readTorrent, found] at executed
  split at executed
  · cases executed
  · next tor opened loaded =>
      rw [Option.some.injEq, Prod.mk.injEq] at executed
      have own : torrent.copy.uid ≠ 0 := set
      obtain ⟨path, complete⟩ := open_of_find? own selected loaded
      have filled : torrent.copy.chunks ≠ [] := by
        apply List.ne_nil_of_length_pos
        rw [show torrent.copy.chunks = torrent.chunks from rfl,
          length_chunks_of_hashes downloads.hashes]
        exact pieceCount_pos nonempty
      have rows : torrent.copy.RowsComplete node.tables row := by
        refine ⟨?_, seeds.counted row (List.mem_of_find?_eq_some selected), .inl filled⟩
        rw [named, titled]
        exact seeds.downloading.ne_nil
      rw [if_pos (complete.mpr rows)] at executed
      rw [named, titled] at path
      rw [← executed.2]
      exact getChunk_eq_piece (path ▸ seeds.file nonempty) _

/-- **A node that seeds serves.** A request for one of the chunks is answered with the piece. -/
theorem Seeds.answers (seeds : node.Seeds env content name) (nonempty : 1 ≤ content.length)
    (bounded : content.length ≤ 2 ^ 32) (clean : Separator.Clean commSeparator.val name)
    (short : name.length < 2 ^ 31) {index : Int32}
    (inside : index.toUInt32.toNat < pieceCount content) {memory : Bytes} {rsp : Message}
    (answered : node.processRequest env server
      ({ torrentName := name, index } : ChunkReq).createRequest.req memory = some (after, rsp)) :
    rsp.data = piece index.toUInt32.toNat content := by
  have fields := (extractNameAndIndex_eq_iff name index).mpr ⟨clean, short⟩
  simp only [processRequest, create_chunkReq, processPacket, fields, bind,
    Option.bind_eq_some_iff, Option.some.injEq, Prod.mk.injEq, Prod.exists] at answered
  obtain ⟨_, _, ⟨_, bytes, executed, rfl, rfl⟩, rfl, rfl⟩ := answered
  have small := pieceCount_le bounded
  rw [← Nat.mod_eq_of_lt (Nat.lt_of_lt_of_le inside small)]
  exact seeds.retrieveChunk nonempty executed

end Node

namespace System

open Node

variable {env : Env} {content name : Bytes} {system after : System} {label : Label}

/-- A step that spares the package keeps the seed. -/
theorem Step.seeds (step : Step env system label after) (seeds : system.node.Seeds env content name)
    (nonempty : 1 ≤ content.length) (bounded : content.length ≤ 2 ^ 32)
    (checks : env.json.ChecksUtf8)
    (spares : system.Spares env content name label) : after.node.Seeds env content name := by
  have keeps := step.keepsDownload seeds.downloading nonempty bounded spares
  obtain ⟨uid, set, same⟩ := seeds.identified
  refine ⟨keeps.downloading, ?_, ⟨uid, set, keeps.identified uid same⟩,
    step.openable checks seeds.openable, fun row member => ?_⟩
  · have fewer := keeps.lacked_subset seeds.downloading
    rw [seeds.whole] at fewer
    exact Finset.subset_empty.mp fewer
  · exact (step.addsRows row member).elim (seeds.counted row) And.right

end System

end Bp2p
