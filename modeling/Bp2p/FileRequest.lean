import Bp2p.NewTorrent
import Bp2p.Node

/-! # Completing the request of a torrent's description

The description of a torrent is read into an object whose `TorrentDB` still has the
uid 0, and its rows are inserted under that uid. `open` then looks for the uid that
was read, does not find it, and the torrent is not stored
(`Bp2p.Torrent.completeTorrentFileReq_loses`). The sibling `generateChunks` passes the
uid on with `setDBuid`.
-/

namespace Bp2p

namespace Torrent

/-- A torrent as a peer describes it, with numbers that fit the tables. -/
structure WellFormed (torrent : Torrent) : Prop where
  named : torrent.name ≠ []
  filled : torrent.chunks ≠ []
  counted : torrent.numPieces.toNat = torrent.chunks.length
  identified : torrent.uid ≠ 0
  narrow : torrent.uid.toNat < 2 ^ 32
  hashes : ∀ chunk ∈ torrent.chunks, chunk.hash.toNat < 2 ^ 32

theorem WellFormed.printable {torrent : Torrent} (wellFormed : torrent.WellFormed) :
    torrent.Printable := by
  refine ⟨wellFormed.named, fun zero => wellFormed.filled ?_, wellFormed.filled⟩
  rw [← List.length_eq_zero_iff, ← wellFormed.counted, zero]
  rfl

/-- The node holds a torrent under its name, all chunks missing, and its rows under
its uid. -/
structure ArrivesIn (torrent : Torrent) (node : Node) : Prop where
  stored : ∃ tor, node.name2torrent[torrent.name]? = some tor ∧ tor.name = torrent.name ∧
    tor.uid = torrent.uid ∧ tor.numPieces = torrent.numPieces ∧ tor.size = torrent.size ∧
    tor.chunks.map (·.hash) = torrent.chunks.map (·.hash) ∧
    ∀ chunk ∈ tor.chunks, chunk.existing = false
  row : { torrent.torrentsRecord with uid := torrent.uid.toUInt32 } ∈ node.tables.torrents
  chunkRows : ∀ (i : Nat) (chunk : Chunk), torrent.chunks[i]? = some chunk →
    ⟨torrent.uid.toUInt32, .ofNat i, chunk.hash.toUInt32, false⟩ ∈ node.tables.chunks

/-- The object a description is read into keeps the uid 0 in its `TorrentDB`, and
inserts under it. -/
theorem createTorrentFromSerializedObj_described {env : Env} (refuses : Insert → Bool)
    {torrent written tor : Torrent} (printable : torrent.Printable)
    (counted : torrent.numPieces.toNat ≤ torrent.chunks.length)
    (serialized : torrent.serialize env = .ok written) {tables after : Database} {res : Bool}
    (created : ({} : Torrent).createTorrentFromSerializedObj env refuses written.serializedObj
      tables = (.ok (tor, res), after)) :
    tor.uid = torrent.uid ∧ (after.torrents = tables.torrents ∨
      after.torrents = tables.torrents ++ [{ tor.torrentsRecord with uid := 0 }]) := by
  obtain ⟨jobj, text, same, dumped, documents⟩ := serialize_spec printable serialized
  have nonempty := env.json.dump_ne_nil _ _ dumped
  have read := deserialize_of_documents env true { ({} : Torrent) with serializedObj := text }
    nonempty (env.json.parse_of_dump dumped) documents counted
  rw [same] at created
  simp only [createTorrentFromSerializedObj, List.isEmpty_iff, nonempty, ↓reduceIte, read]
    at created
  obtain ⟨again, output, ok | error⟩ := serialize_frame env
    (received env true torrent jobj { ({} : Torrent) with serializedObj := text })
  · simp only [ok, Prod.mk.injEq, Except.ok.injEq] at created
    obtain ⟨⟨rfl, _⟩, rfl⟩ := created
    exact ⟨rfl, insertIfValid_torrents refuses _ tables⟩
  · simp only [error, Prod.mk.injEq, reduceCtorEq, false_and] at created

/-- A well-formed torrent is not kept under the uid 0. -/
theorem WellFormed.key_ne_zero {torrent : Torrent} (wellFormed : torrent.WellFormed) :
    torrent.uid.toUInt32 ≠ 0 := by
  intro zero
  have low := congrArg UInt32.toNat zero
  rw [UInt64.toNat_toUInt32, Nat.mod_eq_of_lt wellFormed.narrow] at low
  exact wellFormed.identified (UInt64.toNat_inj.mp low)

/-- When nothing throws, completing the request leaves the map as it was, and no row
under the uid of the torrent: the only one inserted is that of the uid 0. -/
theorem completeTorrentFileReq_created {env : Env} (server : Server) (node : Node)
    {torrent written tor : Torrent} (wellFormed : torrent.WellFormed)
    (serialized : torrent.serialize env = .ok written)
    (absent : node.tables.hasTorrent torrent.uid.toUInt32 = false) (req : TorrentFileReq)
    (answered : req.serializedTorrent = written.serializedObj) {tables : Database} {res : Bool}
    (created : ({} : Torrent).createTorrentFromSerializedObj env server.refuses
      written.serializedObj node.tables = (.ok (tor, res), tables)) :
    ∃ after, node.completeTorrentFileReq env server req = some after ∧
      after.name2torrent = node.name2torrent ∧ after.tables.torrents = tables.torrents ∧
      after.tables.hasTorrent torrent.uid.toUInt32 = false := by
  obtain ⟨uid, rows⟩ := createTorrentFromSerializedObj_described server.refuses
    wellFormed.printable (Nat.le_of_eq wellFormed.counted) serialized created
  have missing : tables.hasTorrent tor.uid.toUInt32 = false := by
    rw [uid]
    apply Database.hasTorrent_false_iff.mpr
    intro row member
    rcases rows with same | same
    · exact Database.hasTorrent_false_iff.mp absent row (same ▸ member)
    · rcases List.mem_append.mp (same ▸ member) with old | new
      · exact Database.hasTorrent_false_iff.mp absent row old
      · rw [List.mem_singleton.mp new]
        exact wellFormed.key_ne_zero.symm
  have opened := open_of_absent env server.order (uid ▸ wellFormed.identified) missing
  refine ⟨({ node with tables } : Node).destroy (tor.loaded env server.order tables), ?_, rfl,
    destroy_torrents .., ?_⟩
  · simp only [Node.completeTorrentFileReq, answered, created, opened, Bool.false_eq_true,
      ↓reduceIte]
  · simp only [Node.destroy, Database.hasTorrent, destroy_torrents]
    rw [← uid]
    exact missing

/-- The row of a torrent that arrived is under its uid. -/
theorem ArrivesIn.hasTorrent {torrent : Torrent} {node : Node} (arrives : torrent.ArrivesIn node) :
    node.tables.hasTorrent torrent.uid.toUInt32 = true :=
  Database.hasTorrent_iff.mpr (List.mem_map.mpr ⟨_, arrives.row, rfl⟩)

/-- **A described torrent is lost.** In no state and for no description does completing
the request store the torrent and its rows. -/
theorem completeTorrentFileReq_loses (env : Env) (server : Server) (node : Node)
    (torrent written : Torrent) (wellFormed : torrent.WellFormed)
    (serialized : torrent.serialize env = .ok written)
    (absent : node.tables.hasTorrent torrent.uid.toUInt32 = false) (req : TorrentFileReq)
    (answered : req.serializedTorrent = written.serializedObj) :
    ¬ ∃ after, node.completeTorrentFileReq env server req = some after ∧
      torrent.ArrivesIn after := by
  rintro ⟨after, completed, arrives⟩
  cases created : ({} : Torrent).createTorrentFromSerializedObj env server.refuses
      written.serializedObj node.tables with
  | mk outcome tables =>
      cases outcome with
      | error thrown =>
          simp only [Node.completeTorrentFileReq, answered, created, reduceCtorEq] at completed
      | ok result =>
          obtain ⟨other, same, _, _, missing⟩ := completeTorrentFileReq_created server node
            wellFormed serialized absent req answered created
          rw [completed, Option.some.injEq] at same
          rw [← same, arrives.hasTorrent] at missing
          cases missing

theorem letterTorrent_wellFormed : (letterTorrent 7 1 false).WellFormed where
  named := List.cons_ne_nil _ _
  filled := List.cons_ne_nil _ _
  counted := rfl
  identified := by decide
  narrow := by decide
  hashes := by decide

theorem letterTorrent_serialize :
    (letterTorrent 7 1 false).serialize (.byLength (letterLib 7 [(1, false)])) =
      .ok { letterTorrent 7 1 false with
        jobj := letterDocument 7 [(1, false)], serializedObj := letterText 7 [(1, false)] } :=
  serialize_of_dump letterTorrent_wellFormed.printable rfl (dump_letterDocument _ (by decide))

/-- The description of the package `a`, which an empty node does not keep. -/
theorem completeTorrentFileReq_loses_letter :
    let req : TorrentFileReq :=
      { torrentName := [97], serializedTorrent := letterText 7 [(1, false)] }
    ¬ ∃ after, ({} : Node).completeTorrentFileReq (.byLength (letterLib 7 [(1, false)]))
      ⟨.insertion, fun _ => false⟩ req = some after ∧ (letterTorrent 7 1 false).ArrivesIn after :=
  completeTorrentFileReq_loses _ _ {} _ _ letterTorrent_wellFormed letterTorrent_serialize rfl _ rfl

/-- The description of the package `a` refutes its arrival: the request completes, and
the node does not hold the torrent. -/
theorem completeTorrentFileReq_fails :
    let env := Env.byLength (letterLib 7 [(1, false)])
    let torrent := letterTorrent 7 1 false
    let req : TorrentFileReq :=
      { torrentName := torrent.name, serializedTorrent := letterText 7 [(1, false)] }
    torrent.WellFormed ∧
      (∃ written, torrent.serialize env = .ok written ∧
        written.serializedObj = req.serializedTorrent) ∧
      ∃ after, ({} : Node).completeTorrentFileReq env ⟨.insertion, fun _ => false⟩ req =
        some after ∧ ¬ torrent.ArrivesIn after := by
  intro env torrent req
  obtain ⟨tor, res, created⟩ := createTorrentFromSerializedObj_letter env
    (dump_letterDocument _ (by decide))
  obtain ⟨after, completed, _, _, missing⟩ := completeTorrentFileReq_created
    ⟨.insertion, fun _ => false⟩ {} letterTorrent_wellFormed letterTorrent_serialize rfl req
    rfl created
  refine ⟨letterTorrent_wellFormed, ⟨_, letterTorrent_serialize, rfl⟩, after, completed, ?_⟩
  intro arrives
  rw [arrives.hasTorrent] at missing
  cases missing

end Torrent

end Bp2p
