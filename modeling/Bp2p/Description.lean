import Bp2p.NewTorrent
import Bp2p.TorrentObject
import Bp2p.Utf8

/-! # Descriptions of torrents

A torrent is sent as the text `serialize` prints. A new object that reads it has the
fields and chunks of the torrent, whatever else its document held
(`Bp2p.Torrent.deserialize_serialize`). What a peer sends may be any text: either
nothing is inserted, or what is inserted has a name, and its chunks are numbered and
missing (`Bp2p.Torrent.createTorrentFromSerializedObj_incoming`).
-/

namespace Bp2p

namespace Torrent

theorem isUtf8_fieldKeys :
    IsUtf8 nameKey ∧ IsUtf8 uidKey ∧ IsUtf8 numPiecesKey ∧ IsUtf8 sizeKey :=
  ⟨isUtf8_of_all rfl, isUtf8_of_all rfl, isUtf8_of_all rfl, isUtf8_of_all rfl⟩

theorem valid_chunkMember (chunk : Chunk) : (chunkMember chunk).Valid := by
  refine .array fun element member => ?_
  rcases List.mem_pair.mp member with rfl | rfl
  · exact .unsigned _
  · exact .boolean _

/-- The loop of `serialize` gets through on a value with members, and keeps its strings
in UTF-8. -/
theorem serializeChunks_of_hasMembers (chunks : List Chunk) (i : Nat) {jobj : Json}
    (has : jobj.HasMembers) :
    ∃ result, serializeChunks i chunks jobj = some result ∧ (jobj.Valid → result.Valid) := by
  induction chunks generalizing i jobj with
  | nil => exact ⟨jobj, rfl, id⟩
  | cons chunk rest ih =>
      obtain ⟨next, assigned⟩ := has.assign (Decimal.numeral i) (chunkMember chunk)
      obtain ⟨result, written, kept⟩ := ih (i + 1) (Json.assign_spec assigned).1
      refine ⟨result, ?_, fun text => kept ?_⟩
      · simp only [chunkMember] at assigned
        simp only [serializeChunks, assigned, written]
      · exact text.assign (isUtf8_numeral i) (valid_chunkMember chunk) assigned

/-- `serialize` sets its members on a value that has members. -/
theorem serializeFields_of_hasMembers {torrent : Torrent} (has : torrent.jobj.HasMembers) :
    ∃ jobj, torrent.serializeFields = some jobj ∧
      (torrent.jobj.Valid → IsUtf8 torrent.name → jobj.Valid) := by
  obtain ⟨nameText, uidText, numPiecesText, sizeText⟩ := isUtf8_fieldKeys
  obtain ⟨named, setName⟩ := has.assign nameKey (.string torrent.name)
  obtain ⟨numbered, setUid⟩ :=
    (Json.assign_spec setName).1.assign uidKey (.unsigned torrent.uid)
  obtain ⟨counted, setPieces⟩ :=
    (Json.assign_spec setUid).1.assign numPiecesKey (.unsigned torrent.numPieces.toUInt64)
  obtain ⟨sized, setSize⟩ :=
    (Json.assign_spec setPieces).1.assign sizeKey (.unsigned torrent.size)
  obtain ⟨jobj, written, kept⟩ :=
    serializeChunks_of_hasMembers torrent.chunks 0 (Json.assign_spec setSize).1
  refine ⟨jobj, ?_, fun text name => kept ?_⟩
  · simp only [serializeFields, setName, setUid, setPieces, setSize, bind, Option.bind_some,
      written]
  · have first := text.assign nameText (.string name) setName
    have second := first.assign uidText (.unsigned _) setUid
    have third := second.assign numPiecesText (.unsigned _) setPieces
    exact third.assign sizeText (.unsigned _) setSize

/-- The chunks read back are the ones printed, with their flags unless the torrent is new. -/
theorem readChunks_eq (create : Bool) {source : Torrent}
    (positions : ∀ (i : Nat) (chunk : Chunk), source.chunks[i]? = some chunk →
      chunk.index.toNat = i) :
    readChunks create source 0 source.chunks.length =
      source.chunks.map fun chunk => { chunk with existing := !create && chunk.existing } := by
  refine List.ext_getElem ?_ fun i low high => ?_
  · simp only [readChunks, List.length_map, List.length_range']
  · have inside : i < source.chunks.length := by simpa only [List.length_map] using high
    have index : UInt32.ofNat i = source.chunks[i].index := by
      have position := positions i _ (List.getElem?_eq_getElem inside)
      exact (congrArg UInt32.ofNat position).symm.trans UInt32.ofNat_toNat
    simp only [readChunks, List.getElem_map, List.getElem_range', Nat.zero_add, Nat.one_mul,
      List.getD_eq_getElem?_getD, List.getElem?_eq_getElem inside, Option.getD_some, index]

/-- **Sending a description.** What a torrent's numbered chunks and its fields are printed
as is read back by a new object: the fields and the chunks in order, the flags as they
were, or all cleared when the torrent is new there. Printing does not fail on UTF-8. -/
theorem deserialize_serialize (env : Env) (torrent : Torrent) (named : torrent.name ≠ [])
    (filled : torrent.chunks ≠ [])
    (counted : torrent.numPieces.toNat = torrent.chunks.length)
    (positions : ∀ (i : Nat) (chunk : Chunk), torrent.chunks[i]? = some chunk →
      chunk.index.toNat = i)
    (members : torrent.jobj.HasMembers) :
    ∃ jobj, torrent.serializeFields = some jobj ∧
      (env.json.ChecksUtf8 → IsUtf8 torrent.name → torrent.jobj.Valid →
        ∃ text, env.json.dump jobj = some text) ∧
      ∀ text, env.json.dump jobj = some text →
        torrent.serialize env = .ok { torrent with jobj, serializedObj := text } ∧
        ∀ create, ∃ read, deserialize env create { serializedObj := text } = read ∧
          read.name = torrent.name ∧ read.uid = torrent.uid ∧
          read.numPieces = torrent.numPieces ∧ read.size = torrent.size ∧
          read.chunks = torrent.chunks.map fun chunk =>
            { chunk with existing := !create && chunk.existing } := by
  have some : torrent.numPieces ≠ 0 := by
    intro zero
    rw [zero] at counted
    exact filled (List.length_eq_zero_iff.mp counted.symm)
  obtain ⟨jobj, described, kept⟩ := serializeFields_of_hasMembers members
  refine ⟨jobj, described, fun checks name document => ?_, fun text dumped => ⟨?_, ?_⟩⟩
  · exact checks.dump jobj (kept document name)
  · exact serialize_of_dump ⟨named, some, filled⟩ described dumped
  · intro create
    have read := deserialize_of_documents env create { serializedObj := text }
      (env.json.dump_ne_nil _ _ dumped) (env.json.parse_of_dump dumped)
      (documents_of_serializeFields described) (Nat.le_of_eq counted)
    refine ⟨_, read, rfl, rfl, rfl, rfl, ?_⟩
    simp only [received, counted]
    exact readChunks_eq create positions

theorem isUtf8_letter : IsUtf8 [97] :=
  isUtf8_of_all rfl

/-- A library that checks UTF-8 and knows the text of the package `a`. -/
noncomputable def checkingLib (uid hash : UInt64) (existing : Bool) : JsonLib :=
  .printing (letterDocument uid [(hash, existing)]) (letterText uid [(hash, existing)]) rfl

theorem checkingLib_checksUtf8 (uid hash : UInt64) (existing : Bool) :
    (checkingLib uid hash existing).ChecksUtf8 :=
  JsonLib.printing_checksUtf8 ..

/-- The torrent of one byte, sent and read as a new one. -/
theorem deserialize_serialize_letter :
    let env := Env.byLength (checkingLib 7 1 true)
    ∃ text, (∃ written, (letterTorrent 7 1 true).serialize env = .ok written ∧
        written.serializedObj = text) ∧
      (deserialize env true { serializedObj := text }).chunks =
        [{ index := 0, hash := 1, existing := false }] := by
  intro env
  have positions : ∀ (i : Nat) (chunk : Chunk),
      (letterTorrent 7 1 true).chunks[i]? = some chunk → chunk.index.toNat = i := by
    intro i chunk found
    cases i with
    | zero =>
        cases found
        rfl
    | succ i => cases found
  obtain ⟨jobj, _, prints, reads⟩ := deserialize_serialize env (letterTorrent 7 1 true)
    (List.cons_ne_nil _ _) (List.cons_ne_nil _ _) rfl positions trivial
  obtain ⟨text, dumped⟩ := prints (checkingLib_checksUtf8 7 1 true) isUtf8_letter .null
  obtain ⟨serialized, read⟩ := reads text dumped
  obtain ⟨_, rfl, _, _, _, _, chunks⟩ := read true
  exact ⟨text, ⟨_, serialized, rfl⟩, chunks⟩

/-- The strings an object read are UTF-8, and the chunks it has are missing and come from
a document with members. -/
structure Clean (torrent : Torrent) : Prop where
  document : torrent.jobj.Valid
  name : IsUtf8 torrent.name
  members : torrent.chunks ≠ [] → torrent.jobj.HasMembers
  missing : ∀ chunk ∈ torrent.chunks, chunk.existing = false

/-- A value has members behind a member of it was looked up. -/
theorem hasMembers_of_access {jobj after value : Json} {key : Bytes}
    (accessed : jobj.access key = some (after, value)) : after.HasMembers := by
  cases jobj with
  | null =>
      cases accessed
      trivial
  | object members =>
      unfold Json.access at accessed
      simp only at accessed
      split at accessed
      · cases accessed
        trivial
      · cases accessed
        trivial
  | boolean _ | unsigned _ | integer _ | float _ | string _ | array _ => cases accessed

/-- Reading a member leaves a clean object, if what is made of the value read does. -/
theorem Clean.fetch {α : Type} {convert : Json → Option α} {key : Bytes} {torrent : Torrent}
    {object : Torrent × α → Torrent} (clean : torrent.Clean) (name : IsUtf8 key)
    (reads : ∀ jobj value result, jobj.HasMembers → { torrent with jobj }.Clean → value.Valid →
      convert value = some result → (object ({ torrent with jobj }, result)).Clean) :
    Leaves object Clean (torrent.fetch convert key) := by
  unfold Torrent.fetch
  split
  · exact clean
  · next jobj value accessed =>
      obtain ⟨document, text⟩ := clean.document.access name accessed
      have has := hasMembers_of_access accessed
      have left : { torrent with jobj }.Clean := ⟨document, clean.name, fun _ => has, clean.missing⟩
      split
      · exact left
      · next result converted => exact reads jobj value result has left text converted

/-- A chunk of a new torrent is missing. -/
theorem convertChunk_missing {json : JsonLib} {hashpair : Json} {result : UInt64 × Bool}
    (converted : convertChunk json true hashpair = some result) : result.2 = false := by
  simp only [convertChunk, bind, Option.bind_eq_some_iff, ↓reduceIte, Option.some.injEq]
    at converted
  obtain ⟨_, _, hash, _, rfl⟩ := converted
  rfl

/-- Reading chunks of a new torrent leaves them missing and the document valid. -/
theorem deserializeChunks_clean (env : Env) (left i : Nat) {torrent : Torrent}
    (clean : torrent.Clean) : Leaves id Clean (deserializeChunks env true left i torrent) := by
  induction left generalizing i torrent with
  | zero => exact clean
  | succ left ih =>
      unfold deserializeChunks
      refine Leaves.bind (fun result => { result.1 with
        chunks := result.1.chunks ++
          [{ index := .ofNat i, hash := result.2.1, existing := result.2.2 }] })
        (clean.fetch (isUtf8_numeral i) ?_) fun result next => ih (i + 1) next
      intro jobj value result has next _ converted
      refine ⟨next.document, next.name, fun _ => has, fun chunk member => ?_⟩
      rcases List.mem_append.mp member with old | new
      · exact next.missing chunk old
      · rw [List.mem_singleton.mp new]
        exact convertChunk_missing converted

/-- Reading a description leaves a name in UTF-8, missing chunks and a valid document. -/
theorem deserializeFields_clean {env : Env} (checks : env.json.ChecksUtf8) {torrent : Torrent}
    (clean : torrent.Clean) : Leaves id Clean (deserializeFields env true torrent) := by
  obtain ⟨nameText, uidText, numPiecesText, sizeText⟩ := isUtf8_fieldKeys
  have numbers : ∀ {next : Torrent} (uid size : UInt64) (numPieces : UInt32) (path : Bytes),
      next.Clean → { next with uid, size, numPieces, packagePath := path }.Clean :=
    fun _ _ _ _ next => ⟨next.document, next.name, next.members, next.missing⟩
  unfold deserializeFields
  refine Leaves.bind (fun result => { result.1 with name := result.2 })
    (clean.fetch nameText ?_) ?_
  · intro jobj value name has next text converted
    rw [checks.getString value name converted] at text
    cases text with
    | string text => exact ⟨next.document, text, next.members, next.missing⟩
  rintro ⟨named, name⟩ next
  refine Leaves.bind (fun result => { result.1 with numPieces := result.2 })
    (Clean.fetch next numPiecesText fun jobj value result has next _ _ => ?_) ?_
  · exact numbers _ _ _ _ next
  rintro ⟨counted, numPieces⟩ next
  refine Leaves.bind (fun result => { result.1 with uid := result.2 })
    (Clean.fetch next uidText fun jobj value result has next _ _ => ?_) ?_
  · exact numbers _ _ _ _ next
  rintro ⟨identified, uid⟩ next
  refine Leaves.bind (fun result => { result.1 with size := result.2 })
    (Clean.fetch next sizeText fun jobj value result has next _ _ => ?_) ?_
  · exact numbers _ _ _ _ next
  rintro ⟨sized, size⟩ next
  exact deserializeChunks_clean env _ 0 (numbers _ _ _ _ next)

/-- What an answer describes is clean, whatever the answer. -/
theorem described_clean {env : Env} (checks : env.json.ChecksUtf8) (text : Bytes) :
    (described env text).Clean := by
  have blank : ({ serializedObj := text } : Torrent).Clean :=
    ⟨.null, isUtf8_of_ascii fun _ member => absurd member List.not_mem_nil,
      fun filled => absurd rfl filled, fun _ member => absurd member List.not_mem_nil⟩
  have sorted : ∀ {torrent : Torrent}, torrent.Clean → { torrent with
      chunks := torrent.chunks.mergeSort fun first second => first.index ≤ second.index }.Clean :=
    fun {torrent} clean => ⟨clean.document, clean.name,
      fun filled => clean.members fun empty => filled (by simp only [empty, List.mergeSort_nil]),
      fun chunk member => clean.missing chunk (List.mem_mergeSort.mp member)⟩
  unfold described deserialize
  split
  · exact blank
  · apply sorted
    simp only
    split
    · exact blank
    · next jobj parsed =>
        have begun : ({ serializedObj := text, jobj } : Torrent).Clean :=
          ⟨checks.parse _ _ parsed, blank.name, fun filled => absurd rfl filled, blank.missing⟩
        have read := deserializeFields_clean checks begun
        split
        · next after same =>
            rw [same] at read
            exact read
        · next after thrown =>
            rw [thrown] at read
            exact ⟨read.document, read.name, fun filled => absurd rfl filled,
              fun _ member => absurd member List.not_mem_nil⟩

/-- A torrent that may be inserted for a peer: it has a name, and a numbered list of missing
chunks, one for each piece. -/
structure Incoming (torrent : Torrent) : Prop where
  named : torrent.name ≠ []
  counted : 1 ≤ torrent.numPieces.toNat
  filled : torrent.chunks.length = torrent.numPieces.toNat
  positions : ∀ (i : Nat) (chunk : Chunk), torrent.chunks[i]? = some chunk →
    chunk.index.toNat = i
  missing : ∀ chunk ∈ torrent.chunks, chunk.existing = false

/-- A valid torrent that was described is whole, and all its chunks are missing. -/
theorem incoming_of_isValid {torrent : Torrent} (sound : torrent.Sound) (clean : torrent.Clean)
    (valid : torrent.isValid = true) : torrent.Incoming := by
  obtain ⟨named, counted, filled, located, _⟩ := isValid_iff.mp valid
  rcases sound with empty | zero | unset | numbered
  · exact absurd empty filled
  · exact absurd zero counted
  · exact absurd unset located
  · have bounded := Nat.le_of_lt torrent.numPieces.toNat_lt
    have positive := UInt32.pos_iff_ne_zero.mpr counted
    exact ⟨named, UInt32.lt_iff_toNat_lt.mp positive, numbered.length_eq,
      fun i chunk found => numbered.toNat_index bounded found, clean.missing⟩

/-- **What a peer sends.** For every text the call returns. Either it returns false and
leaves the tables alone, whatever they and the server are, or it inserts a torrent that
has a name and a numbered list of missing chunks. -/
theorem createTorrentFromSerializedObj_incoming (env : Env) (checks : env.json.ChecksUtf8)
    (text : Bytes) :
    ∃ tor : Torrent,
      (∀ refuses tables, ({} : Torrent).createTorrentFromSerializedObj env refuses text tables =
        (.ok (tor, false), tables)) ∨
      (tor.Incoming ∧ ∀ refuses tables,
        ({} : Torrent).createTorrentFromSerializedObj env refuses text tables =
          (.ok (tor, (tor.insertTorrentToDB refuses tables).2),
            (tor.insertTorrentToDB refuses tables).1)) := by
  by_cases empty : text = []
  · subst empty
    exact ⟨{}, .inl fun _ _ => rfl⟩
  have source := (deserialize_sameSource env true { serializedObj := text }).2
  have printed : ∃ written, (described env text).serialize env = .ok written := by
    by_cases printable : (described env text).Printable
    · have clean := described_clean checks text
      obtain ⟨jobj, fields, kept⟩ :=
        serializeFields_of_hasMembers (clean.members printable.2.2)
      obtain ⟨output, dumped⟩ := checks.dump jobj (kept clean.document clean.name)
      exact ⟨_, serialize_of_dump printable fields dumped⟩
    · exact ⟨_, serialize_of_not_printable env printable⟩
  obtain ⟨written, serialized⟩ := printed
  have same := isValid_of_serialize (source.symm ▸ empty) serialized
  have created := fun refuses tables =>
    createTorrentFromSerializedObj_of_serialize refuses {} tables empty serialized
  refine ⟨written, ?_⟩
  by_cases valid : written.isValid = true
  · refine .inr ⟨?_, fun refuses tables => ?_⟩
    · obtain ⟨jobj, output, rfl⟩ := serialize_ok serialized
      have incoming := incoming_of_isValid (deserialize_sound env true _ empty)
        (described_clean checks text) (same ▸ valid)
      exact ⟨incoming.named, incoming.counted, incoming.filled, incoming.positions,
        incoming.missing⟩
    · rw [created, insertIfValid, if_pos valid]
  · refine .inl fun refuses tables => ?_
    rw [created, insertIfValid, if_neg valid]

/-- The description of the package `a`, which is inserted. -/
theorem createTorrentFromSerializedObj_incoming_letter :
    ∃ tor : Torrent, tor.Incoming ∧ ∀ refuses tables,
      ({} : Torrent).createTorrentFromSerializedObj (.byLength (checkingLib 7 1 false)) refuses
          (letterText 7 [(1, false)]) tables =
        (.ok (tor, (tor.insertTorrentToDB refuses tables).2),
          (tor.insertTorrentToDB refuses tables).1) := by
  obtain ⟨tor, ignored | inserted⟩ := createTorrentFromSerializedObj_incoming
    (.byLength (checkingLib 7 1 false)) (checkingLib_checksUtf8 7 1 false)
    (letterText 7 [(1, false)])
  · obtain ⟨_, _, created⟩ := createTorrentFromSerializedObj_letter
      (.byLength (checkingLib 7 1 false))
      (JsonLib.printing_dump (letterDocument_valid 7 (by decide)) _ rfl)
    have unchanged := congrArg Prod.snd ((ignored (fun _ => false) {}).symm.trans created)
    cases unchanged
  · exact ⟨tor, inserted⟩

end Torrent

end Bp2p
