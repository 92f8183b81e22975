import Bp2p.GenerateChunks
import Bp2p.Tables

/-! # New torrents

A node gets a torrent by packaging files, or as the description a peer answers with.
Either is inserted into the database if it is valid; a packaged one under its uid, one
described under uid 0. What `open` then finds is what the uid of the object selects.
-/

namespace Bp2p

namespace Torrent

/-- The object a computation returns, or leaves when it throws, is as stated. -/
def Leaves {α : Type} (object : α → Torrent) (valid : Torrent → Prop) :
    Except Torrent α → Prop
  | .ok result => valid (object result)
  | .error torrent => valid torrent

/-- What holds of an object step by step holds of it in the end. -/
theorem Leaves.bind {α β : Type} (object : α → Torrent) {last : β → Torrent}
    {valid : Torrent → Prop} {first : Except Torrent α} {next : α → Except Torrent β}
    (begun : Leaves object valid first)
    (goesOn : ∀ result, valid (object result) → Leaves last valid (next result)) :
    Leaves last valid (first >>= next) := by
  cases first with
  | ok result => exact goesOn result begun
  | error torrent => exact begun

/-- The object is another one with the same `TorrentDB` and the same text. -/
def SameSource (torrent after : Torrent) : Prop :=
  after.db = torrent.db ∧ after.serializedObj = torrent.serializedObj

/-- Fetching a member leaves the source. -/
theorem fetch_sameSource {α : Type} (convert : Json → Option α) (key : Bytes)
    {source torrent : Torrent} (same : source.SameSource torrent) :
    Leaves (·.1) source.SameSource (torrent.fetch convert key) := by
  unfold fetch
  split
  · exact same
  · split
    · exact same
    · exact same

/-- Reading chunks leaves the source. -/
theorem deserializeChunks_sameSource (env : Env) (create : Bool) (left i : Nat)
    {source torrent : Torrent} (same : source.SameSource torrent) :
    Leaves id source.SameSource (deserializeChunks env create left i torrent) := by
  induction left generalizing i torrent with
  | zero => exact same
  | succ left ih =>
      unfold deserializeChunks
      apply (fetch_sameSource _ _ same).bind (·.1)
      intro result same
      exact ih (i + 1) same

/-- Reading the fields leaves the source. -/
theorem deserializeFields_sameSource (env : Env) (create : Bool) (torrent : Torrent) :
    Leaves id torrent.SameSource (deserializeFields env create torrent) := by
  unfold deserializeFields
  refine (fetch_sameSource _ _ ⟨rfl, rfl⟩).bind (·.1) ?_
  rintro ⟨named, name⟩ same
  refine (fetch_sameSource _ _ ?_).bind (·.1) ?_
  · exact same
  rintro ⟨counted, numPieces⟩ same
  refine (fetch_sameSource _ _ ?_).bind (·.1) ?_
  · exact same
  rintro ⟨identified, uid⟩ same
  refine (fetch_sameSource _ _ ?_).bind (·.1) ?_
  · exact same
  rintro ⟨sized, size⟩ same
  exact deserializeChunks_sameSource env create _ _ same

/-- Deserializing leaves the source. -/
theorem deserialize_sameSource (env : Env) (create : Bool) (torrent : Torrent) :
    torrent.SameSource (deserialize env create torrent) := by
  unfold deserialize
  split
  · exact ⟨rfl, rfl⟩
  · simp only
    split
    · exact ⟨rfl, rfl⟩
    · next jobj parsed =>
        have same := deserializeFields_sameSource env create { torrent with chunks := [], jobj }
        split
        · next after read =>
            rw [read] at same
            exact same
        · next after thrown =>
            rw [thrown] at same
            exact same

/-- An object keeps everything but its document when it is printed. -/
theorem serialize_ok {env : Env} {torrent written : Torrent}
    (printed : torrent.serialize env = .ok written) :
    ∃ jobj serializedObj, written = { torrent with jobj, serializedObj } := by
  obtain ⟨jobj, serializedObj, same | thrown⟩ := serialize_frame env torrent
  · rw [printed, Except.ok.injEq] at same
    exact ⟨jobj, serializedObj, same⟩
  · rw [printed] at thrown
    cases thrown

/-- A torrent that cannot be printed is left by `serialize`. -/
theorem serialize_of_not_printable (env : Env) {torrent : Torrent}
    (unprintable : ¬ torrent.Printable) : torrent.serialize env = .ok torrent := by
  unfold serialize
  split
  · rfl
  · next complete =>
      refine absurd ?_ unprintable
      simp only [List.isEmpty_iff, beq_iff_eq, Bool.or_eq_true, not_or] at complete
      exact ⟨complete.1.1, complete.1.2, complete.2⟩

theorem printable_of_isValid {torrent : Torrent} (valid : torrent.isValid = true) :
    torrent.Printable := by
  obtain ⟨named, counted, filled, _⟩ := isValid_iff.mp valid
  exact ⟨named, counted, filled⟩

/-- Serializing an object that has a text does not change whether it is valid. -/
theorem isValid_of_serialize {env : Env} {torrent written : Torrent}
    (text : torrent.serializedObj ≠ []) (serialized : torrent.serialize env = .ok written) :
    written.isValid = torrent.isValid := by
  by_cases printable : torrent.Printable
  · obtain ⟨jobj, dumped, rfl, printed, _⟩ := serialize_spec printable serialized
    rw [Bool.eq_iff_iff, isValid_iff, isValid_iff]
    simp only [text, env.json.dump_ne_nil _ _ printed, ne_eq, not_false_eq_true]
  · rw [serialize_of_not_printable env printable, Except.ok.injEq] at serialized
    rw [serialized]

/-- The torrent an answer describes. -/
def described (env : Env) (text : Bytes) : Torrent := deserialize env true { serializedObj := text }

theorem described_db (env : Env) (text : Bytes) : (described env text).db = {} :=
  (deserialize_sameSource env true { serializedObj := text }).1

/-- A new object made of an answer is the torrent described, up to the document, and
its rows are inserted if it is valid. -/
theorem createTorrentFromSerializedObj_ok {env : Env} {refuses : Insert → Bool} {text : Bytes}
    {tables after : Database} {tor : Torrent} {inserted : Bool}
    (created : ({} : Torrent).createTorrentFromSerializedObj env refuses text tables =
      (.ok (tor, inserted), after)) :
    (∃ jobj serializedObj, tor = { described env text with jobj, serializedObj }) ∧
      tor.isValid = (described env text).isValid ∧
      after = (tor.insertIfValid refuses tables).1 := by
  by_cases empty : text = []
  · subst empty
    cases created
    exact ⟨⟨.null, [], rfl⟩, rfl, rfl⟩
  · cases serialized : (described env text).serialize env with
    | error thrown =>
        have unfolded : (deserialize env true { serializedObj := text }).serialize env =
          .error thrown := serialized
        simp only [createTorrentFromSerializedObj, List.isEmpty_iff, empty, ↓reduceIte, unfolded,
          Prod.mk.injEq, reduceCtorEq, false_and] at created
    | ok written =>
        rw [createTorrentFromSerializedObj_of_serialize refuses {} tables empty serialized]
          at created
        cases created
        have source := (deserialize_sameSource env true { serializedObj := text }).2
        have valid := isValid_of_serialize (source.symm ▸ empty) serialized
        exact ⟨serialize_ok serialized, valid, rfl⟩

/-- A new object made of the text of a torrent is that torrent with all chunks missing, and
its rows are inserted. -/
theorem createTorrentFromSerializedObj_of_documents (env : Env) {text : Bytes} (source : Torrent)
    {document : Json} (refuses : Insert → Bool) (tables : Database) (printable : source.Printable)
    (counted : source.numPieces.toNat ≤ source.chunks.length)
    (documents : Documents document source) (knows : env.json.dump document = some text)
    (again : (received env true source document { serializedObj := text }).serializeFields =
      some document) :
    let tor := received env true source document { serializedObj := text }
    ({} : Torrent).createTorrentFromSerializedObj env refuses text tables =
      (.ok (tor, (tor.insertTorrentToDB refuses tables).2),
        (tor.insertTorrentToDB refuses tables).1) := by
  intro tor
  have nonempty := env.json.dump_ne_nil _ _ knows
  have read := deserialize_of_documents env true { serializedObj := text } nonempty
    (env.json.parse_of_dump knows) documents counted
  have filled : tor.chunks ≠ [] := by
    intro empty
    have length := (numbered_readChunks true source source.numPieces.toNat).length_eq
    rw [show readChunks true source 0 source.numPieces.toNat = [] from empty] at length
    exact printable.2.1 (UInt32.toNat_inj.mp length.symm)
  have complete : tor.Printable := ⟨printable.1, printable.2.1, filled⟩
  have serialized : (deserialize env true { serializedObj := text }).serialize env = .ok tor := by
    rw [read, serialize_of_dump complete again knows]
    rfl
  have valid : tor.isValid = true :=
    isValid_iff.mpr ⟨complete.1, complete.2.1, filled, getPackagePath_ne_nil env source, nonempty⟩
  have created := createTorrentFromSerializedObj_of_serialize refuses {} tables nonempty serialized
  rw [created, insertIfValid, if_pos valid]

/-- The description of the package `a` is inserted under uid 0. -/
theorem createTorrentFromSerializedObj_letter (env : Env)
    (knows : env.json.dump (letterDocument 7 [(1, false)]) = some (letterText 7 [(1, false)])) :
    ∃ tor res, ({} : Torrent).createTorrentFromSerializedObj env (fun _ => false)
        (letterText 7 [(1, false)]) {} =
      (.ok (tor, res),
        { torrents := [{ uid := 0, name := [97], numPieces := 1, size := 1 }]
          chunks := [{ uid := 0, chunkIndex := 0, chunkHash := 1, chunkExists := false }] }) := by
  have created := createTorrentFromSerializedObj_of_documents env (letterTorrent 7 1 false)
    (fun _ => false) {} ⟨List.cons_ne_nil _ _, by decide, List.cons_ne_nil _ _⟩ le_rfl
    (documents_of_serializeFields rfl) knows rfl
  rw [created]
  exact ⟨_, _, rfl⟩

/-- The row a uid selects once an object's rows are inserted: one there was, or the
object's own. -/
def selectedRow (refuses : Insert → Bool) (tables : Database) (uid : UInt32) (torrent : Torrent) :
    Option TorrentsRecord :=
  match tables.torrents.find? (·.uid == uid) with
  | some row => some row
  | none =>
      if uid = torrent.db.key ∧ torrent.isValid = true ∧
          refuses (.torrents torrent.torrentsRecord) = false then some torrent.torrentsRecord
      else none

theorem find?_eq_none_iff {tables : Database} {uid : UInt32} :
    tables.torrents.find? (·.uid == uid) = none ↔ tables.hasTorrent uid = false := by
  simp only [List.find?_eq_none, beq_iff_eq, Database.hasTorrent_false_iff]

/-- What a uid selects once the rows of an object were inserted. -/
theorem find?_insertIfValid (refuses : Insert → Bool) (torrent : Torrent) (tables : Database)
    (uid : UInt32) : (torrent.insertIfValid refuses tables).1.torrents.find? (·.uid == uid) =
      selectedRow refuses tables uid torrent := by
  unfold insertIfValid selectedRow
  cases found : tables.torrents.find? (·.uid == uid) with
  | some row =>
      split
      · rcases insertTorrentToDB_spec refuses torrent tables with
          ⟨unchanged, _⟩ | ⟨_, _, files, added, _, same, _⟩
        · rw [unchanged]
          exact found
        · rw [same, List.find?_append, found, Option.some_or]
      · exact found
  | none =>
      have absent := find?_eq_none_iff.mp found
      split
      · next valid =>
          rcases insertTorrentToDB_spec refuses torrent tables with
            ⟨unchanged, failed⟩ | ⟨_, accepted, files, added, _, same, _⟩
          · rw [unchanged, if_neg, found]
            rintro ⟨same, _, accepted⟩
            rw [← same, absent, accepted] at failed
            exact failed.elim Bool.noConfusion Bool.noConfusion
          · rw [same, List.find?_append, found, Option.none_or, List.find?_singleton]
            simp only [valid, accepted, and_true, beq_iff_eq,
              show torrent.torrentsRecord.uid = torrent.db.key from rfl]
            by_cases own : uid = torrent.db.key
            · rw [if_pos own, if_pos own.symm]
            · rw [if_neg own, if_neg (Ne.symm own)]
      · next invalid =>
          rw [found, if_neg]
          exact fun own => invalid own.2.1

/-- The chunk rows of a uid that selects a row stay as they are when an object's rows are
inserted, unless the row is the object's own. -/
theorem filter_insertIfValid (refuses : Insert → Bool) (torrent : Torrent) (tables : Database)
    {uid : UInt32} (other : uid = torrent.db.key → tables.hasTorrent uid = true) :
    (torrent.insertIfValid refuses tables).1.chunks.filter (·.uid == uid) =
      tables.chunks.filter (·.uid == uid) := by
  unfold insertIfValid
  split
  · rcases insertTorrentToDB_spec refuses torrent tables with
      ⟨unchanged, _⟩ | ⟨absent, _, files, added, first, same, _⟩
    · rw [unchanged]
    · have different : torrent.db.key ≠ uid := fun own => by
        rw [own, other own.symm] at absent
        cases absent
      have none : added.filter (·.uid == uid) = [] := by
        rw [List.filter_eq_nil_iff]
        intro row member
        obtain ⟨chunk, _, rfl⟩ := List.mem_map.mp (first.subset member)
        rw [beq_iff_eq]
        exact different
      rw [same, List.filter_append, none, List.append_nil]
  · rfl

/-- Packaging leaves the name. -/
theorem package_name (env : Env) (files : FileStore) (torrent : Torrent) :
    (torrent.package env files).1.name = torrent.name := by
  unfold package
  split
  · rfl
  · simp only
    split
    · rfl
    · rfl

/-- What a completed `generateChunks` keeps, and what it makes of a package. -/
theorem generateChunks_frame {env : Env} {files : FileStore} {torrent seeder : Torrent}
    {ret : Int32} (completes : torrent.generateChunks env files = .ok (seeder, ret)) :
    seeder.name = torrent.name ∧ seeder.files = torrent.files ∧
      seeder.packagePath = torrent.packagePath ∧
      (torrent.packagePath = [] → seeder.chunks = [] ∧ seeder.db = torrent.db) ∧
      (torrent.packagePath ≠ [] → seeder.db = { uid := seeder.uid } ∧
        ∃ content, seeder.chunks = generatedChunks env 0 content ∧
          seeder.numPieces = .ofNat (pieceCount content)) := by
  by_cases unset : torrent.packagePath = []
  · simp only [generateChunks, List.isEmpty_iff, unset, ↓reduceIte, Except.ok.injEq,
      Prod.mk.injEq] at completes
    obtain ⟨rfl, _⟩ := completes
    exact ⟨rfl, rfl, unset.symm, fun _ => ⟨rfl, rfl⟩, fun packaged => absurd unset packaged⟩
  · obtain ⟨uid, rfl⟩ := generateChunks_ok unset completes
    exact ⟨rfl, rfl, rfl, fun none => absurd none unset, fun _ => ⟨rfl, _, rfl, rfl⟩⟩

/-- What `create` leaves if nothing throws: the object `generateChunks` has filled, up to
the document, inserted if it is valid. -/
theorem create_ok {env : Env} {refuses : Insert → Bool} {torrent after : Torrent}
    {files left : FileStore} {tables inserted : Database} {created : Bool}
    (executed : torrent.create env refuses files tables = (.ok (after, created), left, inserted)) :
    ∃ seeder ret, (torrent.package env files).1.generateChunks env (torrent.package env files).2.1 =
        .ok (seeder, ret) ∧ seeder.serialize env = .ok after ∧
      after.insertIfValid refuses tables = (inserted, created) := by
  unfold create at executed
  generalize torrent.package env files = packed at executed ⊢
  obtain ⟨packaged, stored, ret⟩ := packed
  simp only at executed ⊢
  cases generated : packaged.generateChunks env stored with
  | error thrown => simp only [generated, Prod.mk.injEq, reduceCtorEq, false_and] at executed
  | ok result =>
      obtain ⟨seeder, status⟩ := result
      simp only [generated] at executed
      cases printed : seeder.serialize env with
      | error thrown => simp only [printed, Prod.mk.injEq, reduceCtorEq, false_and] at executed
      | ok written =>
          simp only [printed, Prod.mk.injEq, Except.ok.injEq] at executed
          obtain ⟨⟨rfl, rfl⟩, _, rfl⟩ := executed
          exact ⟨seeder, status, rfl, printed, (Prod.eta _).symm⟩

/-- Creating a torrent leaves its name. -/
theorem create_name {env : Env} {refuses : Insert → Bool} {torrent after : Torrent}
    {files left : FileStore} {tables inserted : Database} {created : Bool}
    (executed : torrent.create env refuses files tables = (.ok (after, created), left, inserted)) :
    after.name = torrent.name := by
  obtain ⟨seeder, ret, generated, printed, _⟩ := create_ok executed
  obtain ⟨jobj, serializedObj, rfl⟩ := serialize_ok printed
  exact (generateChunks_frame generated).1.trans (package_name env files torrent)

/-- What was inserted is valid. -/
theorem isValid_of_insertIfValid {refuses : Insert → Bool} {torrent : Torrent}
    {tables after : Database} (inserted : torrent.insertIfValid refuses tables = (after, true)) :
    torrent.isValid = true := by
  unfold insertIfValid at inserted
  split at inserted
  · next valid => exact valid
  · cases inserted

/-- `open` returns what it has loaded, serialized. -/
theorem serialize_of_open {env : Env} {order : RowOrder} {tables : Database}
    {torrent after : Torrent} {opened : Bool} (identified : torrent.uid ≠ 0)
    (executed : torrent.open env order tables = .ok (after, opened)) :
    (torrent.loaded env order tables).serialize env = .ok after ∧ opened = after.isValid := by
  cases serialized : (torrent.loaded env order tables).serialize env with
  | error thrown =>
      unfold loaded at serialized
      simp only [Torrent.open, if_neg identified, serialized, reduceCtorEq] at executed
  | ok written =>
      rw [open_of_serialize identified serialized, Except.ok.injEq, Prod.mk.injEq] at executed
      obtain ⟨rfl, rfl⟩ := executed
      exact ⟨rfl, rfl⟩

/-- `open` finds a valid torrent if what it has loaded has a name, pieces and chunks. -/
theorem open_ok {env : Env} {order : RowOrder} {tables : Database} {torrent after : Torrent}
    {opened : Bool} (identified : torrent.uid ≠ 0)
    (executed : torrent.open env order tables = .ok (after, opened)) :
    (∃ jobj serializedObj,
        after = { torrent.loaded env order tables with jobj, serializedObj }) ∧
      (opened = true ↔ (torrent.loaded env order tables).Printable) := by
  obtain ⟨serialized, rfl⟩ := serialize_of_open identified executed
  have path : (torrent.loaded env order tables).packagePath ≠ [] :=
    getPackagePath_ne_nil env _
  by_cases printable : (torrent.loaded env order tables).Printable
  · obtain ⟨jobj, dumped, rfl, printed, _⟩ := serialize_spec printable serialized
    refine ⟨⟨jobj, dumped, rfl⟩, fun _ => printable, fun _ => isValid_iff.mpr ?_⟩
    exact ⟨printable.1, printable.2.1, printable.2.2, path, env.json.dump_ne_nil _ _ printed⟩
  · rw [serialize_of_not_printable env printable, Except.ok.injEq] at serialized
    subst serialized
    exact ⟨⟨_, _, rfl⟩, printable_of_isValid, fun other => absurd other printable⟩

/-- The rows of a uid are those of a torrent with pieces and chunks, some of which may be
the object's own. -/
def RowsComplete (tables : Database) (torrent : Torrent) (row : TorrentsRecord) : Prop :=
  row.name ≠ [] ∧ row.numPieces ≠ 0 ∧
    (torrent.chunks ≠ [] ∨ tables.chunks.filter (·.uid == torrent.uid.toUInt32) ≠ [])

/-- The object made of a row when the torrents are read from the database. -/
def localTorrent (order : RowOrder) (tables : Database) (row : TorrentsRecord) : Torrent where
  uid := row.uid.toUInt64
  name := row.name
  numPieces := row.numPieces
  size := row.size
  files := (TorrentDB.getTorrentFiles order row.uid tables).map (·.name)
  chunks := (TorrentDB.getTorrentChunks order row.uid tables).map fun chunk =>
    { index := chunk.index, hash := chunk.hash.toUInt64, existing := chunk.existing }

/-- The torrents in the tables are those of the rows, in the order of the rows. -/
theorem getAllTorrents_eq (order : RowOrder) (tables : Database) :
    getAllTorrents order tables =
      (order.torrents tables.torrents).map (localTorrent order tables) := by
  simp only [getAllTorrents, TorrentDB.getAllTorrentRows, TorrentDB.getAllTorrentInfoRows,
    List.map_map]
  apply List.map_congr_left
  intro row _
  simp only [Function.comp_apply, createTorrentFromRow, localTorrent, UInt32.toUInt32_toUInt64,
    List.nil_append]

/-- The rows of a uid are empty in the order the server returns them if there are none. -/
theorem getTorrentChunks_eq_nil_iff (order : RowOrder) (tables : Database) (uid : UInt32) :
    TorrentDB.getTorrentChunks order uid tables = [] ↔
      tables.chunks.filter (·.uid == uid) = [] := by
  have perm := order.chunks_perm (tables.chunks.filter (·.uid == uid))
  rw [TorrentDB.getTorrentChunks, List.map_eq_nil_iff]
  constructor
  · intro none
    exact (none ▸ perm).nil_eq.symm
  · intro none
    rw [none] at perm ⊢
    exact perm.eq_nil

/-- What `open` loads can be printed only if the uid has a row. -/
theorem find?_of_printable {env : Env} {order : RowOrder} {tables : Database} {torrent : Torrent}
    (printable : (torrent.loaded env order tables).Printable) :
    ∃ row, tables.torrents.find? (·.uid == torrent.uid.toUInt32) = some row := by
  refine Option.isSome_iff_exists.mp (Option.isSome_iff_ne_none.mpr fun missing => ?_)
  have absent : torrent.setDBuid.db.getTorrentInfo tables = {} :=
    getTorrentInfo_of_absent (find?_eq_none_iff.mp missing)
  exact printable.1 (congrArg (·.name) absent)

/-- The information on a uid is in the row it selects. -/
theorem getTorrentInfo_of_find? {tables : Database} {torrent : Torrent} {row : TorrentsRecord}
    (found : tables.torrents.find? (·.uid == torrent.uid.toUInt32) = some row) :
    torrent.setDBuid.db.getTorrentInfo tables =
      { uid := torrent.uid, name := row.name, numPieces := row.numPieces, size := row.size } := by
  unfold TorrentDB.getTorrentInfo
  rw [show torrent.setDBuid.db.key = torrent.uid.toUInt32 from rfl, found]
  rfl

/-- A torrent that is loaded has the name of its row, and can be printed if the row is complete. -/
theorem loaded_of_find? (env : Env) (order : RowOrder) {tables : Database} {torrent : Torrent}
    {row : TorrentsRecord}
    (found : tables.torrents.find? (·.uid == torrent.uid.toUInt32) = some row) :
    (torrent.loaded env order tables).name = row.name ∧
      ((torrent.loaded env order tables).Printable ↔ torrent.RowsComplete tables row) := by
  have info := getTorrentInfo_of_find? found
  have chunks : (torrent.loaded env order tables).chunks = torrent.chunks ++
      (TorrentDB.getTorrentChunks order torrent.uid.toUInt32 tables).map fun chunk =>
        { index := chunk.index, hash := chunk.hash.toUInt64, existing := chunk.existing } := rfl
  refine ⟨congrArg (·.name) info, ?_⟩
  have named : (torrent.loaded env order tables).name = row.name := congrArg (·.name) info
  have counted : (torrent.loaded env order tables).numPieces = row.numPieces :=
    congrArg (·.numPieces) info
  simp only [Printable, RowsComplete, named, counted, chunks, ne_eq, List.append_eq_nil_iff,
    List.map_eq_nil_iff, getTorrentChunks_eq_nil_iff, not_and_or]

/-- The torrent described by an answer is the one asked for, as far as the database has
a complete one under the uid of the answer once it is inserted. -/
def AnswerFits (env : Env) (refuses : Insert → Bool) (tables : Database) (name text : Bytes) :
    Prop :=
  (described env text).uid ≠ 0 → ∀ row,
    selectedRow refuses tables (described env text).uid.toUInt32 (described env text) = some row →
    (described env text).RowsComplete tables row → row.name = name

/-- What is opened behind the insert of an answer has the name asked for if the answer
fits. -/
theorem answerFits_iff {env : Env} (order : RowOrder) {refuses : Insert → Bool}
    {tables after : Database} {name text : Bytes} {tor : Torrent} {inserted : Bool}
    (identified : (described env text).uid ≠ 0)
    (created : ({} : Torrent).createTorrentFromSerializedObj env refuses text tables =
      (.ok (tor, inserted), after)) :
    AnswerFits env refuses tables name text ↔
      ((tor.loaded env order after).Printable → (tor.loaded env order after).name = name) := by
  obtain ⟨⟨jobj, serializedObj, same⟩, valid, rfl⟩ := createTorrentFromSerializedObj_ok created
  have uid : tor.uid = (described env text).uid := by rw [same]
  have chunks : tor.chunks = (described env text).chunks := by rw [same]
  have own : tor.torrentsRecord = (described env text).torrentsRecord := by rw [same]; rfl
  have key : tor.db = (described env text).db := by rw [same]
  have selected : selectedRow refuses tables (described env text).uid.toUInt32 tor =
      selectedRow refuses tables (described env text).uid.toUInt32 (described env text) := by
    simp only [selectedRow, valid, own, key]
  have found := find?_insertIfValid refuses tor tables (described env text).uid.toUInt32
  rw [selected, ← uid] at found
  simp only [AnswerFits, ← uid, ne_eq] at identified ⊢
  simp only [identified, not_false_eq_true, forall_const]
  cases selection : selectedRow refuses tables tor.uid.toUInt32 (described env text) with
  | none =>
      rw [selection] at found
      have absent : tor.setDBuid.db.getTorrentInfo (tor.insertIfValid refuses tables).1 = {} :=
        getTorrentInfo_of_absent (find?_eq_none_iff.mp found)
      have unnamed : (tor.loaded env order (tor.insertIfValid refuses tables).1).name = [] :=
        congrArg (·.name) absent
      refine ⟨fun _ printable => absurd unnamed printable.1, fun _ row same => ?_⟩
      cases same
  | some row =>
      rw [selection] at found
      obtain ⟨named, complete⟩ := loaded_of_find? env order found
      have same : tor.RowsComplete (tor.insertIfValid refuses tables).1 row ↔
          (described env text).RowsComplete tables row := by
        simp only [RowsComplete, chunks, ← uid]
        by_cases filled : (described env text).chunks = []
        · -- without chunks the answer is not inserted, and the row was there
          rw [filter_insertIfValid]
          intro _
          by_contra absent
          rw [selectedRow, find?_eq_none_iff.mpr (Bool.eq_false_iff.mpr absent)] at selection
          simp only [Option.ite_none_right_eq_some] at selection
          exact (isValid_iff.mp selection.1.2.1).2.2.1 filled
        · simp only [ne_eq, filled, not_false_eq_true, true_or]
      simp only [complete, same, named, Option.some.injEq, forall_eq']

end Torrent

end Bp2p
