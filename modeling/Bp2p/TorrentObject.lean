import Bp2p.GenerateChunks
import Bp2p.Lib.Transition
import Bp2p.Tables

/-! # The chunk list of an object

The objects a program makes and the member functions it calls on them, in any
order and with any database. A list filled by `generateChunks` or `deserialize`
carries its positions as indices. One filled by `open` is whatever the rows are,
behind the chunks the object had: valid objects have a well-numbered list as long
as `open` only meets empty objects and numbered rows, and `create` only packages
that `generateChunks` gets through (`Bp2p.Torrent.positional_of_run`).
-/

namespace Bp2p

namespace Torrent

/-- The ways to construct an object. -/
inductive Construction
  | blank
  | ofFiles (name : Bytes) (files : List Bytes)
  | ofName (name : Bytes)
  | ofUid (uid : UInt64) (numPieces : UInt32) (size : UInt64)

/-- The object that a constructor makes. -/
def Construction.torrent : Construction → Torrent
  | .blank => {}
  | .ofFiles name files => Torrent.ofFiles name files
  | .ofName name => Torrent.ofName name
  | .ofUid uid numPieces size => Torrent.ofUid uid numPieces size

/-- The calls that fill an object, with the files, the tables and the inserts the
server fails. -/
inductive Call
  | create (files : FileStore) (tables : Database) (refuses : Insert → Bool)
  | createFiles (name : Bytes) (filenames : List Bytes) (files : FileStore) (tables : Database)
      (refuses : Insert → Bool)
  | createTorrentFromSerializedObj (serializedObj : Bytes) (tables : Database)
      (refuses : Insert → Bool)
  | open (tables : Database) (order : RowOrder)
  | openUid (uid : UInt64) (tables : Database) (order : RowOrder)

/-- The object a call leaves, whether it returns or throws. -/
def leaves : Except Torrent (Torrent × Bool) → Torrent
  | .ok (torrent, _) => torrent
  | .error torrent => torrent

/-- The object that a call leaves. -/
def Call.result (env : Env) (torrent : Torrent) : Call → Torrent
  | .create files tables refuses => leaves (torrent.create env refuses files tables).1
  | .createFiles name filenames files tables refuses =>
      leaves ({ torrent with name, files := filenames }.create env refuses files tables).1
  | .createTorrentFromSerializedObj serializedObj tables refuses =>
      leaves (torrent.createTorrentFromSerializedObj env refuses serializedObj tables).1
  | .open tables order => leaves (torrent.open env order tables)
  | .openUid uid tables order => leaves (torrent.openUid env order tables uid)

/-- What a program does with its objects, which are listed in the order they were made. -/
inductive Action
  | construct (construction : Construction)
  | call (i : Nat) (method : Call)
  | getAllTorrents (tables : Database) (order : RowOrder)
  | copy (i : Nat)
  | assign (i j : Nat)

/-- Objects are constructed, called, copied, assigned and read from the tables. -/
inductive Acts (env : Env) : List Torrent → Action → List Torrent → Prop
  | construct (objects : List Torrent) (construction : Construction) :
      Acts env objects (.construct construction) (objects ++ [construction.torrent])
  | call {objects : List Torrent} {i : Nat} {torrent : Torrent} (method : Call)
      (found : objects[i]? = some torrent) :
      Acts env objects (.call i method) (objects.set i (method.result env torrent))
  | getAllTorrents (objects : List Torrent) (tables : Database) (order : RowOrder) :
      Acts env objects (.getAllTorrents tables order) (objects ++ getAllTorrents order tables)
  | copy {objects : List Torrent} {i : Nat} {torrent : Torrent}
      (found : objects[i]? = some torrent) :
      Acts env objects (.copy i) (objects ++ [torrent.copy])
  | assign {objects : List Torrent} {i j : Nat} {target torrent : Torrent}
      (assigned : objects[i]? = some target) (found : objects[j]? = some torrent) :
      Acts env objects (.assign i j) (objects.set i (target.assign torrent))

/-- A valid object has as many chunks as pieces, each at the position of its index,
and lists no index twice. -/
def Positional (torrent : Torrent) : Prop :=
  torrent.isValid = true →
    torrent.chunks.length = torrent.numPieces.toNat ∧
    (∀ (i : Nat) (chunk : Chunk), torrent.chunks[i]? = some chunk → chunk.index.toNat = i) ∧
    torrent.getChunkAvail.Nodup

/-- `generateChunks` completes and the number of chunks fits 32 bits: the package has
a length that is no multiple of `chunkSize` and below `2 ^ 47 - 2 ^ 15`. -/
def PackageFits (env : Env) (files : FileStore) (torrent : Torrent) : Prop :=
  let (packaged, files, _) := torrent.package env files
  packaged.packagePath = [] ∨
    ((packaged.packageContent files).length % chunkSize ≠ 0 ∧
      (packaged.packageContent files).length < 2 ^ 47 - 2 ^ 15)

/-- `open` finds no torrent of a piece or more, or it fills an empty list with no row
or with rows in the order of their indices, one for each piece. -/
def RowsNumbered (tables : Database) (order : RowOrder) (torrent : Torrent) : Prop :=
  let row := torrent.setDBuid.db.getJoinedTorrent order tables
  torrent.uid = 0 ∨ row.torrentInfo.numPieces = 0 ∨
    (torrent.chunks = [] ∧ (row.chunks = [] ∨
      row.chunks.map (·.index) =
        (List.range row.torrentInfo.numPieces.toNat).map UInt32.ofNat))

/-- The calls whose rows or package fit. -/
def Call.Safe (env : Env) (torrent : Torrent) : Call → Prop
  | .create files _ _ => torrent.PackageFits env files
  | .createFiles name filenames files _ _ =>
      { torrent with name, files := filenames }.PackageFits env files
  | .createTorrentFromSerializedObj _ _ _ => True
  | .open tables order => torrent.RowsNumbered tables order
  | .openUid uid tables order => { torrent with uid }.RowsNumbered tables order

/-- The actions that are safe for the objects there are. -/
def Action.Safe (env : Env) (objects : List Torrent) : Action → Prop
  | .call i method => ∀ torrent, objects[i]? = some torrent → method.Safe env torrent
  | _ => True

/-- The chunks are numbered, or the object cannot be valid until they are replaced. -/
def Sound (torrent : Torrent) : Prop :=
  torrent.chunks = [] ∨ torrent.numPieces = 0 ∨ torrent.packagePath = [] ∨
    Numbered torrent.chunks torrent.numPieces.toNat

theorem toInt32_injective : Function.Injective UInt32.toInt32 := by
  intro first second same
  rw [← UInt32.toUInt32_toInt32 first, same, UInt32.toUInt32_toInt32]

/-- Numbered chunks list no index twice. -/
theorem Numbered.nodup {torrent : Torrent} {count : Nat} (numbered : Numbered torrent.chunks count)
    (bounded : count ≤ 2 ^ 32) : torrent.getChunkAvail.Nodup := by
  have indices : (torrent.chunks.map (·.index)).Nodup := by
    rw [numbered]
    refine List.Nodup.map_on (fun i low j high same => ?_) List.nodup_range
    rw [List.mem_range] at low high
    have equal := congrArg UInt32.toNat same
    rwa [UInt32.toNat_ofNat', UInt32.toNat_ofNat', Nat.mod_eq_of_lt (by omega),
      Nat.mod_eq_of_lt (by omega)] at equal
  have kept := (List.filter_sublist (p := (·.existing)) (l := torrent.chunks)).map (·.index)
  have mapped := (indices.sublist kept).map toInt32_injective
  rwa [List.map_map] at mapped

/-- The chunks of a sound object that is valid are at the positions of their indices. -/
theorem Sound.positional {torrent : Torrent} (sound : torrent.Sound) : torrent.Positional := by
  intro valid
  obtain ⟨_, positive, filled, path, _⟩ := isValid_iff.mp valid
  rcases sound with empty | zero | unset | numbered
  · exact absurd empty filled
  · exact absurd zero positive
  · exact absurd unset path
  · have bounded := Nat.le_of_lt torrent.numPieces.toNat_lt
    exact ⟨numbered.length_eq, fun i chunk found => numbered.toNat_index bounded found,
      numbered.nodup bounded⟩

/-- An object keeps its soundness with its chunks, pieces and package. -/
theorem Sound.frame {torrent other : Torrent} (sound : torrent.Sound)
    (chunks : other.chunks = torrent.chunks) (numPieces : other.numPieces = torrent.numPieces)
    (packagePath : other.packagePath = torrent.packagePath) : other.Sound := by
  unfold Sound
  rw [chunks, numPieces, packagePath]
  exact sound

/-- Whatever `serialize` does, a result that keeps what it leaves is sound. -/
theorem Sound.serialize {env : Env} {torrent : Torrent} (sound : torrent.Sound) {after : Torrent}
    (left : torrent.serialize env = .ok after ∨ torrent.serialize env = .error after) :
    after.Sound := by
  obtain ⟨jobj, text, ok | error⟩ := serialize_frame env torrent
  · rw [ok] at left
    rcases left with same | same
    · cases same
      exact sound.frame rfl rfl rfl
    · cases same
  · rw [error] at left
    rcases left with same | same
    · cases same
    · cases same
      exact sound.frame rfl rfl rfl

/-- The chunks of a package are numbered. -/
theorem numbered_generatedChunks (env : Env) (content : Bytes) :
    Numbered (generatedChunks env 0 content) (pieceCount content) := by
  simp only [Numbered, generatedChunks, List.map_map]
  apply List.map_congr_left
  intro i _
  simp only [Function.comp_apply, Nat.zero_add]

/-- Where the package fits, `generateChunks` completes and leaves a sound object. -/
theorem generateChunks_sound (env : Env) {files : FileStore} {torrent : Torrent}
    (fits : torrent.packagePath = [] ∨ ((torrent.packageContent files).length % chunkSize ≠ 0 ∧
      (torrent.packageContent files).length < 2 ^ 47 - 2 ^ 15)) :
    ∃ after ret, torrent.generateChunks env files = .ok (after, ret) ∧ after.Sound := by
  by_cases unset : torrent.packagePath = []
  · refine ⟨{ torrent with chunks := [] }, -1, ?_, .inl rfl⟩
    simp only [generateChunks, unset, List.isEmpty_nil, ↓reduceIte]
  · obtain ⟨inexact, short⟩ := fits.resolve_left unset
    obtain ⟨generated, loop⟩ := generateLoop_completes env 0 { torrent with chunks := [] } inexact
    have completes : torrent.generateChunks env files =
        .ok ({ generated.setDBuid with numPieces := .ofNat generated.chunks.length }, 0) := by
      simp only [packageContent] at loop
      simp only [generateChunks, List.isEmpty_iff, unset, ↓reduceIte, loop, setDBuid]
    obtain ⟨uid, same⟩ := generateChunks_ok unset completes
    refine ⟨_, _, completes, ?_⟩
    rw [same]
    refine .inr (.inr (.inr ?_))
    have few : pieceCount (torrent.packageContent files) < 2 ^ 32 := by
      unfold pieceCount chunkSize
      omega
    simp only [UInt32.toNat_ofNat', Nat.mod_eq_of_lt few]
    exact numbered_generatedChunks env _

/-- Creating a torrent of a package that fits leaves a sound object. -/
theorem create_sound {env : Env} {files : FileStore} {torrent : Torrent}
    (fits : torrent.PackageFits env files) (tables : Database) (refuses : Insert → Bool) :
    (leaves (torrent.create env refuses files tables).1).Sound := by
  unfold PackageFits at fits
  unfold create
  generalize torrent.package env files = packed at fits ⊢
  obtain ⟨packaged, stored, _⟩ := packed
  obtain ⟨after, ret, completes, sound⟩ := generateChunks_sound env fits
  simp only [completes]
  split
  · next left => exact sound.serialize (.inr left)
  · next left => exact sound.serialize (.inl left)

/-- Reading a member may change the document. -/
theorem fetch_frame {α : Type} {convert : Json → Option α} {key : Bytes}
    {torrent after : Torrent} {result : α}
    (fetched : torrent.fetch convert key = .ok (after, result)) :
    ∃ jobj, after = { torrent with jobj } := by
  unfold fetch at fetched
  split at fetched
  · cases fetched
  · split at fetched
    · cases fetched
    · cases fetched
      exact ⟨_, rfl⟩

/-- Reading members leaves everything but the document and the chunks, and numbers
the chunks read. -/
theorem deserializeChunks_frame {env : Env} {create : Bool} {left i : Nat}
    {torrent after : Torrent} (read : deserializeChunks env create left i torrent = .ok after) :
    after.name = torrent.name ∧ after.numPieces = torrent.numPieces ∧
      after.chunks.map (·.index) =
        torrent.chunks.map (·.index) ++ (List.range' i left).map UInt32.ofNat := by
  induction left generalizing i torrent with
  | zero =>
      rw [deserializeChunks, Except.ok.injEq] at read
      subst read
      exact ⟨rfl, rfl, by rw [List.range'_zero, List.map_nil, List.append_nil]⟩
  | succ left ih =>
      unfold deserializeChunks at read
      cases fetched : torrent.fetch (convertChunk env.json create) (Decimal.numeral i) with
      | error thrown => simp only [fetched, bind, Except.bind, reduceCtorEq] at read
      | ok result =>
          obtain ⟨next, hash, existing⟩ := result
          simp only [fetched, bind, Except.bind] at read
          obtain ⟨name, numPieces, chunks⟩ := ih read
          obtain ⟨jobj, rfl⟩ := fetch_frame fetched
          refine ⟨name, numPieces, chunks.trans ?_⟩
          simp only [List.map_append, List.map_cons, List.map_nil, List.range'_succ,
            List.append_assoc, List.cons_append, List.nil_append]

/-- What `deserialize` reads, if nothing throws, has the name that is read first, and its
chunks are numbered. -/
theorem deserializeFields_ok {env : Env} {create : Bool} {torrent after : Torrent}
    (read : deserializeFields env create torrent = .ok after) :
    (∃ named, torrent.fetch env.json.getString nameKey = .ok (named, after.name)) ∧
      after.chunks.map (·.index) =
        torrent.chunks.map (·.index) ++ (List.range after.numPieces.toNat).map UInt32.ofNat := by
  unfold deserializeFields at read
  simp only [bind, Except.bind] at read
  split at read
  · cases read
  · next named readName =>
      split at read
      · cases read
      · next counted readPieces =>
          split at read
          · cases read
          · next identified readUid =>
              split at read
              · cases read
              · next sized readSize =>
                  obtain ⟨name, numPieces, chunks⟩ := deserializeChunks_frame read
                  obtain ⟨first, sameFirst⟩ := fetch_frame readName
                  obtain ⟨second, sameSecond⟩ := fetch_frame readPieces
                  obtain ⟨third, sameThird⟩ := fetch_frame readUid
                  obtain ⟨fourth, sameFourth⟩ := fetch_frame readSize
                  simp only [sameFourth, sameThird, sameSecond, sameFirst] at name numPieces chunks
                  rw [readName, name, numPieces, List.range_eq_range']
                  exact ⟨⟨_, rfl⟩, chunks⟩

/-- What `deserialize` reads, if nothing throws, is numbered. -/
theorem deserializeFields_numbered {env : Env} {create : Bool} {torrent after : Torrent}
    (cleared : torrent.chunks = [])
    (read : deserializeFields env create torrent = .ok after) :
    Numbered after.chunks after.numPieces.toNat := by
  have chunks := (deserializeFields_ok read).2
  rwa [cleared, List.map_nil, List.nil_append] at chunks

/-- `deserialize` leaves a sound object. -/
theorem deserialize_sound (env : Env) (create : Bool) (torrent : Torrent)
    (text : torrent.serializedObj ≠ []) : (deserialize env create torrent).Sound := by
  simp only [deserialize, List.isEmpty_iff, text, ↓reduceIte]
  split
  · exact .inl List.mergeSort_nil
  · split
    · next after read =>
        have numbered := deserializeFields_numbered rfl read
        refine .inr (.inr (.inr ?_))
        simp only [numbered.mergeSort_eq (Nat.le_of_lt after.numPieces.toNat_lt)]
        exact numbered
    · exact .inl List.mergeSort_nil

/-- A sound object stays sound when it is made of a text. -/
theorem createTorrentFromSerializedObj_sound (env : Env) {torrent : Torrent}
    (sound : torrent.Sound) (serializedObj : Bytes) (tables : Database)
    (refuses : Insert → Bool) :
    (leaves (torrent.createTorrentFromSerializedObj env refuses serializedObj tables).1).Sound := by
  unfold createTorrentFromSerializedObj
  split
  · exact sound
  · next text =>
      rw [List.isEmpty_iff] at text
      have read := deserialize_sound env true { torrent with serializedObj } text
      split
      · next left => exact read.serialize (.inr left)
      · next left => exact read.serialize (.inl left)

/-- Opening leaves a sound object where the rows are numbered. -/
theorem open_sound {env : Env} {torrent : Torrent} {tables : Database} {order : RowOrder}
    (sound : torrent.Sound) (rows : torrent.RowsNumbered tables order) :
    (leaves (torrent.open env order tables)).Sound := by
  unfold Torrent.open
  by_cases zero : torrent.uid = 0
  · rw [if_pos zero]
    exact sound
  · have filled : (torrent.loaded env order tables).Sound := by
      rcases rows.resolve_left zero with none | ⟨blank, empty | numbered⟩
      · exact .inr (.inl none)
      · refine .inl ?_
        simp only [loaded, getTorrentFromDB, createTorrentFromRow, empty, List.map_nil,
          List.append_nil]
        exact blank
      · refine .inr (.inr (.inr ?_))
        have first : torrent.setDBuid.chunks = [] := blank
        simp only [loaded, getTorrentFromDB, createTorrentFromRow, Numbered, first,
          List.nil_append, List.map_map]
        exact numbered
    rw [if_neg zero]
    simp only
    split
    · next left => exact filled.serialize (.inr left)
    · next left => exact filled.serialize (.inl left)

/-- Safe calls leave a sound object. -/
theorem Call.result_sound {env : Env} {torrent : Torrent} (sound : torrent.Sound) {method : Call}
    (safe : method.Safe env torrent) : (method.result env torrent).Sound := by
  cases method with
  | create files tables refuses => exact create_sound safe tables refuses
  | createFiles name filenames files tables refuses => exact create_sound safe tables refuses
  | createTorrentFromSerializedObj serializedObj tables refuses =>
      exact createTorrentFromSerializedObj_sound env sound serializedObj tables refuses
  | «open» tables order => exact open_sound sound safe
  | openUid uid tables order =>
      have same : ({ torrent with uid } : Torrent).Sound := sound.frame rfl rfl rfl
      exact open_sound same safe

/-- An action keeps every object sound. -/
theorem Acts.sound {env : Env} {objects after : List Torrent} {action : Action}
    (sound : ∀ torrent ∈ objects, torrent.Sound) (safe : action.Safe env objects)
    (acts : Acts env objects action after) : ∀ torrent ∈ after, torrent.Sound := by
  intro torrent member
  cases acts with
  | construct construction =>
      rcases List.mem_append.mp member with old | new
      · exact sound torrent old
      · rw [List.mem_singleton.mp new]
        cases construction with
        | blank | ofFiles _ _ | ofName _ | ofUid _ _ _ => exact .inl rfl
  | call method found =>
      rcases List.mem_or_eq_of_mem_set member with old | rfl
      · exact sound torrent old
      · exact Call.result_sound (sound _ (List.mem_of_getElem? found)) (safe _ found)
  | getAllTorrents tables order =>
      rcases List.mem_append.mp member with old | new
      · exact sound torrent old
      · obtain ⟨row, _, rfl⟩ := List.mem_map.mp new
        exact .inr (.inr (.inl rfl))
  | copy found =>
      rcases List.mem_append.mp member with old | new
      · exact sound torrent old
      · rw [List.mem_singleton.mp new]
        exact (sound _ (List.mem_of_getElem? found)).frame rfl rfl rfl
  | assign _ found =>
      rcases List.mem_or_eq_of_mem_set member with old | rfl
      · exact sound torrent old
      · exact (sound _ (List.mem_of_getElem? found)).frame rfl rfl rfl

/-- **Positions are indices.** In every run of safe actions, the chunks of every valid
object are as many as its pieces, and each is at the position of its index. -/
theorem positional_of_run (env : Env) (past : List (List Torrent × Action))
    (objects : List Torrent) (run : Transition.Run (Acts env) [] past objects)
    (safe : Transition.Meets (fun objects action => action.Safe env objects) past) :
    ∀ torrent ∈ objects, torrent.Positional := by
  have sound := run.invariant (fun objects => ∀ torrent ∈ objects, torrent.Sound)
    (fun source action target valid meets acts => acts.sound valid meets)
    (fun torrent member => absurd member List.not_mem_nil) safe
  exact fun torrent member => (sound torrent member).positional

/-- An object made of a uid and opened once. -/
theorem positional_of_run_letter :
    let env := Env.byLength (letterLib 7 [(1, true)])
    ((Call.open letterTables .insertion).result env (ofUid 7 0 0)).Positional := by
  intro env
  have constructed : Transition.Run (Acts env) [] _ [ofUid 7 0 0] :=
    .snoc .nil (.construct [] (.ofUid 7 0 0))
  have opened := constructed.snoc (.call (.open letterTables .insertion) (i := 0) rfl)
  refine positional_of_run env _ _ opened ?_ _ (List.mem_singleton_self _)
  intro record member
  rcases List.mem_pair.mp member with rfl | rfl
  · trivial
  · intro torrent found
    cases found
    exact .inr (.inr ⟨rfl, .inr rfl⟩)

/-- The object `open` leaves when it is called on one that `getAllTorrents` made. -/
def doubledTorrent : Torrent :=
  { letterTorrent 7 1 true with
    packagePath := torrentDataDir ++ [97]
    chunks := [{ index := 0, hash := 1, existing := true },
      { index := 0, hash := 1, existing := true }]
    jobj := letterDocument 7 [(1, true), (1, true)]
    serializedObj := letterText 7 [(1, true), (1, true)]
    db := { uid := 7 } }

/-- Opening what `getAllTorrents` returns refutes the numbering of chunks. -/
theorem positional_of_run_fails :
    ¬ ∀ (env : Env) (past : List (List Torrent × Action)) (objects : List Torrent),
      Transition.Run (Acts env) [] past objects → ∀ torrent ∈ objects, torrent.Positional := by
  intro always
  let env := Env.byLength (letterLib 7 [(1, true), (1, true)])
  have made : Transition.Run (Acts env) [] _ [letterTorrent 7 1 true] :=
    .snoc .nil (.getAllTorrents [] letterTables .insertion)
  have opened : (letterTorrent 7 1 true).open env .insertion letterTables =
      .ok (doubledTorrent, true) := by
    have fields : ((letterTorrent 7 1 true).loaded env .insertion letterTables).serializeFields =
        some (letterDocument 7 [(1, true), (1, true)]) := rfl
    have printable : ((letterTorrent 7 1 true).loaded env .insertion letterTables).Printable :=
      ⟨List.cons_ne_nil _ _, by decide, List.cons_ne_nil _ _⟩
    exact (open_of_serialize (by decide) (serialize_of_dump printable fields
      (dump_letterDocument _ (by decide)))).trans rfl
  have run := made.snoc (.call (.open letterTables .insertion) (i := 0) rfl)
  simp only [Call.result, opened, leaves] at run
  have positional := always env _ _ run doubledTorrent List.mem_cons_self
  exact absurd (positional rfl).1 (by decide)

end Torrent

end Bp2p
