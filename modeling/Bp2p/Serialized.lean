import Bp2p.Torrent
import Bp2p.Utf8

/-! # The serialized form of a torrent

The document `serialize` prints has a member for each field and one for each
chunk (`Bp2p.Torrent.Documents`), whatever other members the object's document had
before. Reading such a document gives the fields back, and a chunk list in the
order of the positions with every flag cleared when the torrent is new
(`Bp2p.Torrent.deserialize_of_documents`).
-/

namespace Bp2p

namespace Torrent

/-- The member `serialize` makes of a chunk. -/
def chunkMember (chunk : Chunk) : Json := .array [.unsigned chunk.hash, .boolean chunk.existing]

/-- The document describes the torrent. -/
structure Documents (jobj : Json) (torrent : Torrent) : Prop where
  name : jobj.lookup nameKey = some (.string torrent.name)
  uid : jobj.lookup uidKey = some (.unsigned torrent.uid)
  numPieces : jobj.lookup numPiecesKey = some (.unsigned torrent.numPieces.toUInt64)
  size : jobj.lookup sizeKey = some (.unsigned torrent.size)
  chunk : ∀ i chunk, torrent.chunks[i]? = some chunk →
    jobj.lookup (Decimal.numeral i) = some (chunkMember chunk)

/-- A key with a byte that is no digit is no numeral. -/
theorem numeral_ne {key : Bytes} (letter : key.all Decimal.isDigit = false) (i : Nat) :
    Decimal.numeral i ≠ key := by
  intro same
  rw [← same] at letter
  exact absurd (List.all_eq_true.mpr fun byte member => Decimal.isDigit_of_mem_numeral member)
    (Bool.eq_false_iff.mp letter)

/-- The loop of `serialize` sets the members of the positions it goes through and
no other. -/
theorem serializeChunks_spec {chunks : List Chunk} {i : Nat} {jobj result : Json}
    (written : serializeChunks i chunks jobj = some result) :
    (∀ k chunk, chunks[k]? = some chunk →
      result.lookup (Decimal.numeral (i + k)) = some (chunkMember chunk)) ∧
    ∀ key, (∀ k, i ≤ k → key ≠ Decimal.numeral k) → result.lookup key = jobj.lookup key := by
  induction chunks generalizing i jobj with
  | nil =>
      rw [serializeChunks, Option.some.injEq] at written
      subst written
      exact ⟨fun k chunk found => absurd found (by simp only [List.getElem?_nil, reduceCtorEq,
        not_false_eq_true]), fun key _ => rfl⟩
  | cons first rest ih =>
      unfold serializeChunks at written
      split at written
      · next next assigned =>
          obtain ⟨later, others⟩ := ih written
          obtain ⟨_, set, kept⟩ := Json.assign_spec assigned
          refine ⟨fun k chunk found => ?_, fun key different => ?_⟩
          · cases k with
            | zero =>
                rw [List.getElem?_cons_zero, Option.some.injEq] at found
                subst found
                rw [Nat.add_zero, others _ fun k later same => ?_, set, chunkMember]
                have equal := Decimal.numeral_injective same
                omega
            | succ k =>
                rw [List.getElem?_cons_succ] at found
                have read := later k chunk found
                rwa [Nat.add_right_comm, Nat.add_assoc] at read
          · rw [others key fun k high => different k (by omega), kept key (different i le_rfl)]
      · cases written

/-- What `serialize` sets describes the torrent. -/
theorem documents_of_serializeFields {torrent : Torrent} {jobj : Json}
    (written : torrent.serializeFields = some jobj) : Documents jobj torrent := by
  simp only [serializeFields, bind, Option.bind_eq_some_iff] at written
  obtain ⟨named, setName, numbered, setUid, counted, setPieces, sized, setSize, chunks⟩ := written
  obtain ⟨_, readName, _⟩ := Json.assign_spec setName
  obtain ⟨_, readUid, keptUid⟩ := Json.assign_spec setUid
  obtain ⟨_, readPieces, keptPieces⟩ := Json.assign_spec setPieces
  obtain ⟨_, readSize, keptSize⟩ := Json.assign_spec setSize
  obtain ⟨members, others⟩ := serializeChunks_spec chunks
  -- no later assignment goes to the key of an earlier one
  have kept : ∀ key, key.all Decimal.isDigit = false → jobj.lookup key = sized.lookup key :=
    fun key letter => others key fun k _ => (numeral_ne letter k).symm
  refine ⟨?_, ?_, ?_, ?_, fun i chunk found => ?_⟩
  · rw [kept _ (by decide), keptSize _ (by decide), keptPieces _ (by decide),
      keptUid _ (by decide), readName]
  · rw [kept _ (by decide), keptSize _ (by decide), keptPieces _ (by decide), readUid]
  · rw [kept _ (by decide), keptSize _ (by decide), readPieces]
  · rw [kept _ (by decide), readSize]
  · have read := members i chunk found
    rwa [Nat.zero_add] at read

/-- The torrent has what `serialize` prints. -/
def Printable (torrent : Torrent) : Prop :=
  torrent.name ≠ [] ∧ torrent.numPieces ≠ 0 ∧ torrent.chunks ≠ []

theorem getPackagePath_ne_nil (env : Env) (torrent : Torrent) :
    torrent.getPackagePath env ≠ [] :=
  List.append_ne_nil_of_left_ne_nil
    (List.append_ne_nil_of_right_ne_nil _ (List.cons_ne_nil _ _)) _

/-- What a valid torrent has. -/
theorem isValid_iff {torrent : Torrent} :
    torrent.isValid = true ↔ torrent.name ≠ [] ∧ torrent.numPieces ≠ 0 ∧ torrent.chunks ≠ [] ∧
      torrent.packagePath ≠ [] ∧ torrent.serializedObj ≠ [] := by
  have positive : 0 < torrent.numPieces ↔ torrent.numPieces ≠ 0 := UInt32.pos_iff_ne_zero
  simp only [isValid, Bool.and_eq_true, decide_eq_true_eq, Bool.not_eq_eq_eq_not, Bool.not_true,
    List.isEmpty_eq_false_iff, positive]
  tauto

/-- A torrent that can be printed is serialized as the text of its document. -/
theorem serialize_of_dump {env : Env} {torrent : Torrent} {jobj : Json} {text : Bytes}
    (printable : torrent.Printable) (described : torrent.serializeFields = some jobj)
    (dumped : env.json.dump jobj = some text) :
    torrent.serialize env = .ok { torrent with jobj, serializedObj := text } := by
  obtain ⟨named, counted, filled⟩ := printable
  simp only [serialize, List.isEmpty_iff, named, counted, filled, beq_iff_eq, Bool.or_eq_true,
    or_self, ↓reduceIte, described, dumped]

/-- Serializing changes the document and its text, which the document then is of. -/
theorem serialize_spec {env : Env} {torrent written : Torrent} (printable : torrent.Printable)
    (serialized : torrent.serialize env = .ok written) :
    ∃ jobj text, written = { torrent with jobj, serializedObj := text } ∧
      env.json.dump jobj = some text ∧ Documents jobj torrent := by
  obtain ⟨named, counted, filled⟩ := printable
  unfold serialize at serialized
  simp only [List.isEmpty_iff, named, counted, filled, beq_iff_eq, Bool.or_eq_true, or_self,
    ↓reduceIte] at serialized
  split at serialized
  · cases serialized
  · next jobj described =>
      split at serialized
      · cases serialized
      · next text dumped =>
          rw [Except.ok.injEq] at serialized
          exact ⟨jobj, text, serialized.symm, dumped, documents_of_serializeFields described⟩

/-- Reading a member that is there and converts. -/
theorem fetch_of_lookup {α : Type} {convert : Json → Option α} {key : Bytes} {torrent : Torrent}
    {value : Json} {result : α} (found : torrent.jobj.lookup key = some value)
    (converts : convert value = some result) :
    torrent.fetch convert key = .ok (torrent, result) := by
  simp only [fetch, Json.access_of_lookup found, converts]

/-- The chunks read from the document of a torrent. -/
def readChunks (create : Bool) (source : Torrent) (i left : Nat) : List Chunk :=
  (List.range' i left).map fun k =>
    let chunk := source.chunks.getD k {}
    { index := .ofNat k, hash := chunk.hash, existing := !create && chunk.existing }

/-- A printed chunk is read as it was, missing if the torrent is new. -/
theorem convertChunk_chunkMember (json : JsonLib) (create : Bool) (chunk : Chunk) :
    convertChunk json create (chunkMember chunk) =
      some (chunk.hash, !create && chunk.existing) := by
  cases create with
  | true => simp only [convertChunk, chunkMember, Json.element, List.getD_cons_zero, bind,
      Option.bind_some, json.getSizeT_unsigned, ↓reduceIte, Bool.not_true, Bool.false_and]
  | false => simp only [convertChunk, chunkMember, Json.element, List.getD_cons_zero,
      List.getD_cons_succ, bind, Option.bind_some, json.getSizeT_unsigned,
      json.getBool_boolean, Bool.false_eq_true, ↓reduceIte, Bool.not_false, Bool.true_and]

/-- The loop of `deserialize` over members that are there. -/
theorem deserializeChunks_of_documents (env : Env) (create : Bool) (left i : Nat)
    (torrent : Torrent) {source : Torrent} (documents : Documents torrent.jobj source)
    (inside : i + left ≤ source.chunks.length) :
    deserializeChunks env create left i torrent =
      .ok { torrent with chunks := torrent.chunks ++ readChunks create source i left } := by
  induction left generalizing i torrent with
  | zero => simp only [deserializeChunks, readChunks, List.range'_zero, List.map_nil,
      List.append_nil]
  | succ left ih =>
      have position : i < source.chunks.length := by omega
      have found := documents.chunk i _ (List.getElem?_eq_getElem position)
      have read := fetch_of_lookup found (convertChunk_chunkMember env.json create _)
      unfold deserializeChunks
      simp only [read, bind, Except.bind]
      rw [ih (i + 1) { torrent with chunks := torrent.chunks ++
        [{ index := .ofNat i, hash := _, existing := _ }] } documents (by omega)]
      simp only [readChunks, List.range'_succ, List.map_cons, List.append_assoc,
        List.cons_append, List.nil_append, List.getD_eq_getElem?_getD,
        List.getElem?_eq_getElem position, Option.getD_some]

/-- The chunks carry their positions as indices. -/
def Numbered (chunks : List Chunk) (count : Nat) : Prop :=
  chunks.map (·.index) = (List.range count).map UInt32.ofNat

theorem Numbered.length_eq {chunks : List Chunk} {count : Nat} (numbered : Numbered chunks count) :
    chunks.length = count := by
  simpa only [List.length_map, List.length_range] using congrArg List.length numbered

/-- The index of the chunk at a position. -/
theorem Numbered.toNat_index {chunks : List Chunk} {count : Nat} (numbered : Numbered chunks count)
    (bounded : count ≤ 2 ^ 32) {i : Nat} {chunk : Chunk} (found : chunks[i]? = some chunk) :
    chunk.index.toNat = i := by
  have inside : i < count := numbered.length_eq ▸ (List.getElem?_eq_some_iff.mp found).choose
  have entry := congrArg (·[i]?) numbered
  simp only [List.getElem?_map, found, List.getElem?_range inside, Option.map_some,
    Option.some.injEq] at entry
  rw [entry, UInt32.toNat_ofNat', Nat.mod_eq_of_lt (by omega)]

/-- Chunks in the order of their positions are left alone by the sort. -/
theorem Numbered.mergeSort_eq {chunks : List Chunk} {count : Nat}
    (numbered : Numbered chunks count) (bounded : count ≤ 2 ^ 32) :
    (chunks.mergeSort fun first second => first.index ≤ second.index) = chunks := by
  refine List.mergeSort_of_pairwise (List.pairwise_iff_getElem.mpr fun i j low high less => ?_)
  rw [decide_eq_true_eq, UInt32.le_iff_toNat_le,
    numbered.toNat_index bounded (List.getElem?_eq_getElem low),
    numbered.toNat_index bounded (List.getElem?_eq_getElem high)]
  exact Nat.le_of_lt less

theorem numbered_readChunks (create : Bool) (source : Torrent) (count : Nat) :
    Numbered (readChunks create source 0 count) count := by
  simp only [Numbered, readChunks, List.map_map, List.range_eq_range']
  rfl

/-- The object after the document of a torrent was read. -/
def received (env : Env) (create : Bool) (source : Torrent) (jobj : Json) (torrent : Torrent) :
    Torrent :=
  { torrent with
    name := source.name
    packagePath := source.getPackagePath env
    uid := source.uid
    numPieces := source.numPieces
    chunks := readChunks create source 0 source.numPieces.toNat
    size := source.size
    jobj }

/-- **Reading a serialized torrent.** The fields come back, and the chunks in the
order of their positions, all missing when the torrent is new. -/
theorem deserialize_of_documents (env : Env) (create : Bool) (torrent : Torrent)
    {source : Torrent} {jobj : Json} (text : torrent.serializedObj ≠ [])
    (parsed : env.json.parse torrent.serializedObj = some jobj) (documents : Documents jobj source)
    (counted : source.numPieces.toNat ≤ source.chunks.length) :
    deserialize env create torrent = received env create source jobj torrent := by
  have loop := deserializeChunks_of_documents env create source.numPieces.toNat 0
    { received env create source jobj torrent with chunks := [] } documents
    (by rwa [Nat.zero_add])
  have fields : deserializeFields env create { torrent with chunks := [], jobj } =
      .ok (received env create source jobj torrent) := by
    unfold deserializeFields
    rw [fetch_of_lookup documents.name (env.json.getString_string _)]
    simp only [bind, Except.bind]
    rw [fetch_of_lookup documents.numPieces (env.json.getUnsignedInt_unsigned _)]
    simp only
    rw [fetch_of_lookup documents.uid (env.json.getSizeT_unsigned _)]
    simp only
    rw [fetch_of_lookup documents.size (env.json.getUnsignedLongLong_unsigned _)]
    simp only [UInt32.toUInt32_toUInt64]
    exact loop
  have sorted := (numbered_readChunks create source source.numPieces.toNat).mergeSort_eq
    (Nat.le_of_lt source.numPieces.toNat_lt)
  simp only [deserialize, List.isEmpty_iff, text, ↓reduceIte, parsed, fields, received, sorted]

/-- The torrent of the package `a`. -/
def letterTorrent (uid hash : UInt64) (existing : Bool) : Torrent where
  name := [97]
  uid
  numPieces := 1
  chunks := [{ index := 0, hash, existing }]
  size := 1

/-- The document of the package `a`, with the hash and the flag of each chunk listed. -/
def letterDocument (uid : UInt64) (chunks : List (UInt64 × Bool)) : Json :=
  .object (chunks.zipIdx.map (fun ((hash, existing), i) =>
      (Decimal.numeral i, .array [.unsigned hash, .boolean existing])) ++
    [(nameKey, .string [97]), (numPiecesKey, .unsigned 1), (sizeKey, .unsigned 1),
      (uidKey, .unsigned uid)])

/-- A key between quotation marks and its value, with a colon between them. -/
def memberText (key value : Bytes) : Bytes := 34 :: (key ++ 34 :: 58 :: value)

/-- The text of the document, as the library prints it: without spaces. -/
def letterText (uid : UInt64) (chunks : List (UInt64 × Bool)) : Bytes :=
  let flag := fun existing =>
    if existing then ascii ['t', 'r', 'u', 'e'] else ascii ['f', 'a', 'l', 's', 'e']
  let members := chunks.zipIdx.map (fun ((hash, existing), i) =>
      memberText (Decimal.numeral i)
        (91 :: (Decimal.numeral hash.toNat ++ 44 :: (flag existing ++ [93])))) ++
    [memberText nameKey [34, 97, 34], memberText numPiecesKey (Decimal.numeral 1),
      memberText sizeKey (Decimal.numeral 1), memberText uidKey (Decimal.numeral uid.toNat)]
  123 :: ([44].intercalate members ++ [125])

theorem letterText_ne_nil (uid : UInt64) (chunks : List (UInt64 × Bool)) :
    letterText uid chunks ≠ [] :=
  List.cons_ne_nil _ _

/-- The library on the document of the package `a`. -/
noncomputable def letterLib (uid : UInt64) (chunks : List (UInt64 × Bool)) : JsonLib :=
  .single (letterDocument uid chunks) (letterText uid chunks) (letterText_ne_nil uid chunks)

/-- The keys ascend: digits stand in front of letters. -/
theorem letterDocument_valid (uid : UInt64) {chunks : List (UInt64 × Bool)}
    (few : chunks.length ≤ 2) : (letterDocument uid chunks).Valid := by
  refine .object ?_ (fun entry inside => ?_) (fun entry inside => ?_)
  · match chunks, few with
    | [], _ =>
        show [nameKey, numPiecesKey, sizeKey, uidKey].Pairwise _
        decide
    | [_], _ =>
        show [Decimal.numeral 0, nameKey, numPiecesKey, sizeKey, uidKey].Pairwise _
        decide
    | [_, _], _ =>
        show [Decimal.numeral 0, Decimal.numeral 1, nameKey, numPiecesKey, sizeKey,
          uidKey].Pairwise _
        decide
  · rcases List.mem_append.mp inside with chunk | field
    · obtain ⟨⟨⟨hash, existing⟩, i⟩, _, rfl⟩ := List.mem_map.mp chunk
      exact isUtf8_numeral i
    · simp only [List.mem_cons, List.not_mem_nil, or_false] at field
      rcases field with rfl | rfl | rfl | rfl <;> exact isUtf8_of_all rfl
  · rcases List.mem_append.mp inside with chunk | field
    · obtain ⟨⟨⟨hash, existing⟩, i⟩, _, rfl⟩ := List.mem_map.mp chunk
      refine .array fun element member => ?_
      rcases List.mem_pair.mp member with rfl | rfl
      · exact .unsigned _
      · exact .boolean _
    · simp only [List.mem_cons, List.not_mem_nil, or_false] at field
      rcases field with rfl | rfl | rfl | rfl
      · exact .string (isUtf8_of_all rfl)
      · exact .unsigned _
      · exact .unsigned _
      · exact .unsigned _

theorem dump_letterDocument (uid : UInt64) {chunks : List (UInt64 × Bool)}
    (few : chunks.length ≤ 2) :
    (letterLib uid chunks).dump (letterDocument uid chunks) = some (letterText uid chunks) :=
  if_pos ⟨rfl, letterDocument_valid uid few⟩

end Torrent

end Bp2p
