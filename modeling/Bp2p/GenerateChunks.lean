import Bp2p.PutChunk

/-! # The hashes of a package

`generateChunks` makes one chunk for each piece of a package, and hashes the piece
without its last byte. `validateChunk` hashes all the bytes it is given. The two
never agree, neither on the object the chunks were made for nor on the copy a
receiver reads from its serialized form, so that no chunk can be transferred
(`Bp2p.Torrent.generateChunks_refused`).
-/

namespace Bp2p

namespace Torrent

/-- The chunks `generateChunks` makes of the bytes from a piece on. -/
def generatedChunks (env : Env) (i : Nat) (content : Bytes) : List Chunk :=
  (List.range (pieceCount content)).map fun k =>
    { index := .ofNat (i + k), hash := env.hash (piece k content).dropLast, existing := true }

theorem length_generatedChunks (env : Env) (i : Nat) (content : Bytes) :
    (generatedChunks env i content).length = pieceCount content := by
  simp only [generatedChunks, List.length_map, List.length_range]

/-- A short package has one chunk, with the hash of all but its last byte. -/
theorem generatedChunks_of_short (env : Env) (i : Nat) {content : Bytes}
    (nonempty : content.length ≠ 0) (short : content.length < chunkSize) :
    generatedChunks env i content =
      [{ index := .ofNat i, hash := env.hash content.dropLast, existing := true }] := by
  have one : pieceCount content = 1 := by
    unfold pieceCount chunkSize at *
    omega
  simp only [generatedChunks, one, List.range_one, List.map_cons, List.map_nil, Nat.add_zero,
    piece, Blocks.block_zero, List.take_of_length_le (Nat.le_of_lt short)]

/-- The first chunk of a long package has the hash of a whole piece but for its last byte. -/
theorem generatedChunks_of_long (env : Env) (i : Nat) {content : Bytes}
    (long : chunkSize ≤ content.length) :
    generatedChunks env i content =
      { index := .ofNat i, hash := env.hash (content.take chunkSize).dropLast, existing := true } ::
        generatedChunks env (i + 1) (content.drop chunkSize) := by
  have more : pieceCount content = pieceCount (content.drop chunkSize) + 1 := by
    unfold pieceCount
    rw [List.length_drop]
    unfold chunkSize at *
    omega
  simp only [generatedChunks, more, List.range_succ_eq_map, List.map_cons, List.map_map,
    Nat.add_zero, piece, Blocks.block_zero, List.cons.injEq, true_and]
  apply List.map_congr_left
  intro k _
  simp only [Function.comp_apply, Blocks.block_succ, Nat.succ_eq_add_one, Nat.add_assoc,
    Nat.add_comm 1 k]

/-- The loop of `generateChunks` ends unless it reads nothing, and appends the chunks
of all the pieces. -/
theorem generateLoop_ok {env : Env} {i : Nat} {rest : Bytes} {torrent generated : Torrent}
    (completes : generateLoop env i rest torrent = .ok generated) :
    rest.length % chunkSize ≠ 0 ∧ ∃ uid, generated =
      { torrent with chunks := torrent.chunks ++ generatedChunks env i rest, uid } := by
  induction i, rest, torrent using generateLoop.induct env with
  | case1 i rest torrent nothing =>
      rw [generateLoop, if_pos nothing] at completes
      cases completes
  | case2 i rest torrent something short =>
      rw [generateLoop, if_neg something, if_pos short, Except.ok.injEq] at completes
      refine ⟨by rwa [Nat.mod_eq_of_lt short], (torrent.addChunk env i rest).uid, ?_⟩
      rw [← completes, generatedChunks_of_short env i something short, List.dropLast_eq_take]
      rfl
  | case3 i rest torrent something long ih =>
      rw [generateLoop, if_neg something, if_neg long] at completes
      obtain ⟨inexact, uid, same⟩ := ih completes
      rw [Nat.not_lt] at long
      refine ⟨?_, uid, ?_⟩
      · rw [List.length_drop] at inexact
        unfold chunkSize at *
        omega
      · rw [same, generatedChunks_of_long env i long, List.dropLast_eq_take]
        simp only [addChunk, List.append_assoc, List.cons_append, List.nil_append]

/-- The loop of `generateChunks` ends on every length that is no multiple of `chunkSize`. -/
theorem generateLoop_completes (env : Env) (i : Nat) {rest : Bytes} (torrent : Torrent)
    (inexact : rest.length % chunkSize ≠ 0) :
    ∃ generated, generateLoop env i rest torrent = .ok generated := by
  induction i, rest, torrent using generateLoop.induct env with
  | case1 i rest torrent nothing => exact absurd (by rw [nothing]; rfl) inexact
  | case2 i rest torrent something short =>
      exact ⟨_, by rw [generateLoop, if_neg something, if_pos short]⟩
  | case3 i rest torrent something long ih =>
      rw [generateLoop, if_neg something, if_neg long]
      apply ih
      rw [Nat.not_lt] at long
      rw [List.length_drop]
      unfold chunkSize at *
      omega

/-- The bytes `generateChunks` reads: none when the package cannot be opened. -/
def packageContent (files : FileStore) (torrent : Torrent) : Bytes :=
  (files torrent.packagePath).getD []

/-- What `generateChunks` leaves when it completes on a package. -/
theorem generateChunks_ok {env : Env} {files : FileStore} {torrent seeder : Torrent}
    {ret : Int32} (packaged : torrent.packagePath ≠ [])
    (completes : torrent.generateChunks env files = .ok (seeder, ret)) :
    ∃ uid, seeder = { torrent with
      chunks := generatedChunks env 0 (torrent.packageContent files)
      uid
      numPieces := .ofNat (pieceCount (torrent.packageContent files))
      db := { uid } } := by
  simp only [generateChunks, List.isEmpty_iff, packaged, ↓reduceIte] at completes
  split at completes
  · cases completes
  · next generated loop =>
      obtain ⟨_, uid, same⟩ := generateLoop_ok loop
      have content : (files torrent.packagePath).getD [] = torrent.packageContent files := rfl
      rw [List.nil_append, content] at same
      rw [Except.ok.injEq, Prod.mk.injEq] at completes
      refine ⟨uid, completes.1.symm.trans ?_⟩
      subst same
      rw [length_generatedChunks]
      rfl

/-- No string of the package is hashed to the hash of another one. -/
def CollisionFree (env : Env) (content : Bytes) : Prop :=
  ∀ i j, env.hash (piece i content) = env.hash (piece j content).dropLast →
    piece i content = (piece j content).dropLast

/-- The bytes a seeder reads are a piece: the offset is reduced modulo `2 ^ 32`. -/
theorem getChunk_eq_piece {files : FileStore} {torrent : Torrent} {content : Bytes}
    (stored : files torrent.packagePath = some content) (index : UInt32) :
    torrent.getChunk files index = piece (index.toNat % 2 ^ 17) content := by
  simp only [getChunk, stored, piece, Blocks.block, UInt32.mul_comm index, toNat_chunkSize_mul]

/-- No piece is another one, or itself, without its last byte: only the last piece
is short, and no offset wraps around to it. -/
theorem piece_ne_dropLast {content : Bytes} {i : Nat} (inside : i < pieceCount content) :
    piece (i % 2 ^ 17) content ≠ (piece i content).dropLast := by
  intro same
  have lengths := congrArg List.length same
  rw [lt_pieceCount_iff] at inside
  simp only [piece, List.length_dropLast, Blocks.length_block] at lengths
  have low : i % 2 ^ 17 ≤ i := Nat.mod_le ..
  unfold chunkSize at *
  rcases Nat.lt_or_eq_of_le low with wraps | fits
  · omega
  · rw [fits] at lengths
    omega

/-- The chunk of an index below the piece count. -/
theorem getElem?_generatedChunks (env : Env) {content : Bytes} {i : Nat}
    (inside : i < pieceCount content) :
    (generatedChunks env 0 content)[i]? = some
      { index := .ofNat i, hash := env.hash (piece i content).dropLast, existing := true } := by
  simp only [generatedChunks, List.getElem?_map, List.getElem?_range inside, Option.map_some,
    Nat.zero_add]

/-- Without collisions, a list that has the generated hash at an index refuses the
bytes a seeder reads for it. -/
theorem validateChunk_generated {env : Env} {content : Bytes} (free : CollisionFree env content)
    {torrent : Torrent} {index : UInt32} (inside : index.toNat < pieceCount content)
    (hash : torrent.chunks[index.toNat]?.map (·.hash) =
      some (env.hash (piece index.toNat content).dropLast)) :
    torrent.validateChunk env (piece (index.toNat % 2 ^ 17) content) index = false := by
  rw [Bool.eq_false_iff]
  intro valid
  obtain ⟨chunk, found, same⟩ := validateChunk_iff.mp valid
  rw [found, Option.map_some, Option.some.injEq] at hash
  exact piece_ne_dropLast inside (free _ _ (same.symm.trans hash))

/-- A refused string changes nothing. -/
theorem putChunk_refused {env : Env} {files : FileStore} {torrent : Torrent} {bytes : Bytes}
    {index : UInt32} (invalid : torrent.validateChunk env bytes index = false) :
    torrent.putChunk env files bytes index = (torrent, files, false) := by
  simp only [putChunk, invalid, Bool.false_eq_true, ↓reduceIte]

/-- **No generated chunk can be transferred.** The seeder's own object refuses the
bytes it reads, and so does every receiver of its serialized form, whose file and
marks stay as they are. -/
theorem generateChunks_refused (env : Env) (files : FileStore) (torrent : Torrent)
    (content : Bytes) (packaged : torrent.packagePath ≠ [])
    (stored : files torrent.packagePath = some content) (free : CollisionFree env content)
    (seeder : Torrent) (ret : Int32)
    (completes : torrent.generateChunks env files = .ok (seeder, ret)) (index : UInt32)
    (inside : index < seeder.numPieces) :
    let bytes := seeder.getChunk files index
    seeder.validateChunk env bytes index = false ∧
      ∀ written receiver, torrent.name ≠ [] → seeder.serialize env = .ok written →
        receiver.serializedObj = written.serializedObj →
        (deserialize env true receiver).validateChunk env bytes index = false ∧
        ∀ others, (deserialize env true receiver).putChunk env others bytes index =
          (deserialize env true receiver, others, false) := by
  intro bytes
  obtain ⟨uid, same⟩ := generateChunks_ok packaged completes
  rw [packageContent, stored, Option.getD_some] at same
  rw [UInt32.lt_iff_toNat_lt] at inside
  have counted : seeder.numPieces.toNat ≤ pieceCount content := by
    rw [same, UInt32.toNat_ofNat']
    exact Nat.mod_le ..
  have low : index.toNat < pieceCount content := Nat.lt_of_lt_of_le inside counted
  have chunk := getElem?_generatedChunks env low
  rw [show generatedChunks env 0 content = seeder.chunks by rw [same]] at chunk
  have read : bytes = piece (index.toNat % 2 ^ 17) content := by
    refine getChunk_eq_piece ?_ index
    rw [same]
    exact stored
  rw [read]
  refine ⟨validateChunk_generated free low (by rw [chunk, Option.map_some]),
    fun written receiver named serialized text => ?_⟩
  have filled : seeder.chunks ≠ [] := List.ne_nil_of_mem (List.mem_of_getElem? chunk)
  have positive : seeder.numPieces ≠ 0 := fun zero => by
    rw [zero] at inside
    exact absurd inside (Nat.not_lt_zero _)
  obtain ⟨jobj, output, after, dumped, documents⟩ :=
    serialize_spec ⟨by rwa [same], positive, filled⟩ serialized
  have length : seeder.numPieces.toNat ≤ seeder.chunks.length := by
    rw [same] at counted ⊢
    simpa only [generatedChunks, List.length_map, List.length_range] using counted
  rw [after] at text
  have copy := deserialize_of_documents env true receiver (text ▸ env.json.dump_ne_nil _ _ dumped)
    (text ▸ env.json.parse_of_dump dumped) documents length
  have refused : (deserialize env true receiver).validateChunk env
      (piece (index.toNat % 2 ^ 17) content) index = false := by
    apply validateChunk_generated free low
    rw [copy]
    simp only [received, readChunks, List.getElem?_map, List.getElem?_range' inside,
      Option.map_some, List.getD_eq_getElem?_getD, Nat.zero_add, Nat.one_mul, chunk,
      Option.getD_some]
  exact ⟨refused, fun others => putChunk_refused refused⟩

/-- The torrent of the package `a` before its chunks are generated. -/
def unhashedTorrent : Torrent := { name := [97], packagePath := torrentDataDir ++ [97], size := 1 }

/-- The package `a` at its path. -/
def letterFiles : FileStore := Files.write .empty (torrentDataDir ++ [97]) [97]

theorem letterFiles_packagePath : letterFiles unhashedTorrent.packagePath = some [97] :=
  Files.write_self ..

/-- The chunks of the package `a`: the empty string is hashed. -/
theorem generateChunks_letterFiles (json : JsonLib) :
    unhashedTorrent.generateChunks (.byLength json) letterFiles =
      .ok ({ letterTorrent 0 0 true with packagePath := torrentDataDir ++ [97] }, 0) := by
  have loop : generateLoop (.byLength json) 0 [97] { unhashedTorrent with chunks := [] } =
      .ok { unhashedTorrent with chunks := [{ index := 0, hash := 0, existing := true }] } := by
    have uid : ((0 : UInt64) ^^^ (UInt64.ofNat 0 <<< 1)) >>> 1 = 0 := by decide
    rw [generateLoop, if_neg (by decide), if_pos (by decide)]
    simp only [addChunk, Env.byLength, unhashedTorrent, List.length_singleton, Nat.sub_self,
      List.take_zero, List.length_nil, List.nil_append, uid]
    rfl
  simp only [generateChunks, letterFiles_packagePath, Option.getD_some, loop]
  rfl

/-- The package `a` has another hash without its last byte. -/
theorem collisionFree_letter (json : JsonLib) : CollisionFree (.byLength json) [97] := by
  intro i j same
  have lengths := congrArg UInt64.toNat same
  have left := Blocks.length_block chunkSize i [(97 : UInt8)]
  have right := Blocks.length_block chunkSize j [(97 : UInt8)]
  have dropped := @List.length_dropLast _ (piece j [97])
  simp only [Env.byLength, UInt64.toNat_ofNat', piece, List.length_singleton] at *
  rw [Nat.mod_eq_of_lt (by omega), Nat.mod_eq_of_lt (by omega)] at lengths
  rw [List.eq_nil_of_length_eq_zero (l := Blocks.block _ _ _) (by omega),
    List.eq_nil_of_length_eq_zero (l := List.dropLast _) (by omega)]

/-- The chunk of the package `a`, refused by its seeder and by a receiver of the text
the seeder prints. -/
theorem generateChunks_refused_letter :
    let env := Env.byLength (letterLib 0 [(0, true)])
    let seeder := { letterTorrent 0 0 true with packagePath := torrentDataDir ++ [97] }
    let receiver : Torrent := { serializedObj := letterText 0 [(0, true)] }
    seeder.validateChunk env (seeder.getChunk letterFiles 0) 0 = false ∧
      (deserialize env true receiver).validateChunk env (seeder.getChunk letterFiles 0) 0 =
        false := by
  intro env seeder receiver
  have refused := generateChunks_refused env letterFiles unhashedTorrent [97]
    (List.append_ne_nil_of_right_ne_nil _ (List.cons_ne_nil _ _)) letterFiles_packagePath
    (collisionFree_letter _) seeder 0 (generateChunks_letterFiles _) 0 (by decide)
  have serialized : seeder.serialize env = .ok { seeder with
      jobj := letterDocument 0 [(0, true)], serializedObj := letterText 0 [(0, true)] } :=
    serialize_of_dump ⟨List.cons_ne_nil _ _, by decide, List.cons_ne_nil _ _⟩ rfl
      (dump_letterDocument _ (by decide))
  exact ⟨refused.1, (refused.2 _ receiver (List.cons_ne_nil _ _) serialized rfl).1⟩

/-- The package `a` refutes the transfer of chunks: there is a chunk, and the seeder
itself refuses the bytes it reads for it. -/
theorem generateChunks_transfer_fails :
    ¬ ∀ (env : Env) (files : FileStore) (torrent seeder : Torrent) (content : Bytes) (ret : Int32),
      files torrent.packagePath = some content → content ≠ [] → CollisionFree env content →
      torrent.generateChunks env files = .ok (seeder, ret) →
      ∀ index < seeder.numPieces,
        seeder.validateChunk env (seeder.getChunk files index) index = true := by
  intro transfers
  have accepted := transfers (.byLength .null) letterFiles unhashedTorrent _ [97] 0
    letterFiles_packagePath (List.cons_ne_nil _ _) (collisionFree_letter _)
    (generateChunks_letterFiles _) 0 (by decide)
  exact absurd accepted (by decide)

end Torrent

end Bp2p
