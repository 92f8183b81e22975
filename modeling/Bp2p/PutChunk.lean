import Bp2p.Serialized

/-! # Writing the chunks of a package

A receiver starts from the file `createTorrentDataFile` makes and a list of
chunks none of which exists. Whatever is then put, in whatever order, the file
keeps the length of the package and agrees with it on every chunk marked as
existing (`Bp2p.Torrent.Agrees`): a put that is accepted carries the piece whose hash
the chunk has, and the piece is written to its own place.
-/

namespace Bp2p

namespace Torrent

/-- The bytes of a package that belong to a chunk. -/
def piece (i : Nat) (content : Bytes) : Bytes := Blocks.block chunkSize i content

/-- The number of pieces of a package: its length over `chunkSize`, rounded up. -/
def pieceCount (content : Bytes) : Nat := (content.length + (chunkSize - 1)) / chunkSize

/-- The chunk of a piece that is not there yet. -/
def missingChunk (env : Env) (content : Bytes) (i : Nat) : Chunk where
  index := .ofNat i
  hash := env.hash (piece i content)
  existing := false

/-- The torrent of a package none of which is there yet. -/
structure Describes (env : Env) (content : Bytes) (torrent : Torrent) : Prop where
  size : torrent.size = .ofNat content.length
  numPieces : torrent.numPieces = .ofNat (pieceCount content)
  chunks : torrent.chunks = (List.range (pieceCount content)).map (missingChunk env content)

/-- A call of `putChunk`. -/
structure Put where
  bytes : Bytes
  index : UInt32

/-- The object and the files after a call. -/
def put (env : Env) (state : Torrent × FileStore) (call : Put) : Torrent × FileStore :=
  let (torrent, files, _) := state.1.putChunk env state.2 call.bytes call.index
  (torrent, files)

/-- The object and the files after a sequence of calls. -/
def puts (env : Env) (state : Torrent × FileStore) (calls : List Put) : Torrent × FileStore :=
  calls.foldl (put env) state

/-- The mark of a chunk. -/
def marked (torrent : Torrent) (i : Nat) : Bool := (torrent.chunks[i]?.map (·.existing)).getD false

/-- The hash of a string tells it from every piece of the package. -/
def Distinguishes (env : Env) (content bytes : Bytes) : Prop :=
  ∀ i < pieceCount content, env.hash bytes = env.hash (piece i content) → bytes = piece i content

theorem lt_pieceCount_iff {i : Nat} {content : Bytes} :
    i < pieceCount content ↔ chunkSize * i < content.length := by
  unfold pieceCount chunkSize
  omega

/-- The state of a download: the file is as long as the package and agrees with it
on the marked chunks, whose hashes are those of the pieces. -/
structure Agrees (env : Env) (content path : Bytes) (state : Torrent × FileStore) : Prop where
  located : state.1.getPackagePath env = path
  hashes : state.1.chunks.map (·.hash) =
    (List.range (pieceCount content)).map fun i => env.hash (piece i content)
  file : ∃ file, state.2 path = some file ∧ file.length = content.length ∧
    ∀ i, state.1.marked i = true → piece i file = piece i content

theorem length_chunks_of_hashes {env : Env} {content : Bytes} {torrent : Torrent}
    (hashes : torrent.chunks.map (·.hash) =
      (List.range (pieceCount content)).map fun i => env.hash (piece i content)) :
    torrent.chunks.length = pieceCount content := by
  simpa only [List.length_map, List.length_range] using congrArg List.length hashes

/-- An accepted string has the hash of its chunk. -/
theorem validateChunk_iff {env : Env} {torrent : Torrent} {bytes : Bytes} {index : UInt32} :
    torrent.validateChunk env bytes index = true ↔
      ∃ chunk, torrent.chunks[index.toNat]? = some chunk ∧ chunk.hash = env.hash bytes := by
  unfold validateChunk
  split
  · next chunk found => simp only [beq_iff_eq, found, Option.some.injEq, exists_eq_left']
  · next absent => simp only [absent, reduceCtorEq, false_and, exists_false, Bool.false_eq_true]

theorem getElem?_markExisting (torrent : Torrent) (index : UInt32) (i : Nat) :
    (torrent.markExisting index).chunks[i]? = torrent.chunks[i]?.map fun chunk =>
      if index.toNat = i then { chunk with existing := true } else chunk :=
  List.getElem?_modify ..

@[simp] theorem marked_markExisting (torrent : Torrent) (index : UInt32) (i : Nat) :
    (torrent.markExisting index).marked i =
      (torrent.marked i || decide (i = index.toNat ∧ i < torrent.chunks.length)) := by
  unfold marked
  rw [getElem?_markExisting]
  by_cases inside : i < torrent.chunks.length
  · rw [List.getElem?_eq_getElem inside]
    by_cases same : index.toNat = i
    · simp only [same, ↓reduceIte, Option.map_some, Option.getD_some, inside, and_self,
        decide_true, Bool.or_true]
    · simp only [same, Ne.symm same, ↓reduceIte, Option.map_some, Option.getD_some, false_and,
        decide_false, Bool.or_false]
  · simp only [List.getElem?_eq_none (Nat.le_of_not_lt inside), Option.map_none,
      Option.getD_none, inside, and_false, decide_false, Bool.or_false]

@[simp] theorem hashes_markExisting (torrent : Torrent) (index : UInt32) :
    (torrent.markExisting index).chunks.map (·.hash) = torrent.chunks.map (·.hash) := by
  apply List.ext_getElem?
  intro i
  rw [List.getElem?_map, List.getElem?_map, getElem?_markExisting, Option.map_map]
  congr 1
  funext chunk
  by_cases same : index.toNat = i
  · simp only [Function.comp_apply, same, ↓reduceIte]
  · simp only [Function.comp_apply, same, ↓reduceIte]

/-- The offset of a chunk is reduced modulo `2 ^ 32`. -/
theorem toNat_chunkSize_mul (index : UInt32) :
    (UInt32.ofNat chunkSize * index).toNat = chunkSize * (index.toNat % 2 ^ 17) := by
  rw [UInt32.toNat_mul, UInt32.toNat_ofNat']
  unfold chunkSize
  omega

/-- An accepted string is valid, and is written to the package at the offset of its index. -/
theorem putChunk_accepted {env : Env} {files stored : FileStore} {torrent after : Torrent}
    {bytes : Bytes} {index : UInt32}
    (accepted : torrent.putChunk env files bytes index = (after, stored, true)) :
    torrent.validateChunk env bytes index = true ∧ after = torrent.markExisting index ∧
      ∃ file, files (torrent.getPackagePath env) = some file ∧
        stored = files.write (torrent.getPackagePath env)
          (Blocks.writeAt 0 file (chunkSize * (index.toNat % 2 ^ 17)) bytes) := by
  unfold putChunk at accepted
  split at accepted
  · next valid =>
      simp only at accepted
      split at accepted
      · next file opened =>
          cases accepted
          exact ⟨valid, rfl, file, opened, by rw [toNat_chunkSize_mul]⟩
      · cases accepted
  · cases accepted

/-- What a call does: nothing, or it marks the chunk and writes the string at the
chunk's place. -/
theorem put_cases (env : Env) (state : Torrent × FileStore) (call : Put) :
    put env state call = state ∨
      (∃ file, state.1.validateChunk env call.bytes call.index = true ∧
        state.2 (state.1.getPackagePath env) = some file ∧
        put env state call = (state.1.markExisting call.index,
          state.2.write (state.1.getPackagePath env) (Blocks.writeAt 0 file
            (UInt32.ofNat chunkSize * call.index).toNat call.bytes))) := by
  obtain ⟨torrent, files⟩ := state
  by_cases valid : torrent.validateChunk env call.bytes call.index = true
  · cases found : files (torrent.getPackagePath env) with
    | none =>
        left
        simp only [put, putChunk, valid, ↓reduceIte, found]
    | some file =>
        right
        exact ⟨file, valid, rfl, by simp only [put, putChunk, valid, ↓reduceIte, found]⟩
  · left
    simp only [put, putChunk, valid, Bool.false_eq_true, ↓reduceIte]

/-- No call withdraws a mark. -/
theorem marked_put {env : Env} {state : Torrent × FileStore} {i : Nat}
    (before : state.1.marked i = true) (call : Put) :
    (put env state call).1.marked i = true := by
  rcases put_cases env state call with same | ⟨file, _, _, after⟩
  · rw [same, before]
  · rw [after, marked_markExisting, before, Bool.true_or]

/-- No put withdraws a mark. -/
theorem marked_puts {env : Env} {state : Torrent × FileStore} {i : Nat}
    (before : state.1.marked i = true) (calls : List Put) :
    (puts env state calls).1.marked i = true := by
  induction calls generalizing state with
  | nil => exact before
  | cons call rest ih => exact ih (marked_put before call)

/-- The place of a chunk inside a package of at most `2 ^ 32` bytes fits 32 bits. -/
theorem toNat_offset {content : Bytes} (bounded : content.length ≤ 2 ^ 32) {index : UInt32}
    (inside : index.toNat < pieceCount content) :
    (UInt32.ofNat chunkSize * index).toNat = chunkSize * index.toNat := by
  rw [lt_pieceCount_iff] at inside
  rw [toNat_chunkSize_mul, Nat.mod_eq_of_lt]
  unfold chunkSize at inside
  omega

/-- A call keeps the agreement. -/
theorem Agrees.put {env : Env} {content path : Bytes} {state : Torrent × FileStore}
    (agrees : Agrees env content path state) (bounded : content.length ≤ 2 ^ 32) {call : Put}
    (distinct : Distinguishes env content call.bytes) :
    Agrees env content path (put env state call) := by
  obtain ⟨file, stored, whole, pieces⟩ := agrees.file
  rcases put_cases env state call with same | ⟨found, valid, opened, after⟩
  · rwa [same]
  · rw [agrees.located, stored, Option.some.injEq] at opened
    subst opened
    obtain ⟨chunk, position, hash⟩ := validateChunk_iff.mp valid
    have inside : call.index.toNat < pieceCount content := by
      rw [← length_chunks_of_hashes agrees.hashes]
      exact (List.getElem?_eq_some_iff.mp position).choose
    -- the chunk has the hash of its piece, so the string is the piece
    have expected : chunk.hash = env.hash (piece call.index.toNat content) := by
      have entry := congrArg (·[call.index.toNat]?) agrees.hashes
      simpa only [List.getElem?_map, position, Option.map_some, List.getElem?_range inside,
        Option.some.injEq] using entry
    have sent : call.bytes = piece call.index.toNat content :=
      distinct _ inside (hash.symm.trans expected)
    have start : chunkSize * call.index.toNat < content.length := lt_pieceCount_iff.mp inside
    have length : call.bytes.length =
        (Blocks.block chunkSize call.index.toNat file).length := by
      rw [sent, piece, Blocks.length_block, Blocks.length_block, whole]
    have narrow : call.bytes.length ≤ chunkSize := by
      rw [length, Blocks.length_block]
      exact Nat.min_le_left ..
    have fits : chunkSize * call.index.toNat + call.bytes.length ≤ file.length := by
      rw [length, Blocks.length_block]
      omega
    rw [after, toNat_offset bounded inside, agrees.located]
    refine ⟨agrees.located, by rw [hashes_markExisting, agrees.hashes], _,
      Files.write_self .., by rw [Blocks.length_writeAt 0 fits, whole], fun i mark => ?_⟩
    unfold piece
    by_cases same : i = call.index.toNat
    · subst same
      rw [Blocks.block_writeAt_self 0 length (by omega), sent, piece]
    · rw [Blocks.block_writeAt_of_ne 0 fits narrow same]
      simp only [marked_markExisting, same, false_and, decide_false, Bool.or_false] at mark
      exact pieces i mark

/-- Every sequence of calls keeps the agreement. -/
theorem Agrees.puts {env : Env} {content path : Bytes} {state : Torrent × FileStore}
    (agrees : Agrees env content path state) (bounded : content.length ≤ 2 ^ 32)
    {calls : List Put} (distinct : ∀ call ∈ calls, Distinguishes env content call.bytes) :
    Agrees env content path (puts env state calls) := by
  induction calls generalizing state with
  | nil => exact agrees
  | cons call rest ih =>
      exact ih (agrees.put bounded (distinct call List.mem_cons_self))
        fun other member => distinct other (List.mem_cons_of_mem _ member)

/-- The file a download starts from has the length of the package. -/
theorem createTorrentDataFile_eq (env : Env) (files : FileStore) {torrent : Torrent}
    {content : Bytes} (nonempty : 1 ≤ content.length) (bounded : content.length ≤ 2 ^ 32)
    (size : torrent.size = .ofNat content.length) :
    torrent.createTorrentDataFile env files =
      files.write (torrent.getPackagePath env) (List.replicate content.length 0) := by
  have last : (torrent.size - 1).toNat = content.length - 1 := by
    rw [size, UInt64.toNat_sub_of_le, UInt64.toNat_ofNat', Nat.mod_eq_of_lt (by omega)]
    · rfl
    · rw [UInt64.le_iff_toNat_le, UInt64.toNat_ofNat', Nat.mod_eq_of_lt (by omega)]
      exact nonempty
  have zeros : Blocks.writeAt (0 : UInt8) [] (content.length - 1) [0] =
      List.replicate content.length 0 := by
    unfold Blocks.writeAt
    simp only [List.isEmpty_cons, Bool.false_eq_true, ↓reduceIte, List.take_nil, List.nil_append,
      List.length_nil, Nat.sub_zero, List.drop_nil, List.append_nil]
    rw [← List.replicate_succ', Nat.sub_add_cancel nonempty]
  simp only [createTorrentDataFile, last, zeros]
  rw [if_pos (by omega)]

/-- A download starts in agreement with every package its torrent describes. -/
theorem Describes.agrees {env : Env} {content : Bytes} {torrent : Torrent}
    (describes : Describes env content torrent) (files : FileStore)
    (nonempty : 1 ≤ content.length) (bounded : content.length ≤ 2 ^ 32) :
    Agrees env content (torrent.getPackagePath env)
      (torrent, torrent.createTorrentDataFile env files) where
  located := rfl
  hashes := by
    rw [describes.chunks, List.map_map]
    rfl
  file := by
    rw [createTorrentDataFile_eq env files nonempty bounded describes.size]
    refine ⟨_, Files.write_self .., List.length_replicate .., fun i mark => ?_⟩
    simp only [marked, describes.chunks, List.getElem?_map, Option.map_map] at mark
    cases position : (List.range (pieceCount content))[i]? with
    | none => simp only [position, Option.map_none, Option.getD_none, Bool.false_eq_true] at mark
    | some chunk => simp only [position, Option.map_some, Function.comp_apply, missingChunk,
        Option.getD_some, Bool.false_eq_true] at mark

/-- In agreement, a complete torrent has the package as its file. -/
theorem Agrees.eq_of_isComplete {env : Env} {content path file : Bytes}
    {state : Torrent × FileStore} (agrees : Agrees env content path state)
    (stored : state.2 path = some file) (complete : state.1.isComplete = true) :
    file = content := by
  obtain ⟨other, found, whole, pieces⟩ := agrees.file
  rw [stored, Option.some.injEq] at found
  subst found
  apply Blocks.eq_of_blocks (show 0 < chunkSize by decide) whole
  intro i start
  have inside : i < state.1.chunks.length := by
    rw [length_chunks_of_hashes agrees.hashes, lt_pieceCount_iff, ← whole]
    exact start
  simp only [isComplete, Bool.and_eq_true, List.all_eq_true] at complete
  apply pieces i
  rw [marked, List.getElem?_eq_getElem inside, Option.map_some, Option.getD_some]
  exact complete.2 _ (List.getElem_mem inside)

/-- **Downloads are safe.** Whatever strings are put, the file holds the bytes of
the package on every chunk marked as existing, a mark once set stays, and a
complete torrent has the package as its file. -/
theorem puts_safe (env : Env) (files : FileStore) (torrent : Torrent) (content : Bytes)
    (nonempty : 1 ≤ content.length) (bounded : content.length ≤ 2 ^ 32)
    (describes : Describes env content torrent) (calls : List Put)
    (distinct : ∀ call ∈ calls, Distinguishes env content call.bytes) :
    let start := (torrent, torrent.createTorrentDataFile env files)
    ∃ file, (puts env start calls).2 (torrent.getPackagePath env) = some file ∧
      (∀ i, (puts env start calls).1.marked i = true → piece i file = piece i content) ∧
      (∀ early, early <+: calls → ∀ i, (puts env start early).1.marked i = true →
        (puts env start calls).1.marked i = true) ∧
      ((puts env start calls).1.isComplete = true → file = content) := by
  intro start
  have agrees := (describes.agrees files nonempty bounded).puts bounded distinct
  obtain ⟨file, stored, _, pieces⟩ := agrees.file
  refine ⟨file, stored, pieces, fun early prior i mark => ?_, agrees.eq_of_isComplete stored⟩
  obtain ⟨late, rfl⟩ := prior
  rw [puts, List.foldl_append]
  exact marked_puts mark late

/-- The package `a`, put after an empty string at an index out of range. -/
theorem puts_safe_letter :
    let env := Env.byLength .null
    let torrent := letterTorrent 1 1 false
    let final := puts env (torrent, torrent.createTorrentDataFile env .empty)
      [⟨[], 7⟩, ⟨[97], 0⟩]
    final.2 (torrent.getPackagePath env) = some [97] := by
  intro env torrent final
  have distinct : ∀ call ∈ [(⟨[], 7⟩ : Put), ⟨[97], 0⟩],
      Distinguishes env [97] call.bytes := by
    intro call member i inside same
    have zero : i = 0 := Nat.lt_one_iff.mp inside
    subst zero
    rcases List.mem_pair.mp member with rfl | rfl
    · exact absurd same (by decide)
    · rfl
  obtain ⟨file, stored, _, _, complete⟩ := puts_safe env .empty torrent [97]
    (by decide) (by decide) ⟨rfl, rfl, rfl⟩ _ distinct
  rw [← complete (by decide)]
  exact stored

end Torrent

end Bp2p
