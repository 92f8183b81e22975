import Bp2p.GenerateChunks

/-! # The reads of `generateChunks`

The loop of `generateChunks` read by read, with the count each read returns and the
range that is hashed. The loop ends when a read comes up short; a file whose length is
a multiple of `chunkSize` has no short read that returns anything, and the read behind
its end gives a range that ends before it begins (`Bp2p.Torrent.inside_iff`). This is
the loop of the object (`Bp2p.Torrent.streamLoop_snd`), so these are the files it fails
on; on the others it makes one chunk for each piece
(`Bp2p.Torrent.generateChunks_hashesAll_iff`).
-/

namespace Bp2p

/-- An `ifstream`: the bytes still to be read, and whether a read came up short. -/
structure InputStream where
  rest : Bytes
  eof : Bool := false

/-- `read(buffer, count)`: the `gcount()` bytes it leaves in the buffer. -/
def InputStream.read (stream : InputStream) (count : Nat) : Bytes × InputStream :=
  if stream.eof then ([], stream)
  else (stream.rest.take count,
    { rest := stream.rest.drop count, eof := decide (stream.rest.length < count) })

namespace Torrent

/-- A range of the buffer that is hashed, with the number of bytes just read. -/
structure HashedRange where
  gcount : Nat
  stop : Int

/-- The range lies inside the bytes just read. -/
def HashedRange.Inside (range : HashedRange) : Prop := 0 ≤ range.stop ∧ range.stop ≤ range.gcount

/-- The loop of `generateChunks` on its stream, with the ranges it hashes. The buffer
keeps its storage when it is cleared. -/
def streamLoop (env : Env) (i : Nat) (stream : InputStream) (torrent : Torrent) :
    List HashedRange × Except Torrent Torrent :=
  if stream.eof then ([], .ok torrent)
  else
    let fileChunk := (stream.read chunkSize).1
    let hashed : HashedRange := { gcount := fileChunk.length, stop := (fileChunk.length : Int) - 1 }
    -- `assign` throws when the range ends before it begins
    if hashed.stop < 0 then ([hashed], .error torrent)
    else
      let later := streamLoop env (i + 1) (stream.read chunkSize).2
        (torrent.addChunk env i fileChunk)
      (hashed :: later.1, later.2)
termination_by if stream.eof then 0 else stream.rest.length + 1
decreasing_by
  next more _ =>
    simp only [InputStream.read, more, Bool.false_eq_true, ↓reduceIte, decide_eq_true_eq,
      List.length_drop]
    unfold chunkSize
    split
    · omega
    · omega

/-- A read that returns nothing: the loop throws. -/
theorem streamLoop_of_nothing (env : Env) (i : Nat) {rest : Bytes} (torrent : Torrent)
    (nothing : rest.length = 0) :
    streamLoop env i { rest } torrent = ([{ gcount := 0, stop := -1 }], .error torrent) := by
  have empty : rest = [] := List.eq_nil_of_length_eq_zero nothing
  subst empty
  rw [streamLoop, if_neg Bool.false_ne_true]
  rfl

/-- A short read: the loop ends behind it. -/
theorem streamLoop_of_short (env : Env) (i : Nat) {rest : Bytes} (torrent : Torrent)
    (something : rest.length ≠ 0) (short : rest.length < chunkSize) :
    streamLoop env i { rest } torrent =
      ([{ gcount := rest.length, stop := (rest.length : Int) - 1 }],
        .ok (torrent.addChunk env i rest)) := by
  have whole : rest.take chunkSize = rest := List.take_of_length_le (Nat.le_of_lt short)
  rw [streamLoop, if_neg Bool.false_ne_true]
  simp only [InputStream.read, Bool.false_eq_true, ↓reduceIte, whole]
  rw [if_neg (by omega), streamLoop, if_pos (decide_eq_true short)]

/-- A full read: the loop goes on with the bytes behind it. -/
theorem streamLoop_of_full (env : Env) (i : Nat) {rest : Bytes} (torrent : Torrent)
    (full : chunkSize ≤ rest.length) :
    streamLoop env i { rest } torrent =
      ({ gcount := chunkSize, stop := (chunkSize : Int) - 1 } ::
          (streamLoop env (i + 1) { rest := rest.drop chunkSize }
            (torrent.addChunk env i (rest.take chunkSize))).1,
        (streamLoop env (i + 1) { rest := rest.drop chunkSize }
          (torrent.addChunk env i (rest.take chunkSize))).2) := by
  have length : (rest.take chunkSize).length = chunkSize := List.length_take_of_le full
  have more : decide (rest.length < chunkSize) = false := decide_eq_false (Nat.not_lt.mpr full)
  rw [streamLoop, if_neg Bool.false_ne_true]
  simp only [InputStream.read, Bool.false_eq_true, ↓reduceIte, length, more]
  rw [if_neg (by decide)]

/-- On its stream, the loop does what it does on the bytes still to be read. -/
theorem streamLoop_snd (env : Env) (i : Nat) (rest : Bytes) (torrent : Torrent) :
    (streamLoop env i { rest } torrent).2 = generateLoop env i rest torrent := by
  induction i, rest, torrent using generateLoop.induct env with
  | case1 i rest torrent nothing =>
      rw [streamLoop_of_nothing env i torrent nothing, generateLoop, if_pos nothing]
  | case2 i rest torrent something short =>
      rw [streamLoop_of_short env i torrent something short, generateLoop, if_neg something,
        if_pos short]
  | case3 i rest torrent something long ih =>
      rw [streamLoop_of_full env i torrent (Nat.not_lt.mp long), generateLoop, if_neg something,
        if_neg long]
      exact ih

/-- All ranges lie inside the bytes read exactly if the last read returns something. -/
theorem inside_iff (env : Env) (i : Nat) (rest : Bytes) (torrent : Torrent) :
    (∀ range ∈ (streamLoop env i { rest } torrent).1, range.Inside) ↔
      rest.length % chunkSize ≠ 0 := by
  induction i, rest, torrent using generateLoop.induct env with
  | case1 i rest torrent nothing =>
      rw [streamLoop_of_nothing env i torrent nothing, nothing]
      simp only [List.mem_singleton, forall_eq, HashedRange.Inside]
      exact iff_of_false (by omega) fun absurd => absurd rfl
  | case2 i rest torrent something short =>
      rw [streamLoop_of_short env i torrent something short, Nat.mod_eq_of_lt short]
      simp only [List.mem_singleton, forall_eq, HashedRange.Inside]
      omega
  | case3 i rest torrent something long ih =>
      rw [Nat.not_lt] at long
      have same : (rest.drop chunkSize).length % chunkSize = rest.length % chunkSize := by
        rw [List.length_drop, ← Nat.mod_eq_sub_mod long]
      rw [streamLoop_of_full env i torrent long, List.forall_mem_cons, ih, same]
      exact and_iff_right ⟨by decide, by decide⟩

/-- The chunks `generateChunks` is to make of a package: the ranges it hashes lie inside
the bytes just read, nothing is thrown, and there is one chunk for each piece, numbered
in order and existing. -/
def HashesAll (env : Env) (files : FileStore) (torrent : Torrent) (content : Bytes) : Prop :=
  (∀ range ∈ (streamLoop env 0 { rest := content } { torrent with chunks := [] }).1,
      range.Inside) ∧
    ∃ seeder ret, torrent.generateChunks env files = .ok (seeder, ret) ∧
      seeder.chunks.length = pieceCount content ∧
      seeder.chunks.map (·.index.toNat) = List.range seeder.numPieces.toNat ∧
      ∀ chunk ∈ seeder.chunks, chunk.existing = true

/-- Chunks are generated if the last piece is not a full one. -/
theorem generateChunks_completes (env : Env) {files : FileStore} {torrent : Torrent}
    {content : Bytes} (packaged : torrent.packagePath ≠ [])
    (stored : files torrent.packagePath = some content)
    (inexact : content.length % chunkSize ≠ 0) :
    ∃ seeder ret, torrent.generateChunks env files = .ok (seeder, ret) := by
  obtain ⟨generated, loop⟩ :=
    generateLoop_completes env 0 { torrent with chunks := [] } inexact
  simp only [generateChunks, List.isEmpty_iff, packaged, ↓reduceIte, stored, Option.getD_some,
    loop]
  exact ⟨_, _, rfl⟩

/-- The numbers of the chunks are those of the pieces while they fit 32 bits. -/
theorem indices_generatedChunks (env : Env) {content : Bytes}
    (few : pieceCount content < 2 ^ 32) :
    (generatedChunks env 0 content).map (·.index.toNat) = List.range (pieceCount content) := by
  rw [generatedChunks, List.map_map]
  refine (List.map_congr_left fun k member => ?_).trans (List.map_id _)
  have below := List.mem_range.mp member
  simp only [Function.comp_apply, Nat.zero_add, id_eq, UInt32.toNat_ofNat',
    Nat.mod_eq_of_lt (Nat.lt_trans below few)]

/-- **The chunks of a package.** `generateChunks` makes them all exactly if the length is
no multiple of the chunk size and the number of pieces fits 32 bits. -/
theorem generateChunks_hashesAll_iff (env : Env) (files : FileStore) (torrent : Torrent)
    (content : Bytes) (packaged : torrent.packagePath ≠ [])
    (stored : files torrent.packagePath = some content) :
    HashesAll env files torrent content ↔
      content.length % chunkSize ≠ 0 ∧ pieceCount content < 2 ^ 32 := by
  have bytes : torrent.packageContent files = content := by
    rw [packageContent, stored, Option.getD_some]
  unfold HashesAll
  rw [inside_iff]
  refine and_congr_right fun inexact => ?_
  constructor
  · rintro ⟨seeder, ret, completes, counted, numbered, _⟩
    obtain ⟨uid, rfl⟩ := generateChunks_ok packaged completes
    have lengths := congrArg List.length numbered
    rw [List.length_map, counted, List.length_range, bytes, UInt32.toNat_ofNat'] at lengths
    rw [lengths]
    exact Nat.mod_lt _ (Nat.two_pow_pos 32)
  · intro few
    obtain ⟨seeder, ret, completes⟩ := generateChunks_completes env packaged stored inexact
    refine ⟨seeder, ret, completes, ?_⟩
    obtain ⟨uid, rfl⟩ := generateChunks_ok packaged completes
    rw [bytes]
    refine ⟨length_generatedChunks .., ?_, fun chunk member => ?_⟩
    · rw [indices_generatedChunks env few, UInt32.toNat_ofNat', Nat.mod_eq_of_lt few]
    · obtain ⟨_, _, rfl⟩ := List.mem_map.mp member
      rfl

/-- The package `a`. -/
theorem generateChunks_hashesAll_iff_letter :
    HashesAll (.byLength .null) letterFiles unhashedTorrent [97] :=
  (generateChunks_hashesAll_iff (.byLength .null) letterFiles unhashedTorrent [97]
    (List.append_ne_nil_of_right_ne_nil _ (List.cons_ne_nil _ _)) letterFiles_packagePath).mpr
    ⟨by decide, by decide⟩

/-- A package of one full chunk refutes it: the second read returns nothing. -/
theorem generateChunks_hashesAll_fails :
    ¬ ∀ (env : Env) (files : FileStore) (torrent : Torrent) (content : Bytes),
      torrent.packagePath ≠ [] → files torrent.packagePath = some content →
      1 ≤ content.length → HashesAll env files torrent content := by
  intro claim
  have full : (List.replicate chunkSize (0 : UInt8)).length = chunkSize := List.length_replicate
  have hashes := claim (.byLength .null)
    (Files.write .empty (torrentDataDir ++ [97]) (List.replicate chunkSize 0))
    unhashedTorrent (List.replicate chunkSize 0)
    (List.append_ne_nil_of_right_ne_nil _ (List.cons_ne_nil _ _)) (Files.write_self ..)
    (by rw [full]; decide)
  have inexact := (inside_iff _ _ _ _).mp hashes.1
  rw [full, Nat.mod_self] at inexact
  exact inexact rfl

end Torrent

end Bp2p
