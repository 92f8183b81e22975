import Bp2p.GenerateChunks

/-! # The byte ranges of the chunks

`getChunk` and `putChunk` multiply the index by `chunkSize` in 32 bits, so from index
`2 ^ 17` on they read and write the range of another index. A put also changes the last
chunk of the file when it lies beyond it, since the gap is filled. The two conditions
are exact (`Bp2p.Torrent.chunkRanges_iff`).
-/

namespace Bp2p

namespace Torrent

/-- The bytes of a file from `32768 * i` up to `32768 * (i + 1)` or its end. -/
def range (i : Nat) (content : Bytes) : Bytes :=
  content.extract (chunkSize * i) (min (chunkSize * (i + 1)) content.length)

/-- The range of an index is its piece. -/
theorem range_eq_piece (i : Nat) (content : Bytes) : range i content = piece i content := by
  have rest : (content.drop (chunkSize * i)).length = content.length - chunkSize * i :=
    List.length_drop
  rw [range, piece, Blocks.block, List.extract_eq_take_drop, List.take_eq_take_iff, rest,
    Nat.mul_add, Nat.mul_one]
  omega

theorem piece_eq_nil {i : Nat} {content : Bytes} (beyond : content.length ≤ chunkSize * i) :
    piece i content = [] := by
  rw [piece, Blocks.block, List.drop_eq_nil_of_le beyond, List.take_nil]

/-- The chunk read at an index is the one of its range. -/
def ReadsRange (files : FileStore) (torrent : Torrent) (content : Bytes) (index : UInt32) : Prop :=
  torrent.getChunk files index = range index.toNat content ∧
    (content.length ≤ chunkSize * index.toNat → torrent.getChunk files index = [])

/-- The offset does not wrap, or it wraps to a range of the same bytes. -/
def SameRange (content : Bytes) (index : UInt32) : Prop :=
  index.toNat < 2 ^ 17 ∨ piece (index.toNat % 2 ^ 17) content = piece index.toNat content

/-- A string written for one index leaves the range of another one: it goes to another
file, or it is what is there already, or the ranges differ and the other one is behind,
or is full, or nothing is written. -/
def LeavesRange (env : Env) (files : FileStore) (torrent : Torrent) (content chunk : Bytes)
    (i j : UInt32) : Prop :=
  files.fileOf (torrent.getPackagePath env) ≠ files.fileOf torrent.packagePath ∨
    if j.toNat % 2 ^ 17 = i.toNat % 2 ^ 17 then chunk <+: piece (i.toNat % 2 ^ 17) content
    else chunk = [] ∨ i.toNat % 2 ^ 17 < j.toNat % 2 ^ 17 ∨
      chunkSize * (j.toNat % 2 ^ 17 + 1) ≤ content.length

variable {env : Env} {files : FileStore} {torrent : Torrent} {content : Bytes}

/-- A chunk is read from its range exactly if the offset's range has the same bytes. -/
theorem readsRange_iff (stored : files torrent.packagePath = some content) (index : UInt32) :
    torrent.ReadsRange files content index ↔ SameRange content index := by
  unfold ReadsRange SameRange
  rw [getChunk_eq_piece stored, range_eq_piece]
  constructor
  · exact fun reads => .inr reads.1
  · intro same
    have equal : piece (index.toNat % 2 ^ 17) content = piece index.toNat content := by
      rcases same with low | equal
      · rw [Nat.mod_eq_of_lt low]
      · exact equal
    exact ⟨equal, fun beyond => equal.trans (piece_eq_nil beyond)⟩

/-- An accepted put leaves the chunk of another index exactly under the condition. -/
theorem getChunk_putChunk_iff (stored : files torrent.packagePath = some content)
    {chunk : Bytes} {i : UInt32} {after : Torrent} {written : FileStore}
    (narrow : chunk.length ≤ chunkSize)
    (accepted : torrent.putChunk env files chunk i = (after, written, true)) (j : UInt32) :
    after.getChunk written j = torrent.getChunk files j ↔
      LeavesRange env files torrent content chunk i j := by
  obtain ⟨_, rfl, file, opened, rfl⟩ := putChunk_accepted accepted
  unfold LeavesRange
  by_cases located : files.fileOf (torrent.getPackagePath env) = files.fileOf torrent.packagePath
  · have same : files (torrent.getPackagePath env) = files torrent.packagePath :=
      congrArg files.content located
    rw [same, stored, Option.some.injEq] at opened
    subst opened
    have found : (files.write (torrent.getPackagePath env) (Blocks.writeAt 0 content
        (chunkSize * (i.toNat % 2 ^ 17)) chunk)) (torrent.markExisting i).packagePath =
          some (Blocks.writeAt 0 content (chunkSize * (i.toNat % 2 ^ 17)) chunk) :=
      files.write_of_eq located.symm _
    rw [getChunk_eq_piece found, getChunk_eq_piece stored]
    simp only [piece, located, ne_eq, not_true_eq_false, false_or]
    split
    · next same =>
        rw [same]
        exact Blocks.block_writeAt_self_iff 0 _ narrow
    · next different => exact Blocks.block_writeAt_iff_of_ne 0 narrow different
  · have kept : (files.write (torrent.getPackagePath env) (Blocks.writeAt 0 file
        (chunkSize * (i.toNat % 2 ^ 17)) chunk)) (torrent.markExisting i).packagePath =
          some content :=
      (files.write_of_ne (Ne.symm located) _).trans stored
    rw [getChunk_eq_piece kept, getChunk_eq_piece stored]
    exact iff_of_true rfl (.inl located)

/-- **The ranges of chunks.** A read returns the range of its index exactly if the
offset does not wrap or wraps to the same bytes, and an accepted put of at most a chunk
leaves the chunk of another index exactly if the wrapped ranges differ and no gap is
filled in it, or nothing new is written to it. -/
theorem chunkRanges_iff (env : Env) (files : FileStore) (torrent : Torrent) (content : Bytes)
    (stored : files torrent.packagePath = some content) :
    (∀ index, torrent.ReadsRange files content index ↔ SameRange content index) ∧
      ∀ chunk i j after written, chunk.length ≤ chunkSize →
        torrent.putChunk env files chunk i = (after, written, true) → j ≠ i →
        (after.getChunk written j = torrent.getChunk files j ↔
          LeavesRange env files torrent content chunk i j) :=
  ⟨readsRange_iff stored, fun _ _ j _ _ narrow accepted _ =>
    getChunk_putChunk_iff stored narrow accepted j⟩

/-- The package `a`, put again at its only index: the chunk of index 1 is still empty. -/
theorem chunkRanges_iff_letter :
    let env := Env.byLength .null
    let torrent := { letterTorrent 1 1 false with packagePath := torrentDataDir ++ [97] }
    torrent.ReadsRange letterFiles [97] 1 ∧
      (torrent.putChunk env letterFiles [97] 0).1.getChunk
        (torrent.putChunk env letterFiles [97] 0).2.1 1 = torrent.getChunk letterFiles 1 := by
  intro env torrent
  have ranges := chunkRanges_iff env letterFiles torrent [97] letterFiles_packagePath
  have accepted : torrent.putChunk env letterFiles [97] 0 =
      ((torrent.putChunk env letterFiles [97] 0).1,
        (torrent.putChunk env letterFiles [97] 0).2.1, true) := by
    rfl
  refine ⟨(ranges.1 1).mpr (.inl (by decide)), ?_⟩
  refine (ranges.2 [97] 0 1 _ _ (by decide) accepted (by decide)).mpr (.inr ?_)
  rw [if_neg (by decide)]
  exact .inr (.inl (by decide))

/-- The package `a` refutes the ranges: index `2 ^ 17` is beyond its end and reads it. -/
theorem chunkRanges_fail :
    ¬ ∀ (env : Env) (files : FileStore) (torrent : Torrent) (content : Bytes),
      files torrent.packagePath = some content →
      (∀ index, torrent.ReadsRange files content index) ∧
        ∀ chunk i j after written, chunk.length ≤ chunkSize →
          torrent.putChunk env files chunk i = (after, written, true) → j ≠ i →
          after.getChunk written j = torrent.getChunk files j := by
  intro claim
  have reads := (claim (.byLength .null) letterFiles unhashedTorrent [97]
    letterFiles_packagePath).1 131072
  have nothing := reads.2 (by decide)
  rw [getChunk_eq_piece letterFiles_packagePath] at nothing
  exact absurd nothing (by decide)

end Torrent

end Bp2p
