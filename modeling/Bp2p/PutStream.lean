import Bp2p.PutChunk

/-! # Chunks marked whose bytes were not written

`putChunk` looks at the stream once, when it is opened. A seek that fails makes the
write fail as well, and a write that fails leaves a part of the chunk unwritten; the
chunk is marked as existing all the same. A put that returns true has the chunk in the
file exactly if the bytes it did not write at their place were there already
(`Bp2p.Torrent.marksWritten_iff`).
-/

namespace Bp2p

/-- What becomes of the stream of a put: whether it is opened, whether the seek succeeds,
and how many bytes of the chunk reach the file. -/
structure Fstream where
  isOpen : Bool
  seekp : Bool
  write : Nat

/-- The bytes that reach the file; none once the seek failed. -/
def Fstream.written (ofs : Fstream) (chunk : Bytes) : Bytes :=
  if ofs.seekp then chunk.take ofs.write else []

namespace Torrent

/-- `putChunk` over a stream that may fail. -/
def putChunkTo (ofs : Fstream) (env : Env) (files : FileStore) (torrent : Torrent)
    (chunk : Bytes) (index : UInt32) : Torrent × FileStore × Bool :=
  if torrent.validateChunk env chunk index then
    let fullpath := torrent.getPackagePath env
    match files fullpath with
    | some content =>
        if ofs.isOpen then
          let offset := (UInt32.ofNat chunkSize * index).toNat
          -- the state of the stream is not looked at
          (torrent.markExisting index,
            files.write fullpath (Blocks.writeAt 0 content offset (ofs.written chunk)), true)
        else (torrent, files, false)
    | none => (torrent, files, false)
  else (torrent, files, false)

/-- Over a stream that never fails, the put is `putChunk`. -/
theorem putChunkTo_eq_putChunk {ofs : Fstream} {chunk : Bytes} (opens : ofs.isOpen = true)
    (seeks : ofs.seekp = true) (writes : chunk.length ≤ ofs.write) (env : Env)
    (files : FileStore) (torrent : Torrent) (index : UInt32) :
    torrent.putChunkTo ofs env files chunk index = torrent.putChunk env files chunk index := by
  have whole : ofs.written chunk = chunk := by
    rw [Fstream.written, if_pos seeks, List.take_of_length_le writes]
  unfold putChunkTo putChunk
  split
  · cases stored : files (torrent.getPackagePath env) with
    | none => simp only [stored]
    | some content => simp only [stored, whole]
  · rfl

/-- A put over an open stream marks the chunk and writes what the stream lets through. -/
theorem putChunkTo_of_opened {ofs : Fstream} {env : Env} {files : FileStore} {torrent : Torrent}
    {chunk content : Bytes} {index : UInt32}
    (valid : torrent.validateChunk env chunk index = true) (opens : ofs.isOpen = true)
    (stored : files (torrent.getPackagePath env) = some content) :
    torrent.putChunkTo ofs env files chunk index =
      (torrent.markExisting index, files.write (torrent.getPackagePath env)
        (Blocks.writeAt 0 content (chunkSize * (index.toNat % 2 ^ 17)) (ofs.written chunk)),
        true) := by
  simp only [putChunkTo, valid, ↓reduceIte, stored, opens, toNat_chunkSize_mul]

/-- A put goes as far as the write, for a valid chunk and a file that is opened, or does
nothing. -/
theorem putChunkTo_cases (ofs : Fstream) (env : Env) (files : FileStore) (torrent : Torrent)
    (chunk : Bytes) (index : UInt32) :
    (torrent.validateChunk env chunk index = true ∧ ofs.isOpen = true ∧
        ∃ content, files (torrent.getPackagePath env) = some content) ∨
      torrent.putChunkTo ofs env files chunk index = (torrent, files, false) := by
  unfold putChunkTo
  split
  · next valid =>
      simp only
      split
      · next content stored =>
          split
          · next opens => exact .inl ⟨valid, opens, content, stored⟩
          · exact .inr rfl
      · exact .inr rfl
  · exact .inr rfl

/-- What a put is to do: return true only for a valid chunk that the file holds afterwards,
with no mark but that of the chunk changed, and change no mark otherwise. -/
structure MarksWritten (ofs : Fstream) (env : Env) (files : FileStore) (torrent : Torrent)
    (chunk : Bytes) (index : UInt32) : Prop where
  valid : (torrent.putChunkTo ofs env files chunk index).2.2 = true →
    torrent.validateChunk env chunk index = true
  holds : (torrent.putChunkTo ofs env files chunk index).2.2 = true →
    ∃ file, (torrent.putChunkTo ofs env files chunk index).2.1 (torrent.getPackagePath env) =
      some file ∧ chunk <+: file.drop (chunkSize * index.toNat)
  object : (torrent.putChunkTo ofs env files chunk index).2.2 = true →
    ∃ existing, (torrent.putChunkTo ofs env files chunk index).1 = { torrent with
      chunks := torrent.chunks.modify index.toNat fun chunk => { chunk with existing } }
  refused : (torrent.putChunkTo ofs env files chunk index).2.2 = false →
    (torrent.putChunkTo ofs env files chunk index).1.chunks.map (·.existing) =
      torrent.chunks.map (·.existing)

/-- How far in front of its place a chunk is written, since the offset has 32 bits. -/
def displacement (index : UInt32) : Nat := 2 ^ 32 * (index.toNat / 2 ^ 17)

/-- Each byte of a chunk is written at its place, or is there already and not overwritten. -/
def InPlace (content chunk : Bytes) (index : UInt32) (written : Nat) : Prop :=
  ∀ i (inside : i < chunk.length),
    (if displacement index + i < written then chunk[displacement index + i]?
      else content[chunkSize * index.toNat + i]?) = some chunk[i]

/-- Below index `2 ^ 17`, the bytes that are not written must be there already. -/
theorem inPlace_iff_of_low {index : UInt32} (low : index.toNat < 2 ^ 17) (content chunk : Bytes)
    (written : Nat) :
    InPlace content chunk index written ↔
      chunk.drop written <+: content.drop (chunkSize * index.toNat + written) := by
  have none : displacement index = 0 := by
    rw [displacement, Nat.div_eq_of_lt low, Nat.mul_zero]
  unfold InPlace
  simp only [none, Nat.zero_add]
  rw [List.prefix_iff_getElem?]
  constructor
  · intro placed i inside
    rw [List.length_drop] at inside
    have there := placed (written + i) (by omega)
    rw [if_neg (by omega)] at there
    rw [List.getElem?_drop, List.getElem_drop, Nat.add_assoc, there]
  · intro there i inside
    split
    · exact List.getElem?_eq_getElem inside
    · next beyond =>
        have position : written + (i - written) = i := by omega
        have byte := there (i - written) (by rw [List.length_drop]; omega)
        simp only [List.getElem?_drop, List.getElem_drop, Nat.add_assoc, position] at byte
        exact byte

/-- Behind a write a string stands at its place as far as it was written or stood there before. -/
theorem prefix_drop_writeAt_iff (content chunk : Bytes) (index : UInt32) (ofs : Fstream) :
    chunk <+: (Blocks.writeAt 0 content (chunkSize * (index.toNat % 2 ^ 17))
        (ofs.written chunk)).drop (chunkSize * index.toNat) ↔
      InPlace content chunk index (ofs.written chunk).length := by
  have place : chunkSize * index.toNat =
      chunkSize * (index.toNat % 2 ^ 17) + displacement index := by
    unfold chunkSize displacement
    omega
  have front : ofs.written chunk <+: chunk := by
    unfold Fstream.written
    split
    · exact List.take_prefix ..
    · exact List.nil_prefix
  rw [List.prefix_iff_getElem?]
  refine forall₂_congr fun i inside => ?_
  rw [List.getElem?_drop, Blocks.getElem?_writeAt_of_le 0 content _ (by omega)]
  have reached : chunkSize * index.toNat + i <
      chunkSize * (index.toNat % 2 ^ 17) + (ofs.written chunk).length ↔
        displacement index + i < (ofs.written chunk).length := by omega
  by_cases within : displacement index + i < (ofs.written chunk).length
  · have position : chunkSize * index.toNat + i - chunkSize * (index.toNat % 2 ^ 17) =
        displacement index + i := by omega
    rw [if_pos (reached.mpr within), if_pos within, position,
      List.getElem?_eq_getElem within, ← List.prefix_iff_getElem?.mp front _ within]
  · rw [if_neg fun below => within (reached.mp below), if_neg within]

/-- **Marks without bytes.** A put returns true only for a valid chunk that the file holds at
its offset afterwards, and changes no other mark, exactly if a valid chunk for an opened
file has each of its bytes written at its place or there already. -/
theorem marksWritten_iff (ofs : Fstream) (env : Env) (files : FileStore) (torrent : Torrent)
    (chunk : Bytes) (index : UInt32) :
    MarksWritten ofs env files torrent chunk index ↔
      (torrent.validateChunk env chunk index = true → ofs.isOpen = true →
        ∀ content, files (torrent.getPackagePath env) = some content →
          InPlace content chunk index (ofs.written chunk).length) := by
  constructor
  · intro marks valid opens content stored
    have done := putChunkTo_of_opened valid opens stored
    obtain ⟨file, found, held⟩ := marks.holds (by rw [done])
    rw [done] at found
    have same := (Files.write_self ..).symm.trans found
    rw [← Option.some.inj same] at held
    exact (prefix_drop_writeAt_iff ..).mp held
  · intro placed
    rcases putChunkTo_cases ofs env files torrent chunk index with
      ⟨valid, opens, content, stored⟩ | nothing
    · have done := putChunkTo_of_opened valid opens stored
      refine ⟨fun _ => valid, fun _ => ?_, fun _ => ?_, fun refused => ?_⟩
      · rw [done]
        exact ⟨_, Files.write_self ..,
          (prefix_drop_writeAt_iff ..).mpr (placed valid opens content stored)⟩
      · rw [done]
        exact ⟨true, rfl⟩
      · rw [done] at refused
        cases refused
    · have refused : (torrent.putChunkTo ofs env files chunk index).2.2 ≠ true := by
        rw [nothing]
        exact Bool.false_ne_true
      exact ⟨fun accepted => absurd accepted refused, fun accepted => absurd accepted refused,
        fun accepted => absurd accepted refused, fun _ => by rw [nothing]⟩

/-- A stream that opens the file and lets nothing through, on a disk that is full. -/
def fullDisk : Fstream := { isOpen := true, seekp := true, write := 0 }

/-- The package `a`, put over a file of one NUL while the disk is full: the chunk is marked
and the file still holds the NUL. -/
theorem marksWritten_fails :
    ¬ ∀ (ofs : Fstream) (env : Env) (files : FileStore) (torrent : Torrent) (chunk : Bytes)
      (index : UInt32), MarksWritten ofs env files torrent chunk index := by
  intro always
  let torrent := letterTorrent 1 1 false
  let files := torrent.createTorrentDataFile (.byLength .null) .empty
  obtain ⟨file, found, held⟩ :=
    (always fullDisk (.byLength .null) files torrent [97] 0).holds (by decide)
  have kept : (torrent.putChunkTo fullDisk (.byLength .null) files [97] 0).2.1
      (torrent.getPackagePath (.byLength .null)) = some [0] := by decide
  rw [kept, Option.some.injEq] at found
  rw [← found] at held
  exact absurd held (by decide)

end Torrent

end Bp2p
