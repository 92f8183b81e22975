import Bp2p.ChunkLoop
import Bp2p.Lib.Codec

/-! # Compression

`Ezlib` compresses a file into another and back, over a streaming codec. Both loops read the
source buffer by buffer; inside, the codec is called on what was read until it leaves room in
the output buffer. A length that is a multiple of the buffer makes one more read that finds
nothing, or one more turn that puts out nothing. A text comes back as it was, for every length
of the text and of its code (`Bp2p.Ezlib.decompress_compress`).
-/

namespace Bp2p

/-- The names of the two files and the level; the `z_stream` is what the codec keeps. -/
structure Ezlib where
  source : Bytes
  dest : Bytes
  level : Int32 := 9

namespace Ezlib

/-- The size of the two buffers. -/
def chunkSize : Nat := 32768

variable (codec : Codec UInt8)

/-- The inner loop of `compress`: `none` if room was never left in the output buffer. What
`deflate` returns is not looked at. -/
def deflateLoop (flush : Codec.Flush) :
    Nat → codec.Deflate → Bytes → Bytes → Option (codec.Deflate × Bytes)
  | 0, _, _, _ => none
  | rounds + 1, strm, nextIn, fDest =>
      let turn := codec.deflate strm flush nextIn chunkSize
      let availOut := chunkSize - turn.output.length
      let fDest := fDest ++ turn.output
      if availOut = 0 then deflateLoop flush rounds turn.state turn.rest fDest
      else some (turn.state, fDest)

/-- The outer loop of `compress`, up to the read that comes up short. -/
def compressLoop (rounds : Nat) : Nat → codec.Deflate → InputStream → Bytes → Option Bytes
  | 0, _, _, _ => none
  | reads + 1, strm, fSource, fDest =>
      let (nextIn, fSource) := fSource.read chunkSize
      let flush : Codec.Flush := if fSource.eof then .finish else .noFlush
      match deflateLoop codec flush rounds strm nextIn fDest with
      | none => none
      | some (strm, fDest) =>
          if flush = .finish then some fDest
          else compressLoop rounds reads strm fSource fDest

/-- `compress()`, with file operations that succeed and a bound on the turns of its loops. -/
def compress (rounds : Nat) (ezlib : Ezlib) (files : FileStore) :
    Option (FileStore × Codec.Ret) :=
  match codec.deflateInit ezlib.level with
  | .error ret => some (files, ret)
  | .ok strm =>
      let isOpen := files.doesFileExist ezlib.source
      -- opening the destination empties it
      let files := files.write ezlib.dest []
      if isOpen then
        let fSource : InputStream := { rest := (files ezlib.source).getD [] }
        (compressLoop codec rounds rounds strm fSource []).map fun fDest =>
          (files.write ezlib.dest fDest, .ok)
      else some (files, .errno)

/-- The inner loop of `decompress`, with what `inflate` returned last; an error leaves both
loops. -/
def inflateLoop : Nat → codec.Inflate → Bytes → Bytes →
    Option (Except (Codec.Ret × Bytes) (codec.Inflate × Codec.Ret × Bytes))
  | 0, _, _, _ => none
  | rounds + 1, strm, nextIn, fDest =>
      let turn := codec.inflate strm nextIn chunkSize
      if turn.ret = .dataError ∨ turn.ret = .memError then some (.error (turn.ret, fDest))
      else
        let availOut := chunkSize - turn.output.length
        let fDest := fDest ++ turn.output
        if availOut = 0 then inflateLoop rounds turn.state turn.rest fDest
        else some (.ok (turn.state, turn.ret, fDest))

/-- The outer loop of `decompress`, up to the end of the stream or of the file. -/
def decompressLoop (rounds : Nat) :
    Nat → codec.Inflate → InputStream → Codec.Ret → Bytes → Option (Codec.Ret × Bytes)
  | 0, _, _, _, _ => none
  | reads + 1, strm, fSource, ret, fDest =>
      let (nextIn, fSource) := fSource.read chunkSize
      if nextIn.isEmpty then some (if ret = .streamEnd then .ok else .dataError, fDest)
      else
        match inflateLoop codec rounds strm nextIn fDest with
        | none => none
        | some (.error failed) => some failed
        | some (.ok (strm, ret, fDest)) =>
            if ret = .streamEnd then some (.ok, fDest)
            else decompressLoop rounds reads strm fSource ret fDest

/-- `decompress()`, with file operations that succeed and a bound on the turns of its loops. -/
def decompress (rounds : Nat) (ezlib : Ezlib) (files : FileStore) :
    Option (FileStore × Codec.Ret) :=
  match codec.inflateInit with
  | .error ret => some (files, ret)
  | .ok strm =>
      let isOpen := files.doesFileExist ezlib.source
      let files := files.write ezlib.dest []
      if isOpen then
        let fSource : InputStream := { rest := (files ezlib.source).getD [] }
        (decompressLoop codec rounds rounds strm fSource .ok []).map fun (ret, fDest) =>
          (files.write ezlib.dest fDest, ret)
      else some (files, .errno)

variable {codec}

/-- What was read is taken whole, and the last of it ends the code. -/
theorem deflateLoop_spec {level : Int32} {text : Bytes} (compresses : codec.Compresses level text)
    {bound : Nat} (bounded : ∀ {state : codec.Deflate} {last : Codec.Flush} {left output : Bytes},
      codec.Deflates level text state last left output → output.length ≤ bound)
    (rounds : Nat) {strm : codec.Deflate} {last flush : Codec.Flush}
    {nextIn later fDest : Bytes}
    (reached : codec.Deflates level text strm last (nextIn ++ later) fDest)
    (allowed : Codec.Allowed last flush later) (enough : bound < fDest.length + rounds) :
    ∃ left written, deflateLoop codec flush rounds strm nextIn fDest = some (left, written) ∧
      codec.Deflates level text left flush later written ∧
      (flush = .finish → codec.Decodes written text) := by
  induction rounds generalizing strm last nextIn fDest with
  | zero => exact absurd (bounded reached) (Nat.not_le.mpr enough)
  | succ rounds ih =>
      have roomy : 0 < chunkSize := by decide
      have fair := compresses.fair reached allowed roomy
      have next := reached.turn allowed roomy
      unfold deflateLoop
      simp only
      by_cases full : chunkSize - (codec.deflate strm flush nextIn chunkSize).output.length = 0
      · rw [if_pos full]
        refine ih next allowed.again ?_
        rw [List.length_append]
        omega
      · rw [if_neg full]
        have room : (codec.deflate strm flush nextIn chunkSize).output.length < chunkSize := by
          omega
        rw [fair.greedy room, List.nil_append] at next
        refine ⟨_, _, rfl, next, fun last => ?_⟩
        subst last
        rw [allowed.2 rfl, List.append_nil] at reached
        exact compresses.decodes reached roomy room

/-- The code of a text decodes to it. -/
theorem compressLoop_spec {level : Int32} {text : Bytes} (compresses : codec.Compresses level text)
    {bound : Nat} (bounded : ∀ {state : codec.Deflate} {last : Codec.Flush} {left output : Bytes},
      codec.Deflates level text state last left output → output.length ≤ bound)
    {rounds : Nat} (enough : bound < rounds) (reads : Nat) {strm : codec.Deflate}
    {rest fDest : Bytes} (reached : codec.Deflates level text strm .noFlush rest fDest)
    (remaining : rest.length < reads) :
    ∃ written, compressLoop codec rounds reads strm { rest } fDest = some written ∧
      codec.Decodes written text ∧ written.length ≤ bound := by
  induction reads generalizing strm rest fDest with
  | zero => exact absurd remaining (Nat.not_lt_zero _)
  | succ reads ih =>
      have roomy : 0 < chunkSize := by decide
      unfold compressLoop
      simp only [InputStream.read, Bool.false_eq_true, ↓reduceIte]
      by_cases short : rest.length < chunkSize
      · -- the read that finds the end
        have whole : rest.take chunkSize = rest := List.take_of_length_le (Nat.le_of_lt short)
        rw [← List.append_nil rest] at reached
        have allowed : Codec.Allowed .noFlush .finish ([] : Bytes) := ⟨fun _ => rfl, fun _ => rfl⟩
        obtain ⟨left, written, executed, next, decodes⟩ :=
          deflateLoop_spec compresses bounded rounds reached allowed (by omega)
        simp only [short, decide_true, ↓reduceIte, whole, executed]
        exact ⟨written, rfl, decodes rfl, bounded next⟩
      · rw [← List.take_append_drop chunkSize rest] at reached
        have allowed : Codec.Allowed .noFlush .noFlush (rest.drop chunkSize) :=
          ⟨id, Codec.Flush.noConfusion⟩
        obtain ⟨left, written, executed, next, _⟩ :=
          deflateLoop_spec compresses bounded rounds reached allowed (by omega)
        simp only [short, decide_false, Bool.false_eq_true, ↓reduceIte, executed, reduceCtorEq]
        apply ih next
        rw [List.length_drop]
        omega

/-- What was read is taken whole, and the end of the stream is returned with its last part. -/
theorem inflateLoop_spec {code text : Bytes} (decodes : codec.Decodes code text) (rounds : Nat)
    {strm : codec.Inflate} {nextIn later fDest : Bytes}
    (reached : codec.Inflates code strm (nextIn ++ later) fDest)
    (enough : text.length < fDest.length + rounds) :
    ∃ left ret written,
      inflateLoop codec rounds strm nextIn fDest = some (.ok (left, ret, written)) ∧
      codec.Inflates code left later written ∧ (ret = .streamEnd ↔ later = []) ∧
      (later = [] → written = text) := by
  induction rounds generalizing strm nextIn fDest with
  | zero => exact absurd (decodes.front reached).length_le (Nat.not_le.mpr enough)
  | succ rounds ih =>
      have roomy : 0 < chunkSize := by decide
      obtain ⟨noData, noMem⟩ := decodes.not_error reached roomy
      have next := reached.turn roomy
      unfold inflateLoop
      simp only [noData, noMem, or_self, ↓reduceIte]
      by_cases full : chunkSize - (codec.inflate strm nextIn chunkSize).output.length = 0
      · rw [if_pos full]
        apply ih next
        rw [List.length_append]
        omega
      · rw [if_neg full]
        have room : (codec.inflate strm nextIn chunkSize).output.length < chunkSize := by omega
        obtain ⟨taken, ended, whole⟩ := decodes.of_room reached room
        rw [taken, List.nil_append] at next
        exact ⟨_, _, _, rfl, next, ended, whole⟩

/-- A code is decompressed to its text, whatever was returned before. -/
theorem decompressLoop_spec {code text : Bytes} (decodes : codec.Decodes code text)
    {rounds : Nat} (enough : text.length < rounds) (reads : Nat) {strm : codec.Inflate}
    {rest fDest : Bytes} (reached : codec.Inflates code strm rest fDest) (more : rest ≠ [])
    (remaining : rest.length < reads) (ret : Codec.Ret) :
    decompressLoop codec rounds reads strm { rest } ret fDest = some (.ok, text) := by
  induction reads generalizing strm rest fDest ret with
  | zero => exact absurd remaining (Nat.not_lt_zero _)
  | succ reads ih =>
      have roomy : 0 < chunkSize := by decide
      have something : (rest.take chunkSize).isEmpty = false := by
        rw [List.isEmpty_eq_false_iff, ne_eq, List.take_eq_nil_iff, not_or]
        exact ⟨Nat.ne_of_gt roomy, more⟩
      rw [← List.take_append_drop chunkSize rest] at reached
      obtain ⟨left, last, written, executed, next, ended, whole⟩ :=
        inflateLoop_spec decodes rounds reached (by omega)
      unfold decompressLoop
      simp only [InputStream.read, Bool.false_eq_true, ↓reduceIte, something, executed]
      by_cases behind : rest.drop chunkSize = []
      · rw [if_pos (ended.mpr behind), whole behind]
      · rw [if_neg fun final => behind (ended.mp final)]
        have full : ¬ rest.length < chunkSize := fun short =>
          behind (List.drop_eq_nil_of_le (Nat.le_of_lt short))
        simp only [full, decide_false]
        apply ih next behind
        rw [List.length_drop]
        omega

/-- A file that can be compressed is written as its code. -/
theorem compress_of_compresses {text : Bytes} {ezlib : Ezlib} {files : FileStore}
    (compresses : codec.Compresses ezlib.level text) {bound : Nat}
    (bounded : ∀ {state : codec.Deflate} {last : Codec.Flush} {left output : Bytes},
      codec.Deflates ezlib.level text state last left output → output.length ≤ bound)
    (stored : files ezlib.source = some text)
    (apart : files.fileOf ezlib.source ≠ files.fileOf ezlib.dest) {rounds : Nat}
    (enough : bound < rounds) (longer : text.length < rounds) :
    ∃ code, compress codec rounds ezlib files =
        some ((files.write ezlib.dest []).write ezlib.dest code, .ok) ∧
      codec.Decodes code text ∧ code.length ≤ bound := by
  obtain ⟨strm, begun⟩ := compresses.begins
  obtain ⟨code, executed, decodes⟩ :=
    compressLoop_spec compresses bounded enough rounds (.init begun) longer
  refine ⟨code, ?_, decodes⟩
  simp only [compress, begun, FileStore.doesFileExist, stored, Option.isSome_some, ↓reduceIte,
    files.write_of_ne apart, Option.getD_some, executed, Option.map_some]

/-- A code is written as the text it decodes to. -/
theorem decompress_of_decodes {code text : Bytes} {ezlib : Ezlib} {files : FileStore}
    (decodes : codec.Decodes code text) (stored : files ezlib.source = some code)
    (apart : files.fileOf ezlib.source ≠ files.fileOf ezlib.dest) {rounds : Nat}
    (enough : text.length < rounds) (longer : code.length < rounds) :
    decompress codec rounds ezlib files =
      some ((files.write ezlib.dest []).write ezlib.dest text, .ok) := by
  obtain ⟨strm, begun⟩ := decodes.begins
  have executed := decompressLoop_spec decodes enough rounds (.init begun) decodes.ne_nil longer .ok
  simp only [decompress, begun, FileStore.doesFileExist, stored, Option.isSome_some, ↓reduceIte,
    files.write_of_ne apart, Option.getD_some, executed, Option.map_some]

/-- **Compression.** With a codec that compresses the content of a file, `compress` returns
`Z_OK`, and `decompress` on the file it has written returns `Z_OK` and writes the content
again, whatever its length. -/
theorem decompress_compress (codec : Codec UInt8) (compressor decompressor : Ezlib) (x : Bytes)
    (files : FileStore) (compresses : codec.Compresses compressor.level x)
    (stored : files compressor.source = some x)
    (apart : files.fileOf compressor.source ≠ files.fileOf compressor.dest)
    (reads : files.fileOf decompressor.source = files.fileOf compressor.dest)
    (writes : files.fileOf decompressor.dest ≠ files.fileOf compressor.dest) :
    ∃ enough, ∀ rounds ≥ enough, ∃ packed unpacked,
      compress codec rounds compressor files = some (packed, .ok) ∧
      decompress codec rounds decompressor packed = some (unpacked, .ok) ∧
      unpacked decompressor.dest = some x := by
  obtain ⟨bound, bounded⟩ := compresses.bounded
  refine ⟨bound + x.length + 1, fun rounds enough => ?_⟩
  have small : bound < rounds := by omega
  have short : x.length < rounds := by omega
  obtain ⟨code, compressed, decodes, length⟩ :=
    compress_of_compresses compresses bounded stored apart small short
  have packed : ((files.write compressor.dest []).write compressor.dest code)
      decompressor.source = some code :=
    Files.write_of_eq (files.write compressor.dest []) reads code
  have other : files.fileOf decompressor.source ≠ files.fileOf decompressor.dest :=
    fun same => writes (same.symm.trans reads)
  have decompressed := decompress_of_decodes decodes packed other short
    (Nat.lt_of_le_of_lt length small)
  exact ⟨_, _, compressed, decompressed, Files.write_self ..⟩

/-- The code of the text `a`. -/
def letterCode : Bytes := [120, 218, 75, 4, 0, 0, 98, 0, 98]

/-- The file `a` with the content `a`. -/
def letterFile : FileStore := Files.write .empty [97] [97]

/-- The file `a` with the content `a`, compressed and decompressed. -/
theorem decompress_compress_letter :
    ∃ enough, ∀ rounds ≥ enough, ∃ packed unpacked,
      compress (.known [97] letterCode) rounds { source := [97], dest := [98] } letterFile =
        some (packed, .ok) ∧
      decompress (.known [97] letterCode) rounds { source := [98], dest := [99] } packed =
        some (unpacked, .ok) ∧
      unpacked [99] = some [97] :=
  decompress_compress (.known [97] letterCode) { source := [97], dest := [98] }
    { source := [98], dest := [99] } [97] letterFile
    (Codec.known_compresses [97] (List.cons_ne_nil _ _) 9) (Files.write_self ..) (by decide)
    rfl (by decide)

/-- An empty file is no code. -/
example : (decompress (.known [97] letterCode) 1 { source := [97], dest := [98] }
    (Files.write .empty [97] [])).map Prod.snd = some .dataError := rfl

end Ezlib

end Bp2p
