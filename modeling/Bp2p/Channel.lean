import Bp2p.Packet

/-! # The Bluetooth channel

The client side of `BTChannel` and `BTDevice`. What the calls of the operating system
return is an input, and so is `errno` before the first of them. A call that succeeds, and
printing, leave `errno` alone. The end of a message is recognised by a piece of less than
`btChunk` bytes; the loop also ends behind a full piece when `errno` is neither 0 nor
`ENOENT`, whoever set it, and a longer message is then cut
(`Bp2p.BTChannel.read_receives_iff`).
-/

namespace Bp2p

/-- A value a failing call leaves in `errno`. -/
structure Errno where
  code : Int
  positive : 0 < code
  deriving DecidableEq

namespace BTChannel

/-- `ENOENT`. -/
def noEntry : Int := 2

/-- `ECONNRESET`. -/
def connectionReset : Errno := ⟨104, by decide⟩

/-- Bluetooth transfers data in pieces of this many bytes. -/
def btChunk : Nat := 1008

/-- What `::read` returns: the bytes it puts into the buffer, or a failure. -/
inductive ReadResult
  | received (bytes : {bytes : Bytes // bytes.length ≤ btChunk})
  | failed (errno : Errno)

/-- What a function of the channel throws: an `errno`, or the exception of a vector that
is resized to a negative number of bytes. -/
inductive Thrown
  | errno (errno : Errno)
  | lengthError
  deriving DecidableEq

/-- `vector::resize`. -/
def resize (data : Bytes) (size : Nat) : Bytes :=
  data.take size ++ List.replicate (size - data.length) 0

/-- The loop of `read`, with what a last failing call set. The sizes are added up in an
`int`, which is taken to wrap. `none` when the loop waits for a call that does not return. -/
def readLoop (errno : Int) (data : Bytes) (totalSize : Int32) :
    List ReadResult → Option (Bytes × Int32 × Option Errno)
  | [] => none
  | .failed error :: _ => some (data, totalSize, some error)
  | .received piece :: rest =>
      if piece.val.isEmpty then some (data, totalSize, none)
      else
        let data := data ++ piece.val
        let totalSize := totalSize + Int32.ofNat piece.val.length
        if piece.val.length < btChunk ∨ (errno ≠ 0 ∧ errno ≠ noEntry) then
          some (data, totalSize, none)
        else readLoop errno data totalSize rest

/-- The end of `read`: the message gets the size that was added up. -/
def finish (data : Bytes) (totalSize : Int32) : Except Thrown Message :=
  if totalSize.toInt < 0 then .error .lengthError
  else .ok { data := resize data totalSize.toInt.toNat, size := totalSize.toUInt32 }

/-- `read`; a connection that is reset ends the message. -/
def read (errno : Int) (results : List ReadResult) : Option (Except Thrown Message) :=
  (readLoop errno [] 0 results).map fun (data, totalSize, failure) =>
    match failure with
    | some error => if error = connectionReset then finish data totalSize else .error (.errno error)
    | none => finish data totalSize

/-- The calls deliver a message: full pieces, then a shorter one, which may be empty, or a
connection that is reset. -/
inductive Delivers : Bytes → List ReadResult → Prop
  | short {piece : {bytes : Bytes // bytes.length ≤ btChunk}} (rest : List ReadResult) :
      piece.val.length < btChunk → Delivers piece.val (.received piece :: rest)
  | reset (rest : List ReadResult) : Delivers [] (.failed connectionReset :: rest)
  | full {piece : {bytes : Bytes // bytes.length ≤ btChunk}} {message : Bytes}
      {results : List ReadResult} : piece.val.length = btChunk → Delivers message results →
        Delivers (piece.val ++ message) (.received piece :: results)

/-- The values of `errno` behind which the loop goes on. -/
def Quiet (errno : Int) : Prop := errno = 0 ∨ errno = noEntry

/-- Whether an errno is quiet can be decided. -/
instance (errno : Int) : Decidable (Quiet errno) := inferInstanceAs (Decidable (_ ∨ _))

/-- The message that was sent, with its size. -/
def Receives (errno : Int) (results : List ReadResult) (message : Bytes) : Prop :=
  ∃ msg, read errno results = some (.ok msg) ∧ msg.data = message ∧
    msg.size.toNat = message.length

theorem resize_self (data : Bytes) : resize data data.length = data := by
  rw [resize, List.take_length, Nat.sub_self, List.replicate_zero, List.append_nil]

theorem ne_nil_of_full {piece : Bytes} (full : piece.length = btChunk) : piece ≠ [] := by
  rintro rfl
  exact absurd full (by decide)

/-- A short piece ends the loop, whatever `errno` is. -/
theorem readLoop_of_short (errno : Int) (data : Bytes) (totalSize : Int32)
    {piece : {bytes : Bytes // bytes.length ≤ btChunk}} (rest : List ReadResult)
    (short : piece.val.length < btChunk) :
    readLoop errno data totalSize (.received piece :: rest) =
      some (data ++ piece.val, totalSize + Int32.ofNat piece.val.length, none) := by
  by_cases empty : piece.val = []
  · simp only [readLoop, empty, List.isEmpty_nil, ↓reduceIte, List.append_nil, List.length_nil,
      show Int32.ofNat 0 = 0 from rfl, Int32.add_zero]
  · simp only [readLoop, List.isEmpty_iff, empty, short, true_or, ↓reduceIte]

/-- A connection that is reset ends the loop, whatever `errno` was. -/
theorem readLoop_of_reset (errno : Int) (data : Bytes) (totalSize : Int32)
    (rest : List ReadResult) :
    readLoop errno data totalSize (.failed connectionReset :: rest) =
      some (data ++ [], totalSize + Int32.ofNat ([] : Bytes).length, some connectionReset) := by
  simp only [readLoop, List.append_nil, List.length_nil, show Int32.ofNat 0 = 0 from rfl,
    Int32.add_zero]

/-- Behind a full piece the loop goes on if `errno` is quiet, and ends if not. -/
theorem readLoop_of_full (errno : Int) (data : Bytes) (totalSize : Int32)
    {piece : {bytes : Bytes // bytes.length ≤ btChunk}} (rest : List ReadResult)
    (full : piece.val.length = btChunk) :
    (Quiet errno → readLoop errno data totalSize (.received piece :: rest) =
      readLoop errno (data ++ piece.val) (totalSize + Int32.ofNat piece.val.length) rest) ∧
    (¬ Quiet errno → readLoop errno data totalSize (.received piece :: rest) =
      some (data ++ piece.val, totalSize + Int32.ofNat piece.val.length, none)) := by
  have nonempty := ne_nil_of_full full
  constructor
  · intro quiet
    have ongoing : ¬ (errno ≠ 0 ∧ errno ≠ noEntry) := fun loud => quiet.elim loud.1 loud.2
    simp only [readLoop, List.isEmpty_iff, nonempty, full, Nat.lt_irrefl, ongoing, or_self,
      ↓reduceIte]
  · intro loud
    have ends : errno ≠ 0 ∧ errno ≠ noEntry := not_or.mp loud
    simp only [readLoop, List.isEmpty_iff, nonempty, ends, ne_eq, not_false_eq_true, and_self,
      or_true, ↓reduceIte]

/-- With a quiet `errno` the loop collects the whole message. -/
theorem readLoop_of_quiet {errno : Int} (quiet : Quiet errno) {message : Bytes}
    {results : List ReadResult} (delivers : Delivers message results) (data : Bytes)
    (totalSize : Int32) :
    ∃ failure, (failure = none ∨ failure = some connectionReset) ∧
      readLoop errno data totalSize results =
        some (data ++ message, totalSize + Int32.ofNat message.length, failure) := by
  induction delivers generalizing data totalSize with
  | short rest less => exact ⟨none, .inl rfl, readLoop_of_short errno data totalSize rest less⟩
  | reset rest =>
      exact ⟨some connectionReset, .inr rfl, readLoop_of_reset errno data totalSize rest⟩
  | @full piece message results whole _ ih =>
      obtain ⟨failure, kind, rest⟩ := ih (data ++ piece.val)
        (totalSize + Int32.ofNat piece.val.length)
      refine ⟨failure, kind, ?_⟩
      rw [(readLoop_of_full errno data totalSize results whole).1 quiet, rest, List.append_assoc,
        List.length_append, Int32.ofNat_add, Int32.add_assoc]

/-- What `read` makes of the bytes of the loop. -/
theorem read_of_readLoop {errno : Int} {results : List ReadResult} {data : Bytes}
    {totalSize : Int32} {failure : Option Errno}
    (kind : failure = none ∨ failure = some connectionReset)
    (loop : readLoop errno [] 0 results = some (data, totalSize, failure)) :
    read errno results = some (finish data totalSize) := by
  rw [read, loop, Option.map_some]
  rcases kind with rfl | rfl
  · rfl
  · simp only [↓reduceIte]

/-- Bytes whose number was added up are kept exactly if the number fits an `int`. -/
theorem finish_keeps_iff (data : Bytes) :
    (∃ msg, finish data (Int32.ofNat data.length) = .ok msg ∧ msg.data = data ∧
      msg.size.toNat = data.length) ↔ data.length < 2 ^ 31 := by
  unfold finish
  simp only [toInt_ofNat_neg_iff, Int32.toUInt32_ofNat']
  constructor
  · rintro ⟨msg, kept, _, size⟩
    split at kept
    · cases kept
    · next low =>
        cases kept
        rw [UInt32.toNat_ofNat'] at size
        omega
  · intro short
    have low : data.length % 2 ^ 32 = data.length := Nat.mod_eq_of_lt (by omega)
    rw [if_neg (by omega), toNat_toInt_ofNat (by omega), low, resize_self]
    exact ⟨_, rfl, rfl, (UInt32.toNat_ofNat' ..).trans low⟩

/-- A message that the loop collects as a whole is received exactly if its size fits an
`int`. -/
theorem receives_iff_of_readLoop {errno : Int} {results : List ReadResult} {message : Bytes}
    {failure : Option Errno} (kind : failure = none ∨ failure = some connectionReset)
    (loop : readLoop errno [] 0 results =
      some ([] ++ message, 0 + Int32.ofNat message.length, failure)) :
    Receives errno results message ↔ message.length < 2 ^ 31 := by
  rw [List.nil_append, Int32.zero_add] at loop
  simp only [Receives, read_of_readLoop kind loop, Option.some.injEq, finish_keeps_iff]

/-- **Messages in pieces.** Whatever pieces deliver a message, `read` ends with it exactly
if it is not longer than one piece, or `errno` is quiet and its size fits an `int`. -/
theorem read_receives_iff (errno : Int) (message : Bytes) (results : List ReadResult)
    (delivers : Delivers message results) :
    Receives errno results message ↔
      message.length ≤ btChunk ∨ Quiet errno ∧ message.length < 2 ^ 31 := by
  have small : btChunk < 2 ^ 31 := by decide
  by_cases quiet : Quiet errno
  · obtain ⟨failure, kind, loop⟩ := readLoop_of_quiet quiet delivers [] 0
    rw [receives_iff_of_readLoop kind loop]
    constructor
    · exact fun short => .inr ⟨quiet, short⟩
    · rintro (single | ⟨_, short⟩)
      · exact Nat.lt_of_le_of_lt single small
      · exact short
  · simp only [quiet, false_and, or_false]
    cases delivers with
    | @short piece rest less =>
        rw [receives_iff_of_readLoop (.inl rfl) (readLoop_of_short errno [] 0 rest less)]
        exact iff_of_true (Nat.lt_trans less small) (Nat.le_of_lt less)
    | reset rest =>
        rw [receives_iff_of_readLoop (.inr rfl) (readLoop_of_reset errno [] 0 rest)]
        exact iff_of_true (by decide) (by decide)
    | @full piece more results whole _ =>
        have loop := (readLoop_of_full errno [] 0 results whole).2 quiet
        rw [List.nil_append, Int32.zero_add] at loop
        simp only [Receives, read_of_readLoop (.inl rfl) loop, Option.some.injEq]
        obtain ⟨msg, kept, data, size⟩ :=
          (finish_keeps_iff piece.val).mpr (by rw [whole]; exact small)
        rw [List.length_append]
        constructor
        · rintro ⟨other, same, _, length⟩
          rw [kept, Except.ok.injEq] at same
          rw [← same, size] at length
          omega
        · intro single
          have none : more = [] := List.eq_nil_of_length_eq_zero (by omega)
          rw [none, List.append_nil, List.length_nil, Nat.add_zero]
          exact ⟨msg, kept, data, size⟩

/-- The piece of one byte. -/
def letterPiece : {bytes : Bytes // bytes.length ≤ btChunk} := ⟨[97], by decide⟩

/-- The first full piece of zeros. -/
def fullPiece : {bytes : Bytes // bytes.length ≤ btChunk} :=
  ⟨List.replicate btChunk 0, Nat.le_of_eq List.length_replicate⟩

/-- A full piece and a byte are received when `errno` is 0. -/
theorem read_receives_iff_full :
    Receives 0 [.received fullPiece, .received letterPiece] (fullPiece.val ++ [97]) :=
  (read_receives_iff 0 (fullPiece.val ++ [97]) [.received fullPiece, .received letterPiece]
    (.full List.length_replicate (@Delivers.short letterPiece [] (by decide)))).mpr
    (.inr ⟨.inl rfl, by
      rw [List.length_append, show fullPiece.val.length = btChunk from List.length_replicate]
      decide⟩)

/-- The same pieces refute it when an earlier call has left `ETIMEDOUT`: only the full
piece is received. -/
theorem read_receives_fails :
    ¬ ∀ (errno : Int) (message : Bytes) (results : List ReadResult),
      Delivers message results → Receives errno results message := by
  intro claim
  have full : fullPiece.val.length = btChunk := List.length_replicate
  obtain ⟨msg, received, data, _⟩ := claim 110 (fullPiece.val ++ [97])
    [.received fullPiece, .received letterPiece]
    (.full full (@Delivers.short letterPiece [] (by decide)))
  have loop := (readLoop_of_full 110 [] 0 [.received letterPiece] full).2 (by decide)
  rw [List.nil_append, Int32.zero_add] at loop
  obtain ⟨cut, kept, same, _⟩ := (finish_keeps_iff fullPiece.val).mpr (by rw [full]; decide)
  rw [read_of_readLoop (.inl rfl) loop, kept, Option.some.injEq, Except.ok.injEq] at received
  rw [← received, same] at data
  have lengths := congrArg List.length data
  rw [List.length_append] at lengths
  exact absurd lengths (by simp)

end BTChannel

end Bp2p
