import Bp2p.Packet

/-! # What a server reads from a client's request

A client builds a request in `createRequest`; the server recognises its class in
`RRFactory::create` and takes the name, and the index of a chunk, out of the
tokens. The class always comes back. The name of a file or availability request
comes back when it does not contain the separator, that of a chunk request when
in addition it does not end in a bar, as long as the token in question is
shorter than `2 ^ 31` bytes (`Bp2p.requestRoundTrip_iff`).
-/

namespace Bp2p

open RRPacket

/-- The number of a type is one digit in requests. -/
theorem toString32_code (type : RequestType) :
    ∃ number < 5, toString32 type.code = Decimal.numeral number ∧
      Int32.ofNat number = type.code := by
  cases type
  · exact ⟨0, by decide, rfl, rfl⟩
  · exact ⟨1, by decide, rfl, rfl⟩
  · exact ⟨2, by decide, rfl, rfl⟩
  · exact ⟨3, by decide, rfl, rfl⟩
  · exact ⟨4, by decide, rfl, rfl⟩

theorem ofCode_code (type : RequestType) : RequestType.ofCode type.code = some type := by
  cases type <;> rfl

/-- The byte a C string starts with is the first one in memory. -/
private theorem head?_cString {memory : Bytes} {byte : UInt8}
    (member : byte ∈ (cString memory).head?) : byte ∈ memory.head? := by
  cases memory with
  | nil => exact member
  | cons first rest =>
      unfold cString at member
      rw [List.takeWhile_cons] at member
      split at member
      · exact member
      · rw [List.head?_nil] at member
        exact absurd member (Option.not_mem_none _)

/-- The type is read back whenever no digit follows it, in the message or behind it. -/
theorem getReqTypeFromReq_requestHead (type : RequestType) (tail after : Bytes) (size : UInt32)
    (stops : ∀ byte ∈ (tail ++ after).head?, Decimal.isDigit byte = false) :
    RRFactory.getReqTypeFromReq ⟨requestHead type ++ tail, size⟩ after = some type := by
  obtain ⟨number, small, printed, back⟩ := toString32_code type
  have positive := List.length_pos_of_ne_nil (Decimal.numeral_ne_nil number)
  have front : commString ++ commSeparator.val <+: requestHead type ++ tail :=
    ⟨toString32 type.code ++ tail, by simp only [requestHead, List.append_assoc]⟩
  have found : Separator.find (commString ++ commSeparator.val) (requestHead type ++ tail) =
      some 0 :=
    Separator.find_eq_some_iff.mpr
      ⟨Nat.zero_le _, front, fun _ before => absurd before (Nat.not_lt_zero _)⟩
  have text : cString ((requestHead type ++ tail).drop
      (commString ++ commSeparator.val).length ++ after) =
        Decimal.numeral number ++ cString (tail ++ after) := by
    rw [requestHead, List.append_assoc, List.drop_left, printed, List.append_assoc]
    apply List.takeWhile_append_of_pos
    intro byte member
    have digit := Decimal.isDigit_of_mem_numeral member
    rw [bne_iff_ne]
    rintro rfl
    exact absurd digit (by decide)
  unfold RRFactory.getReqTypeFromReq
  simp only [found, ne_eq, not_true_eq_false, ↓reduceIte, text]
  rw [if_neg, stoi_numeral_append (by omega) _ fun byte member => stops byte (head?_cString member),
    back]
  · exact ofCode_code type
  · simp only [requestHead, printed, List.length_append]
    omega

/-- A list of bytes without bars is clean in front of the separator. -/
theorem clean_of_bar_notMem {piece : Bytes} (absent : bar ∉ piece) :
    Separator.Clean commSeparator.val piece :=
  Separator.clean_of_notMem absent

/-- No number has a bar in it. -/
theorem bar_notMem_toString32 (number : Int32) : bar ∉ toString32 number := by
  have digits : ∀ natural, bar ∉ Decimal.numeral natural := fun natural member =>
    absurd (Decimal.isDigit_of_mem_numeral member) (by decide)
  unfold toString32
  split
  · rw [List.mem_cons, not_or]
    exact ⟨by decide, digits _⟩
  · exact digits _

/-- Behind the head of a request the tokens are those of its fields. -/
theorem tokenize_requestHead (type : RequestType) (fields : Bytes) :
    Utils.tokenize (requestHead type ++ (commSeparator.val ++ fields)) commSeparator [] =
      commString :: toString32 type.code :: Utils.tokenize fields commSeparator [] := by
  have shape : requestHead type ++ (commSeparator.val ++ fields) =
      commString ++ commSeparator.val ++
        (toString32 type.code ++ commSeparator.val ++ fields) := by
    simp only [requestHead, List.append_assoc]
  rw [shape, Utils.tokenize_clean_append_of_lt (clean_of_bar_notMem (by decide)) (by decide),
    Utils.tokenize_clean_append_of_lt (clean_of_bar_notMem (bar_notMem_toString32 _))]
  cases type <;> decide

/-- Tokenizing leaves at least one token. -/
theorem tokenize_ne_nil (text : Bytes) (sep : Utils.Sep) : Utils.tokenize text sep [] ≠ [] := by
  cases found : Separator.find sep.val text with
  | none =>
      rw [Utils.tokenize_of_find_none found]
      exact List.cons_ne_nil _ _
  | some position =>
      rw [Utils.tokenize_of_find found]
      exact List.cons_ne_nil _ _

/-- The name a server takes from a request is the first token of its fields. -/
theorem nameToken_requestHead (type : RequestType) (fields current : Bytes) :
    nameToken (requestHead type ++ (commSeparator.val ++ fields)) current =
      (Utils.tokenize fields commSeparator []).getD 0 [] := by
  unfold nameToken
  rw [tokenize_requestHead]
  have positive := List.length_pos_of_ne_nil (tokenize_ne_nil fields commSeparator)
  simp only [List.length_cons]
  rw [if_pos (by omega)]
  rfl

/-- A token cut inside a name is not the name, unless its `int` length came out
negative and there is nothing behind the name. -/
theorem substr_eq_name_iff {name : Bytes} (rest : Bytes) {position : Nat}
    (inside : position < name.length) : substr (name ++ rest) 0 (Int32.ofNat position) = name ↔
      2 ^ 31 ≤ position % 2 ^ 32 ∧ rest = [] := by
  unfold substr
  rw [List.drop_zero]
  split
  · next negative =>
      rw [toInt_ofNat_neg_iff] at negative
      rw [List.append_right_eq_self]
      exact ⟨fun empty => ⟨negative, empty⟩, fun both => both.2⟩
  · next nonnegative =>
      rw [toInt_ofNat_neg_iff, Nat.not_le] at nonnegative
      rw [toNat_toInt_ofNat nonnegative]
      constructor
      · intro same
        have lengths := congrArg List.length same
        have reduced := Nat.mod_le position (2 ^ 32)
        simp only [List.length_take, List.length_append] at lengths
        omega
      · omega

/-- What the server must read from the four requests about a name and an index. -/
structure RequestRoundTrip (torrentName : Bytes) (index : Int32) (after : Bytes) : Prop where
  list : ∃ packet, RRFactory.create ({} : TorrentListReq).createRequest.req after =
    some (.list packet)
  file : ∃ packet, RRFactory.create ({ torrentName } : TorrentFileReq).createRequest.req after =
    some (.file packet) ∧
      (packet.extractTorrentName = torrentName ↔ ¬ commSeparator.val <:+: torrentName)
  avail : ∃ packet,
    RRFactory.create ({ torrentName } : TorrentAvailReq).createRequest.req after =
      some (.avail packet) ∧
        ((packet.extractTorrentName []).2 = torrentName ↔ ¬ commSeparator.val <:+: torrentName)
  chunk : ∃ packet, RRFactory.create ({ torrentName, index } : ChunkReq).createRequest.req after =
    some (.chunk packet) ∧
      (packet.extractNameAndIndex = (torrentName, index) ↔
        ¬ commSeparator.val <:+: torrentName ∧ torrentName.getLast? ≠ some bar)

/-- No length the tokenizer computes for the name is lost in an `int`: a name
sent whole is shorter than `2 ^ 31` bytes, and a name that is cut is cut at a
position an `int` does not turn negative. -/
structure TokenLengthsFit (torrentName : Bytes) : Prop where
  whole : Separator.Clean commSeparator.val torrentName → torrentName.length < 2 ^ 31
  cut : ∀ position, Separator.find commSeparator.val torrentName = some position →
    position % 2 ^ 32 < 2 ^ 31

/-- The first token of a name standing last in a request. -/
theorem firstToken_eq_iff (torrentName : Bytes) :
    ((Utils.tokenize torrentName commSeparator []).getD 0 [] = torrentName ↔
        ¬ commSeparator.val <:+: torrentName) ↔
      ∀ position, Separator.find commSeparator.val torrentName = some position →
        position % 2 ^ 32 < 2 ^ 31 := by
  rw [← Separator.find_eq_none_iff]
  cases found : Separator.find commSeparator.val torrentName with
  | none => simp only [Utils.tokenize_of_find_none found, List.getD_cons_zero, reduceCtorEq,
      false_implies, implies_true]
  | some position =>
      have inside : position < torrentName.length := by
        have fits := Separator.find_add_length_le found
        have two : commSeparator.val.length = 2 := rfl
        omega
      have token := substr_eq_name_iff [] inside
      rw [List.append_nil] at token
      rw [Utils.tokenize_of_find found, List.getD_cons_zero, token]
      simp only [and_true, reduceCtorEq, iff_false, Nat.not_le, Option.some.injEq, forall_eq']

/-- The fields of a chunk request come back exactly when the name is clean and
short. -/
theorem chunkFields_eq_iff (torrentName : Bytes) (index : Int32) :
    (Utils.tokenize (torrentName ++ (commSeparator.val ++ toString32 index)) commSeparator []).getD
        0 [] = torrentName ↔
      Separator.Clean commSeparator.val torrentName ∧ torrentName.length < 2 ^ 31 := by
  rw [← List.append_assoc]
  by_cases clean : Separator.Clean commSeparator.val torrentName
  · rw [Utils.tokenize_clean_append _ clean, List.getD_cons_zero,
      substr_eq_piece_iff commSeparator.property]
    exact (and_iff_right clean).symm
  · obtain ⟨position, inside, found⟩ := Separator.find_of_not_clean clean
    rw [Utils.tokenize_of_find (Separator.find_append found _), List.getD_cons_zero,
      List.append_assoc, substr_eq_name_iff _ inside]
    exact iff_of_false (fun both => absurd both.2 (List.cons_ne_nil _ _))
      (fun both => clean both.1)

/-- Whatever the name, a chunk request whose name comes back whole brings the
index back with it. -/
theorem extractIndexFromReq_of_clean {torrentName : Bytes} {index : Int32}
    (clean : Separator.Clean commSeparator.val torrentName) :
    ChunkReq.extractIndexFromReq (requestHead .chunk ++
      (commSeparator.val ++ (torrentName ++ (commSeparator.val ++ toString32 index)))) = index := by
  have last : Utils.tokenize (toString32 index) commSeparator [] = [toString32 index] := by
    apply Utils.tokenize_of_find_none
    rw [Separator.find_eq_none_iff]
    exact fun occurs => bar_notMem_toString32 index (occurs.subset List.mem_cons_self)
  have tokens := Utils.tokenize_clean_append (toString32 index) clean
  rw [List.append_assoc, last] at tokens
  unfold ChunkReq.extractIndexFromReq
  rw [tokenize_requestHead, tokens]
  simp only [List.length_cons, List.length_nil, Nat.reduceAdd, Nat.lt_add_one, ↓reduceIte,
    List.getD_cons_succ, List.getD_cons_zero, stoi_toString32]

/-- The first byte behind the type is a bar when the request has fields. -/
theorem stops_of_fields (fields after : Bytes) :
    ∀ byte ∈ (commSeparator.val ++ fields ++ after).head?, Decimal.isDigit byte = false := by
  intro byte member
  have isBar : bar = byte := Option.some.inj member
  rw [← isBar]
  decide

/-- A list request has no fields, so what stands in memory behind it must stop
the number. -/
theorem create_listReq (after : Bytes) (terminated : after.head? = some 0) :
    RRFactory.create ({} : TorrentListReq).createRequest.req after =
      some (.list { req := ({} : TorrentListReq).createRequest.req }) := by
  have stops : ∀ byte ∈ (([] : Bytes) ++ after).head?, Decimal.isDigit byte = false := by
    intro byte member
    rw [List.nil_append, terminated, Option.mem_some_iff] at member
    rw [← member]
    decide
  have read := fun size => getReqTypeFromReq_requestHead .torrentList [] after size stops
  simp only [List.append_nil] at read
  have message : ({} : TorrentListReq).createRequest.req =
      ⟨requestHead .torrentList, UInt32.ofNat (requestHead .torrentList).length⟩ := by
    simp only [TorrentListReq.createRequest, Message.push, List.nil_append]
  rw [message, RRFactory.create, read]

/-- A request for a description is read as one. -/
theorem create_fileReq (torrentName after : Bytes) :
    RRFactory.create ({ torrentName } : TorrentFileReq).createRequest.req after =
      some (.file { req := ({ torrentName } : TorrentFileReq).createRequest.req }) := by
  have read := fun size => getReqTypeFromReq_requestHead .torrentFile
    (commSeparator.val ++ torrentName) after size (stops_of_fields torrentName after)
  simp only [TorrentFileReq.createRequest, Message.push, List.nil_append, RRFactory.create, read]

/-- A request for availability is read as one. -/
theorem create_availReq (torrentName after : Bytes) :
    RRFactory.create ({ torrentName } : TorrentAvailReq).createRequest.req after =
      some (.avail { req := ({ torrentName } : TorrentAvailReq).createRequest.req }) := by
  have read := fun size => getReqTypeFromReq_requestHead .torrentAvailability
    (commSeparator.val ++ torrentName) after size (stops_of_fields torrentName after)
  simp only [TorrentAvailReq.createRequest, Message.push, List.nil_append, RRFactory.create, read]

/-- The bytes of a chunk request, its fields grouped behind the head. -/
theorem chunkReq_data (torrentName : Bytes) (index : Int32) :
    ({ torrentName, index } : ChunkReq).createRequest.req.data =
      requestHead .chunk ++
        (commSeparator.val ++ (torrentName ++ (commSeparator.val ++ toString32 index))) := by
  simp only [ChunkReq.createRequest, Message.push, List.nil_append, List.append_assoc]

/-- A request for a chunk is read as one. -/
theorem create_chunkReq (torrentName after : Bytes) (index : Int32) :
    RRFactory.create ({ torrentName, index } : ChunkReq).createRequest.req after =
      some (.chunk { req := ({ torrentName, index } : ChunkReq).createRequest.req }) := by
  have read := fun size => getReqTypeFromReq_requestHead .chunk
    (commSeparator.val ++ (torrentName ++ (commSeparator.val ++ toString32 index))) after size
    (stops_of_fields _ after)
  have message : ({ torrentName, index } : ChunkReq).createRequest.req =
      ⟨_, ({ torrentName, index } : ChunkReq).createRequest.req.size⟩ :=
    congrArg (fun data => Message.mk data _) (chunkReq_data torrentName index)
  rw [message]
  simp only [RRFactory.create, read]

/-- The fields a server extracts from a chunk request. -/
theorem extractNameAndIndex_eq_iff (torrentName : Bytes) (index : Int32) :
    ({ req := ({ torrentName, index } : ChunkReq).createRequest.req } :
        ChunkReq).extractNameAndIndex = (torrentName, index) ↔
      Separator.Clean commSeparator.val torrentName ∧ torrentName.length < 2 ^ 31 := by
  rw [← chunkFields_eq_iff torrentName index, ChunkReq.extractNameAndIndex,
    ChunkReq.extractTorrentName]
  simp only [chunkReq_data, nameToken_requestHead, Prod.mk.injEq]
  refine and_iff_left_of_imp fun whole => extractIndexFromReq_of_clean ?_
  exact ((chunkFields_eq_iff torrentName index).mp whole).1

/-- The name a server extracts from a file or availability request. -/
theorem nameToken_eq_iff (type : RequestType) (torrentName current : Bytes) :
    (nameToken (requestHead type ++ (commSeparator.val ++ torrentName)) current = torrentName ↔
        ¬ commSeparator.val <:+: torrentName) ↔
      ∀ position, Separator.find commSeparator.val torrentName = some position →
        position % 2 ^ 32 < 2 ^ 31 := by
  rw [nameToken_requestHead]
  exact firstToken_eq_iff torrentName

/-- Requests that come back as asked for lose no token length. -/
theorem RequestRoundTrip.tokenLengthsFit {torrentName after : Bytes} {index : Int32}
    (roundTrip : RequestRoundTrip torrentName index after) : TokenLengthsFit torrentName := by
  refine ⟨fun clean => ?_, ?_⟩
  · obtain ⟨packet, created, recovers⟩ := roundTrip.chunk
    rw [create_chunkReq, Option.some.injEq, Packet.chunk.injEq] at created
    subst created
    have whole := recovers.mpr (Separator.clean_double_iff.mp clean)
    exact ((extractNameAndIndex_eq_iff torrentName index).mp whole).2
  · obtain ⟨packet, created, recovers⟩ := roundTrip.file
    rw [create_fileReq, Option.some.injEq, Packet.file.injEq] at created
    subst created
    exact (nameToken_eq_iff .torrentFile torrentName []).mp recovers

/-- **The round trip of requests.** A request reaches the server as its own class
with its fields in exactly the cases asked for, provided no token length is lost
in an `int`, and only then. -/
theorem requestRoundTrip_iff (torrentName : Bytes) (index : Int32) (after : Bytes)
    (terminated : after.head? = some 0) :
    RequestRoundTrip torrentName index after ↔ TokenLengthsFit torrentName := by
  refine ⟨RequestRoundTrip.tokenLengthsFit, fun fit => ?_⟩
  have clean := @Separator.clean_double_iff _ _ bar torrentName
  have fields := extractNameAndIndex_eq_iff torrentName index
  exact {
    list := ⟨_, create_listReq after terminated⟩
    file := ⟨_, create_fileReq torrentName after,
      (nameToken_eq_iff .torrentFile torrentName []).mpr fit.cut⟩
    avail := ⟨_, create_availReq torrentName after,
      (nameToken_eq_iff .torrentAvailability torrentName []).mpr fit.cut⟩
    chunk := ⟨_, create_chunkReq torrentName after index,
      fields.trans ((and_iff_left_of_imp fit.whole).trans clean)⟩ }

/-- The requests about the one-letter name `a` and a negative index. -/
theorem requestRoundTrip_letter : RequestRoundTrip (ascii ['a']) (-1) [0] :=
  (requestRoundTrip_iff (ascii ['a']) (-1) [0] rfl).mpr
    { whole := fun _ => by decide
      cut := fun position found => by
        have missing : Separator.find commSeparator.val (ascii ['a']) = none := by decide
        rw [missing] at found
        exact absurd found (Option.some_ne_none _ ·.symm) }

/-- A name of `2 ^ 31` letters without a bar does not come back from its chunk
request: its length is negative as an `int`. -/
theorem requestRoundTrip_long_fails :
    ¬ RequestRoundTrip (List.replicate (2 ^ 31) 97) 0 [0] := by
  intro roundTrip
  have clean : Separator.Clean commSeparator.val (List.replicate (2 ^ 31) (97 : UInt8)) :=
    clean_of_bar_notMem fun member => absurd (List.eq_of_mem_replicate member) (by decide)
  have short := roundTrip.tokenLengthsFit.whole clean
  rw [List.length_replicate] at short
  exact Nat.lt_irrefl _ short

end Bp2p
