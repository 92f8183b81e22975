import Bp2p.RequestFormat
import Mathlib.Data.List.TakeWhile

/-! # The memory behind a request

A server reads the type of a request from a `char*` into a vector without terminator. What
stands behind the vector is not looked at when the number stops inside it, at a byte that is
no white space, no sign and no digit (`Bp2p.stoi_cString_append`). In the requests with
fields that is the separator behind the type. The list request ends with its type, so
digits that follow it in memory become part of the number
(`Bp2p.ownBytes_iff`).
-/

namespace Bp2p

open RRPacket

/-- A byte at which reading a number stops wherever it stands. -/
def Stops (byte : UInt8) : Prop :=
  isSpace byte = false ∧ byte ≠ 43 ∧ byte ≠ 45 ∧ Decimal.isDigit byte = false

/-- What stops inside a text is the same whatever follows the text. -/
theorem takeWhile_append_of_exists {p : UInt8 → Bool} {text : Bytes}
    (stops : ∃ byte ∈ text, p byte = false) (more : Bytes) :
    (text ++ more).takeWhile p = text.takeWhile p := by
  rw [List.takeWhile_append, if_neg]
  intro all
  have whole : text.takeWhile p = text := (List.takeWhile_prefix p).eq_of_length all
  obtain ⟨byte, member, fails⟩ := stops
  rw [← whole] at member
  have holds : p byte = true := List.mem_takeWhile_imp member
  rw [fails] at holds
  exact absurd holds Bool.false_ne_true

/-- The parts by the first byte behind the white space. -/
theorem strtolParts_of_dropWhile {text rest : Bytes} {first : UInt8}
    (shape : text.dropWhile isSpace = first :: rest) :
    strtolParts text =
      if first = 43 then (false, rest.takeWhile Decimal.isDigit)
      else if first = 45 then (true, rest.takeWhile Decimal.isDigit)
      else (false, (first :: rest).takeWhile Decimal.isDigit) := by
  unfold strtolParts
  rw [shape]
  split
  · next same => cases same; rfl
  · next same => cases same; rfl
  · next noPlus noMinus =>
      rw [if_neg fun plus => noPlus rest (congrArg (· :: rest) plus),
        if_neg fun minus => noMinus rest (congrArg (· :: rest) minus)]

/-- What follows a text with a stopping byte is no part of its number. -/
theorem strtolParts_append {text : Bytes} {byte : UInt8} (stops : Stops byte)
    (member : byte ∈ text) (more : Bytes) : strtolParts (text ++ more) = strtolParts text := by
  obtain ⟨solid, noPlus, noMinus, noDigit⟩ := stops
  have kept : byte ∈ text.dropWhile isSpace := by
    rw [← List.takeWhile_append_dropWhile (p := isSpace) (l := text), List.mem_append] at member
    refine member.resolve_left fun inside => ?_
    have space : isSpace byte = true := List.mem_takeWhile_imp inside
    rw [solid] at space
    exact absurd space Bool.false_ne_true
  have dropped : (text ++ more).dropWhile isSpace = text.dropWhile isSpace ++ more := by
    rw [List.dropWhile_append, if_neg]
    rw [List.isEmpty_iff]
    exact List.ne_nil_of_mem kept
  cases shape : text.dropWhile isSpace with
  | nil =>
      rw [shape] at kept
      exact absurd kept List.not_mem_nil
  | cons first rest =>
      rw [shape] at kept dropped
      rw [List.cons_append] at dropped
      rw [strtolParts_of_dropWhile shape, strtolParts_of_dropWhile dropped]
      have inRest : byte ≠ first → byte ∈ rest := fun other =>
        (List.mem_cons.mp kept).resolve_left other
      by_cases plus : first = 43
      · rw [if_pos plus, if_pos plus,
          takeWhile_append_of_exists ⟨byte, inRest (plus ▸ noPlus), noDigit⟩]
      · by_cases minus : first = 45
        · rw [if_neg plus, if_neg plus, if_pos minus, if_pos minus,
            takeWhile_append_of_exists ⟨byte, inRest (minus ▸ noMinus), noDigit⟩]
        · rw [if_neg plus, if_neg plus, if_neg minus, if_neg minus, ← List.cons_append,
            takeWhile_append_of_exists ⟨byte, kept, noDigit⟩]

/-- The number in a vector does not depend on the memory behind it when it stops inside. -/
theorem stoi_cString_append {text : Bytes} {byte : UInt8} (stops : Stops byte)
    (member : byte ∈ text) (after : Bytes) :
    stoi (cString (text ++ after)) = stoi (cString text) := by
  by_cases terminated : (0 : UInt8) ∈ text
  · have front : cString (text ++ after) = cString text :=
      takeWhile_append_of_exists (p := (· != 0)) ⟨0, terminated, bne_self_eq_false _⟩ after
    rw [front]
  · have whole : ∀ other ∈ text, (other != 0) = true := by
      intro other inside
      rw [bne_iff_ne]
      rintro rfl
      exact terminated inside
    have front : cString text = text := List.takeWhile_eq_self_iff.mpr whole
    rw [front, cString, List.takeWhile_append_of_pos whole, stoi, stoi,
      strtolParts_append stops member]

/-- The bytes `createRequest` appends behind the type. -/
def Packet.fields : Packet → Bytes
  | .list _ => []
  | .file packet => commSeparator.val ++ packet.torrentName
  | .avail packet => commSeparator.val ++ packet.torrentName
  | .chunk packet =>
      commSeparator.val ++ packet.torrentName ++ (commSeparator.val ++ toString32 packet.index)

/-- A request's bytes are its head and its fields. -/
theorem createRequest_data (packet : Packet) :
    packet.createRequest.base.req.data =
      packet.base.req.data ++ (requestHead packet.type ++ packet.fields) := by
  cases packet with
  | list packet => exact congrArg _ (List.append_nil _).symm
  | file packet => rfl
  | avail packet => rfl
  | chunk packet => exact congrArg _ (List.append_assoc _ _ _)

/-- A request whose type stops inside it: all but the list request of a new packet. -/
def Packet.Delimited (packet : Packet) : Prop :=
  ¬ (packet.type = .torrentList ∧ packet.base.req.data = [])

/-- The letter `b` stands nowhere in the prefix but at its front. -/
theorem position_of_letter {position : Nat} (inside : position < 6)
    (letter : (commString ++ commSeparator.val)[position]? = some 98) : position = 0 := by
  revert position
  decide

/-- Behind the prefix of a delimited request stands a byte at which its number stops. -/
theorem exists_stops {packet : Packet} (delimited : packet.Delimited)
    (front : commString ++ commSeparator.val <+: packet.createRequest.base.req.data) :
    ∃ byte ∈ packet.createRequest.base.req.data.drop (commString ++ commSeparator.val).length,
      Stops byte := by
  obtain ⟨rest, cut⟩ := front
  rw [← cut, List.drop_left]
  rw [createRequest_data] at cut
  by_cases new : packet.base.req.data = []
  · -- the separator in front of the name
    refine ⟨bar, ?_, by decide, by decide, by decide, by decide⟩
    have split : rest = toString32 packet.type.code ++ packet.fields := by
      simp only [new, List.nil_append, requestHead, List.append_assoc] at cut
      exact List.append_cancel_left (List.append_cancel_left cut)
    rw [split, List.mem_append]
    right
    cases packet with
    | list packet => exact absurd ⟨rfl, new⟩ delimited
    | file packet => exact List.mem_cons_self
    | avail packet => exact List.mem_cons_self
    | chunk packet => exact List.mem_cons_self
  · -- the front of the request that is appended
    refine ⟨98, ?_, by decide, by decide, by decide, by decide⟩
    have positive := List.length_pos_of_ne_nil new
    have letter : (commString ++ commSeparator.val ++ rest)[packet.base.req.data.length]? =
        some 98 := by
      rw [cut, List.getElem?_append_right (Nat.le_refl _), Nat.sub_self]
      rfl
    rcases Nat.lt_or_ge packet.base.req.data.length 6 with inside | behind
    · rw [List.getElem?_append_left inside] at letter
      exact absurd (position_of_letter inside letter) (Nat.pos_iff_ne_zero.mp positive)
    · rw [List.getElem?_append_right behind] at letter
      exact List.mem_of_getElem? letter

/-- The type and the class the server finds, whatever stands behind the request. -/
def OwnBytes (req : Message) : Prop :=
  ∀ first second : Bytes, 0 ∈ first → 0 ∈ second →
    RRFactory.getReqTypeFromReq req first = RRFactory.getReqTypeFromReq req second ∧
      (RRFactory.create req first).map Packet.type =
        (RRFactory.create req second).map Packet.type

/-- The class follows from the type. -/
theorem create_congr {req : Message} {first second : Bytes}
    (same : RRFactory.getReqTypeFromReq req first = RRFactory.getReqTypeFromReq req second) :
    RRFactory.create req first = RRFactory.create req second := by
  rw [RRFactory.create, RRFactory.create, same]

/-- Delimited requests are read from their own bytes. -/
theorem ownBytes_of_delimited {packet : Packet} (delimited : packet.Delimited) :
    OwnBytes packet.createRequest.base.req := by
  intro first second _ _
  have same : RRFactory.getReqTypeFromReq packet.createRequest.base.req first =
      RRFactory.getReqTypeFromReq packet.createRequest.base.req second := by
    unfold RRFactory.getReqTypeFromReq
    by_cases found : Separator.find (commString ++ commSeparator.val)
        packet.createRequest.base.req.data = some 0
    · have front := (Separator.find_eq_some_iff.mp found).2.1
      rw [List.drop_zero] at front
      obtain ⟨byte, member, stops⟩ := exists_stops delimited front
      simp only [stoi_cString_append stops member]
    · simp only [found, ne_eq, not_false_eq_true, ↓reduceIte]
  exact ⟨same, congrArg _ (create_congr same)⟩

/-- A new list request followed by a zero digit is taken for one of type 10. -/
theorem not_ownBytes_listReq {packet : TorrentListReq} (new : packet.req.data = []) :
    ¬ OwnBytes (Packet.list packet).createRequest.base.req := by
  intro own
  have message : (Packet.list packet).createRequest.base.req =
      ⟨requestHead .torrentList, UInt32.ofNat (requestHead .torrentList).length⟩ := by
    simp only [Packet.createRequest, Packet.base, TorrentListReq.createRequest, Message.push, new,
      List.nil_append]
  have same := (own [48, 0] [0] (by decide) (by decide)).1
  rw [message] at same
  revert same
  decide

/-- **The bytes of the request alone.** The type and the class a server finds do not depend on
what stands in memory behind a request that `createRequest` has built, except for a list
request that holds nothing but its own text, which ends with the type. -/
theorem ownBytes_iff (packet : Packet) :
    OwnBytes packet.createRequest.base.req ↔
      ¬ (packet.type = .torrentList ∧ packet.base.req.data = []) := by
  refine ⟨?_, ownBytes_of_delimited⟩
  rintro own ⟨isList, new⟩
  cases packet with
  | list packet => exact not_ownBytes_listReq new own
  | file packet => exact RequestType.noConfusion isList
  | avail packet => exact RequestType.noConfusion isList
  | chunk packet => exact RequestType.noConfusion isList

/-- `bp2p||1` is a list request in front of a NUL and none in front of `0`. -/
theorem ownBytes_fails :
    ¬ ∀ (packet : Packet) (first second : Bytes), 0 ∈ first → 0 ∈ second →
      RRFactory.getReqTypeFromReq packet.createRequest.base.req first =
          RRFactory.getReqTypeFromReq packet.createRequest.base.req second ∧
        (RRFactory.create packet.createRequest.base.req first).map Packet.type =
          (RRFactory.create packet.createRequest.base.req second).map Packet.type :=
  fun claim => @not_ownBytes_listReq {} rfl fun first second terminated other =>
    claim (.list {}) first second terminated other

end Bp2p
