import Bp2p.TorrentListFormat

/-! # The available chunks on the wire

A server writes the indices of its chunks with a separator between any two; the client
reads every token of the response with `stoi`. A token without a number clears what was
read, but an `out_of_range` escapes, so the response is read or dropped as a whole exactly
if no number in front of the first such token is out of range, as long as the tokens are
the pieces between the separators
(`Bp2p.TorrentAvailReq.processResponse_allOrNothing_iff`). What a server writes is read
back, the empty list included (`Bp2p.TorrentAvailReq.processResponse_processRequest`).
-/

namespace Bp2p

open RRPacket

namespace TorrentAvailReq

/-- A request that was just constructed, with or without a name, devices and a request
message. -/
def fresh (base : RRPacket) (torrentName : Bytes) : TorrentAvailReq :=
  { toRRPacket := { base with rsp := {} }, torrentName }

/-- The tokens of a response. -/
def tokens (msg : Message) : List Bytes := Utils.tokenize msg.data commSeparator []

/-- `stoi` finds a number, which may be out of range. -/
def hasNumber (token : Bytes) : Bool :=
  match stoi token with
  | .error .invalidArgument => false
  | .error .outOfRange => true
  | .ok _ => true

/-- The response is processed without an exception, and either nothing is kept of it or
the number of every piece between its separators. -/
def AllOrNothing (packet : TorrentAvailReq) (msg : Message) : Prop :=
  ∃ processed, packet.processResponse msg = .ok processed ∧
    (processed.torrentAvail = [] ∨
      (Separator.split commSeparator msg.data).map stoi = processed.torrentAvail.map .ok)

/-- No number in front of the first token without one is out of range. -/
def InRange (tokens : List Bytes) : Prop :=
  ∀ token ∈ tokens.takeWhile hasNumber, stoi token ≠ .error .outOfRange

/-- A token without a number drops the response, or the tokens have the numbers of the pieces
between the separators. -/
def DropsOrSplits (msg : Message) : Prop :=
  (∃ token ∈ tokens msg, hasNumber token = false) ∨
    (tokens msg).map stoi = (Separator.split commSeparator msg.data).map stoi

/-- The loop returns exactly if it meets no number out of range. -/
theorem parseAvail_ok_iff (tokens : List Bytes) (torrentAvail : List Int32) :
    (∃ parsed, parseAvail tokens torrentAvail = .ok parsed) ↔ InRange tokens := by
  unfold InRange
  induction tokens generalizing torrentAvail with
  | nil => exact iff_of_true ⟨_, rfl⟩ fun _ member => absurd member List.not_mem_nil
  | cons token rest ih =>
      unfold parseAvail
      cases number : stoi token with
      | ok availChunk =>
          have counted : hasNumber token = true := by rw [hasNumber, number]
          rw [List.takeWhile_cons_of_pos counted, List.forall_mem_cons, number]
          exact (ih _).trans (and_iff_right (fun same => by cases same)).symm
      | error thrown =>
          cases thrown with
          | invalidArgument =>
              have missing : hasNumber token = false := by rw [hasNumber, number]
              rw [List.takeWhile_cons_of_neg (Bool.eq_false_iff.mp missing)]
              exact iff_of_true ⟨_, rfl⟩ fun _ member => absurd member List.not_mem_nil
          | outOfRange =>
              have counted : hasNumber token = true := by rw [hasNumber, number]
              rw [List.takeWhile_cons_of_pos counted, List.forall_mem_cons, number]
              refine iff_of_false ?_ fun inRange => inRange.1 rfl
              rintro ⟨parsed, returned⟩
              cases returned

/-- What the loop returns: nothing if a token has no number, or else the numbers of all tokens
behind those there were. -/
theorem parseAvail_cases {tokens : List Bytes} {torrentAvail parsed : List Int32}
    (returned : parseAvail tokens torrentAvail = .ok parsed) :
    (parsed = [] ∧ ∃ token ∈ tokens, hasNumber token = false) ∨
      ∃ numbers, parsed = torrentAvail ++ numbers ∧ tokens.map stoi = numbers.map .ok := by
  induction tokens generalizing torrentAvail with
  | nil =>
      cases returned
      exact .inr ⟨[], (List.append_nil _).symm, rfl⟩
  | cons token rest ih =>
      unfold parseAvail at returned
      cases number : stoi token with
      | ok availChunk =>
          rw [number] at returned
          rcases ih returned with ⟨empty, other, member, missing⟩ | ⟨numbers, rfl, all⟩
          · exact .inl ⟨empty, other, List.mem_cons_of_mem _ member, missing⟩
          · refine .inr ⟨availChunk :: numbers, ?_, ?_⟩
            · rw [List.append_assoc, List.singleton_append]
            · rw [List.map_cons, List.map_cons, number, all]
      | error thrown =>
          rw [number] at returned
          cases thrown with
          | invalidArgument =>
              cases returned
              exact .inl ⟨rfl, token, List.mem_cons_self, by rw [hasNumber, number]⟩
          | outOfRange => cases returned

/-- A token that `stoi` reads starts with a number. -/
theorem hasNumber_of_numbers {tokens : List Bytes} {numbers : List Int32}
    (all : tokens.map stoi = numbers.map .ok) {token : Bytes} (member : token ∈ tokens) :
    hasNumber token = true := by
  have value : stoi token ∈ tokens.map stoi := List.mem_map_of_mem member
  rw [all] at value
  obtain ⟨number, _, same⟩ := List.mem_map.mp value
  rw [hasNumber, ← same]

/-- Tokens that are all numbers are all kept. -/
theorem parseAvail_of_numbers {tokens : List Bytes} {numbers : List Int32}
    (all : tokens.map stoi = numbers.map .ok) (torrentAvail : List Int32) :
    parseAvail tokens torrentAvail = .ok (torrentAvail ++ numbers) := by
  induction tokens generalizing numbers torrentAvail with
  | nil =>
      rw [List.map_nil, eq_comm, List.map_eq_nil_iff] at all
      rw [all, List.append_nil]
      rfl
  | cons token rest ih =>
      cases numbers with
      | nil => cases all
      | cons number others =>
          rw [List.map_cons, List.map_cons, List.cons.injEq] at all
          rw [parseAvail, all.1]
          simp only
          rw [ih all.2, List.append_assoc, List.singleton_append]

/-- A response is processed as its tokens are parsed. -/
theorem processResponse_eq (packet : TorrentAvailReq) (msg : Message) :
    packet.processResponse msg = (parseAvail (tokens msg) packet.torrentAvail).map
      fun torrentAvail => { packet with rsp := msg, torrentAvail } := by
  unfold processResponse tokens
  cases parseAvail (Utils.tokenize msg.data commSeparator []) packet.torrentAvail with
  | ok _ => rfl
  | error _ => rfl

/-- **Responses of available chunks.** A fresh request processes a response as a whole or
drops it exactly if no number in front of the first token without one is out of range,
and the tokens do not differ from the pieces between the separators, as is so if the
response is shorter than `2 ^ 31` bytes. -/
theorem processResponse_allOrNothing_iff (base : RRPacket) (torrentName : Bytes)
    (msg : Message) :
    (AllOrNothing (fresh base torrentName) msg ↔ InRange (tokens msg) ∧ DropsOrSplits msg) ∧
      (msg.data.length < 2 ^ 31 → tokens msg = Separator.split commSeparator msg.data) := by
  refine ⟨?_, Utils.tokenize_eq_split commSeparator⟩
  rw [← parseAvail_ok_iff (tokens msg) [], AllOrNothing, processResponse_eq]
  have none : (fresh base torrentName).torrentAvail = [] := rfl
  rw [none]
  cases parsed : parseAvail (tokens msg) [] with
  | error thrown =>
      refine iff_of_false ?_ ?_
      · rintro ⟨processed, returned, _⟩
        cases returned
      · rintro ⟨⟨torrentAvail, returned⟩, _⟩
        cases returned
  | ok torrentAvail =>
      simp only [Except.map, Except.ok.injEq, exists_eq_left', exists_eq', true_and]
      unfold DropsOrSplits
      rcases parseAvail_cases parsed with ⟨empty, missing⟩ | ⟨numbers, same, all⟩
      · exact iff_of_true (.inl empty) (.inl missing)
      · have some : numbers ≠ [] := by
          rintro rfl
          exact tokenize_ne_nil msg.data commSeparator (List.map_eq_nil_iff.mp all)
        have counted : ¬ ∃ token ∈ tokens msg, hasNumber token = false := by
          rintro ⟨token, member, missing⟩
          rw [hasNumber_of_numbers all member] at missing
          cases missing
        rw [same, List.nil_append, all, or_iff_right some, or_iff_right counted, eq_comm]

/-- The response `7`. -/
theorem processResponse_allOrNothing_iff_seven :
    AllOrNothing (fresh {} []) { data := [55], size := 1 } := by
  have allOrNothing := processResponse_allOrNothing_iff {} [] { data := [55], size := 1 }
  refine allOrNothing.1.mpr ⟨?_, .inr (congrArg _ (allOrNothing.2 (by decide)))⟩
  have only : tokens { data := [55], size := 1 } = [[55]] :=
    Utils.tokenize_of_find_none (by decide)
  rw [only]
  intro token member
  rw [List.mem_singleton.mp ((List.takeWhile_sublist _).subset member)]
  exact fun same => by cases same

/-- The response `4294967296` refutes it: the exception escapes. -/
theorem processResponse_allOrNothing_fails :
    ¬ ∀ (base : RRPacket) (torrentName : Bytes) (msg : Message),
      AllOrNothing (fresh base torrentName) msg := by
  intro claim
  let digits := ascii ['4', '2', '9', '4', '9', '6', '7', '2', '9', '6']
  obtain ⟨processed, returned, _⟩ := claim {} [] { data := digits, size := 10 }
  have only : tokens { data := digits, size := 10 } = [digits] :=
    Utils.tokenize_of_find_none (by decide)
  have large : stoi digits = .error .outOfRange := by
    have value : Decimal.value digits = 4294967296 := by decide
    have parts : strtolParts digits = (false, digits) := by decide
    simp only [stoi, parts, value]
    rfl
  rw [processResponse_eq, only, parseAvail, large] at returned
  cases returned

/-- No number is too long for a token. -/
theorem length_toString32_lt (number : Int32) : (toString32 number).length < 2 ^ 31 := by
  have lower := number.le_toInt
  have upper := number.toInt_lt
  have digits : (Decimal.numeral number.toInt.natAbs).length ≤ 10 :=
    Decimal.length_numeral_le (by decide) (by omega)
  unfold toString32
  split
  · rw [List.length_cons]
    omega
  · omega

/-- The numbers of a server that has any, joined by the separator. -/
theorem serializeAvail_cons (first : Int32) (rest : List Int32) :
    serializeAvail (first :: rest) =
      commSeparator.val.intercalate ((first :: rest).map toString32) := by
  induction rest generalizing first with
  | nil => rw [serializeAvail, List.map_singleton, List.intercalate_singleton]
  | cons second rest ih =>
      rw [serializeAvail, ih second]
      · exact List.intercalate_cons_cons.symm
      · exact List.cons_ne_nil _ _

/-- The tokens of the numbers a server writes. -/
theorem tokenize_serializeAvail (first : Int32) (rest : List Int32) :
    Utils.tokenize (serializeAvail (first :: rest)) commSeparator [] =
      (first :: rest).map toString32 := by
  rw [serializeAvail_cons, List.map_cons]
  refine (tokenize_intercalate_eq_iff fun token member => ?_).mpr fun token member => ?_
  all_goals rw [← List.map_cons] at member
  · obtain ⟨number, _, rfl⟩ := List.mem_map.mp member
    exact bar_notMem_toString32 number
  · obtain ⟨number, _, rfl⟩ := List.mem_map.mp (List.mem_of_mem_dropLast member)
    exact length_toString32_lt number

/-- **The round trip of available chunks.** The response a fresh request builds from a list
is read back as the list by any other fresh request. -/
theorem processResponse_processRequest (server client : RRPacket) (serverName name : Bytes)
    (torrentAvail : List Int32) :
    ∃ processed, (fresh client name).processResponse
        ((fresh server serverName).processRequest torrentAvail).rsp = .ok processed ∧
      processed.torrentAvail = torrentAvail := by
  have sent : ((fresh server serverName).processRequest torrentAvail).rsp.data =
      serializeAvail torrentAvail :=
    List.nil_append _
  rw [processResponse_eq, tokens, sent]
  cases torrentAvail with
  | nil =>
      have only : Utils.tokenize (serializeAvail []) commSeparator [] = [[]] :=
        Utils.tokenize_of_find_none (by decide)
      rw [only]
      exact ⟨_, rfl, rfl⟩
  | cons first rest =>
      have all : ((first :: rest).map toString32).map stoi = (first :: rest).map .ok := by
        rw [List.map_map]
        exact List.map_congr_left fun number _ => stoi_toString32 number
      rw [tokenize_serializeAvail, parseAvail_of_numbers all]
      exact ⟨_, rfl, rfl⟩

end TorrentAvailReq

end Bp2p
