import Mathlib.Data.List.Infix

/-! # Streaming codecs

A codec that compresses and decompresses turn by turn. A turn is offered a part of the input
and room for a part of the output; it stops when the input is used up or the room is. A text is
compressed by turns that are offered it piece by piece, the last ones with the request to
finish; what they put out decodes to the text (`Codec.Compresses`). Decoding puts out the text
in order, also over any pieces, and says so once all is taken and put out (`Codec.Decodes`).
-/

/-- What a call returns. -/
inductive Codec.Ret
  | ok
  | streamEnd
  | needDict
  | errno
  | streamError
  | dataError
  | memError
  | bufError
  | versionError
  deriving DecidableEq, Repr

/-- Whether more of the text follows: `Z_NO_FLUSH`, `Z_FINISH`. -/
inductive Codec.Flush
  | noFlush
  | finish
  deriving DecidableEq, Repr

/-- What a turn leaves: the state, the input it did not take, and what it put out. -/
structure Codec.Turn (α State : Type) where
  state : State
  rest : List α
  output : List α
  ret : Codec.Ret

/-- A stream codec as a program calls it: the states of both directions, and their turns. -/
structure Codec (α : Type) where
  Deflate : Type
  Inflate : Type
  deflateInit : Int32 → Except Codec.Ret Deflate
  deflate : Deflate → Codec.Flush → List α → Nat → Codec.Turn α Deflate
  inflateInit : Except Codec.Ret Inflate
  inflate : Inflate → List α → Nat → Codec.Turn α Inflate

namespace Codec

variable {α State : Type}

/-- The turn keeps to the room, and takes its input from the front, all of it unless the room
is used up. -/
structure Turn.Fair (turn : Turn α State) (input : List α) (room : Nat) : Prop where
  takes : turn.rest <:+ input
  fits : turn.output.length ≤ room
  greedy : turn.output.length < room → turn.rest = []

/-- What may be asked behind the last turn, with the text that is still to be offered. -/
def Allowed (last flush : Flush) (later : List α) : Prop :=
  (last = .finish → flush = .finish) ∧ (flush = .finish → later = [])

theorem Allowed.again {last flush : Flush} {later : List α} (allowed : Allowed last flush later) :
    Allowed flush flush later :=
  ⟨id, allowed.2⟩

variable (codec : Codec α)

/-- The states compression of a text comes to, with the last request, the text that is left and
what was put out. -/
inductive Deflates (level : Int32) (text : List α) :
    codec.Deflate → Flush → List α → List α → Prop
  | init {state : codec.Deflate} (begun : codec.deflateInit level = .ok state) :
      Deflates level text state .noFlush text []
  | turn {state : codec.Deflate} {last flush : Flush} {input later output : List α} {room : Nat}
      (before : Deflates level text state last (input ++ later) output)
      (allowed : Allowed last flush later) (roomy : 0 < room) :
      Deflates level text (codec.deflate state flush input room).state flush
        ((codec.deflate state flush input room).rest ++ later)
        (output ++ (codec.deflate state flush input room).output)

/-- The states decompression of a code comes to, with the code that is left and what was put
out. -/
inductive Inflates (code : List α) : codec.Inflate → List α → List α → Prop
  | init {state : codec.Inflate} (begun : codec.inflateInit = .ok state) :
      Inflates code state code []
  | turn {state : codec.Inflate} {input later output : List α} {room : Nat}
      (before : Inflates code state (input ++ later) output) (roomy : 0 < room) :
      Inflates code (codec.inflate state input room).state
        ((codec.inflate state input room).rest ++ later)
        (output ++ (codec.inflate state input room).output)

/-- The code decodes to the text: it is put out in order, the end of the stream is returned
from the point where all is taken and put out, and a turn without progress is an error. -/
structure Decodes (code text : List α) : Prop where
  ne_nil : code ≠ []
  begins : ∃ state, codec.inflateInit = .ok state
  fair : ∀ {state : codec.Inflate} {input later output : List α} {room : Nat},
    codec.Inflates code state (input ++ later) output → 0 < room →
    (codec.inflate state input room).Fair input room
  ordered : ∀ {state : codec.Inflate} {input later output : List α} {room : Nat},
    codec.Inflates code state (input ++ later) output → 0 < room →
    output ++ (codec.inflate state input room).output <+: text
  drained : ∀ {state : codec.Inflate} {input output : List α} {room : Nat},
    codec.Inflates code state input output → 0 < room →
    (codec.inflate state input room).output.length < room →
    output ++ (codec.inflate state input room).output = text
  streamEnd : ∀ {state : codec.Inflate} {input later output : List α} {room : Nat},
    codec.Inflates code state (input ++ later) output → 0 < room →
    ((codec.inflate state input room).ret = .streamEnd ↔
      (codec.inflate state input room).rest ++ later = [] ∧
        output ++ (codec.inflate state input room).output = text)
  otherwise : ∀ {state : codec.Inflate} {input later output : List α} {room : Nat},
    codec.Inflates code state (input ++ later) output → 0 < room →
    (codec.inflate state input room).ret ≠ .streamEnd →
    ((codec.inflate state input room).ret = .bufError ∧
        (codec.inflate state input room).rest = input ∧
        (codec.inflate state input room).output = []) ∨
      ((codec.inflate state input room).ret = .ok ∧
        ¬ ((codec.inflate state input room).rest = input ∧
          (codec.inflate state input room).output = []))

/-- The text is compressed: there is a bound on what is put out, and once a turn that is to
finish leaves room, what was put out decodes to the text. -/
structure Compresses (level : Int32) (text : List α) : Prop where
  begins : ∃ state, codec.deflateInit level = .ok state
  fair : ∀ {state : codec.Deflate} {last flush : Flush} {input later output : List α} {room : Nat},
    codec.Deflates level text state last (input ++ later) output → Allowed last flush later →
    0 < room → (codec.deflate state flush input room).Fair input room
  bounded : ∃ bound, ∀ {state : codec.Deflate} {last : Flush} {left output : List α},
    codec.Deflates level text state last left output → output.length ≤ bound
  decodes : ∀ {state : codec.Deflate} {last : Flush} {left output : List α} {room : Nat},
    codec.Deflates level text state last left output → 0 < room →
    (codec.deflate state .finish left room).output.length < room →
    codec.Decodes (output ++ (codec.deflate state .finish left room).output) text

variable {codec}

/-- What was put out is a front of the text. -/
theorem Decodes.front {code text : List α} (decodes : codec.Decodes code text)
    {state : codec.Inflate} {left output : List α}
    (reached : codec.Inflates code state left output) : output <+: text := by
  cases reached with
  | init begun => exact List.nil_prefix
  | turn before roomy => exact decodes.ordered before roomy

/-- Decoding fails on no part of the code. -/
theorem Decodes.not_error {code text : List α} (decodes : codec.Decodes code text)
    {state : codec.Inflate} {input later output : List α} {room : Nat}
    (reached : codec.Inflates code state (input ++ later) output) (roomy : 0 < room) :
    (codec.inflate state input room).ret ≠ .dataError ∧
      (codec.inflate state input room).ret ≠ .memError := by
  by_cases ended : (codec.inflate state input room).ret = .streamEnd
  · rw [ended]
    exact ⟨Ret.noConfusion, Ret.noConfusion⟩
  · rcases decodes.otherwise reached roomy ended with ⟨ret, _⟩ | ⟨ret, _⟩
    · rw [ret]
      exact ⟨Ret.noConfusion, Ret.noConfusion⟩
    · rw [ret]
      exact ⟨Ret.noConfusion, Ret.noConfusion⟩

/-- A turn of decoding that leaves room takes all its input, and returns the end of the stream
exactly if that was the last of the code. -/
theorem Decodes.of_room {code text : List α} (decodes : codec.Decodes code text)
    {state : codec.Inflate} {input later output : List α} {room : Nat}
    (reached : codec.Inflates code state (input ++ later) output)
    (left : (codec.inflate state input room).output.length < room) :
    (codec.inflate state input room).rest = [] ∧
      ((codec.inflate state input room).ret = .streamEnd ↔ later = []) ∧
      (later = [] → output ++ (codec.inflate state input room).output = text) := by
  have roomy : 0 < room := Nat.zero_lt_of_lt left
  have taken := (decodes.fair reached roomy).greedy left
  have whole : later = [] → output ++ (codec.inflate state input room).output = text := by
    intro last
    rw [last, List.append_nil] at reached
    exact decodes.drained reached roomy left
  refine ⟨taken, ?_, whole⟩
  rw [decodes.streamEnd reached roomy, taken, List.nil_append]
  exact ⟨fun ended => ended.1, fun last => ⟨last, whole last⟩⟩

/-- A codec that knows one text and its code. It puts the code out when it is to finish, and the
text when it has seen the code. -/
def known (text code : List α) : Codec α where
  Deflate := Option (List α)
  Inflate := List α × List α
  deflateInit _ := .ok none
  deflate pending flush _ room :=
    match flush with
    | .noFlush => { state := pending, rest := [], output := [], ret := .ok }
    | .finish =>
        { state := some ((pending.getD code).drop room)
          rest := []
          output := (pending.getD code).take room
          ret := if (pending.getD code).length ≤ room then .streamEnd else .ok }
  inflateInit := .ok (code, text)
  inflate state input room :=
    if input.length < state.1.length then
      { state := (state.1.drop input.length, state.2)
        rest := []
        output := []
        ret := if input.isEmpty then .bufError else .ok }
    else
      { state := ([], state.2.drop room)
        rest := []
        output := state.2.take room
        ret := if state.2.length ≤ room then .streamEnd else .ok }

/-- What is put out is the front of the code that is not pending. -/
theorem known_deflates {text code : List α} {level : Int32}
    {state : (known text code).Deflate} {last : Flush} {left output : List α}
    (reached : (known text code).Deflates level text state last left output) :
    output ++ @Option.getD (List α) state code = code := by
  induction reached with
  | init begun =>
      cases begun
      rfl
  | @turn state last flush input later output room before allowed roomy kept =>
      cases flush with
      | noFlush =>
          have same : (output ++ []) ++ @Option.getD (List α) state code = code := by
            rw [List.append_nil, kept]
          exact same
      | finish =>
          have parts : (output ++ (@Option.getD (List α) state code).take room) ++
              (@Option.getD (List α) state code).drop room = code := by
            rw [List.append_assoc, List.take_append_drop, kept]
          exact parts

/-- In front of the end of the code, the known codec takes all input and gives nothing. -/
theorem known_inflate_of_more (text code ends : List α) {input later : List α}
    (more : later ≠ []) (room : Nat) :
    (known text code).inflate (input ++ later, ends) input room =
      { state := (later, ends), rest := [], output := []
        ret := if input.isEmpty then .bufError else .ok } := by
  have ahead : input.length < (input ++ later).length := by
    rw [List.length_append]
    exact Nat.lt_add_of_pos_right (List.length_pos_of_ne_nil more)
  simp only [known, ahead, ↓reduceIte, List.drop_left]

theorem known_inflate_of_last (text code input ends : List α) (room : Nat) :
    (known text code).inflate (input, ends) input room =
      { state := ([], ends.drop room), rest := [], output := ends.take room
        ret := if ends.length ≤ room then .streamEnd else .ok } := by
  simp only [known, Nat.lt_irrefl, ↓reduceIte]

/-- The code that is left is still to be seen, and nothing is put out before it was. -/
theorem known_inflates {text code : List α} {state : (known text code).Inflate}
    {left output : List α} (reached : (known text code).Inflates code state left output) :
    ∃ ends, state = (left, ends) ∧ output ++ ends = text ∧ (left ≠ [] → output = []) := by
  induction reached with
  | init begun =>
      cases begun
      exact ⟨text, rfl, rfl, fun _ => rfl⟩
  | @turn state input later output room before roomy kept =>
      obtain ⟨ends, rfl, parts, silent⟩ := kept
      by_cases last : later = []
      · subst last
        rw [List.append_nil, known_inflate_of_last]
        refine ⟨ends.drop room, rfl, ?_, fun more => absurd rfl more⟩
        rw [List.append_assoc, List.take_append_drop, parts]
      · rw [known_inflate_of_more text code ends last]
        refine ⟨ends, rfl, ?_, fun _ => ?_⟩
        · rw [List.append_nil, parts]
        · rw [List.append_nil, silent (List.append_ne_nil_of_right_ne_nil _ last)]

/-- The known code decodes to the known text. -/
theorem known_decodes {text code : List α} (ne_nil : code ≠ []) :
    (known text code).Decodes code text where
  ne_nil := ne_nil
  begins := ⟨_, rfl⟩
  fair := by
    intro state input later output room reached roomy
    obtain ⟨ends, rfl, _⟩ := known_inflates reached
    by_cases last : later = []
    · subst last
      rw [List.append_nil, known_inflate_of_last]
      exact ⟨List.nil_suffix, List.length_take_le .., fun _ => rfl⟩
    · rw [known_inflate_of_more text code ends last]
      exact ⟨List.nil_suffix, Nat.zero_le _, fun _ => rfl⟩
  ordered := by
    intro state input later output room reached roomy
    obtain ⟨ends, rfl, parts, _⟩ := known_inflates reached
    by_cases last : later = []
    · subst last
      rw [List.append_nil, known_inflate_of_last, ← parts]
      exact (List.prefix_append_right_inj output).mpr (List.take_prefix ..)
    · rw [known_inflate_of_more text code ends last, List.append_nil, ← parts]
      exact List.prefix_append ..
  drained := by
    intro state input output room reached roomy left
    obtain ⟨ends, rfl, parts, _⟩ := known_inflates reached
    rw [known_inflate_of_last, List.length_take] at left
    rw [known_inflate_of_last, List.take_of_length_le (by omega), parts]
  streamEnd := by
    intro state input later output room reached roomy
    obtain ⟨ends, rfl, parts, _⟩ := known_inflates reached
    by_cases last : later = []
    · subst last
      rw [List.append_nil, known_inflate_of_last, ← parts, List.append_cancel_left_eq,
        List.take_eq_self_iff]
      by_cases whole : ends.length ≤ room
      · simp only [whole, ↓reduceIte, List.append_nil, and_self]
      · simp only [whole, ↓reduceIte, reduceCtorEq, and_false]
    · rw [known_inflate_of_more text code ends last]
      refine iff_of_false ?_ fun ended => last ended.1
      split
      · exact Ret.noConfusion
      · exact Ret.noConfusion
  otherwise := by
    intro state input later output room reached roomy goesOn
    obtain ⟨ends, rfl, parts, _⟩ := known_inflates reached
    by_cases last : later = []
    · subst last
      rw [List.append_nil, known_inflate_of_last] at goesOn ⊢
      have more : ¬ ends.length ≤ room := fun whole => goesOn (if_pos whole)
      refine .inr ⟨if_neg more, fun idle => ?_⟩
      have taken : (ends.take room).length = 0 := congrArg List.length idle.2
      rw [List.length_take] at taken
      omega
    · rw [known_inflate_of_more text code ends last]
      cases input with
      | nil => exact .inl ⟨rfl, rfl, rfl⟩
      | cons first rest => exact .inr ⟨rfl, fun idle => List.cons_ne_nil _ _ idle.1.symm⟩

/-- The known text compresses to the known code. -/
theorem known_compresses (text : List α) {code : List α} (ne_nil : code ≠ []) (level : Int32) :
    (known text code).Compresses level text where
  begins := ⟨_, rfl⟩
  fair := by
    intro state last flush input later output room reached allowed roomy
    cases flush with
    | noFlush => exact ⟨List.nil_suffix, Nat.zero_le _, fun _ => rfl⟩
    | finish => exact ⟨List.nil_suffix, List.length_take_le .., fun _ => rfl⟩
  bounded := by
    refine ⟨code.length, fun reached => ?_⟩
    have parts := congrArg List.length (known_deflates reached)
    rw [List.length_append] at parts
    omega
  decodes := by
    intro state last left output room reached roomy fits
    have parts := known_deflates reached
    have length : ((@Option.getD (List α) state code).take room).length < room := fits
    rw [List.length_take] at length
    have whole : output ++ (@Option.getD (List α) state code).take room = code := by
      rw [List.take_of_length_le (by omega), parts]
    have decodes : (known text code).Decodes
        (output ++ (@Option.getD (List α) state code).take room) text := by
      rw [whole]
      exact known_decodes ne_nil
    exact decodes

end Codec
