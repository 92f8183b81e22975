import Bp2p.DevicesInReach
import Bp2p.Tokenize
import Mathlib.Data.List.GetD
import Mathlib.Data.List.TakeWhile

/-! # The commands of a session

`main` reads a line, splits it into words and calls what the first word names. A line is read as
the words between its blanks (`Bp2p.ArgParser.parse_iff_spells`). While the threads of the node
go on, the commands the node carries out are those of the lines read, in the order typed, and
none before the one in front of it has returned; the loop is left at the first line that says
so. Nothing looks at the end of the input. Behind a newline the line is empty from there on, and
every command is carried out once; a last line without a newline is carried out again and again
(`Bp2p.Console.commands_in_order`).
-/

namespace Bp2p

namespace ArgParser

/-- The byte that separates words. -/
def blank : UInt8 := 32

/-- The byte that ends a line. -/
def newline : UInt8 := 10

/-- The separator of words. -/
def blankSeparator : Utils.Sep := ⟨[blank], List.cons_ne_nil _ _⟩

/-- `parse`, which takes empty words out of the whole vector it appends to. -/
def parse (cmd : Bytes) (args : List Bytes) : List Bytes :=
  let args := Utils.tokenize cmd blankSeparator args
  let args := args.filter (· ≠ [])
  args.filter (· ≠ [newline])

/-- The text spells the words, with blanks between them and anywhere else. -/
inductive Spells : Bytes → List Bytes → Prop
  | nil : Spells [] []
  | blank {text : Bytes} {words : List Bytes} (rest : Spells text words) :
      Spells (blank :: text) words
  | last {word : Bytes} (nonempty : word ≠ []) (whole : blank ∉ word) : Spells word [word]
  | word {word text : Bytes} {words : List Bytes} (nonempty : word ≠ []) (whole : blank ∉ word)
      (rest : Spells text words) : Spells (word ++ ArgParser.blank :: text) (word :: words)

/-- A piece without the byte that separates ends at the next one. -/
theorem split_append {byte : UInt8} {piece : Bytes} (whole : byte ∉ piece) (text : Bytes) :
    Separator.split ⟨[byte], List.cons_ne_nil _ _⟩ (piece ++ byte :: text) =
      piece :: Separator.split ⟨[byte], List.cons_ne_nil _ _⟩ text := by
  have clean : Separator.Clean [byte] piece := Separator.clean_of_notMem whole
  have found := clean.find_append text
  have same : piece ++ [byte] ++ text = piece ++ byte :: text := List.append_assoc ..
  have behind : (piece ++ [byte] ++ text).drop (piece.length + [byte].length) = text := by
    rw [← List.length_append, List.drop_left]
  rw [← same, Separator.split_of_find found, List.append_assoc, List.take_left,
    ← List.append_assoc, behind]

theorem split_whole {byte : UInt8} {piece : Bytes} (whole : byte ∉ piece) :
    Separator.split ⟨[byte], List.cons_ne_nil _ _⟩ piece = [piece] := by
  refine Separator.split_of_find_none (Separator.find_eq_none_iff.mpr fun occurs => whole ?_)
  exact occurs.subset (List.mem_singleton_self _)

theorem split_blanks {word : Bytes} (whole : blank ∉ word) (text : Bytes) :
    Separator.split blankSeparator (word ++ blank :: text) =
      word :: Separator.split blankSeparator text :=
  split_append whole text

theorem split_blank_free {word : Bytes} (whole : blank ∉ word) :
    Separator.split blankSeparator word = [word] :=
  split_whole whole

/-- The pieces that `parse` leaves. -/
def words (pieces : List Bytes) : List Bytes :=
  (pieces.filter (· ≠ [])).filter (· ≠ [newline])

theorem parse_eq_words {text : Bytes} (short : text.length < 2 ^ 31) :
    parse text [] = words (Separator.split blankSeparator text) :=
  congrArg words (Utils.tokenize_eq_split blankSeparator short)

theorem words_nil_cons (pieces : List Bytes) : words ([] :: pieces) = words pieces := rfl

/-- What is neither empty nor has a newline is a word. -/
theorem words_cons {word : Bytes} (nonempty : word ≠ []) (line : newline ∉ word)
    (pieces : List Bytes) : words (word :: pieces) = word :: words pieces := by
  have other : word ≠ [newline] := by
    rintro rfl
    exact line (List.mem_singleton_self _)
  have first : (word :: pieces).filter (· ≠ []) = word :: pieces.filter (· ≠ []) :=
    List.filter_cons_of_pos (decide_eq_true nonempty)
  have second : (word :: pieces.filter (· ≠ [])).filter (· ≠ [newline]) = word :: words pieces :=
    List.filter_cons_of_pos (decide_eq_true other)
  rw [words, first, second]

/-- The words that a text spells are the pieces left of it. -/
theorem Spells.words_eq {text : Bytes} {list : List Bytes} (spells : Spells text list)
    (line : newline ∉ text) : words (Separator.split blankSeparator text) = list := by
  induction spells with
  | nil =>
      rw [split_blank_free List.not_mem_nil]
      rfl
  | @blank text list rest ih =>
      rw [← List.nil_append (ArgParser.blank :: text), split_blanks List.not_mem_nil,
        words_nil_cons]
      exact ih fun member => line (List.mem_cons_of_mem _ member)
  | last nonempty whole =>
      rw [split_blank_free whole, words_cons nonempty line]
      rfl
  | @word word text list nonempty whole rest ih =>
      rw [List.mem_append, List.mem_cons, not_or, not_or] at line
      rw [split_blanks whole, words_cons nonempty line.1, ih line.2.2]

/-- Every text spells the words left of it: it begins with a blank, is one word, or begins with
a word and a blank. -/
theorem spells_words {text : Bytes} (line : newline ∉ text) :
    Spells text (words (Separator.split blankSeparator text)) := by
  induction size : text.length using Nat.strong_induction_on generalizing text with
  | _ size ih =>
      subst size
      by_cases whole : blank ∈ text
      · obtain ⟨word, rest, rfl, first⟩ := List.eq_append_cons_of_mem whole
        rw [List.mem_append, List.mem_cons, not_or, not_or] at line
        have shorter : rest.length < (word ++ blank :: rest).length := by
          rw [List.length_append, List.length_cons]
          omega
        have spells := ih _ shorter line.2.2 rfl
        rw [split_blanks first]
        by_cases nonempty : word = []
        · subst nonempty
          rw [words_nil_cons]
          exact spells.blank
        · rw [words_cons nonempty line.1]
          exact .word nonempty first spells
      · rw [split_blank_free whole]
        by_cases nonempty : text = []
        · subst nonempty
          exact .nil
        · rw [words_cons nonempty line]
          exact .last nonempty whole

theorem Spells.parse_eq {text : Bytes} {args : List Bytes} (spells : Spells text args)
    (short : text.length < 2 ^ 31) (line : newline ∉ text) : parse text [] = args :=
  (parse_eq_words short).trans (spells.words_eq line)

/-- **Words of a line.** A line is read as the words it spells, and as no others. -/
theorem parse_iff_spells {text : Bytes} (short : text.length < 2 ^ 31) (line : newline ∉ text)
    (args : List Bytes) : parse text [] = args ↔ Spells text args := by
  refine ⟨?_, fun spells => spells.parse_eq short line⟩
  rintro rfl
  rw [parse_eq_words short]
  exact spells_words line

/-- Blanks in front of the first word, between the two and behind the last one. -/
theorem parse_iff_spells_blanks :
    parse [32, 45, 113, 32, 32, 97, 32] [] = [[45, 113], [97]] := by
  have last : Spells ([97] ++ blank :: []) [[97]] :=
    .word (List.cons_ne_nil _ _) (by decide) .nil
  have both : Spells ([45, 113] ++ blank :: blank :: ([97] ++ blank :: [])) [[45, 113], [97]] :=
    .word (List.cons_ne_nil _ _) (by decide) last.blank
  exact (parse_iff_spells (by decide) (by decide) _).mpr both.blank

end ArgParser

namespace Node

/-- `-tc`. -/
def createTorCmd : Bytes := ascii ['-', 't', 'c']

/-- `-lnt`. -/
def listNearbyTorsCmd : Bytes := ascii ['-', 'l', 'n', 't']

/-- `-tr`. -/
def requestTorCmd : Bytes := ascii ['-', 't', 'r']

/-- `-td`. -/
def requestTorDataCmd : Bytes := ascii ['-', 't', 'd']

/-- `-q`. -/
def quitCmd : Bytes := ascii ['-', 'q']

/-- `-rc`. -/
def requestChunkAvailCmd : Bytes := ascii ['-', 'r', 'c']

end Node

/-- What a turn of the loop of `main` does for a line. -/
inductive Command
  | createTorrent (filename : Bytes) (files : List Bytes)
  | listNearbyTorrents (addr : List Bytes)
  | syncRequestTorrentFile (name addr : Bytes)
  | requestTorrentData (name : Bytes)
  | quit
  | requestTorrentAvail (name addr : Bytes)
  | pauseWorkerThreads
  | activateWorkerThreads
  | nothing
  deriving DecidableEq

namespace Command

open Node

/-- The chain of comparisons; `none` if an argument is read that is not there. -/
def dispatch (args : List Bytes) : Option Command :=
  match args[0]? with
  | none => some nothing
  | some command =>
      if command = createTorCmd ∧ 3 < args.length then do
        some (createTorrent (← args[1]?) (args.drop 2))
      else if command = listNearbyTorsCmd then some (listNearbyTorrents (args.drop 1))
      else if command = requestTorCmd then
        if 2 < args.length then do some (syncRequestTorrentFile (← args[1]?) (← args[2]?))
        else some nothing
      else if command = requestTorDataCmd then
        if 1 < args.length then do some (requestTorrentData (← args[1]?)) else some nothing
      else if command = quitCmd then some quit
      -- the number of arguments is not checked
      else if command = requestChunkAvailCmd then do
        some (requestTorrentAvail (← args[1]?) (← args[2]?))
      else if command = ascii ['-', 'p'] then some pauseWorkerThreads
      else if command = ascii ['-', 'a'] then some activateWorkerThreads
      else some nothing

/-- Only the request for the availability reads beyond its arguments. -/
theorem dispatch_eq_none_iff {args : List Bytes} :
    dispatch args = none ↔ args.head? = some requestChunkAvailCmd ∧ args.length < 3 := by
  have earlier : requestChunkAvailCmd ≠ createTorCmd ∧ requestChunkAvailCmd ≠ listNearbyTorsCmd ∧
      requestChunkAvailCmd ≠ requestTorCmd ∧ requestChunkAvailCmd ≠ requestTorDataCmd ∧
      requestChunkAvailCmd ≠ quitCmd := by
    decide
  unfold dispatch
  cases args with
  | nil => grind
  | cons command words =>
      cases words with
      | nil => grind
      | cons first words =>
          cases words with
          | nil => grind
          -- every argument that is read is there
          | cons second words =>
              simp only [List.getElem?_cons_zero, List.getElem?_cons_succ, bind, Option.bind_some]
              grind

/-- The command of a line that `main` reads into an empty vector. -/
def ofLine (line : Bytes) : Option Command := dispatch (ArgParser.parse line [])

/-- Such a request that is carried out has its arguments. -/
theorem length_of_ofLine {line : Bytes} {command : Command} (same : ofLine line = some command)
    (asks : (ArgParser.parse line []).head? = some requestChunkAvailCmd) :
    3 ≤ (ArgParser.parse line []).length := by
  by_contra short
  have none : ofLine line = none := dispatch_eq_none_iff.mpr ⟨asks, Nat.not_le.mp short⟩
  rw [none] at same
  cases same

/-- The node is called, beyond its threads being paused or activated. -/
def isCall : Command → Bool
  | createTorrent .. | listNearbyTorrents .. | syncRequestTorrentFile .. | requestTorrentData .. |
    requestTorrentAvail .. => true
  | quit | pauseWorkerThreads | activateWorkerThreads | nothing => false

end Command

/-- The command that a step of a session begins. -/
def Session.Label.command? : Session.Label → Option Command
  | .system (.requestTorrentData name) => some (.requestTorrentData name)
  | .system (.createTorrent _ name filenames) => some (.createTorrent name filenames)
  | .listNearbyTorrents addrs => some (.listNearbyTorrents addrs)
  | .syncRequestTorrentFile name addr _ => some (.syncRequestTorrentFile name addr)
  | .requestTorrentAvail name addr _ => some (.requestTorrentAvail name addr)
  | _ => none

/-- What a step begins is the call of a command. -/
theorem Session.Label.isCall_of_command? {label : Session.Label} {command : Command}
    (begins : label.command? = some command) : command.isCall = true := by
  unfold command? at begins
  split at begins
  · cases begins
    rfl
  · cases begins
    rfl
  · cases begins
    rfl
  · cases begins
    rfl
  · cases begins
    rfl
  · cases begins

/-- The commands of a run. -/
def Session.commands (past : List (Session × Session.Label)) : List Command :=
  past.filterMap fun record => record.2.command?

/-- A step behind a run adds its command. -/
theorem Session.commands_snoc (past : List (Session × Session.Label)) (session : Session)
    (label : Session.Label) :
    Session.commands (past ++ [(session, label)]) =
      Session.commands past ++ label.command?.toList := by
  rw [commands, commands, List.filterMap_append]
  cases begins : label.command? with
  | none => rw [List.filterMap_cons_none (by exact begins), List.filterMap_nil, Option.toList_none]
  | some command =>
      rw [List.filterMap_cons_some (by exact begins), List.filterMap_nil, Option.toList_some]

/-- A session, what is still to be read, the line in `in`, the vector of arguments, and whether
the loop has been left. -/
structure Console where
  session : Session
  input : Bytes
  /-- The end of the input has been met. -/
  eof : Bool := false
  line : Bytes := []
  args : List Bytes := []
  ended : Bool := false

namespace Console

/-- `getline(cin, in)`. The last line ends with the input; behind that nothing is read, and `in`
stays as it is. -/
def getline (console : Console) : Console :=
  if console.eof then console
  else
    let line := console.input.takeWhile (· ≠ ArgParser.newline)
    match console.input.dropWhile (· ≠ ArgParser.newline) with
    | [] => { console with input := [], eof := true, line }
    | _ :: input => { console with input, line }

/-- A step of the session that is no command, or a turn of the loop. -/
inductive Label
  | thread (label : Session.Label)
  | line

/-- Steps of the threads and of the loop. A turn reads a line and carries out what it says,
whether `getline` has failed or not. -/
inductive Step (env : Env) : Console → Label → Console → Prop
  | thread {console : Console} {label : Session.Label} {after : Session}
      (own : label.command? = none)
      -- the torrents are read in `init`
      (begun : ∀ server, label ≠ .system (.populateLocalTorrents server))
      (step : Session.Step env console.session label after) :
      Step env console (.thread label) { console with session := after }
  | call {console : Console} {command : Command} {label : Session.Label} {after : Session}
      (running : console.ended = false)
      (read : Command.dispatch (ArgParser.parse console.getline.line console.args) = some command)
      (calls : label.command? = some command)
      (step : Session.Step env console.session label after) :
      Step env console .line { console.getline with session := after, args := [] }
  | pass {console : Console} {command : Command} (running : console.ended = false)
      (waits : console.session.Waits)
      (read : Command.dispatch (ArgParser.parse console.getline.line console.args) = some command)
      (passes : command.isCall = false) (stays : command ≠ .quit) :
      Step env console .line { console.getline with args := [] }
  | quit {console : Console} (running : console.ended = false) (waits : console.session.Waits)
      (read : Command.dispatch (ArgParser.parse console.getline.line console.args) = some .quit) :
      Step env console .line
        { console.getline with
          args := ArgParser.parse console.getline.line console.args, ended := true }

/-- The pieces between the newlines of a text. -/
def lines (text : Bytes) : List Bytes :=
  Separator.split ⟨[ArgParser.newline], List.cons_ne_nil _ _⟩ text

/-- The line behind the last newline. -/
def lastLine (text : Bytes) : Bytes := (lines text).getLastD []

/-- The line a turn finds: one after the other, and behind them the last one. -/
def typed (text : Bytes) (turn : Nat) : Bytes := (lines text).getD turn (lastLine text)

/-- The lines the first turns find. -/
def read (text : Bytes) (turns : Nat) : List Bytes := (List.range turns).map (typed text)

variable {env : Env} {session : Session} {text : Bytes} {console after : Console} {turns : Nat}
  {calls : List (Session × Session.Label)}

/-- What is left of the text behind some turns. -/
def Stands (text : Bytes) (turns : Nat) (console : Console) : Prop :=
  if console.eof then (lines text).length ≤ turns ∧ console.line = lastLine text
  else lines console.input = (lines text).drop turns

theorem typed_of_drop {line : Bytes} {rest : List Bytes}
    (left : (lines text).drop turns = line :: rest) : typed text turns = line := by
  have found : (lines text)[turns]? = some line := by
    rw [← List.head?_drop, left, List.head?_cons]
  rw [typed, List.getD_eq_getElem?_getD, found, Option.getD_some]

/-- A turn finds the next line, or the last one again. -/
theorem getline_spec (stands : Stands text turns console) :
    console.getline.line = typed text turns ∧ Stands text (turns + 1) console.getline := by
  unfold Stands at stands
  unfold getline
  split at stands
  · next ended =>
      rw [if_pos ended, typed, List.getD_eq_default _ _ stands.1]
      refine ⟨stands.2, ?_⟩
      rw [Stands, if_pos ended]
      exact ⟨Nat.le_succ_of_le stands.1, stands.2⟩
  · next more =>
      rw [if_neg more]
      have whole := console.input.takeWhile_append_dropWhile (p := (· ≠ ArgParser.newline))
      have clean : ArgParser.newline ∉ console.input.takeWhile (· ≠ ArgParser.newline) := by
        intro member
        have other := List.mem_takeWhile_imp member
        exact of_decide_eq_true other rfl
      cases behind : console.input.dropWhile (· ≠ ArgParser.newline) with
      | nil =>
          rw [behind, List.append_nil] at whole
          rw [← whole, lines, ArgParser.split_whole clean] at stands
          have counted := congrArg List.length stands
          rw [List.length_singleton, List.length_drop] at counted
          refine ⟨(typed_of_drop stands.symm).symm, ?_⟩
          rw [Stands, if_pos rfl]
          refine ⟨by omega, ?_⟩
          rw [lastLine, ← (lines text).take_append_drop turns, ← stands, List.getLastD_concat]
      | cons first rest =>
          have first : first = ArgParser.newline := by
            have stops := List.head?_dropWhile_not (· ≠ ArgParser.newline) console.input
            rw [behind] at stops
            simpa using stops
          rw [behind, first] at whole
          rw [← whole, lines, ArgParser.split_append clean] at stands
          refine ⟨(typed_of_drop stands.symm).symm, ?_⟩
          rw [Stands, if_neg more, ← List.drop_drop, ← stands, List.drop_one, List.tail_cons]
          rfl

theorem read_succ (text : Bytes) (turns : Nat) :
    read text (turns + 1) = read text turns ++ [typed text turns] := by
  rw [read, List.range_succ, List.map_append]
  rfl

/-- The session has gone on by the commands of the lines that the turns find. -/
structure Follows (env : Env) (session : Session) (text : Bytes) (turns : Nat)
    (calls : List (Session × Session.Label)) (console : Console) : Prop where
  stands : Stands text turns console
  run : Transition.Run (Session.Step env) session calls console.session
  commands : Session.commands calls =
    ((read text turns).filterMap Command.ofLine).filter Command.isCall
  defined : ∀ line ∈ read text turns,
    (ArgParser.parse line []).head? = some Node.requestChunkAvailCmd →
      3 ≤ (ArgParser.parse line []).length
  cleared : console.ended = false → console.args = []
  ended : if console.ended then ∃ front line, read text turns = front ++ [line] ∧
      Command.ofLine line = some .quit ∧ ∀ earlier ∈ front, Command.ofLine earlier ≠ some .quit
    else ∀ line ∈ read text turns, Command.ofLine line ≠ some .quit

/-- A turn carries out the line it finds. -/
theorem Follows.line (follows : Follows env session text turns calls console)
    (running : console.ended = false) {command : Command} (dispatched :
      Command.dispatch (ArgParser.parse console.getline.line console.args) = some command) :
    Command.ofLine (typed text turns) = some command ∧
      Stands text (turns + 1) console.getline ∧
      (∀ line ∈ read text (turns + 1),
        (ArgParser.parse line []).head? = some Node.requestChunkAvailCmd →
          3 ≤ (ArgParser.parse line []).length) ∧
      ((read text (turns + 1)).filterMap Command.ofLine).filter Command.isCall =
        ((read text turns).filterMap Command.ofLine).filter Command.isCall ++
          [command].filter Command.isCall := by
  obtain ⟨found, stands⟩ := getline_spec follows.stands
  rw [follows.cleared running, found] at dispatched
  have same : Command.ofLine (typed text turns) = some command := dispatched
  refine ⟨same, stands, fun line member => ?_, ?_⟩
  · rw [read_succ] at member
    rcases List.mem_append.mp member with before | last
    · exact follows.defined line before
    · rw [List.mem_singleton.mp last]
      exact Command.length_of_ofLine same
  · rw [read_succ, List.filterMap_append, List.filter_append, List.filterMap_cons_some same]
    rfl

/-- The loop goes on behind a command that does not leave it. -/
theorem Follows.goes_on (follows : Follows env session text turns calls console)
    (running : console.ended = false) {command : Command}
    (same : Command.ofLine (typed text turns) = some command) (stays : command ≠ .quit) :
    ∀ line ∈ read text (turns + 1), Command.ofLine line ≠ some .quit := by
  have before := follows.ended
  rw [running] at before
  intro line member
  rw [read_succ] at member
  rcases List.mem_append.mp member with inside | last
  · exact before line inside
  · rw [List.mem_singleton.mp last, same]
    exact fun quits => stays (Option.some.inj quits)

theorem getline_session (console : Console) : console.getline.session = console.session := by
  unfold getline
  split
  · rfl
  · split <;> rfl

theorem getline_ended (console : Console) : console.getline.ended = console.ended := by
  unfold getline
  split
  · rfl
  · split <;> rfl

/-- A step goes on with the lines that were read, or reads the next one. -/
theorem Step.follows {label : Label} (step : Step env console label after)
    (follows : Follows env session text turns calls console) :
    ∃ turns calls, Follows env session text turns calls after := by
  cases step with
  | @thread label left own _ step =>
      refine ⟨turns, calls ++ [(console.session, label)], follows.stands, follows.run.snoc step,
        ?_, follows.defined, follows.cleared, follows.ended⟩
      rw [Session.commands_snoc, own, Option.toList_none, List.append_nil]
      exact follows.commands
  | @call command label left running dispatched begins step =>
      obtain ⟨same, stands, defined, filtered⟩ := follows.line running dispatched
      have call := Session.Label.isCall_of_command? begins
      refine ⟨turns + 1, calls ++ [(console.session, label)], stands, follows.run.snoc step, ?_,
        defined, fun _ => rfl, ?_⟩
      · rw [Session.commands_snoc, begins, Option.toList_some, follows.commands, filtered,
          List.filter_cons_of_pos call, List.filter_nil]
      · simp only [getline_ended, running]
        refine follows.goes_on running same ?_
        rintro rfl
        cases call
  | @pass command running _ dispatched passes stays =>
      obtain ⟨same, stands, defined, filtered⟩ := follows.line running dispatched
      refine ⟨turns + 1, calls, stands, ?_, ?_, defined, fun _ => rfl, ?_⟩
      · simp only [getline_session]
        exact follows.run
      · rw [follows.commands, filtered, List.filter_cons_of_neg (Bool.eq_false_iff.mp passes),
          List.filter_nil, List.append_nil]
      · simp only [getline_ended, running]
        exact follows.goes_on running same stays
  | quit running _ dispatched =>
      obtain ⟨same, stands, defined, filtered⟩ := follows.line running dispatched
      have before := follows.ended
      rw [running] at before
      refine ⟨turns + 1, calls, stands, ?_, ?_, defined, fun left => ?_, ?_⟩
      · simp only [getline_session]
        exact follows.run
      · rw [follows.commands, filtered, List.filter_cons_of_neg Bool.false_ne_true,
          List.filter_nil, List.append_nil]
      · cases left
      · exact ⟨_, _, read_succ text turns, same, before⟩

/-- The lines that are found are those of the text, and behind them the last one. -/
theorem read_eq (text : Bytes) (turns : Nat) : read text turns =
    (lines text).take turns ++ List.replicate (turns - (lines text).length) (lastLine text) := by
  induction turns with
  | zero => rw [Nat.zero_sub, List.take_zero, List.replicate_zero, read, List.range_zero,
      List.map_nil, List.append_nil]
  | succ turns ih =>
      rw [read_succ, ih, typed, List.getD_eq_getElem?_getD]
      by_cases inside : turns < (lines text).length
      · rw [Nat.sub_eq_zero_of_le (Nat.le_of_lt inside), Nat.sub_eq_zero_of_le inside,
          List.take_add_one, List.getElem?_eq_getElem inside]
        simp only [List.replicate_zero, List.append_nil, Option.getD_some, Option.toList_some]
      · have beyond : (lines text).length ≤ turns := Nat.not_lt.mp inside
        rw [List.getElem?_eq_none beyond, Option.getD_none, List.take_of_length_le beyond,
          List.take_of_length_le (Nat.le_succ_of_le beyond), Nat.succ_sub beyond,
          List.replicate_succ', List.append_assoc]

/-- Behind a newline at the end no command is found. -/
theorem read_commands_of_nil (ends : lastLine text = []) :
    ((read text turns).filterMap Command.ofLine).filter Command.isCall =
      (((lines text).take turns).filterMap Command.ofLine).filter Command.isCall := by
  have empty : Command.ofLine [] = some .nothing := by
    rw [Command.ofLine, ArgParser.Spells.nil.parse_eq (by decide) List.not_mem_nil]
    rfl
  have none : ∀ count, ((List.replicate count ([] : Bytes)).filterMap Command.ofLine).filter
      Command.isCall = [] := fun count => by
    rw [List.filterMap_replicate_of_some empty, List.filter_replicate]
    rfl
  rw [read_eq, ends, List.filterMap_append, List.filter_append, none, List.append_nil]

/-- **Commands in order.** Under every interleaving with the threads, the session goes on by the
commands of the lines of the text, in the order typed; behind the last one its command is
carried out again in every turn, unless it is empty, as it is behind a newline, and then every
command is carried out once. An availability is requested with both arguments only, and the
loop has been left exactly if the last line found says so. -/
theorem commands_in_order (env : Env) (session : Session) (text : Bytes) {final : Console}
    {past : List (Console × Label)}
    (run : Transition.Run (Step env) { session, input := text } past final) :
    ∃ turns calls, Follows env session text turns calls final ∧
      read text turns = (lines text).take turns ++
        List.replicate (turns - (lines text).length) (lastLine text) ∧
      (lastLine text = [] → Session.commands calls =
        (((lines text).take turns).filterMap Command.ofLine).filter Command.isCall) := by
  suffices follows : ∃ turns calls, Follows env session text turns calls final by
    obtain ⟨turns, calls, follows⟩ := follows
    exact ⟨turns, calls, follows, read_eq text turns, fun ends =>
      follows.commands.trans (read_commands_of_nil ends)⟩
  refine run.always (fun console => ∃ turns calls, Follows env session text turns calls console)
    (fun _ _ _ follows step => ?_) ⟨0, [], rfl, .nil, rfl, ?_, fun _ => rfl, ?_⟩
  · obtain ⟨turns, calls, follows⟩ := follows
    exact step.follows follows
  · exact fun line member => absurd member List.not_mem_nil
  · exact fun line member => absurd member List.not_mem_nil

/-- The torrents nearby are listed, with no device in reach, and the loop is left. -/
theorem commands_in_order_quit :
    let env := Env.byLength .null
    let text := Node.listNearbyTorsCmd ++ ArgParser.newline :: Node.quitCmd
    let session : Session := { system := { node := {} } }
    ∃ past final, Transition.Run (Step env) { session, input := text } past final ∧
      final.ended = true ∧
      ∃ turns calls, Follows env session text turns calls final ∧
        read text turns = (lines text).take turns ++
          List.replicate (turns - (lines text).length) (lastLine text) ∧
        (lastLine text = [] → Session.commands calls =
          (((lines text).take turns).filterMap Command.ofLine).filter Command.isCall) := by
  intro env text session
  have lists : ArgParser.parse Node.listNearbyTorsCmd [] = [Node.listNearbyTorsCmd] :=
    (ArgParser.Spells.last (by decide) (by decide)).parse_eq (by decide) (by decide)
  have quits : ArgParser.parse Node.quitCmd [] = [Node.quitCmd] :=
    (ArgParser.Spells.last (by decide) (by decide)).parse_eq (by decide) (by decide)
  have listed : Command.ofLine Node.listNearbyTorsCmd = some (.listNearbyTorrents []) := by
    rw [Command.ofLine, lists]
    rfl
  have quitted : Command.ofLine Node.quitCmd = some .quit := by
    rw [Command.ofLine, quits]
    rfl
  have listing : Session.Step env session (.listNearbyTorrents []) session :=
    .listNearbyTorrents ⟨rfl, rfl⟩ (.refl _)
  have first : Step env { session, input := text } .line
      { session, input := Node.quitCmd, line := Node.listNearbyTorsCmd } :=
    .call rfl listed rfl listing
  have last : Step env { session, input := Node.quitCmd, line := Node.listNearbyTorsCmd } .line
      { session, input := [], eof := true, line := Node.quitCmd
        args := ArgParser.parse Node.quitCmd [], ended := true } :=
    .quit rfl ⟨rfl, rfl⟩ quitted
  have run := (Transition.Run.nil.snoc first).snoc last
  exact ⟨_, _, run, rfl, commands_in_order env session text run⟩

end Console

end Bp2p
