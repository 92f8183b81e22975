import Bp2p.Connection
import Mathlib.Data.List.Basic

/-! # Threads that share the connection

Objects come and go in all threads of the node, and the query for all torrents counts itself among
them. A thread lets the mutex go between the statements of a constructor and of that query, so
the others come in between. Whoever counts has the connection that was there when it began, to
its end, and each connection is deleted once, exactly in the runs where the query does not give
back a connection it was refused (`Bp2p.Sharing.shared_iff`).
-/

namespace Bp2p

/-- Where somebody who counts is: in the constructor of a `TorrentDB`, behind that of its base, in
its lifetime, or in `getAllTorrentRows`. -/
inductive Phase
  | constructing
  | live
  | reading
  deriving DecidableEq

/-- Somebody who counts, and the connection there was when that began. -/
structure Sharer where
  phase : Phase
  connection : Option Nat

/-- The connector, those who count, and the calls of `getAllTorrentRows` that were refused a
connection and have not left yet. The connection objects that were made are numbered; the deleted
ones are kept, the last one first. -/
structure Sharing where
  connector : DatabaseConnector := {}
  made : Nat := 0
  deleted : List Nat := []
  sharers : List Sharer := []
  refused : Nat := 0

namespace Sharing

open DatabaseConnector

/-- The object that `con` points to: `connect` overwrites it. -/
def con (sharing : Sharing) : Option Nat :=
  if sharing.connector.con then some (sharing.made - 1) else none

/-- With the connector that `connectIfNeeded` leaves. -/
def opened (sharing : Sharing) (connector : DatabaseConnector) : Sharing :=
  { sharing with
    connector
    made := if sharing.connector.connectionCounter = 0 then sharing.made + 1 else sharing.made }

/-- With one more who counts. -/
def join (sharing : Sharing) (phase : Phase) : Sharing :=
  { sharing with sharers := ⟨phase, sharing.con⟩ :: sharing.sharers }

/-- With the connector that `disconnectIfNeeded` leaves. -/
def released (sharing : Sharing) (sharers : List Sharer) : Sharing :=
  { sharing with
    connector := sharing.connector.disconnectIfNeeded
    deleted := if sharing.connector.disconnectIfNeeded.con then sharing.deleted
      else sharing.con.toList ++ sharing.deleted
    sharers }

/-- The statements that take a connection, use it or give it back. -/
inductive Label
  | init (answers : Answers)
  | construct (answers : Answers)
  | setSchema (answers : Answers)
  | statement (answers : Answers)
  | destroy
  | getAllTorrentRows (answers : Answers)
  | finish
  | abandon

/-- The steps of all threads. -/
inductive Step : Sharing → Label → Sharing → Prop
  -- `Node::init` reads the torrents only behind it
  | init {sharing : Sharing} {answers : Answers} {connector : DatabaseConnector}
      (first : sharing.sharers = [])
      (connected : sharing.connector.connect answers = .returned connector) :
      Step sharing (.init answers) { sharing with
        connector := connector.disconnect
        made := sharing.made + 1
        deleted := sharing.made :: sharing.deleted }
  | construct {sharing : Sharing} {answers : Answers} {connector : DatabaseConnector}
      (connected : sharing.connector.connectIfNeeded answers = .returned connector) :
      Step sharing (.construct answers) ((sharing.opened connector).join .constructing)
  -- what throws in the constructor of the base leaves no object
  | constructRefused {sharing : Sharing} {answers : Answers} {connector : DatabaseConnector}
      (thrown : sharing.connector.connectIfNeeded answers = .thrown connector) :
      Step sharing (.construct answers) { sharing with connector }
  | setSchema {sharing : Sharing} {answers : Answers} {connector : DatabaseConnector}
      {front back : List Sharer} {connection : Option Nat}
      (begun : sharing.sharers = front ++ ⟨.constructing, connection⟩ :: back)
      (set : sharing.connector.setSchema answers = .returned connector) :
      Step sharing (.setSchema answers)
        { sharing with connector, sharers := front ++ ⟨.live, connection⟩ :: back }
  -- the base is there, and is destroyed
  | setSchemaThrows {sharing : Sharing} {answers : Answers} {connector : DatabaseConnector}
      {front back : List Sharer} {connection : Option Nat}
      (begun : sharing.sharers = front ++ ⟨.constructing, connection⟩ :: back)
      (thrown : sharing.connector.setSchema answers = .thrown connector) :
      Step sharing (.setSchema answers)
        (released { sharing with connector } (front ++ back))
  | statement {sharing : Sharing} {answers : Answers} {sharer : Sharer}
      (counts : sharer ∈ sharing.sharers) (ready : sharer.phase ≠ .constructing)
      (run : sharing.connector.queryRows answers ≠ .undefined) :
      Step sharing (.statement answers) sharing
  | destroy {sharing : Sharing} {front back : List Sharer} {connection : Option Nat}
      (lives : sharing.sharers = front ++ ⟨.live, connection⟩ :: back) :
      Step sharing .destroy (sharing.released (front ++ back))
  | getAllTorrentRows {sharing : Sharing} {answers : Answers} {connector : DatabaseConnector}
      (connected : sharing.connector.connectIfNeeded answers = .returned connector) :
      Step sharing (.getAllTorrentRows answers) ((sharing.opened connector).join .reading)
  | getAllTorrentRowsRefused {sharing : Sharing} {answers : Answers}
      {connector : DatabaseConnector}
      (thrown : sharing.connector.connectIfNeeded answers = .thrown connector) :
      Step sharing (.getAllTorrentRows answers)
        { sharing with connector, refused := sharing.refused + 1 }
  -- it disconnects behind its last row and when a statement throws
  | finish {sharing : Sharing} {front back : List Sharer} {connection : Option Nat}
      (reads : sharing.sharers = front ++ ⟨.reading, connection⟩ :: back) :
      Step sharing .finish (sharing.released (front ++ back))
  -- and when it was the connection that it was refused
  | abandon {sharing : Sharing} {refused : Nat} (waits : sharing.refused = refused + 1) :
      Step sharing .abandon (released { sharing with refused } sharing.sharers)

/-- The counter counts; whoever counts has the connection there was when that began, so none of
its statements goes to a null pointer; and every other connection that was made has been deleted,
once. -/
structure Balanced (sharing : Sharing) : Prop where
  counter : sharing.connector.connectionCounter.toNat = sharing.sharers.length
  connected : sharing.connector.Connected
  shared : ∀ sharer ∈ sharing.sharers,
    ∃ connection, sharing.con = some connection ∧ sharer.connection = some connection
  deleted : sharing.con.toList ++ sharing.deleted = (List.range sharing.made).reverse

variable {sharing : Sharing}

/-- A statement leaves the connection as it is when it returns. -/
theorem onConnection_returned {succeeds : Bool} {connector after : DatabaseConnector}
    (ended : connector.onConnection succeeds = .returned after) : after = connector := by
  unfold onConnection at ended
  split at ended
  · split at ended
    · cases ended
      rfl
    · cases ended
  · cases ended

/-- A statement leaves the connection as it is when it throws. -/
theorem onConnection_thrown {succeeds : Bool} {connector after : DatabaseConnector}
    (ended : connector.onConnection succeeds = .thrown after) : after = connector := by
  unfold onConnection at ended
  split at ended
  · split at ended
    · cases ended
    · cases ended
      rfl
  · cases ended

/-- Who connects acquires the connection. -/
theorem Balanced.opened (balanced : sharing.Balanced) {answers : Answers}
    {connector : DatabaseConnector}
    (ended : sharing.connector.connectIfNeeded answers = .returned connector) :
    connector = sharing.connector.acquired := by
  rw [connectIfNeeded_eq balanced.connected] at ended
  split at ended
  · cases ended
    rfl
  · cases ended

/-- What is refused changes nothing. -/
theorem Balanced.refuse (balanced : sharing.Balanced) {answers : Answers}
    {connector : DatabaseConnector}
    (ended : sharing.connector.connectIfNeeded answers = .thrown connector) :
    connector = sharing.connector := by
  rw [connectIfNeeded_eq balanced.connected] at ended
  split at ended
  · cases ended
  · cases ended
    rfl

theorem connected_closed : Connected ⟨0, false⟩ :=
  ⟨fun there => absurd there Bool.false_ne_true, fun more => absurd more (by decide)⟩

theorem con_join (phase : Phase) : (sharing.join phase).con = sharing.con := rfl

theorem made_join (phase : Phase) : (sharing.join phase).made = sharing.made := rfl

theorem deleted_join (connector : DatabaseConnector) (phase : Phase) :
    ((sharing.opened connector).join phase).deleted = sharing.deleted := rfl

theorem Balanced.connectionCounter_eq_zero_iff (balanced : sharing.Balanced) :
    sharing.connector.connectionCounter = 0 ↔ sharing.sharers = [] := by
  rw [← UInt32.toNat_inj, balanced.counter]
  exact List.length_eq_zero_iff

/-- Without anybody there is no connection. -/
theorem Balanced.con_eq_none (balanced : sharing.Balanced) (alone : sharing.sharers = []) :
    sharing.con = none := by
  have zero := balanced.connectionCounter_eq_zero_iff.mpr alone
  refine if_neg fun there => ?_
  exact absurd zero (UInt32.pos_iff_ne_zero.mp (balanced.connected.mp there))

/-- One more is counted, on a new connection or on the one that is there. -/
theorem Balanced.join (balanced : sharing.Balanced)
    (short : sharing.sharers.length + 1 < 2 ^ 32) (phase : Phase) :
    ((sharing.opened sharing.connector.acquired).join phase).Balanced := by
  have counted : sharing.connector.acquired.connectionCounter.toNat =
      sharing.sharers.length + 1 := by
    rw [← balanced.counter] at short ⊢
    exact toNat_add_one_lt.mpr short
  have connected : sharing.connector.acquired.Connected := by
    refine ⟨fun _ => ?_, fun _ => rfl⟩
    rw [UInt32.lt_iff_toNat_lt, counted]
    exact Nat.succ_pos _
  by_cases first : sharing.connector.connectionCounter = 0
  · have alone := balanced.connectionCounter_eq_zero_iff.mp first
    have made : (sharing.opened sharing.connector.acquired).made = sharing.made + 1 :=
      if_pos first
    have con : (sharing.opened sharing.connector.acquired).con = some sharing.made := by
      rw [Sharing.con, made]
      rfl
    have deleted := balanced.deleted
    rw [balanced.con_eq_none alone, Option.toList_none, List.nil_append] at deleted
    refine ⟨counted, connected, fun sharer counts => ?_, ?_⟩
    · rcases List.mem_cons.mp counts with rfl | before
      · exact ⟨_, con, con⟩
      · have others : sharer ∈ sharing.sharers := before
        rw [alone] at others
        cases others
    · rw [con_join, made_join, deleted_join, con, made, List.range_succ, List.reverse_append,
        ← deleted]
      rfl
  · have made : (sharing.opened sharing.connector.acquired).made = sharing.made :=
      if_neg first
    have con : (sharing.opened sharing.connector.acquired).con = sharing.con := by
      have there := balanced.connected.mpr (UInt32.pos_iff_ne_zero.mpr first)
      rw [Sharing.con, Sharing.con, made, if_pos there]
      rfl
    have accompanied : sharing.sharers ≠ [] :=
      fun none => first (balanced.connectionCounter_eq_zero_iff.mpr none)
    refine ⟨counted, connected, fun sharer counts => ?_, ?_⟩
    · rw [con_join]
      rcases List.mem_cons.mp counts with rfl | before
      · obtain ⟨other, member⟩ := List.exists_mem_of_ne_nil _ accompanied
        obtain ⟨connection, there, _⟩ := balanced.shared other member
        exact ⟨connection, con.trans there, con.trans there⟩
      · rw [con]
        exact balanced.shared sharer before
    · rw [con_join, made_join, deleted_join, con, made]
      exact balanced.deleted

/-- One less is counted; the last one closes the connection. -/
theorem Balanced.released (balanced : sharing.Balanced) {front back : List Sharer}
    {sharer : Sharer} (counts : sharing.sharers = front ++ sharer :: back) :
    (sharing.released (front ++ back)).Balanced := by
  have length : sharing.sharers.length = (front ++ back).length + 1 := by
    rw [counts, List.length_append, List.length_cons, List.length_append]
    rfl
  have positive : 0 < sharing.connector.connectionCounter := by
    rw [UInt32.lt_iff_toNat_lt, balanced.counter, length]
    exact Nat.succ_pos _
  have counted : (sharing.connector.connectionCounter - 1).toNat = (front ++ back).length := by
    have least : 1 ≤ sharing.connector.connectionCounter :=
      UInt32.le_iff_toNat_le.mpr (UInt32.lt_iff_toNat_lt.mp positive)
    rw [UInt32.toNat_sub_of_le _ _ least, balanced.counter, length]
    rfl
  have rest : ∀ other ∈ front ++ back, other ∈ sharing.sharers := by
    rw [counts]
    exact (List.Sublist.append_left (List.sublist_cons_self ..) front).subset
  by_cases last : sharing.connector.connectionCounter - 1 = 0
  · have alone : front ++ back = [] := by
      rw [← List.length_eq_zero_iff, ← counted, last]
      rfl
    have left : sharing.connector.disconnectIfNeeded =
        ⟨sharing.connector.connectionCounter - 1, false⟩ := if_pos last
    have con : (sharing.released (front ++ back)).con = none :=
      if_neg (by rw [Sharing.released, left]; exact Bool.false_ne_true)
    have deleted : (sharing.released (front ++ back)).deleted =
        sharing.con.toList ++ sharing.deleted :=
      if_neg (by rw [left]; exact Bool.false_ne_true)
    refine ⟨?_, ?_, fun other member => ?_, ?_⟩
    · rw [Sharing.released, left]
      exact counted
    · rw [Sharing.released, left, last]
      exact connected_closed
    · have none : other ∈ front ++ back := member
      rw [alone] at none
      cases none
    · rw [con, deleted]
      exact balanced.deleted
  · have left : sharing.connector.disconnectIfNeeded =
        ⟨sharing.connector.connectionCounter - 1, sharing.connector.con⟩ := if_neg last
    have there := balanced.connected.mpr positive
    have con : (sharing.released (front ++ back)).con = sharing.con := by
      unfold Sharing.con Sharing.released
      rw [left]
    have deleted : (sharing.released (front ++ back)).deleted = sharing.deleted :=
      if_pos (by rw [left]; exact there)
    refine ⟨?_, ?_, fun other member => ?_, ?_⟩
    · rw [Sharing.released, left]
      exact counted
    · rw [Sharing.released, left]
      exact ⟨fun _ => UInt32.pos_iff_ne_zero.mpr last, fun _ => there⟩
    · rw [con]
      exact balanced.shared other (rest other member)
    · rw [con, deleted]
      exact balanced.deleted

/-- A count that is given back twice is wrong. -/
theorem Balanced.not_released (balanced : sharing.Balanced) (refused : Nat) :
    ¬ (Sharing.released { sharing with refused } sharing.sharers).Balanced := by
  intro after
  have counter : sharing.connector.disconnectIfNeeded.connectionCounter.toNat =
      sharing.sharers.length := after.counter
  rw [connectionCounter_disconnectIfNeeded, ← balanced.counter] at counter
  exact toNat_sub_one_ne _ counter

/-- The connection that `init` tries is closed again. -/
theorem Balanced.init (balanced : sharing.Balanced) (first : sharing.sharers = [])
    {answers : Answers} {connector : DatabaseConnector}
    (connected : sharing.connector.connect answers = .returned connector) :
    Balanced { sharing with
      connector := connector.disconnect
      made := sharing.made + 1
      deleted := sharing.made :: sharing.deleted } := by
  have zero := balanced.connectionCounter_eq_zero_iff.mpr first
  have deleted := balanced.deleted
  rw [balanced.con_eq_none first, Option.toList_none, List.nil_append] at deleted
  unfold DatabaseConnector.connect at connected
  split at connected
  · cases connected
    refine ⟨balanced.counter, ?_, fun sharer counts => ?_, ?_⟩
    · rw [disconnect, zero]
      exact connected_closed
    · have others : sharer ∈ sharing.sharers := counts
      rw [first] at others
      cases others
    · have made : (List.range (sharing.made + 1)).reverse = sharing.made :: sharing.deleted := by
        rw [List.range_succ, List.reverse_append, ← deleted]
        rfl
      exact made.symm
  · cases connected

/-- An object keeps its connection when its constructor ends. -/
theorem Balanced.construct (balanced : sharing.Balanced) {front back : List Sharer}
    {connection : Option Nat}
    (begun : sharing.sharers = front ++ ⟨.constructing, connection⟩ :: back) :
    Balanced { sharing with sharers := front ++ ⟨.live, connection⟩ :: back } := by
  refine ⟨?_, balanced.connected, fun sharer counts => ?_, balanced.deleted⟩
  · rw [balanced.counter, begun, List.length_append, List.length_append]
    rfl
  · have shared := balanced.shared
    rw [begun] at shared
    rcases List.mem_append.mp counts with before | rest
    · exact shared sharer (List.mem_append_left _ before)
    · rcases List.mem_cons.mp rest with rfl | behind
      · exact shared ⟨.constructing, connection⟩
          (List.mem_append_right _ List.mem_cons_self)
      · exact shared sharer (List.mem_append_right _ (List.mem_cons_of_mem _ behind))

/-- A step that does not give back a refused connection keeps the accounts right. -/
theorem Step.balanced {after : Sharing} {label : Label} (step : Step sharing label after)
    (balanced : sharing.Balanced) (short : sharing.sharers.length + 1 < 2 ^ 32)
    (other : label ≠ .abandon) : after.Balanced := by
  cases step with
  | init first connected => exact balanced.init first connected
  | construct connected =>
      rw [balanced.opened connected]
      exact balanced.join short _
  | constructRefused thrown =>
      rw [balanced.refuse thrown]
      exact balanced
  | setSchema begun set =>
      rw [onConnection_returned set]
      exact balanced.construct begun
  | setSchemaThrows begun thrown =>
      rw [onConnection_thrown thrown]
      exact balanced.released begun
  | statement _ _ _ => exact balanced
  | destroy lives => exact balanced.released lives
  | getAllTorrentRows connected =>
      rw [balanced.opened connected]
      exact balanced.join short _
  | getAllTorrentRowsRefused thrown =>
      rw [balanced.refuse thrown]
      exact ⟨balanced.counter, balanced.connected, balanced.shared, balanced.deleted⟩
  | finish reads => exact balanced.released reads
  | abandon _ => exact absurd rfl other

theorem balanced_start : ({} : Sharing).Balanced :=
  ⟨rfl, connected_closed, fun _ counts => absurd counts List.not_mem_nil, rfl⟩

/-- **Threads that share the connection.** In a run with fewer than 2^32 counts at a time,
everybody has the connection to the end and each one is deleted once, throughout exactly if
`getAllTorrentRows` never gives back a connection it was refused. -/
theorem shared_iff {final : Sharing} {past : List (Sharing × Label)}
    (run : Transition.Run Step {} past final)
    (short : Transition.Meets (fun sharing _ => sharing.sharers.length + 1 < 2 ^ 32) past) :
    Transition.Throughout Step {} past Balanced ↔
      Transition.Meets (fun _ label => label ≠ .abandon) past := by
  constructor
  · intro holds record member
    obtain ⟨source, label⟩ := record
    obtain ⟨before, target, front, reached, taken, extended⟩ := run.split_at member
    have balanced := holds before source ((List.prefix_append _ _).trans front) reached
    rintro rfl
    cases taken with
    | @abandon refused _ => exact balanced.not_released refused (holds _ _ front extended)
  · intro meets
    have both : Transition.Meets (fun sharing label =>
        sharing.sharers.length + 1 < 2 ^ 32 ∧ label ≠ .abandon) past :=
      fun record member => ⟨short record member, meets record member⟩
    exact Transition.Throughout.of_invariant Balanced
      (fun _ _ _ balanced meets step => step.balanced balanced meets.1 meets.2)
      (fun _ balanced => balanced) balanced_start both

/-- While an object lives, the query for all torrents finds the server gone: the object's
connection is taken away. -/
theorem shared_iff_gone :
    ∃ past final, Transition.Run Step {} past final ∧
      ¬ Transition.Throughout Step {} past Balanced ∧
      final.sharers = [⟨.live, some 0⟩] ∧ final.con = none := by
  have begun : Step {} (.construct willing) ⟨⟨1, true⟩, 1, [], [⟨.constructing, some 0⟩], 0⟩ :=
    .construct rfl
  have lives : Step ⟨⟨1, true⟩, 1, [], [⟨.constructing, some 0⟩], 0⟩ (.setSchema willing)
      ⟨⟨1, true⟩, 1, [], [] ++ ⟨.live, some 0⟩ :: [], 0⟩ := .setSchema rfl rfl
  have refused : Step ⟨⟨1, true⟩, 1, [], [⟨.live, some 0⟩], 0⟩ (.getAllTorrentRows unreachable)
      ⟨⟨1, true⟩, 1, [], [⟨.live, some 0⟩], 1⟩ := .getAllTorrentRowsRefused rfl
  have left : Step ⟨⟨1, true⟩, 1, [], [⟨.live, some 0⟩], 1⟩ .abandon
      (released ⟨⟨1, true⟩, 1, [], [⟨.live, some 0⟩], 0⟩ [⟨.live, some 0⟩]) := .abandon rfl
  have run := (((Transition.Run.nil.snoc begun).snoc lives).snoc refused).snoc left
  refine ⟨_, _, run, fun balanced => ?_, rfl, by decide⟩
  refine (shared_iff run ?_).mp balanced _
    (List.mem_append_right _ (List.mem_singleton_self _)) rfl
  refine (Transition.meets_append_singleton ..).mpr ⟨?_, by decide⟩
  refine (Transition.meets_append_singleton ..).mpr ⟨?_, by decide⟩
  refine (Transition.meets_append_singleton ..).mpr ⟨?_, by decide⟩
  exact (Transition.meets_append_singleton ..).mpr ⟨Transition.Meets.nil _, by decide⟩

end Sharing

end Bp2p
