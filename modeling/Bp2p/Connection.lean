import Bp2p.Lib.Transition
import Mathlib.Data.UInt

/-! # The connection to the database

All `TorrentDB` objects share one connection. A counter of the objects opens it with the
first and closes it with the last one; the query for all torrents counts as one more while
it runs. Whatever throws, the counter keeps up with the objects exactly as long as that
query finds the server (`Bp2p.DatabaseConnector.balanced_iff`).
-/

namespace Bp2p

/-- The static members of `DatabaseConnector`: the counter, and whether `con` is not null. -/
structure DatabaseConnector where
  connectionCounter : UInt32 := 0
  con : Bool := false

namespace DatabaseConnector

/-- How the server answers the steps of a call: a step that is false throws. For an open
connection `valid` is what `isValid` returns. -/
structure Answers where
  connects : Bool
  valid : Bool
  reconnects : Bool
  setsSchema : Bool
  queries : Bool

/-- How a call ends; it is undefined if a null pointer is dereferenced. -/
inductive Result
  | returned (db : DatabaseConnector)
  | thrown (db : DatabaseConnector)
  | undefined

/-- The next statement. -/
def Result.andThen (next : DatabaseConnector → Result) : Result → Result
  | .returned db => next db
  | .thrown db => .thrown db
  | .undefined => .undefined

/-- `connect`: a connection is made, or it throws. -/
def connect (answers : Answers) (db : DatabaseConnector) : Result :=
  if answers.connects then .returned { db with con := true } else .thrown db

/-- `reconnectIfNeeded`. -/
def reconnectIfNeeded (answers : Answers) (db : DatabaseConnector) : Result :=
  if db.con then
    if !answers.valid then
      if answers.reconnects then .returned db else .thrown db
    else .returned db
  else .returned db

/-- `connectIfNeeded`; the counter is raised behind what may throw. -/
def connectIfNeeded (answers : Answers) (db : DatabaseConnector) : Result :=
  let opened :=
    if db.connectionCounter = 0 then connect answers db else reconnectIfNeeded answers db
  opened.andThen fun db => .returned { db with connectionCounter := db.connectionCounter + 1 }

/-- `disconnect`. -/
def disconnect (db : DatabaseConnector) : DatabaseConnector := { db with con := false }

/-- `disconnectIfNeeded`: the counter wraps at zero. -/
def disconnectIfNeeded (db : DatabaseConnector) : DatabaseConnector :=
  let db := { db with connectionCounter := db.connectionCounter - 1 }
  if db.connectionCounter = 0 then disconnect db else db

/-- A statement on the connection that throws unless the server carries it out. -/
def onConnection (succeeds : Bool) (db : DatabaseConnector) : Result :=
  if db.con then
    if succeeds then .returned db else .thrown db
  else .undefined

/-- `setSchema` on the connection there is. -/
def setSchema (answers : Answers) : DatabaseConnector → Result := onConnection answers.setsSchema

/-- The queries for the rows of all torrents, their files and chunks. -/
def queryRows (answers : Answers) : DatabaseConnector → Result := onConnection answers.queries

/-- `TorrentDB::TorrentDB`. When its body throws, the destructor of the base runs. -/
def construct (answers : Answers) (db : DatabaseConnector) : Result :=
  (connectIfNeeded answers db).andThen fun db =>
    match setSchema answers db with
    | .thrown db => .thrown (disconnectIfNeeded db)
    | result => result

/-- The destructor of a `TorrentDB`. -/
def destroy (db : DatabaseConnector) : DatabaseConnector := disconnectIfNeeded db

/-- `TorrentDB::getAllTorrentRows`, with a handler around all of it. -/
def getAllTorrentRows (answers : Answers) (db : DatabaseConnector) : Result :=
  let tried := (connectIfNeeded answers db).andThen fun db =>
    (setSchema answers db).andThen fun db =>
      (queryRows answers db).andThen fun db => .returned (disconnectIfNeeded db)
  match tried with
  | .thrown db => .thrown (disconnectIfNeeded db)
  | result => result

/-- The shared connection and the number of `TorrentDB` objects. -/
structure Objects where
  connector : DatabaseConnector := {}
  live : Nat := 0

/-- What is done to objects and to the table. -/
inductive Operation
  | construct (answers : Answers)
  | destroy
  | getAllTorrentRows (answers : Answers)

/-- An object comes to life when its constructor returns. -/
inductive Step : Objects → Operation → Objects → Prop
  | construct {objects : Objects} {answers : Answers} {after : DatabaseConnector}
      (ended : objects.connector.construct answers = .returned after) :
      Step objects (.construct answers) ⟨after, objects.live + 1⟩
  | constructThrows {objects : Objects} {answers : Answers} {after : DatabaseConnector}
      (ended : objects.connector.construct answers = .thrown after) :
      Step objects (.construct answers) ⟨after, objects.live⟩
  | destroy {objects : Objects} (alive : 0 < objects.live) :
      Step objects .destroy ⟨objects.connector.destroy, objects.live - 1⟩
  | getAllTorrentRows {objects : Objects} {answers : Answers} {after : DatabaseConnector}
      (ended : objects.connector.getAllTorrentRows answers = .returned after) :
      Step objects (.getAllTorrentRows answers) ⟨after, objects.live⟩
  | getAllTorrentRowsThrows {objects : Objects} {answers : Answers} {after : DatabaseConnector}
      (ended : objects.connector.getAllTorrentRows answers = .thrown after) :
      Step objects (.getAllTorrentRows answers) ⟨after, objects.live⟩

/-- The connection is open exactly while the counter is positive. -/
def Connected (db : DatabaseConnector) : Prop := db.con = true ↔ 0 < db.connectionCounter

/-- The counter is the number of objects, and the connection is open while there are any. -/
structure Objects.Balanced (objects : Objects) : Prop where
  counted : objects.connector.connectionCounter.toNat = objects.live
  connected : objects.connector.Connected

/-- `connectIfNeeded` gets through: to a new connection without objects, to the open one
otherwise. -/
def reaches (answers : Answers) (db : DatabaseConnector) : Bool :=
  if db.connectionCounter = 0 then answers.connects else answers.valid || answers.reconnects

/-- The bulk query gets a connection, and the constructor that returns does not count beyond
32 bits. -/
def Releases (objects : Objects) : Operation → Prop
  | .construct answers =>
      objects.connector.reaches answers = true → answers.setsSchema = true →
        objects.live + 1 < 2 ^ 32
  | .destroy => True
  | .getAllTorrentRows answers => objects.connector.reaches answers = true

/-- The connector with one more user. -/
def acquired (db : DatabaseConnector) : DatabaseConnector := ⟨db.connectionCounter + 1, true⟩

/-- A connection is acquired if it is reached, and else nothing changes. -/
theorem connectIfNeeded_eq {db : DatabaseConnector} (connected : db.Connected)
    (answers : Answers) :
    db.connectIfNeeded answers =
      if db.reaches answers then .returned db.acquired else .thrown db := by
  obtain ⟨counter, con⟩ := db
  unfold connectIfNeeded reaches acquired
  by_cases zero : counter = 0
  · simp only [zero, ↓reduceIte, connect]
    cases answers.connects with
    | true => rfl
    | false => rfl
  · have opened : con = true := connected.mpr (UInt32.pos_iff_ne_zero.mpr zero)
    simp only [zero, ↓reduceIte, reconnectIfNeeded, opened]
    cases answers.valid with
    | true => rfl
    | false =>
        cases answers.reconnects with
        | true => rfl
        | false => rfl

/-- Disconnecting takes one from the counter. -/
theorem connectionCounter_disconnectIfNeeded (db : DatabaseConnector) :
    db.disconnectIfNeeded.connectionCounter = db.connectionCounter - 1 := by
  unfold disconnectIfNeeded
  simp only
  split
  · rfl
  · rfl

/-- Releasing undoes acquiring. -/
theorem disconnectIfNeeded_acquired {db : DatabaseConnector} (connected : db.Connected) :
    db.acquired.disconnectIfNeeded = db := by
  obtain ⟨counter, con⟩ := db
  simp only [disconnectIfNeeded, acquired, UInt32.add_sub_cancel]
  by_cases zero : counter = 0
  · have closed : con = false := by
      rw [Bool.eq_false_iff]
      intro opened
      exact absurd zero (UInt32.pos_iff_ne_zero.mp (connected.mp opened))
    rw [if_pos zero, closed]
    rfl
  · have opened : con = true := connected.mpr (UInt32.pos_iff_ne_zero.mpr zero)
    rw [if_neg zero, opened]

/-- A constructor acquires a connection, or it throws and has none. -/
theorem construct_eq {db : DatabaseConnector} (connected : db.Connected) (answers : Answers) :
    db.construct answers =
      if db.reaches answers && answers.setsSchema then .returned db.acquired else .thrown db := by
  rw [construct, connectIfNeeded_eq connected]
  cases db.reaches answers with
  | false => rfl
  | true =>
      simp only [↓reduceIte, Result.andThen, setSchema, onConnection, acquired, Bool.true_and]
      cases answers.setsSchema with
      | true => rfl
      | false => exact congrArg Result.thrown (disconnectIfNeeded_acquired connected)

/-- The bulk query gives back the connection it got, and the one it did not get. -/
theorem getAllTorrentRows_eq {db : DatabaseConnector} (connected : db.Connected)
    (answers : Answers) :
    db.getAllTorrentRows answers =
      if db.reaches answers then
        if answers.setsSchema && answers.queries then .returned db else .thrown db
      else .thrown db.disconnectIfNeeded := by
  rw [getAllTorrentRows, connectIfNeeded_eq connected]
  cases db.reaches answers with
  | false => rfl
  | true =>
      have released := disconnectIfNeeded_acquired connected
      simp only [acquired] at released
      simp only [↓reduceIte, Result.andThen, setSchema, queryRows, onConnection, acquired]
      cases answers.setsSchema with
      | false => exact congrArg Result.thrown released
      | true =>
          cases answers.queries with
          | false => exact congrArg Result.thrown released
          | true => exact congrArg Result.returned released

theorem toNat_add_one_lt {counter : UInt32} :
    (counter + 1).toNat = counter.toNat + 1 ↔ counter.toNat + 1 < 2 ^ 32 := by
  have bounded := counter.toNat_lt
  rw [UInt32.toNat_add, UInt32.toNat_one]
  omega

theorem toNat_sub_one_ne (counter : UInt32) : (counter - 1).toNat ≠ counter.toNat := by
  have bounded := counter.toNat_lt
  rw [UInt32.toNat_sub, UInt32.toNat_one]
  omega

/-- Destroying an object leaves the connector it was acquired from. -/
theorem Objects.Balanced.destroy {objects : Objects} (balanced : objects.Balanced)
    (alive : 0 < objects.live) :
    Objects.Balanced ⟨objects.connector.destroy, objects.live - 1⟩ := by
  obtain ⟨counted, connected⟩ := balanced
  obtain ⟨⟨counter, con⟩, live⟩ := objects
  have positive : 0 < counter.toNat := counted ▸ alive
  let before : DatabaseConnector := ⟨counter - 1, decide (0 < counter - 1)⟩
  have released : before.acquired.disconnectIfNeeded = before :=
    disconnectIfNeeded_acquired decide_eq_true_iff
  have opened : con = true := connected.mpr (UInt32.lt_iff_toNat_lt.mpr positive)
  have same : before.acquired = ⟨counter, con⟩ := by
    rw [acquired, UInt32.sub_add_cancel, opened]
  rw [same] at released
  rw [DatabaseConnector.destroy, released]
  refine ⟨?_, decide_eq_true_iff⟩
  rw [← counted]
  exact UInt32.toNat_sub_of_le _ _ (UInt32.le_iff_toNat_le.mpr positive)

/-- One operation keeps the count exactly if it releases what it acquires. -/
theorem Step.keepsBalance_iff {objects after : Objects} {operation : Operation}
    (balanced : objects.Balanced) (step : Step objects operation after) :
    after.Balanced ↔ Releases objects operation := by
  obtain ⟨counted, connected⟩ := balanced
  cases step with
  | @construct answers db ended =>
      rw [construct_eq connected] at ended
      split at ended
      · next succeeds =>
          cases ended
          rw [Bool.and_eq_true] at succeeds
          simp only [Releases, succeeds, true_imp_iff, ← counted]
          rw [← toNat_add_one_lt]
          refine ⟨fun balanced => balanced.counted, fun same => ⟨same, fun _ => ?_, fun _ => rfl⟩⟩
          rw [UInt32.lt_iff_toNat_lt, acquired, same]
          exact Nat.succ_pos _
      · cases ended
  | @constructThrows answers db ended =>
      rw [construct_eq connected] at ended
      split at ended
      · cases ended
      · next fails =>
          cases ended
          rw [Bool.and_eq_true] at fails
          exact ⟨fun _ opened sets => absurd ⟨opened, sets⟩ fails, fun _ => ⟨counted, connected⟩⟩
  | destroy alive =>
      exact ⟨fun _ => trivial, fun _ => Objects.Balanced.destroy ⟨counted, connected⟩ alive⟩
  | @getAllTorrentRows answers db ended =>
      rw [getAllTorrentRows_eq connected] at ended
      split at ended
      · next opened =>
          split at ended
          · cases ended
            exact ⟨fun _ => opened, fun _ => ⟨counted, connected⟩⟩
          · cases ended
      · cases ended
  | @getAllTorrentRowsThrows answers db ended =>
      rw [getAllTorrentRows_eq connected] at ended
      split at ended
      · next opened =>
          split at ended
          · cases ended
          · cases ended
            exact ⟨fun _ => opened, fun _ => ⟨counted, connected⟩⟩
      · next unreached =>
          cases ended
          refine ⟨fun balanced => ?_, fun opened => absurd opened unreached⟩
          have same := balanced.counted.trans counted.symm
          rw [connectionCounter_disconnectIfNeeded] at same
          exact absurd same (toNat_sub_one_ne _)

/-- **The shared connection.** After every operation the counter is the number of objects and
the connection is open exactly while there are any, provided exactly that every operation
releases what it acquires. -/
theorem balanced_iff {past : List (Objects × Operation)} {final : Objects}
    (run : Transition.Run Step {} past final) :
    Transition.Throughout Step {} past Objects.Balanced ↔ Transition.Meets Releases past :=
  run.throughout_iff_meets (fun _ _ _ balanced step => step.keepsBalance_iff balanced)
    ⟨rfl, ⟨fun opened => Bool.noConfusion opened, fun positive => absurd positive (by decide)⟩⟩

/-- A server that does all it is asked. -/
def willing : Answers := ⟨true, true, true, true, true⟩

/-- A server that cannot be reached. -/
def unreachable : Answers := ⟨false, false, false, false, false⟩

/-- An object, made and destroyed. -/
theorem balanced_iff_object :
    ∃ past final, Transition.Run Step {} past final ∧ past ≠ [] ∧
      Transition.Throughout Step {} past Objects.Balanced := by
  have begun : Transition.Run Step {} [] {} := .nil
  have opened : ({} : DatabaseConnector).construct willing = .returned ⟨1, true⟩ := rfl
  have made := begun.snoc (.construct opened)
  have run := made.snoc (.destroy Nat.one_pos)
  refine ⟨_, _, run, List.cons_ne_nil _ _, (balanced_iff run).mpr fun record member => ?_⟩
  rcases List.mem_pair.mp member with rfl | rfl
  · exact fun _ _ => by decide
  · trivial

/-- A query for all torrents that finds no server takes the count below zero. -/
theorem balanced_iff_fails :
    ¬ ∀ (past : List (Objects × Operation)) (final : Objects),
      Transition.Run Step {} past final →
        Transition.Throughout Step {} past Objects.Balanced := by
  intro always
  have begun : Transition.Run Step {} [] {} := .nil
  have missed : ({} : DatabaseConnector).getAllTorrentRows unreachable = .thrown ⟨-1, false⟩ := rfl
  have run := begun.snoc (.getAllTorrentRowsThrows missed)
  have balanced := always _ _ run _ _ (List.prefix_refl _) run
  exact absurd balanced.counted (by decide)

end DatabaseConnector

end Bp2p
