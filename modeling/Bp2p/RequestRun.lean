import Bp2p.RequestData

/-! # The call as a run

`requestTorrentData` as a whole call does what its statements do one after the other, with the
outcomes of the script as the inputs of the statements that wait for a request. So what a
node comes to by calls is among what it comes to by steps
(`Bp2p.Call.requestTorrentData_run`).
-/

namespace Bp2p

namespace System

/-- Some statements, one after the other. -/
def Statements (env : Env) : System → System → Prop :=
  Relation.ReflTransGen fun system after =>
    ∃ server transport draws, system.statement env server transport draws = some after

/-- A statement that looks at no input. -/
theorem Statements.single {env : Env} {system after : System}
    (executed : ∀ server transport draws,
      system.statement env server transport draws = some after) :
    Statements env system after :=
  Relation.ReflTransGen.single ⟨⟨.insertion, fun _ => false⟩, none, {}, executed _ _ _⟩

/-- Statements are a run of statements. -/
theorem Statements.run {env : Env} {start final : System}
    (statements : Statements env start final) :
    ∃ past, Transition.Run (Step env) start past final ∧
      ∀ record ∈ past, ∃ server transport draws, record.2 = .statement server transport draws := by
  induction statements with
  | refl => exact ⟨[], .nil, fun _ member => absurd member List.not_mem_nil⟩
  | tail _ executed ih =>
      obtain ⟨past, run, labels⟩ := ih
      obtain ⟨server, transport, draws, executed⟩ := executed
      refine ⟨_, run.snoc (.statement executed), fun record member => ?_⟩
      rcases List.mem_append.mp member with earlier | last
      · exact labels record earlier
      · rw [List.mem_singleton.mp last]
        exact ⟨server, transport, draws, rfl⟩

/-- The entries are visited in their order. -/
theorem nextEntry_of_toList {node : Node} {before rest : List (DeviceDescriptor × List Bytes)}
    (entries : node.dev2tor.toList = before ++ rest) :
    nextEntry node (before.getLast?.map Prod.fst) = rest.head? := by
  have ordered := node.dev2tor.ordered_keys_toList
  rw [entries] at ordered
  rcases List.eq_nil_or_concat before with rfl | ⟨front, last, rfl⟩
  · exact congrArg List.head? entries
  · rw [List.concat_eq_append] at entries ordered ⊢
    obtain ⟨sorted, _, behind⟩ := List.pairwise_append.mp ordered
    have visited : (front ++ [last]).find? (fun entry => compare last.1 entry.1 == .lt) = none := by
      rw [List.find?_eq_none]
      intro entry member
      rcases List.mem_append.mp member with earlier | same
      · have before := (List.pairwise_append.mp sorted).2.2 entry earlier last
          (List.mem_singleton_self last)
        rw [Std.OrientedOrd.eq_swap, before]
        exact Bool.false_ne_true
      · rw [List.mem_singleton.mp same, Std.ReflOrd.compare_self]
        exact Bool.false_ne_true
    rw [List.getLast?_append_of_ne_nil _ (List.cons_ne_nil last []), List.getLast?_singleton,
      Option.map_some, nextEntry, entries, List.find?_append, visited, Option.none_or]
    cases rest with
    | nil => rfl
    | cons next rest =>
        have later := behind last (List.mem_append_right _ (List.mem_singleton_self last)) next
          List.mem_cons_self
        exact List.find?_cons_of_pos (beq_iff_eq.mpr later)

/-- The loop of `swapKeyVal` visits the entries that are left. -/
theorem swap_statements {env : Env} {node : Node} (name : Bytes)
    {before rest : List (DeviceDescriptor × List Bytes)}
    (entries : node.dev2tor.toList = before ++ rest) :
    Statements env ⟨node, .swap name (before.getLast?.map Prod.fst)⟩
      ⟨{ node with torName2dev := Utils.swapEntries node.torName2dev rest }, .avail name⟩ := by
  induction rest generalizing before node with
  | nil =>
      apply Statements.single
      intro server transport draws
      simp only [statement, nextEntry_of_toList entries, List.head?_nil]
      rfl
  | cons entry rest ih =>
      obtain ⟨dev, names⟩ := entry
      have last : (before ++ [(dev, names)]).getLast?.map Prod.fst = some dev := by
        rw [List.getLast?_append_of_ne_nil _ (List.cons_ne_nil _ []), List.getLast?_singleton,
          Option.map_some]
      have turned : Statements env ⟨node, .swap name (before.getLast?.map Prod.fst)⟩
          ⟨{ node with
              torName2dev :=
                names.foldl (fun dest val => Utils.swapVal dest dev val) node.torName2dev },
            .swap name (some dev)⟩ := by
        apply Statements.single
        intro server transport draws
        simp only [statement, nextEntry_of_toList entries, List.head?_cons]
      rw [← last] at turned
      refine turned.trans (ih ?_)
      rw [List.append_assoc, List.singleton_append]
      exact entries

end System

namespace Call

open Bp2p.System

variable {env : Env} {call after : Call} {name : Bytes}

/-- The loop over the devices is made of statements. -/
theorem nearby_statements {devs : List DeviceDescriptor}
    (executed : syncRequestNearbyTorrentsFrom env devs call = some after) :
    Statements env ⟨call.node, .nearby name devs⟩ ⟨after.node, .clear name⟩ := by
  induction devs generalizing call with
  | nil =>
      cases executed
      exact .single fun _ _ _ => rfl
  | cons dev devs ih =>
      simp only [syncRequestNearbyTorrentsFrom, bind, Option.bind_eq_some_iff,
        Prod.exists] at executed
      obtain ⟨middle, result, first, executed⟩ := executed
      refine Relation.ReflTransGen.head ⟨(call.pending 0).server, (call.pending 0).transport,
        (call.pending 0).draws, ?_⟩ (ih executed)
      simp only [syncRequestNearbyTorrents, bind, Option.bind_eq_some_iff] at first
      obtain ⟨req, created, first⟩ := first
      cases req with
      | none =>
          cases first
          simp only [statement, created, bind, Option.bind_some]
      | some req =>
          simp only [Option.bind_eq_some_iff, Option.some.injEq, Prod.mk.injEq,
            Prod.exists] at first
          obtain ⟨left, succeeded, synchronized, rfl, _⟩ := first
          simp only [statement, created, syncRequest_node synchronized, bind, Option.bind_some]

/-- The devices that offer a torrent are asked until one does not answer. -/
theorem availFrom_statements {devs : List DeviceDescriptor} {result : Bool}
    (executed : syncRequestTorrentAvailFrom env name devs true call = some (after, result)) :
    Statements env ⟨call.node, .availFrom name devs⟩
      ⟨after.node, if result then .file name else .idle⟩ := by
  induction devs generalizing call with
  | nil =>
      cases executed
      exact .single fun _ _ _ => rfl
  | cons dev devs ih =>
      simp only [syncRequestTorrentAvailFrom, bind, Option.bind_eq_some_iff,
        Prod.exists] at executed
      obtain ⟨middle, status, first, executed⟩ := executed
      have taken : statement env (call.pending 0).server (call.pending 0).transport
          (call.pending 0).draws ⟨call.node, .availFrom name (dev :: devs)⟩ =
            some ⟨middle.node, if status then .availFrom name devs else .idle⟩ := by
        simp only [syncRequestTorrentAvail, bind, Option.bind_eq_some_iff] at first
        obtain ⟨req, created, first⟩ := first
        cases req with
        | none =>
            cases first
            simp only [statement, created, bind, Option.bind_some]
            rfl
        | some req =>
            simp only [statement, created, syncRequest_node first, bind, Option.bind_some]
      refine Relation.ReflTransGen.head ⟨_, _, _, taken⟩ ?_
      cases status with
      | true => exact ih executed
      | false =>
          have stopped : ∀ (devs : List DeviceDescriptor) (call : Call),
              syncRequestTorrentAvailFrom env name devs false call = some (call, false) := by
            intro devs
            induction devs with
            | nil => exact fun _ => rfl
            | cons _ _ again => exact again
          rw [stopped, Option.some.injEq, Prod.mk.injEq] at executed
          obtain ⟨rfl, rfl⟩ := executed
          exact .refl

/-- Asking all devices for availability is made of statements. -/
theorem avail_statements {result : Bool}
    (executed : call.syncRequestAllTorrentAvail env name = some (after, result)) :
    Statements env ⟨call.node, .avail name⟩
      ⟨after.node, if result then .file name else .idle⟩ := by
  unfold syncRequestAllTorrentAvail at executed
  split at executed
  · next missing =>
      cases executed
      apply Statements.single
      intro server transport draws
      simp only [statement, missing]
      rfl
  · next devs found =>
      refine Relation.ReflTransGen.trans (Statements.single ?_) (availFrom_statements executed)
      intro server transport draws
      simp only [statement, found]

/-- Asking for a description is made of statements. -/
theorem file_statements {result : Bool}
    (executed : call.requestTorrentFileIfMissing env name = some (after, result)) :
    Statements env ⟨call.node, .file name⟩
      ⟨after.node, if result then .chunk name else .idle⟩ := by
  unfold requestTorrentFileIfMissing at executed
  split at executed
  · next there =>
      cases executed
      apply Statements.single
      intro server transport draws
      simp only [statement, there, ↓reduceIte]
  · next missing =>
      refine Relation.ReflTransGen.single ⟨(call.pending 0).server, (call.pending 0).transport,
        (call.pending 0).draws, ?_⟩
      simp only [syncRequestTorrentFile, bind, Option.bind_eq_some_iff] at executed
      obtain ⟨req, created, executed⟩ := executed
      rw [Bool.not_eq_true] at missing
      simp only [statement, missing, Bool.false_eq_true, ↓reduceIte, created, bind,
        Option.bind_some]
      cases req with
      | none =>
          cases executed
          rfl
      | some req => simp only [syncRequest_node executed, Option.bind_some]

/-- Asking for a chunk is a statement. -/
theorem chunk_statements {status : Int32}
    (executed : call.requestChunk name = some (after, status)) :
    Statements env ⟨call.node, .chunk name⟩ ⟨after.node, .idle⟩ := by
  simp only [requestChunk, bind, Option.bind_eq_some_iff, Option.some.injEq, Prod.mk.injEq,
    Prod.exists] at executed
  obtain ⟨node, req, created, rfl, _⟩ := executed
  have drawn : statement env (call.pending 0).server (call.pending 0).transport
      (call.pending 0).draws ⟨call.node, .chunk name⟩ = some ⟨node, .insert req⟩ := by
    simp only [statement, created, bind, Option.bind_some]
  have inserted : Statements env ⟨node, .insert req⟩ ⟨node.insertCreated .chunk req, .idle⟩ :=
    .single fun _ _ _ => rfl
  exact Relation.ReflTransGen.head ⟨_, _, _, drawn⟩ inserted

/-- Refreshing the devices is made of statements. -/
theorem refreshDevices_statements (executed : call.refreshDevices env name = some after) :
    Statements env ⟨call.node, .start name⟩ ⟨after.node, .avail name⟩ := by
  have rebuilt : ∀ node : Node, Statements env ⟨node, .clear name⟩
      ⟨{ node with torName2dev := Utils.swapKeyVal {} node.dev2tor }, .avail name⟩ := by
    intro node
    rw [Utils.swapKeyVal_eq]
    have cleared : Statements env ⟨node, .clear name⟩
        ⟨{ node with torName2dev := {} }, .swap name none⟩ := .single fun _ _ _ => rfl
    exact cleared.trans (@swap_statements env { node with torName2dev := {} } name [] _ rfl)
  simp only [refreshDevices, bind] at executed
  split at executed
  · next unknown =>
      simp only [Option.bind_eq_some_iff, Option.some.injEq] at executed
      obtain ⟨listed, asked, rfl⟩ := executed
      have begun : Statements env ⟨call.node, .start name⟩
          ⟨call.node, .nearby name call.node.remote2local.keys⟩ := by
        apply Statements.single
        intro server transport draws
        simp only [statement, unknown, ↓reduceIte]
      exact (begun.trans (nearby_statements asked)).trans (rebuilt listed.node)
  · next known =>
      cases executed
      have begun : Statements env ⟨call.node, .start name⟩ ⟨call.node, .clear name⟩ := by
        apply Statements.single
        intro server transport draws
        simp only [statement, known, ↓reduceIte, Bool.false_eq_true]
      exact begun.trans (rebuilt call.node)

/-- **The call as a run.** What `requestTorrentData` leaves as a whole call, the main thread
leaves when it takes the statements of the command one after the other. -/
theorem requestTorrentData_run {status : Bool}
    (executed : call.requestTorrentData env name = some (after, status)) :
    ∃ past, Transition.Run (System.Step env) ⟨call.node, .start name⟩ past ⟨after.node, .idle⟩ ∧
      ∀ record ∈ past, ∃ server transport draws,
        record.2 = .statement server transport draws := by
  apply Statements.run
  simp only [requestTorrentData, bind, Option.bind_eq_some_iff, Prod.exists] at executed
  obtain ⟨refreshed, first, asked, available, second, executed⟩ := executed
  have front := (refreshDevices_statements first).trans (avail_statements second)
  cases available with
  | false =>
      cases executed
      exact front
  | true =>
      simp only [↓reduceIte, Option.bind_eq_some_iff, Prod.exists] at executed
      obtain ⟨found, present, third, executed⟩ := executed
      have middle := front.trans (file_statements third)
      cases present with
      | false =>
          cases executed
          exact middle
      | true =>
          simp only [↓reduceIte, Option.bind_eq_some_iff, Option.some.injEq, Prod.mk.injEq,
            Prod.exists] at executed
          obtain ⟨left, result, fourth, rfl, _⟩ := executed
          exact middle.trans (chunk_statements fourth)

end Call

end Bp2p
