import Bp2p.Lib.Answers
import Bp2p.Node

/-! # The devices that offer a chunk

`completeRequest` puts the device of an answer behind those that are listed for the
chunks of the answer, and never takes one out, although the list of a device's torrents is
replaced by its next answer. So the devices listed are those whose latest answer has the
chunk, each once, exactly if no answer lists a chunk twice and no device answers again for
a name it has listed chunks of (`Bp2p.Node.availability_iff`).
-/

namespace Bp2p

namespace Node

/-- `torName2Avail[name][index]`. -/
def listed (node : Node) (name : Bytes) (index : Int32) : List DeviceDescriptor :=
  (node.torName2Avail.getD name {}).getD index []

/-- The node behind a sequence of answers, from one that has none yet. -/
def completeAvail (node : Node) (answers : List TorrentAvailReq) : Node :=
  answers.foldl completeTorrentAvailReq { node with torName2Avail := {} }

/-- The answers of each device for each name. -/
def entries (answers : List TorrentAvailReq) : List ((Bytes × DeviceDescriptor) × List Int32) :=
  answers.map fun answer => ((answer.torrentName, answer.remoteAddr), answer.torrentAvail)

/-- The devices listed for a chunk are those whose latest answer has it, each once. -/
def ListsLatest (node : Node) (answers : List TorrentAvailReq) : Prop :=
  ∀ name index, (node.listed name index).Nodup ∧
    ∀ dev, dev ∈ node.listed name index ↔
      index ∈ Answers.latest (name, dev) (entries answers)

/-- No answer lists a chunk twice, and of two answers of a device for a name the earlier
one is empty. -/
def AnswersOnce (answers : List TorrentAvailReq) : Prop :=
  (∀ answer ∈ answers, answer.torrentAvail.Nodup) ∧
    answers.Pairwise fun earlier later => earlier.torrentName = later.torrentName →
      earlier.remoteAddr = later.remoteAddr → earlier.torrentAvail = []

/-- The loop of `completeRequest` puts the device behind those of every chunk, once for
each time the chunk is listed. -/
theorem getD_insertAll (dev : DeviceDescriptor) (torAvail : List Int32)
    (avail : Std.TreeMap Int32 (List DeviceDescriptor)) (index : Int32) :
    (torAvail.foldl (fun avail chunkAvail =>
        avail.insert chunkAvail (avail.getD chunkAvail [] ++ [dev])) avail).getD index [] =
      avail.getD index [] ++ List.replicate (torAvail.count index) dev := by
  induction torAvail generalizing avail with
  | nil => rw [List.foldl_nil, List.count_nil, List.replicate_zero, List.append_nil]
  | cons chunkAvail rest ih =>
      rw [List.foldl_cons, ih, Std.TreeMap.getD_insert, List.count_cons]
      by_cases same : chunkAvail = index
      · subst same
        rw [if_pos Std.ReflCmp.compare_self, if_pos (beq_self_eq_true _), List.append_assoc,
          List.singleton_append, ← List.replicate_succ]
      · have other : ¬ compare chunkAvail index = .eq := fun equal =>
          same (Std.LawfulEqCmp.eq_of_compare equal)
        rw [if_neg other, if_neg (by simpa using same), Nat.add_zero]

/-- What one answer adds to the devices of a chunk. -/
theorem listed_completeTorrentAvailReq (node : Node) (answer : TorrentAvailReq) (name : Bytes)
    (index : Int32) :
    (node.completeTorrentAvailReq answer).listed name index =
      node.listed name index ++
        if answer.torrentName = name then
          List.replicate (answer.torrentAvail.count index) answer.remoteAddr
        else [] := by
  unfold completeTorrentAvailReq
  split
  · next empty =>
      rw [List.isEmpty_iff.mp empty, List.count_nil, List.replicate_zero, ite_self,
        List.append_nil]
  · simp only [listed, Std.TreeMap.getD_insert]
    by_cases same : answer.torrentName = name
    · subst same
      rw [if_pos Std.ReflCmp.compare_self, if_pos rfl, getD_insertAll]
    · have other : ¬ compare answer.torrentName name = .eq := fun equal =>
        same (Std.LawfulEqCmp.eq_of_compare equal)
      rw [if_neg other, if_neg same, List.append_nil]

/-- What was collected from an answer and the rest. -/
theorem collected_entries_cons (key : Bytes × DeviceDescriptor) (answer : TorrentAvailReq)
    (rest : List TorrentAvailReq) :
    Answers.collected key (entries (answer :: rest)) =
      (if (answer.torrentName, answer.remoteAddr) = key then answer.torrentAvail else []) ++
        Answers.collected key (entries rest) :=
  Answers.collected_cons ..

/-- A device is listed for a chunk once for each time it has answered it. -/
theorem count_listed (node : Node) (answers : List TorrentAvailReq) (name : Bytes)
    (index : Int32) (dev : DeviceDescriptor) :
    ((answers.foldl completeTorrentAvailReq node).listed name index).count dev =
      (node.listed name index).count dev +
        (Answers.collected (name, dev) (entries answers)).count index := by
  induction answers generalizing node with
  | nil => rfl
  | cons answer rest ih =>
      rw [List.foldl_cons, ih, listed_completeTorrentAvailReq, List.count_append,
        collected_entries_cons, List.count_append, Nat.add_assoc]
      congr 2
      by_cases named : answer.torrentName = name
      · by_cases device : answer.remoteAddr = dev
        · rw [if_pos named, if_pos (Prod.ext named device), device, List.count_replicate_self]
        · rw [if_pos named, if_neg fun same => device (congrArg Prod.snd same),
            List.count_replicate, if_neg (by simpa using device), List.count_nil]
      · rw [if_neg named, if_neg fun same => named (congrArg Prod.fst same), List.count_nil,
          List.count_nil]

theorem count_listed_completeAvail (node : Node) (answers : List TorrentAvailReq)
    (name : Bytes) (index : Int32) (dev : DeviceDescriptor) :
    ((node.completeAvail answers).listed name index).count dev =
      (Answers.collected (name, dev) (entries answers)).count index :=
  (count_listed _ answers name index dev).trans (Nat.zero_add _)

/-- The devices listed are the latest answers, each once, exactly if what was collected
from each device for each name is. -/
theorem listsLatest_iff_collected (node : Node) (answers : List TorrentAvailReq) :
    (node.completeAvail answers).ListsLatest answers ↔
      ∀ key, (Answers.collected key (entries answers)).Nodup ∧
        ∀ index, index ∈ Answers.collected key (entries answers) ↔
          index ∈ Answers.latest key (entries answers) := by
  have member : ∀ name index dev, dev ∈ (node.completeAvail answers).listed name index ↔
      index ∈ Answers.collected (name, dev) (entries answers) := by
    intro name index dev
    rw [← List.count_pos_iff, ← List.count_pos_iff, count_listed_completeAvail]
  simp only [ListsLatest, List.nodup_iff_count_le_one, count_listed_completeAvail, member]
  constructor
  · rintro all ⟨name, dev⟩
    exact ⟨fun index => (all name index).1 dev, fun index => (all name index).2 dev⟩
  · exact fun all name index => ⟨fun dev => (all (name, dev)).1 index,
      fun dev => (all (name, dev)).2 index⟩

theorem answersOnce_iff (answers : List TorrentAvailReq) :
    AnswersOnce answers ↔ (∀ entry ∈ entries answers, entry.2.Nodup) ∧
      (entries answers).Pairwise fun first second => first.1 = second.1 → first.2 = [] := by
  simp only [AnswersOnce, entries, List.forall_mem_map, List.pairwise_map, Prod.mk.injEq,
    and_imp]

/-- **The devices that offer a chunk.** Behind a sequence of answers they are those whose
latest answer has the chunk, each once, exactly if no answer lists a chunk twice and no
device answers again for a name it has listed chunks of; then they are that behind every
answer of the sequence. -/
theorem availability_iff (node : Node) (answers : List TorrentAvailReq) :
    ((node.completeAvail answers).ListsLatest answers ↔ AnswersOnce answers) ∧
      ((∀ early, early <+: answers → (node.completeAvail early).ListsLatest early) ↔
        AnswersOnce answers) := by
  have exact_iff : ∀ answers, (node.completeAvail answers).ListsLatest answers ↔
      AnswersOnce answers := by
    intro answers
    rw [listsLatest_iff_collected, answersOnce_iff, ← Answers.nodup_answered_iff,
      ← Answers.pairwise_answered_iff, ← forall_and]
    exact forall_congr' fun key => Answers.collected_latest_iff key _
  refine ⟨exact_iff answers, fun all => (exact_iff answers).mp (all answers List.prefix_rfl),
    fun once early front => (exact_iff early).mpr ⟨fun answer member =>
      once.1 answer (front.subset member), once.2.sublist front.sublist⟩⟩

/-- A device that answers twice that it has chunk 0 refutes it: it is listed twice. -/
theorem availability_fails :
    ¬ ∀ (node : Node) (answers : List TorrentAvailReq),
      (node.completeAvail answers).ListsLatest answers := by
  intro claim
  let answer : TorrentAvailReq := { torrentName := [97], torrentAvail := [0] }
  have single := (claim {} [answer, answer] [97] 0).1
  rw [List.nodup_iff_count_le_one] at single
  have twice := single ⟨[]⟩
  rw [count_listed_completeAvail] at twice
  exact absurd twice (by decide)

end Node

end Bp2p
