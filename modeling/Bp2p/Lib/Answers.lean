import Mathlib.Data.List.Nodup
import Mathlib.Data.List.Pairwise

/-! # Lists answered under keys

A record of answers, each a key and a list of items. What is collected under a key is
every item ever answered under it. It is the latest answer, each item once, exactly if
every answer lists its items once and all answers before the latest one are empty
(`Answers.collected_latest_iff`), which is a condition on pairs of answers under one key
(`Answers.pairwise_answered_iff`).
-/

namespace Answers

variable {Key Item : Type*} [DecidableEq Key]

/-- The answers under a key, oldest first. -/
def answered (key : Key) (entries : List (Key × List Item)) : List (List Item) :=
  (entries.filter fun entry => entry.1 = key).map (·.2)

/-- The latest answer under a key; nothing when there is none. -/
def latest (key : Key) (entries : List (Key × List Item)) : List Item :=
  (answered key entries).getLast?.getD []

/-- Everything answered under a key. -/
def collected (key : Key) (entries : List (Key × List Item)) : List Item :=
  (answered key entries).flatten

@[simp] theorem answered_nil (key : Key) :
    answered key ([] : List (Key × List Item)) = [] :=
  rfl

/-- The answers for a key, from the first entry on. -/
theorem answered_cons (key : Key) (entry : Key × List Item) (rest : List (Key × List Item)) :
    answered key (entry :: rest) =
      (if entry.1 = key then [entry.2] else []) ++ answered key rest := by
  unfold answered
  rw [List.filter_cons]
  by_cases same : entry.1 = key
  · simp only [same, decide_true, ↓reduceIte, List.map_cons, List.singleton_append]
  · simp only [same, decide_false, Bool.false_eq_true, ↓reduceIte, List.nil_append]

/-- The items for a key, from the first entry on. -/
theorem collected_cons (key : Key) (entry : Key × List Item) (rest : List (Key × List Item)) :
    collected key (entry :: rest) =
      (if entry.1 = key then entry.2 else []) ++ collected key rest := by
  unfold collected
  rw [answered_cons, List.flatten_append]
  split
  · rw [List.flatten_cons, List.flatten_nil, List.append_nil]
  · rfl

/-- Of a list of answers, everything answered is the last answer, each item once, exactly
if every answer lists its items once and all but the last are empty. -/
theorem flatten_last_iff (answers : List (List Item)) :
    (answers.flatten.Nodup ∧
        ∀ item, item ∈ answers.flatten ↔ item ∈ answers.getLast?.getD []) ↔
      (∀ answer ∈ answers, answer.Nodup) ∧ answers.Pairwise fun earlier _ => earlier = [] := by
  rcases List.eq_nil_or_concat answers with rfl | ⟨earlier, last, rfl⟩
  · exact iff_of_true ⟨List.nodup_nil, fun _ => Iff.rfl⟩
      ⟨fun _ member => absurd member List.not_mem_nil, List.Pairwise.nil⟩
  · simp only [List.concat_eq_append, List.flatten_append, List.flatten_cons, List.flatten_nil,
      List.append_nil, List.getLast?_concat, Option.getD_some, List.nodup_append,
      List.mem_append, List.mem_singleton]
    constructor
    · rintro ⟨⟨_, single, apart⟩, same⟩
      have none : ∀ item, item ∉ earlier.flatten := fun item member =>
        apart item member item ((same item).mp (.inl member)) rfl
      have empty : ∀ answer ∈ earlier, answer = [] := fun answer member =>
        List.eq_nil_iff_forall_not_mem.mpr fun item inside =>
          none item (List.mem_flatten.mpr ⟨answer, member, inside⟩)
      refine ⟨?_, List.pairwise_append.mpr ⟨?_, List.pairwise_singleton _ _, ?_⟩⟩
      · rintro answer (member | rfl)
        · rw [empty answer member]
          exact List.nodup_nil
        · exact single
      · exact List.Pairwise.imp_of_mem (fun member _ _ => empty _ member)
          (List.pairwise_of_forall fun _ _ => trivial)
      · exact fun answer member _ _ => empty answer member
    · rintro ⟨distinct, pairs⟩
      have empty := (List.pairwise_append.mp pairs).2.2
      have nothing : earlier.flatten = [] :=
        List.flatten_eq_nil_iff.mpr fun answer member =>
          empty answer member last (List.mem_singleton_self _)
      rw [nothing]
      refine ⟨⟨List.nodup_nil, distinct last (.inr rfl), fun item member => ?_⟩, fun item => ?_⟩
      · exact absurd member List.not_mem_nil
      · exact or_iff_right List.not_mem_nil

/-- What is collected under a key is the latest answer, each item once, exactly if every
answer lists its items once and all but the latest are empty. -/
theorem collected_latest_iff (key : Key) (entries : List (Key × List Item)) :
    ((collected key entries).Nodup ∧
        ∀ item, item ∈ collected key entries ↔ item ∈ latest key entries) ↔
      (∀ answer ∈ answered key entries, answer.Nodup) ∧
        (answered key entries).Pairwise fun earlier _ => earlier = [] :=
  flatten_last_iff _

/-- The answers before the latest are empty under every key exactly if of two answers
under one key the earlier is empty. -/
theorem pairwise_answered_iff (entries : List (Key × List Item)) :
    (∀ key, (answered key entries).Pairwise fun earlier _ => earlier = []) ↔
      entries.Pairwise fun first second => first.1 = second.1 → first.2 = [] := by
  simp only [answered, List.pairwise_map, List.pairwise_filter, decide_eq_true_eq]
  simp only [List.pairwise_iff_forall_sublist]
  constructor
  · exact fun all first second pair same => all second.1 pair same rfl
  · intro all key first second pair one two
    exact all pair (one.trans two.symm)

/-- No answer for any key repeats an item exactly if none of the entries does. -/
theorem nodup_answered_iff (entries : List (Key × List Item)) :
    (∀ key, ∀ answer ∈ answered key entries, answer.Nodup) ↔
      ∀ entry ∈ entries, entry.2.Nodup := by
  constructor
  · intro all entry member
    exact all entry.1 entry.2 (List.mem_map.mpr
      ⟨entry, List.mem_filter.mpr ⟨member, decide_eq_true rfl⟩, rfl⟩)
  · intro all key answer member
    obtain ⟨entry, kept, rfl⟩ := List.mem_map.mp member
    exact all entry (List.mem_filter.mp kept).1

end Answers
