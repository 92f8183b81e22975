import Mathlib.Data.List.Nodup

/-! # The converse of a relation kept as lists

A finite relation between keys and values can be kept as a list of entries, a key with the
list of its values. `Converse.keysOf` reads it the other way round: the keys of a value,
each as often as the value stands in its list. With one entry for each key a key
occurs among the keys of a value as often as the value among those of the key
(`Converse.count_keysOf`).
-/

namespace Converse

variable {κ ν : Type*} [DecidableEq ν]

/-- The keys of a value, in the order of the entries. -/
def keysOf (entries : List (κ × List ν)) (val : ν) : List κ :=
  entries.flatMap fun entry => List.replicate (entry.2.count val) entry.1

@[simp]
theorem keysOf_nil (val : ν) : keysOf ([] : List (κ × List ν)) val = [] := rfl

@[simp]
theorem keysOf_cons (entry : κ × List ν) (entries : List (κ × List ν)) (val : ν) :
    keysOf (entry :: entries) val =
      List.replicate (entry.2.count val) entry.1 ++ keysOf entries val :=
  List.flatMap_cons

/-- A key is listed for a value exactly if it has an entry with it. -/
theorem mem_keysOf {entries : List (κ × List ν)} {key : κ} {val : ν} :
    key ∈ keysOf entries val ↔ ∃ vals, (key, vals) ∈ entries ∧ val ∈ vals := by
  simp only [keysOf, List.mem_flatMap, List.mem_replicate, ne_eq, List.count_eq_zero, not_not,
    Prod.exists]
  constructor
  · rintro ⟨_, vals, entry, member, rfl⟩
    exact ⟨vals, entry, member⟩
  · rintro ⟨vals, entry, member⟩
    exact ⟨key, vals, entry, member, rfl⟩

theorem keysOf_eq_nil_iff {entries : List (κ × List ν)} {val : ν} :
    keysOf entries val = [] ↔ ∀ entry ∈ entries, val ∉ entry.2 := by
  simp only [keysOf, List.flatMap_eq_nil_iff, List.replicate_eq_nil_iff, List.count_eq_zero]

/-- **Converse relations.** With one entry for each key, a key occurs among the keys of a value
as often as the value among the values of the key. -/
theorem count_keysOf [DecidableEq κ] {entries : List (κ × List ν)}
    (distinct : (entries.map Prod.fst).Nodup) {key : κ} {vals : List ν}
    (entry : (key, vals) ∈ entries) (val : ν) :
    (keysOf entries val).count key = vals.count val := by
  induction entries with
  | nil => exact absurd entry List.not_mem_nil
  | cons first rest ih =>
      rw [List.map_cons, List.nodup_cons] at distinct
      rw [keysOf_cons, List.count_append, List.count_replicate]
      rcases List.mem_cons.mp entry with rfl | later
      · have absent : key ∉ keysOf rest val := by
          intro member
          obtain ⟨other, elsewhere, _⟩ := mem_keysOf.mp member
          exact distinct.1 (List.mem_map.mpr ⟨_, elsewhere, rfl⟩)
        rw [List.count_eq_zero.mpr absent, beq_self_eq_true, if_pos rfl, Nat.add_zero]
      · have different : first.1 ≠ key := by
          rintro rfl
          exact distinct.1 (List.mem_map.mpr ⟨_, later, rfl⟩)
        rw [beq_eq_false_iff_ne.mpr different, if_neg Bool.false_ne_true, Nat.zero_add,
          ih distinct.2 later]

end Converse
