import Bp2p.Lib.Converse
import Bp2p.Utils

/-! # Inverting a map of vectors

`swapKeyVal` appends each key of one map to the vectors its values have in another. Behind it
the vector of a value is the one it had, followed by the keys in ascending order, each as
often as the value stands in the key's vector (`Bp2p.Utils.swapKeyVal_spec`). One
turn of its inner loop appends one key to one vector (`Bp2p.Utils.getD_swapVal`).
-/

namespace Bp2p

namespace Utils

/-- No vector of the map is empty. -/
def Filled {κ ν : Type} [Ord ν] (map : Std.TreeMap ν (List κ)) : Prop :=
  ∀ (val : ν) (keys : List κ), map[val]? = some keys → keys ≠ []

section

variable {κ ν : Type} [Ord ν]

/-- The outer loop over entries of the source. -/
def swapEntries (dest : Std.TreeMap ν (List κ)) (entries : List (κ × List ν)) :
    Std.TreeMap ν (List κ) :=
  entries.foldl
    (fun dest entry => entry.2.foldl (fun dest val => swapVal dest entry.1 val) dest) dest

theorem swapKeyVal_eq [Ord κ] (dest : Std.TreeMap ν (List κ)) (source : Std.TreeMap κ (List ν)) :
    swapKeyVal dest source = swapEntries dest source.toList :=
  Std.TreeMap.foldl_eq_foldl_toList

/-- What every single turn keeps, the loops keep. -/
theorem swapEntries_induction {motive : Std.TreeMap ν (List κ) → Prop}
    {entries : List (κ × List ν)} (dest : Std.TreeMap ν (List κ)) (initial : motive dest)
    (turn : ∀ dest key val, (∃ vals, (key, vals) ∈ entries ∧ val ∈ vals) → motive dest →
      motive (swapVal dest key val)) :
    motive (swapEntries dest entries) := by
  refine List.foldlRecOn entries _ initial fun dest kept entry member => ?_
  refine List.foldlRecOn entry.2 _ kept fun dest kept val inside => ?_
  exact turn dest entry.1 val ⟨entry.2, member, inside⟩ kept

variable [Std.TransOrd ν]

theorem filled_empty : Filled ({} : Std.TreeMap ν (List κ)) := by
  intro val keys found
  rw [Std.TreeMap.getElem?_emptyc] at found
  cases found

/-- In a map without empty vectors a value is absent when its vector reads as empty. -/
theorem Filled.getD_eq_nil_iff {map : Std.TreeMap ν (List κ)} (filled : Filled map) (val : ν) :
    map.getD val [] = [] ↔ map[val]? = none := by
  rw [Std.TreeMap.getD_eq_getD_getElem?]
  cases found : map[val]? with
  | none => simp only [Option.getD_none]
  | some keys => simp only [Option.getD_some, filled val keys found, reduceCtorEq]

/-- A non-empty list may be inserted. -/
theorem Filled.insert {map : Std.TreeMap ν (List κ)} (filled : Filled map) (val : ν)
    {keys : List κ} (ne_nil : keys ≠ []) : Filled (map.insert val keys) := by
  intro other stored found
  rw [Std.TreeMap.getElem?_insert] at found
  split at found
  · cases found
    exact ne_nil
  · exact filled other stored found

/-- One swapped entry lists a key. -/
theorem Filled.swapVal {dest : Std.TreeMap ν (List κ)} (filled : Filled dest) (key : κ)
    (val : ν) : Filled (swapVal dest key val) := by
  unfold Utils.swapVal
  split
  · exact filled.insert val (List.cons_ne_nil key [])
  · exact filled.insert val (List.append_ne_nil_of_right_ne_nil _ (List.cons_ne_nil key []))

theorem Filled.swapEntries {dest : Std.TreeMap ν (List κ)} (filled : Filled dest)
    (entries : List (κ × List ν)) : Filled (swapEntries dest entries) :=
  swapEntries_induction dest filled fun _ key val _ kept => kept.swapVal key val

/-- The value of a swapped entry lists the key behind the others. -/
theorem getElem?_swapVal_self (dest : Std.TreeMap ν (List κ)) (key : κ) (val : ν) :
    (swapVal dest key val)[val]? = some (dest.getD val [] ++ [key]) := by
  unfold swapVal
  cases found : dest[val]? with
  | none =>
      simp only [Std.TreeMap.getElem?_insert_self, Std.TreeMap.getD_eq_getD_getElem?, found,
        Option.getD_none, List.nil_append]
  | some keys =>
      simp only [Std.TreeMap.getElem?_insert_self, Std.TreeMap.getD_eq_getD_getElem?, found,
        Option.getD_some]

variable [Std.LawfulEqOrd ν]

theorem mem_swapVal {dest : Std.TreeMap ν (List κ)} {key : κ} {val other : ν} :
    other ∈ swapVal dest key val ↔ val = other ∨ other ∈ dest := by
  unfold swapVal
  split <;> rw [Std.TreeMap.mem_insert, Std.LawfulEqOrd.compare_eq_iff_eq]

theorem getElem?_swapVal_of_ne (dest : Std.TreeMap ν (List κ)) (key : κ) {val other : ν}
    (different : val ≠ other) : (swapVal dest key val)[other]? = dest[other]? := by
  have unequal : compare val other ≠ .eq := mt Std.LawfulEqOrd.eq_of_compare different
  unfold swapVal
  split <;> rw [Std.TreeMap.getElem?_insert, if_neg unequal]

/-- The turns of the inner loop for one key. -/
theorem getD_swapVals [DecidableEq ν] (dest : Std.TreeMap ν (List κ)) (key : κ) (vals : List ν)
    (other : ν) :
    (vals.foldl (fun dest val => swapVal dest key val) dest).getD other [] =
      dest.getD other [] ++ List.replicate (vals.count other) key := by
  induction vals generalizing dest with
  | nil => simp only [List.foldl_nil, List.count_nil, List.replicate_zero, List.append_nil]
  | cons val vals ih =>
      rw [List.foldl_cons, ih (swapVal dest key val), List.count_cons]
      by_cases same : val = other
      · subst same
        rw [Std.TreeMap.getD_eq_getD_getElem?, getElem?_swapVal_self, Option.getD_some,
          List.append_assoc, beq_self_eq_true, if_pos rfl, List.replicate_succ]
        rfl
      · rw [Std.TreeMap.getD_eq_getD_getElem?, getElem?_swapVal_of_ne dest key same,
          ← Std.TreeMap.getD_eq_getD_getElem?, beq_eq_false_iff_ne.mpr same,
          if_neg Bool.false_ne_true, Nat.add_zero]

/-- A value lists behind what it listed the keys that have it, in order and as often. -/
theorem getD_swapEntries [DecidableEq ν] (dest : Std.TreeMap ν (List κ))
    (entries : List (κ × List ν)) (val : ν) :
    (swapEntries dest entries).getD val [] =
      dest.getD val [] ++ Converse.keysOf entries val := by
  unfold swapEntries
  induction entries generalizing dest with
  | nil => rw [List.foldl_nil, Converse.keysOf_nil, List.append_nil]
  | cons entry entries ih =>
      rw [List.foldl_cons, ih, getD_swapVals, Converse.keysOf_cons, List.append_assoc]

/-- A value that stands in no vector keeps what it had. -/
theorem getElem?_swapEntries_of_forall_notMem (dest : Std.TreeMap ν (List κ))
    {entries : List (κ × List ν)} {val : ν} (absent : ∀ entry ∈ entries, val ∉ entry.2) :
    (swapEntries dest entries)[val]? = dest[val]? := by
  refine swapEntries_induction (motive := fun map => map[val]? = dest[val]?) dest rfl ?_
  rintro map key other ⟨vals, member, inside⟩ kept
  have different : other ≠ val := by
    rintro rfl
    exact absent _ member inside
  exact (getElem?_swapVal_of_ne map key different).trans kept

end

section

variable {κ ν : Type} [Ord κ] [Std.TransOrd κ] [Std.LawfulEqOrd κ]

/-- A value stands in the vector of some key exactly when some entry contains it. -/
theorem exists_entry_iff (source : Std.TreeMap κ (List ν)) (key : κ) (val : ν) :
    (∃ vals, (key, vals) ∈ source.toList ∧ val ∈ vals) ↔ val ∈ source.getD key [] := by
  simp only [Std.TreeMap.mem_toList_iff_getElem?_eq_some, Std.TreeMap.getD_eq_getD_getElem?]
  cases source[key]? with
  | none => simp only [reduceCtorEq, false_and, exists_false, Option.getD_none, List.not_mem_nil]
  | some vals => simp only [Option.some.injEq, exists_eq_left', Option.getD_some]

variable [DecidableEq ν]

/-- The keys of a value, read off the map. -/
theorem keysOf_toList (source : Std.TreeMap κ (List ν)) (val : ν) :
    Converse.keysOf source.toList val =
      source.keys.flatMap fun key => List.replicate ((source.getD key []).count val) key := by
  rw [← Std.TreeMap.map_fst_toList_eq_keys, List.flatMap_map]
  refine List.flatMap_congr fun entry member => ?_
  rw [Std.TreeMap.getD_eq_getD_getElem?,
    Std.TreeMap.mem_toList_iff_getElem?_eq_some.mp member, Option.getD_some]

variable [Ord ν] [Std.TransOrd ν] [Std.LawfulEqOrd ν]

/-- **Inverting a map.** Behind `swapKeyVal` the vector of a value is the one it had, followed by
the keys of the source in ascending order, each as often as the value stands in the key's
vector. Values that stand in no vector are untouched. From an empty map every vector
has an element, and a key is in the vector of a value when the value is in that of the key. -/
theorem swapKeyVal_spec (dest : Std.TreeMap ν (List κ)) (source : Std.TreeMap κ (List ν)) :
    (∀ val, (swapKeyVal dest source).getD val [] = dest.getD val [] ++
      source.keys.flatMap fun key => List.replicate ((source.getD key []).count val) key) ∧
    source.keys.Pairwise (fun first second => compare first second = .lt) ∧
    (∀ val, (∀ key, val ∉ source.getD key []) → (swapKeyVal dest source)[val]? = dest[val]?) ∧
    (dest.isEmpty = true → Filled (swapKeyVal dest source) ∧
      ∀ key val, key ∈ (swapKeyVal dest source).getD val [] ↔ val ∈ source.getD key []) := by
  refine ⟨fun val => ?_, Std.TreeMap.ordered_keys, fun val absent => ?_, fun empty => ⟨?_, ?_⟩⟩
  · rw [swapKeyVal_eq, getD_swapEntries, keysOf_toList]
  · rw [swapKeyVal_eq]
    refine getElem?_swapEntries_of_forall_notMem dest fun entry member inside => ?_
    exact absent entry.1 ((exists_entry_iff source entry.1 val).mp ⟨entry.2, member, inside⟩)
  · have filled : Filled dest := by
      intro val keys found
      rw [Std.TreeMap.getElem?_of_isEmpty empty] at found
      cases found
    exact swapKeyVal_eq dest source ▸ filled.swapEntries source.toList
  · intro key val
    rw [swapKeyVal_eq, getD_swapEntries, Std.TreeMap.getD_of_isEmpty empty, List.nil_append,
      Converse.mem_keysOf, exists_entry_iff]

/-- Two devices offer a torrent, one of them lists it twice. -/
theorem swapKeyVal_spec_twoDevices :
    let source : Std.TreeMap Nat (List Nat) := .ofList [(2, [7]), (1, [7, 8, 7])] compare
    (∀ val, (swapKeyVal {} source).getD val [] = ({} : Std.TreeMap Nat (List Nat)).getD val [] ++
      source.keys.flatMap fun key => List.replicate ((source.getD key []).count val) key) ∧
    source.keys.Pairwise (fun first second => compare first second = .lt) ∧
    (∀ val, (∀ key, val ∉ source.getD key []) →
      (swapKeyVal {} source)[val]? = ({} : Std.TreeMap Nat (List Nat))[val]?) ∧
    (({} : Std.TreeMap Nat (List Nat)).isEmpty = true → Filled (swapKeyVal {} source) ∧
      ∀ key val, key ∈ (swapKeyVal {} source).getD val [] ↔ val ∈ source.getD key []) :=
  swapKeyVal_spec {} _

example : (swapKeyVal (.ofList [(7, [0])] compare)
    (.ofList [(2, [7]), (1, [7, 8, 7])] compare : Std.TreeMap Nat (List Nat))).toList =
      [(7, [0, 1, 1, 2]), (8, [1])] := by decide

end

end Utils

end Bp2p
