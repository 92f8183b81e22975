import Mathlib.Data.List.Basic

/-! # Fixed-width blocks of a list and positioned writes

A list cut into blocks of a fixed width is determined by its length and its
blocks (`Blocks.eq_of_blocks`). A positioned write that stays inside the list
keeps its length, puts the written elements at the position, and leaves every
block it does not touch (`Blocks.block_writeAt_self`,
`Blocks.block_writeAt_of_ne`). A write beyond the end pads the list, and then makes
the last block in front of it longer (`Blocks.block_writeAt_iff_of_ne`).
-/

namespace Blocks

variable {α : Type*}

/-- The `index`-th block of width `width`; shorter at the end of the list. -/
def block (width index : Nat) (content : List α) : List α :=
  (content.drop (width * index)).take width

/-- Overwrite from position `offset`, padding with `fill` when the position lies
beyond the end. Writing nothing changes nothing. -/
def writeAt (fill : α) (content : List α) (offset : Nat) (bytes : List α) : List α :=
  if bytes.isEmpty then content
  else content.take offset ++ List.replicate (offset - content.length) fill ++ bytes ++
    content.drop (offset + bytes.length)

theorem length_block (width index : Nat) (content : List α) :
    (block width index content).length = min width (content.length - width * index) := by
  simp only [block, List.length_take, List.length_drop]

@[simp] theorem block_zero (width : Nat) (content : List α) :
    block width 0 content = content.take width := by
  rw [block, Nat.mul_zero, List.drop_zero]

theorem block_succ (width index : Nat) (content : List α) :
    block width (index + 1) content = block width index (content.drop width) := by
  rw [block, block, List.drop_drop, Nat.mul_add, Nat.mul_one, Nat.add_comm]

@[simp] theorem writeAt_nil (fill : α) (content : List α) (offset : Nat) :
    writeAt fill content offset [] = content :=
  rfl

/-- What is written replaces bytes, behind a gap that is filled. -/
theorem writeAt_of_ne_nil (fill : α) (content : List α) (offset : Nat) {bytes : List α}
    (nonempty : bytes ≠ []) :
    writeAt fill content offset bytes =
      content.take offset ++ List.replicate (offset - content.length) fill ++ bytes ++
        content.drop (offset + bytes.length) := by
  simp only [writeAt, List.isEmpty_iff, nonempty, ↓reduceIte]

/-- A write that ends inside the list, spelled out. -/
theorem writeAt_of_le (fill : α) {content bytes : List α} {offset : Nat}
    (inside : offset + bytes.length ≤ content.length) :
    writeAt fill content offset bytes =
      content.take offset ++ bytes ++ content.drop (offset + bytes.length) := by
  by_cases empty : bytes = []
  · subst empty
    rw [writeAt_nil, List.append_nil, List.length_nil, Nat.add_zero, List.take_append_drop]
  · have short : offset - content.length = 0 := by omega
    rw [writeAt_of_ne_nil fill content offset empty, short, List.replicate_zero, List.append_nil]

/-- What lies behind the position of a write: the end of the written elements and the
elements the write does not reach. -/
theorem drop_writeAt (fill : α) (content bytes : List α) {offset n : Nat} (later : offset ≤ n) :
    (writeAt fill content offset bytes).drop n =
      bytes.drop (n - offset) ++ content.drop (max n (offset + bytes.length)) := by
  by_cases empty : bytes = []
  · subst empty
    rw [writeAt_nil, List.drop_nil, List.nil_append, List.length_nil, Nat.add_zero,
      Nat.max_eq_left later]
  · have front : (content.take offset ++ List.replicate (offset - content.length) fill).length =
        offset := by
      rw [List.length_append, List.length_take, List.length_replicate]
      omega
    rw [writeAt_of_ne_nil fill content offset empty, List.append_assoc, List.drop_append, front,
      List.drop_eq_nil_of_le (by rw [front]; exact later), List.nil_append, List.drop_append,
      List.drop_drop]
    congr 2
    omega

/-- Every element from the position of a write on. -/
theorem getElem?_writeAt_of_le (fill : α) (content bytes : List α) {offset n : Nat}
    (later : offset ≤ n) :
    (writeAt fill content offset bytes)[n]? =
      if n < offset + bytes.length then bytes[n - offset]? else content[n]? := by
  have cut : (writeAt fill content offset bytes)[n]? =
      ((writeAt fill content offset bytes).drop n)[0]? := by
    rw [List.getElem?_drop, Nat.add_zero]
  rw [cut, drop_writeAt fill content bytes later]
  split
  · next reached =>
      have some : 0 < (bytes.drop (n - offset)).length := by
        rw [List.length_drop]
        omega
      rw [List.getElem?_append_left some, List.getElem?_drop, Nat.add_zero]
  · next beyond =>
      rw [List.drop_eq_nil_of_le (by omega), List.nil_append, List.getElem?_drop, Nat.add_zero,
        Nat.max_eq_left (by omega)]

/-- A write leaves what lies in front of its position. -/
theorem take_writeAt (fill : α) {content : List α} (bytes : List α) {offset n : Nat}
    (earlier : n ≤ offset) (inside : n ≤ content.length) :
    (writeAt fill content offset bytes).take n = content.take n := by
  by_cases empty : bytes = []
  · rw [empty, writeAt_nil]
  · rw [writeAt_of_ne_nil fill content offset empty, List.append_assoc, List.append_assoc,
      List.take_append_of_le_length, List.take_take, Nat.min_eq_left earlier]
    rw [List.length_take]
    exact Nat.le_min.mpr ⟨earlier, inside⟩

/-- A write reaches its end. -/
theorem le_length_writeAt (fill : α) (content : List α) {bytes : List α} (nonempty : bytes ≠ [])
    (offset : Nat) : offset + bytes.length ≤ (writeAt fill content offset bytes).length := by
  simp only [writeAt_of_ne_nil fill content offset nonempty, List.length_append, List.length_take,
    List.length_replicate]
  omega

/-- Writing inside a content does not make it longer. -/
theorem length_writeAt (fill : α) {content bytes : List α} {offset : Nat}
    (inside : offset + bytes.length ≤ content.length) :
    (writeAt fill content offset bytes).length = content.length := by
  rw [writeAt_of_le fill inside]
  simp only [List.length_append, List.length_take, List.length_drop]
  omega

/-- Every element of the list after a write inside it. -/
theorem getElem?_writeAt (fill : α) {content bytes : List α} {offset : Nat}
    (inside : offset + bytes.length ≤ content.length) (position : Nat) :
    (writeAt fill content offset bytes)[position]? =
      if offset ≤ position ∧ position < offset + bytes.length then bytes[position - offset]?
      else content[position]? := by
  rw [writeAt_of_le fill inside]
  have front : (content.take offset).length = offset := by
    rw [List.length_take]
    omega
  by_cases before : position < offset
  · rw [List.append_assoc, List.getElem?_append_left (by omega), List.getElem?_take_of_lt before,
      if_neg (by omega)]
  · rw [List.append_assoc, List.getElem?_append_right (by omega), front]
    by_cases within : position < offset + bytes.length
    · rw [List.getElem?_append_left (by omega), if_pos (by omega)]
    · rw [List.getElem?_append_right (by omega), List.getElem?_drop, if_neg (by omega)]
      congr 1
      omega

/-- The elements of a block are those of the content from its offset on. -/
theorem getElem?_block (width index : Nat) (content : List α) (position : Nat) :
    (block width index content)[position]? =
      if position < width then content[width * index + position]? else none := by
  unfold block
  by_cases inside : position < width
  · rw [List.getElem?_take_of_lt inside, List.getElem?_drop, if_pos inside]
  · rw [if_neg inside]
    exact List.getElem?_eq_none (by rw [List.length_take]; omega)

/-- Writing a whole block at its place reads it back. -/
theorem block_writeAt_self (fill : α) {content bytes : List α} {width index : Nat}
    (whole : bytes.length = (block width index content).length)
    (start : width * index ≤ content.length) :
    block width index (writeAt fill content (width * index) bytes) = bytes := by
  rw [length_block] at whole
  have inside : width * index + bytes.length ≤ content.length := by omega
  apply List.ext_getElem?
  intro position
  rw [getElem?_block, getElem?_writeAt fill inside]
  by_cases covered : position < bytes.length
  · rw [if_pos (by omega), if_pos (by omega)]
    congr 1
    omega
  · rw [List.getElem?_eq_none (Nat.le_of_not_lt covered)]
    by_cases narrow : position < width
    · rw [if_pos narrow, if_neg (by omega)]
      exact List.getElem?_eq_none (by omega)
    · rw [if_neg narrow]

/-- A write inside one block changes it unless the block starts with the written elements. -/
theorem block_writeAt_self_iff (fill : α) {content bytes : List α} {width : Nat} (index : Nat)
    (narrow : bytes.length ≤ width) :
    block width index (writeAt fill content (width * index) bytes) = block width index content ↔
      bytes <+: block width index content := by
  have written : block width index (writeAt fill content (width * index) bytes) =
      bytes ++ (content.drop (width * index + bytes.length)).take (width - bytes.length) := by
    rw [block, drop_writeAt fill content bytes (Nat.le_refl _), Nat.sub_self, List.drop_zero,
      Nat.max_eq_right (Nat.le_add_right ..), List.take_append, List.take_of_length_le narrow]
  rw [written]
  constructor
  · exact fun same => ⟨_, same⟩
  · rintro ⟨rest, same⟩
    have tail : (block width index content).drop bytes.length = rest := by
      rw [← same, List.drop_left]
    rw [← same, ← tail, block, List.drop_take, List.drop_drop]

/-- A write inside one block leaves another one unless it makes a short one in front of
it longer. -/
theorem block_writeAt_iff_of_ne (fill : α) {content bytes : List α} {width index other : Nat}
    (narrow : bytes.length ≤ width) (different : other ≠ index) :
    block width other (writeAt fill content (width * index) bytes) = block width other content ↔
      bytes = [] ∨ index < other ∨ width * (other + 1) ≤ content.length := by
  by_cases empty : bytes = []
  · subst empty
    exact iff_of_true rfl (.inl rfl)
  rcases Nat.lt_or_gt_of_ne different with before | after
  · have gap : width * (other + 1) ≤ width * index := Nat.mul_le_mul_left width before
    rw [Nat.mul_add, Nat.mul_one] at gap
    have positive := List.length_pos_of_ne_nil empty
    rw [Nat.mul_add, Nat.mul_one]
    constructor
    · intro same
      have reached := le_length_writeAt fill content empty (width * index)
      have lengths := congrArg List.length same
      rw [length_block, length_block] at lengths
      exact .inr (.inr (by omega))
    · rintro (none | later | whole)
      · exact absurd none empty
      · exact absurd later (Nat.not_lt_of_gt before)
      · have front := take_writeAt fill bytes gap whole
        have cut := congrArg (List.drop (width * other)) front
        rw [List.drop_take, List.drop_take, Nat.add_sub_cancel_left] at cut
        exact cut
  · have gap : width * (index + 1) ≤ width * other := Nat.mul_le_mul_left width after
    rw [Nat.mul_add, Nat.mul_one] at gap
    refine iff_of_true ?_ (.inr (.inl after))
    rw [block, drop_writeAt fill content bytes (by omega), List.drop_eq_nil_of_le (by omega),
      List.nil_append, Nat.max_eq_left (by omega), block]

/-- A write inside the list and one block leaves the other blocks unchanged. -/
theorem block_writeAt_of_ne (fill : α) {content bytes : List α} {width index other : Nat}
    (inside : width * index + bytes.length ≤ content.length) (narrow : bytes.length ≤ width)
    (different : other ≠ index) :
    block width other (writeAt fill content (width * index) bytes) =
      block width other content := by
  rw [block_writeAt_iff_of_ne fill narrow different]
  rcases Nat.lt_or_gt_of_ne different with before | after
  · have gap : width * (other + 1) ≤ width * index := Nat.mul_le_mul_left width before
    exact .inr (.inr (by omega))
  · exact .inr (.inl after)

/-- Lists of one length with the same blocks are equal. -/
theorem eq_of_blocks {width : Nat} (positive : 0 < width) {left right : List α}
    (lengths : left.length = right.length)
    (blocks : ∀ index, width * index < left.length →
      block width index left = block width index right) : left = right := by
  apply List.ext_getElem?
  intro position
  by_cases inside : position < left.length
  · have start : width * (position / width) < left.length :=
      Nat.lt_of_le_of_lt (Nat.mul_div_le position width) inside
    have same := congrArg (fun cut => cut[position % width]?) (blocks _ start)
    simp only [getElem?_block, Nat.mod_lt position positive, ↓reduceIte,
      Nat.div_add_mod] at same
    exact same
  · rw [List.getElem?_eq_none (by omega), List.getElem?_eq_none (by omega)]

end Blocks
