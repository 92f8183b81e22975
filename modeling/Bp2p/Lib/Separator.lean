import Mathlib.Data.List.Infix

/-! # Leftmost occurrences of a separator

`Separator.find` is the position of the leftmost occurrence of one list in
another. An occurrence found in a list is found at the same position in every
extension of the list (`Separator.find_append`). `Separator.split` cuts a list at the
leftmost separators, one after the other. A piece is *clean* when the
first separator of the piece followed by a separator is that separator
(`Separator.Clean`): exactly the pieces a leftmost split gives back unchanged.
For a separator made of one element twice these are the pieces that neither
contain the separator nor end in its element (`Separator.clean_double_iff`). The
pieces of a split are clean up to the last, and the only such pieces that are joined to
the text (`Separator.LeftmostSplit.eq_split`).
-/

namespace Separator

variable {α : Type*} [DecidableEq α]

/-- Position of the leftmost occurrence of `sep`. -/
def find (sep : List α) : List α → Option Nat
  | [] => if sep <+: [] then some 0 else none
  | first :: rest =>
      if sep <+: first :: rest then some 0 else (find sep rest).map (· + 1)

/-- A separator is found at a position exactly if it stands there and nowhere in front. -/
theorem find_eq_some_iff {sep text : List α} {position : Nat} :
    find sep text = some position ↔
      position ≤ text.length ∧ sep <+: text.drop position ∧
        ∀ earlier < position, ¬ sep <+: text.drop earlier := by
  induction text generalizing position with
  | nil =>
      by_cases occurs : sep <+: []
      · simp only [find, occurs, ↓reduceIte, Option.some.injEq, List.length_nil, Nat.le_zero,
          List.drop_nil, not_true_eq_false, imp_false, true_and]
        constructor
        · rintro rfl
          exact ⟨rfl, fun _ => Nat.not_lt_zero _⟩
        · exact fun conditions => conditions.1.symm
      · simp only [find, occurs, ↓reduceIte, reduceCtorEq, List.drop_nil, false_and, and_false]
  | cons first rest ih =>
      by_cases occurs : sep <+: first :: rest
      · simp only [find, occurs, ↓reduceIte, Option.some.injEq]
        constructor
        · rintro rfl
          exact ⟨Nat.zero_le _, occurs, fun _ earlier => absurd earlier (Nat.not_lt_zero _)⟩
        · rintro ⟨_, _, minimal⟩
          rcases Nat.eq_zero_or_pos position with zero | positive
          · exact zero.symm
          · exact absurd occurs (minimal 0 positive)
      · simp only [find, occurs, ↓reduceIte, Option.map_eq_some_iff]
        constructor
        · rintro ⟨inner, found, rfl⟩
          obtain ⟨bound, here, minimal⟩ := ih.mp found
          refine ⟨Nat.succ_le_succ bound, here, ?_⟩
          intro earlier before
          cases earlier with
          | zero => exact occurs
          | succ earlier => exact minimal earlier (Nat.lt_of_succ_lt_succ before)
        · rintro ⟨bound, here, minimal⟩
          cases position with
          | zero => exact absurd here occurs
          | succ position =>
              refine ⟨position, ih.mpr ⟨Nat.le_of_succ_le_succ bound, here, ?_⟩, rfl⟩
              intro earlier before
              exact minimal (earlier + 1) (Nat.succ_lt_succ before)

/-- An occurrence that is found ends inside the text. -/
theorem find_add_length_le {sep text : List α} {position : Nat}
    (found : find sep text = some position) : position + sep.length ≤ text.length := by
  obtain ⟨bound, here, _⟩ := find_eq_some_iff.mp found
  have fits := here.length_le
  rw [List.length_drop] at fits
  omega

/-- Nothing is found exactly when the separator does not occur. -/
theorem find_eq_none_iff {sep text : List α} : find sep text = none ↔ ¬ sep <:+: text := by
  induction text with
  | nil =>
      simp only [find, List.prefix_nil, List.infix_nil]
      split <;> simp_all only [reduceCtorEq, not_true_eq_false, not_false_eq_true]
  | cons first rest ih =>
      by_cases occurs : sep <+: first :: rest
      · simp only [find, occurs, ↓reduceIte, reduceCtorEq, false_iff, not_not]
        exact occurs.isInfix
      · simp only [find, occurs, ↓reduceIte, Option.map_eq_none_iff, ih, List.infix_cons_iff,
          false_or]

/-- What is found in a text is found in every extension of the text. -/
theorem find_append {sep text : List α} {position : Nat} (found : find sep text = some position)
    (rest : List α) : find sep (text ++ rest) = some position := by
  have fits := find_add_length_le found
  obtain ⟨bound, here, minimal⟩ := find_eq_some_iff.mp found
  refine find_eq_some_iff.mpr ⟨?_, ?_, ?_⟩
  · rw [List.length_append]
    omega
  · rw [List.drop_append_of_le_length bound]
    exact here.trans (List.prefix_append _ _)
  · intro earlier before occurs
    rw [List.drop_append_of_le_length (by omega)] at occurs
    refine minimal earlier before (List.prefix_of_prefix_length_le occurs
      (List.prefix_append _ _) ?_)
    rw [List.length_drop]
    omega

/-- The pieces between the leftmost separators. -/
def split (sep : {sep : List α // sep ≠ []}) (text : List α) : List (List α) :=
  match _found : find sep.val text with
  | some position => text.take position :: split sep (text.drop (position + sep.val.length))
  | none => [text]
termination_by text.length
decreasing_by
  have fits := find_add_length_le _found
  have positive := List.length_pos_of_ne_nil sep.property
  rw [List.length_drop]
  omega

theorem split_of_find_none {sep : {sep : List α // sep ≠ []}} {text : List α}
    (missing : find sep.val text = none) : split sep text = [text] := by
  rw [split, missing]

theorem split_of_find {sep : {sep : List α // sep ≠ []}} {text : List α} {position : Nat}
    (found : find sep.val text = some position) :
    split sep text = text.take position :: split sep (text.drop (position + sep.val.length)) := by
  rw [split, found]

theorem split_ne_nil (sep : {sep : List α // sep ≠ []}) (text : List α) :
    split sep text ≠ [] := by
  cases found : find sep.val text with
  | none => exact split_of_find_none found ▸ List.cons_ne_nil _ _
  | some position => exact split_of_find found ▸ List.cons_ne_nil _ _

/-- The first separator of the piece followed by a separator is that one. -/
def Clean (sep piece : List α) : Prop :=
  find sep (piece ++ sep) = some piece.length

instance (sep piece : List α) : Decidable (Clean sep piece) :=
  inferInstanceAs (Decidable (_ = _))

/-- A clean piece is found whole in front of the separator, whatever follows. -/
theorem Clean.find_append {sep piece : List α} (clean : Clean sep piece) (rest : List α) :
    find sep (piece ++ sep ++ rest) = some piece.length :=
  Separator.find_append clean rest

/-- A separator is found at the latest where the piece ends. -/
theorem find_append_sep (sep piece : List α) :
    ∃ position ≤ piece.length, find sep (piece ++ sep) = some position := by
  cases found : find sep (piece ++ sep) with
  | none => exact absurd (List.suffix_append piece sep).isInfix (find_eq_none_iff.mp found)
  | some position =>
      have fits := find_add_length_le found
      rw [List.length_append] at fits
      exact ⟨position, by omega, rfl⟩

/-- A piece that is not clean has a separator starting inside it. -/
theorem find_of_not_clean {sep piece : List α} (dirty : ¬ Clean sep piece) :
    ∃ position < piece.length, find sep (piece ++ sep) = some position := by
  obtain ⟨position, bound, found⟩ := find_append_sep sep piece
  refine ⟨position, Nat.lt_of_le_of_ne bound ?_, found⟩
  rintro rfl
  exact dirty found

/-- A piece without the first element of the separator is clean. -/
theorem clean_of_notMem {first : α} {tail piece : List α} (absent : first ∉ piece) :
    Clean (first :: tail) piece := by
  refine find_eq_some_iff.mpr ⟨by rw [List.length_append]; omega, ?_, ?_⟩
  · rw [List.drop_left]
  · intro earlier before occurs
    obtain ⟨rest, split⟩ := occurs
    rw [List.drop_append_of_le_length (Nat.le_of_lt before), List.drop_eq_getElem_cons before,
      List.cons_append, List.cons_append, List.cons.injEq] at split
    exact absent (split.1 ▸ List.getElem_mem before)

/-- A piece containing the separator is not clean. -/
theorem not_clean_of_infix {sep piece : List α} (nonempty : sep ≠ []) (occurs : sep <:+: piece) :
    ¬ Clean sep piece := by
  intro clean
  cases found : find sep piece with
  | none => exact find_eq_none_iff.mp found occurs
  | some position =>
      have fits := find_add_length_le found
      have same := (find_append found sep).symm.trans clean
      rw [Option.some.injEq] at same
      have positive := List.length_pos_of_ne_nil nonempty
      omega

/-- The clean pieces of a separator that is one element twice. -/
theorem clean_double_iff {bar : α} {piece : List α} :
    Clean [bar, bar] piece ↔ ¬ [bar, bar] <:+: piece ∧ piece.getLast? ≠ some bar := by
  constructor
  · intro clean
    refine ⟨fun occurs => not_clean_of_infix (List.cons_ne_nil _ _) occurs clean, ?_⟩
    intro ends
    obtain ⟨front, rfl⟩ := List.getLast?_eq_some_iff.mp ends
    refine (find_eq_some_iff.mp clean).2.2 front.length (by simp) ⟨[bar], ?_⟩
    rw [List.append_assoc, List.drop_left]
    rfl
  · rintro ⟨absent, ends⟩
    by_contra dirty
    obtain ⟨position, bound, found⟩ := find_of_not_clean dirty
    obtain ⟨rest, split⟩ := (find_eq_some_iff.mp found).2.1
    rw [List.drop_append_of_le_length (Nat.le_of_lt bound), List.drop_eq_getElem_cons bound]
      at split
    simp only [List.cons_append, List.nil_append, List.cons.injEq] at split
    -- the second bar of the occurrence is in the piece, or the first one is its last element
    by_cases last : position + 1 < piece.length
    · rw [List.drop_eq_getElem_cons last, List.cons_append, List.cons.injEq] at split
      apply absent
      refine (show [bar, bar] <+: piece.drop position from ⟨piece.drop (position + 1 + 1), ?_⟩)
        |>.isInfix.trans (List.drop_suffix position piece).isInfix
      rw [List.drop_eq_getElem_cons bound, List.drop_eq_getElem_cons last, ← split.1,
        ← split.2.1]
      rfl
    · apply ends
      rw [List.getLast?_eq_getElem?, show piece.length - 1 = position by omega,
        List.getElem?_eq_getElem bound, split.1]

/-- A text as pieces joined by the separator, each the text in front of the leftmost
separator that is left. -/
structure LeftmostSplit (sep text : List α) (pieces : List (List α)) : Prop where
  ne_nil : pieces ≠ []
  joined : sep.intercalate pieces = text
  clean : ∀ piece ∈ pieces.dropLast, Clean sep piece
  last : ∀ piece ∈ pieces.getLast?, ¬ sep <:+: piece

/-- A text without the separator is split into itself. -/
theorem leftmostSplit_singleton {sep text : List α}
    (missing : ¬ sep <:+: text) : LeftmostSplit sep text [text] where
  ne_nil := List.cons_ne_nil _ _
  joined := List.intercalate_singleton
  clean := by simp only [List.dropLast_singleton, List.not_mem_nil, false_implies, implies_true]
  last := by
    rintro piece same
    rw [List.getLast?_singleton, Option.mem_some_iff] at same
    exact same ▸ missing

/-- A clean piece in front of a leftmost split. -/
theorem leftmostSplit_cons_iff {sep text piece : List α} {pieces : List (List α)}
    (ne_nil : pieces ≠ []) :
    LeftmostSplit sep text (piece :: pieces) ↔
      Clean sep piece ∧ ∃ rest, text = piece ++ sep ++ rest ∧ LeftmostSplit sep rest pieces := by
  have front : (piece :: pieces).dropLast = piece :: pieces.dropLast :=
    List.dropLast_cons_of_ne_nil ne_nil
  have back : (piece :: pieces).getLast? = pieces.getLast? := by
    obtain ⟨next, rest, rfl⟩ := List.exists_cons_of_ne_nil ne_nil
    exact List.getLast?_cons_cons
  constructor
  · intro leftmost
    have clean := leftmost.clean
    rw [front, List.forall_mem_cons] at clean
    refine ⟨clean.1, sep.intercalate pieces, ?_, ne_nil, rfl, clean.2, back ▸ leftmost.last⟩
    rw [← leftmost.joined, List.intercalate_cons_of_ne_nil ne_nil]
  · rintro ⟨clean, rest, rfl, leftmost⟩
    refine ⟨List.cons_ne_nil _ _, ?_, ?_, back ▸ leftmost.last⟩
    · rw [List.intercalate_cons_of_ne_nil ne_nil, leftmost.joined]
    · rw [front, List.forall_mem_cons]
      exact ⟨clean, leftmost.clean⟩

/-- The first piece in front of the leftmost separator is clean. -/
theorem clean_take {sep text : List α} {position : Nat} (found : find sep text = some position) :
    Clean sep (text.take position) ∧
      text = text.take position ++ sep ++ text.drop (position + sep.length) := by
  obtain ⟨bound, here, minimal⟩ := find_eq_some_iff.mp found
  have cut : text = text.take position ++ sep ++ text.drop (position + sep.length) := by
    obtain ⟨rest, behind⟩ := here
    have tail : text.drop (position + sep.length) = rest := by
      rw [← List.drop_drop, ← behind, List.drop_left]
    rw [tail, List.append_assoc, behind, List.take_append_drop]
  have inside : text.take position ++ sep <+: text := ⟨_, cut.symm⟩
  have length : (text.take position).length = position := List.length_take_of_le bound
  refine ⟨find_eq_some_iff.mpr ⟨?_, ?_, ?_⟩, cut⟩
  · rw [List.length_append]
    omega
  · rw [List.drop_left]
  · intro earlier before occurs
    exact minimal earlier (length ▸ before) (occurs.trans (inside.drop earlier))

/-- The pieces of a leftmost split are those the separators found one after the other leave. -/
theorem LeftmostSplit.eq_split {sep : {sep : List α // sep ≠ []}} {text : List α}
    {pieces : List (List α)} (leftmost : LeftmostSplit sep.val text pieces) :
    pieces = split sep text := by
  induction pieces generalizing text with
  | nil => exact absurd rfl leftmost.ne_nil
  | cons piece pieces ih =>
      cases pieces with
      | nil =>
          obtain rfl : piece = text := List.intercalate_singleton.symm.trans leftmost.joined
          have missing := leftmost.last piece (Option.mem_some_self piece)
          exact (split_of_find_none (find_eq_none_iff.mpr missing)).symm
      | cons next pieces =>
          obtain ⟨clean, rest, rfl, behind⟩ :=
            (leftmostSplit_cons_iff (List.cons_ne_nil next pieces)).mp leftmost
          rw [split_of_find (clean.find_append rest), List.append_assoc, List.take_left,
            ← List.append_assoc, ← List.length_append, List.drop_left, ← ih behind]

/-- Splitting at the leftmost separators splits as specified. -/
theorem leftmostSplit_split (sep : {sep : List α // sep ≠ []}) (text : List α) :
    LeftmostSplit sep.val text (split sep text) := by
  induction text using split.induct sep with
  | case1 text position found ih =>
      rw [split_of_find found]
      obtain ⟨clean, cut⟩ := clean_take found
      exact (leftmostSplit_cons_iff (split_ne_nil sep _)).mpr ⟨clean, _, cut, ih⟩
  | case2 text missing =>
      rw [split_of_find_none missing]
      exact leftmostSplit_singleton (find_eq_none_iff.mp missing)

end Separator
