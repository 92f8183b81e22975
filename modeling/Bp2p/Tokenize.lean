import Bp2p.Utils

/-! # What `tokenize` returns

`tokenize` cuts a text at the leftmost separators, one after the other
(`Bp2p.Utils.tokenize_of_find`, `Bp2p.Utils.tokenize_of_find_none`). Of a text shorter than
`2 ^ 31` bytes it returns the leftmost split (`Bp2p.Utils.tokenize_leftmostSplit`). The token
in front of a separator is the text in front of it as long as that is shorter
than `2 ^ 31` bytes; the `int` its length is kept in makes longer ones come out
wrong (`Bp2p.substr_eq_piece_iff`).
-/

namespace Bp2p

/-- The `int` length of a token is right exactly below `2 ^ 31`. -/
theorem substr_eq_piece_iff {piece sep rest : Bytes} (nonempty : sep ≠ []) :
    substr (piece ++ sep ++ rest) 0 (Int32.ofNat piece.length) = piece ↔
      piece.length < 2 ^ 31 := by
  have positive := List.length_pos_of_ne_nil nonempty
  unfold substr
  rw [List.drop_zero]
  split
  · next negative =>
      rw [toInt_ofNat_neg_iff] at negative
      constructor
      · intro same
        have lengths := congrArg List.length same
        simp only [List.length_append] at lengths
        omega
      · omega
  · next nonnegative =>
      rw [toInt_ofNat_neg_iff, Nat.not_le] at nonnegative
      rw [toNat_toInt_ofNat nonnegative, List.append_assoc]
      constructor
      · intro same
        have lengths := congrArg List.length same
        simp only [List.length_take, List.length_append] at lengths
        omega
      · intro short
        rw [Nat.mod_eq_of_lt (by omega), List.take_left]

namespace Utils

/-- The loop only appends to the tokens, and only looks at the text behind `pos`. -/
theorem tokenizeLoop_eq (sep : Sep) (remaining : Nat) :
    ∀ (text : Bytes) (pos : Nat) (tokens : List Bytes), text.length + 1 - pos = remaining →
      tokenizeLoop text sep pos pos tokens =
        tokens ++ tokenizeLoop (text.drop pos) sep 0 0 [] := by
  induction remaining using Nat.strong_induction_on with
  | _ remaining ih =>
      intro text pos tokens measured
      have head : findFrom (text.drop pos) sep 0 = Separator.find sep.val (text.drop pos) := by
        simp only [findFrom, List.drop_zero, Nat.add_zero, Option.map_id_fun', id_eq]
      cases found : Separator.find sep.val (text.drop pos) with
      | none =>
          have missing : findFrom text sep pos = none := by
            simp only [findFrom, found, Option.map_none]
          rw [tokenizeLoop, missing]
          rw [tokenizeLoop, head, found]
          simp only [List.drop_zero, List.nil_append]
      | some inner =>
          have fits := Separator.find_add_length_le found
          have positive := List.length_pos_of_ne_nil sep.property
          rw [List.length_drop] at fits
          have present : findFrom text sep pos = some (inner + pos) := by
            simp only [findFrom, found, Option.map_some]
          rw [tokenizeLoop, present]
          rw [tokenizeLoop, head, found]
          simp only [List.nil_append, Nat.sub_zero, Nat.add_sub_cancel]
          rw [ih _ (by omega) text (inner + pos + sep.val.length) _ rfl,
            ih (text.length + 1 - (inner + pos + sep.val.length)) (by omega) (text.drop pos)
              (inner + sep.val.length) _ (by rw [List.length_drop]; omega),
            List.drop_drop, show pos + (inner + sep.val.length) = inner + pos + sep.val.length
              by omega, List.append_assoc]
          simp only [substr, List.drop_zero]

/-- `tokenize` appends to the vector it is given. -/
theorem tokenize_eq_append (text : Bytes) (sep : Sep) (tokens : List Bytes) :
    tokenize text sep tokens = tokens ++ tokenize text sep [] :=
  tokenizeLoop_eq sep _ text 0 tokens rfl

/-- A text without the separator is its only token. -/
theorem tokenize_of_find_none {text : Bytes} {sep : Sep}
    (missing : Separator.find sep.val text = none) : tokenize text sep [] = [text] := by
  have missingFrom : findFrom text sep 0 = none := by
    simp only [findFrom, List.drop_zero, missing, Option.map_none]
  rw [tokenize, tokenizeLoop, missingFrom]
  rfl

/-- The first token stands in front of the leftmost separator; the others are
the tokens of the text behind it. -/
theorem tokenize_of_find {text : Bytes} {sep : Sep} {position : Nat}
    (found : Separator.find sep.val text = some position) :
    tokenize text sep [] = substr text 0 (Int32.ofNat position) ::
      tokenize (text.drop (position + sep.val.length)) sep [] := by
  have foundFrom : findFrom text sep 0 = some position := by
    simp only [findFrom, List.drop_zero, found, Option.map_some, Nat.add_zero]
  rw [tokenize, tokenizeLoop, foundFrom]
  simp only [Nat.sub_zero, List.nil_append]
  rw [tokenizeLoop_eq sep _ text _ _ rfl]
  rfl

/-- The tokens of a text shorter than `2 ^ 31` bytes are the pieces between its separators. -/
theorem tokenize_eq_split {text : Bytes} (sep : Sep) (short : text.length < 2 ^ 31) :
    tokenize text sep [] = Separator.split sep text := by
  induction text using Separator.split.induct sep with
  | case1 text position found ih =>
      have fits := Separator.find_add_length_le found
      rw [tokenize_of_find found, Separator.split_of_find found,
        ih (Nat.lt_of_le_of_lt (by rw [List.length_drop]; omega) short)]
      have nonnegative : ¬ (Int32.ofNat position).toInt < 0 := by
        rw [toInt_ofNat_neg_iff]
        omega
      rw [substr, if_neg nonnegative, toNat_toInt_ofNat (by omega), List.drop_zero,
        Nat.mod_eq_of_lt (by omega)]
  | case2 text missing =>
      rw [tokenize_of_find_none missing, Separator.split_of_find_none missing]

/-- **`tokenize` is the leftmost split.** A text shorter than `2 ^ 31` bytes is the tokens that
are appended to the vector, joined by the separator; in front of each separator stands a token
in which it does not start, the last token does not contain it, and there is no other such list
of tokens. -/
theorem tokenize_leftmostSplit (text : Bytes) (sep : Sep) (tokens : List Bytes)
    (short : text.length < 2 ^ 31) :
    ∃ pieces, tokenize text sep tokens = tokens ++ pieces ∧
      Separator.LeftmostSplit sep.val text pieces ∧
      ∀ other, Separator.LeftmostSplit sep.val text other → other = pieces := by
  refine ⟨Separator.split sep text, ?_, Separator.leftmostSplit_split sep text, ?_⟩
  · rw [tokenize_eq_append, tokenize_eq_split sep short]
  · exact fun other leftmost => leftmost.eq_split

/-- Three bars between two letters. -/
theorem tokenize_leftmostSplit_bars :
    ∃ pieces, tokenize [97, 124, 124, 124, 98] ⟨[124, 124], by decide⟩ [[120]] = [[120]] ++ pieces ∧
      Separator.LeftmostSplit [124, 124] [97, 124, 124, 124, 98] pieces ∧
      ∀ other, Separator.LeftmostSplit [124, 124] [97, 124, 124, 124, 98] other →
        other = pieces :=
  tokenize_leftmostSplit [97, 124, 124, 124, 98] ⟨[124, 124], by decide⟩ [[120]] (by decide)

/-- In a run of bars the leftmost two are the separator. -/
example : Separator.split ⟨[124, 124], by decide⟩ [97, 124, 124, 124, 98] =
    [[97], [124, 98]] := by
  have front : Separator.find [124, 124] [97, 124, 124, 124, 98] = some 1 := by decide
  have back : Separator.find [124, 124] [124, 98] = none := by decide
  exact (Separator.split_of_find front).trans (congrArg _ (Separator.split_of_find_none back))

/-- The tokens of a clean piece, the separator and a rest. -/
theorem tokenize_clean_append {piece : Bytes} (rest : Bytes) {sep : Sep}
    (clean : Separator.Clean sep.val piece) :
    tokenize (piece ++ sep.val ++ rest) sep [] =
      substr (piece ++ sep.val ++ rest) 0 (Int32.ofNat piece.length) ::
        tokenize rest sep [] := by
  rw [tokenize_of_find (clean.find_append rest), ← List.length_append, List.drop_left]

/-- A clean piece shorter than `2 ^ 31` bytes is a token. -/
theorem tokenize_clean_append_of_lt {piece rest : Bytes} {sep : Sep}
    (clean : Separator.Clean sep.val piece) (short : piece.length < 2 ^ 31) :
    tokenize (piece ++ sep.val ++ rest) sep [] = piece :: tokenize rest sep [] := by
  rw [tokenize_clean_append rest clean, (substr_eq_piece_iff sep.property).mpr short]

end Utils

end Bp2p
