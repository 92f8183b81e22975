import Bp2p.Json
import Mathlib.Logic.Encodable.Basic
import Mathlib.Logic.Equiv.List

/-! # Texts in UTF-8

A JSON document is printed when its strings are UTF-8, and a text whose strings are
not is no document (`Bp2p.JsonLib.ChecksUtf8`). Setting and reading members keeps a
document valid. There is a library that does all this and prints one document the way
one likes (`Bp2p.JsonLib.printing`).
-/

namespace Bp2p

/-- The seven-bit characters encode themselves. -/
theorem isUtf8_of_ascii {bytes : Bytes} (ascii : ∀ byte ∈ bytes, byte < 128) : IsUtf8 bytes := by
  refine ⟨bytes.map fun byte => Char.ofNat byte.toNat, ?_⟩
  induction bytes with
  | nil => rfl
  | cons byte rest ih =>
      have low : byte.toNat < 128 := UInt8.lt_iff_toNat_lt.mp (ascii byte List.mem_cons_self)
      have valid : byte.toNat.isValidChar := .inl (by omega)
      have value : (Char.ofNat byte.toNat).val.toNat = byte.toNat := by
        rw [Char.ofNat, dif_pos valid]
        rfl
      have single : String.utf8EncodeChar (Char.ofNat byte.toNat) = [byte] := by
        unfold String.utf8EncodeChar
        rw [value, if_pos (by omega)]
        simp
      rw [List.map_cons, List.flatMap_cons, single, List.singleton_append,
        ← ih fun other member => ascii other (List.mem_cons_of_mem _ member)]

theorem isUtf8_of_all {bytes : Bytes} (ascii : bytes.all (· < 128) = true) : IsUtf8 bytes :=
  isUtf8_of_ascii fun byte member => of_decide_eq_true (List.all_eq_true.mp ascii byte member)

/-- Numerals are UTF-8. -/
theorem isUtf8_numeral (number : Nat) : IsUtf8 (Decimal.numeral number) := by
  apply isUtf8_of_ascii
  intro byte member
  have digit := Decimal.isDigit_of_mem_numeral member
  simp only [Decimal.isDigit, Bool.and_eq_true, decide_eq_true_eq] at digit
  rw [UInt8.lt_iff_toNat_lt]
  exact Nat.lt_of_le_of_lt digit.2 (by decide)

namespace Json

/-- What is in the members after one was set. -/
theorem mem_insertMember {key : Bytes} {value : Json} {members : List (Bytes × Json)}
    {entry : Bytes × Json} (inside : entry ∈ insertMember key value members) :
    entry = (key, value) ∨ entry ∈ members := by
  induction members with
  | nil => exact .inl (List.mem_singleton.mp inside)
  | cons first rest ih =>
      obtain ⟨name, old⟩ := first
      unfold insertMember at inside
      split at inside
      · rcases List.mem_cons.mp inside with same | later
        · exact .inl same
        · exact .inr (List.mem_cons_of_mem _ later)
      · split at inside
        · exact List.mem_cons.mp inside
        · rcases List.mem_cons.mp inside with same | later
          · exact .inr (same ▸ List.mem_cons_self)
          · exact (ih later).imp id (List.mem_cons_of_mem _)

/-- A member that is found is there. -/
theorem mem_of_member {key : Bytes} {value : Json} {members : List (Bytes × Json)}
    (found : member key members = some value) : ∃ name, (name, value) ∈ members := by
  induction members with
  | nil => cases found
  | cons first rest ih =>
      obtain ⟨name, old⟩ := first
      unfold member at found
      split at found
      · cases found
        exact ⟨name, List.mem_cons_self⟩
      · obtain ⟨other, inside⟩ := ih found
        exact ⟨other, List.mem_cons_of_mem _ inside⟩

/-- A member that is set has its place between smaller and greater keys. -/
theorem ascending_insertMember (key : Bytes) (value : Json) {members : List (Bytes × Json)}
    (ascending : (members.map Prod.fst).Pairwise fun key other => compare key other = .lt) :
    ((Json.insertMember key value members).map Prod.fst).Pairwise
      fun key other => compare key other = .lt := by
  induction members with
  | nil => exact List.pairwise_singleton _ _
  | cons first rest ih =>
      obtain ⟨name, old⟩ := first
      obtain ⟨smaller, later⟩ := List.pairwise_cons.mp ascending
      unfold Json.insertMember
      split
      · next same =>
          subst same
          exact List.pairwise_cons.mpr ⟨smaller, later⟩
      · next different =>
          split
          · next front =>
              refine List.pairwise_cons.mpr ⟨fun other inside => ?_, ascending⟩
              rcases List.mem_cons.mp inside with rfl | behind
              · exact front
              · exact Std.TransCmp.lt_trans front (smaller other behind)
          · next behind =>
              refine List.pairwise_cons.mpr ⟨fun other inside => ?_, ih later⟩
              obtain ⟨entry, member, rfl⟩ := List.mem_map.mp inside
              rcases mem_insertMember member with rfl | kept
              · -- neither equal nor smaller, the key is greater
                refine Std.OrientedCmp.gt_iff_lt.mp ?_
                cases order : compare key name with
                | lt => exact absurd order behind
                | eq => exact absurd (Std.LawfulEqOrd.eq_of_compare order).symm different
                | gt => rfl
              · exact smaller entry.1 (List.mem_map_of_mem kept)

/-- An object stays valid with a valid member more. -/
theorem Valid.insertMember {key : Bytes} {value : Json} {members : List (Bytes × Json)}
    (document : (Json.object members).Valid) (name : IsUtf8 key) (valid : value.Valid) :
    (Json.object (Json.insertMember key value members)).Valid := by
  cases document with
  | object ascending keys values =>
      refine .object (ascending_insertMember key value ascending) (fun entry inside => ?_)
        (fun entry inside => ?_)
      · rcases mem_insertMember inside with rfl | old
        · exact name
        · exact keys entry old
      · rcases mem_insertMember inside with rfl | old
        · exact valid
        · exact values entry old

/-- An object of one valid member is valid. -/
theorem valid_single {key : Bytes} {value : Json} (name : IsUtf8 key) (text : value.Valid) :
    (object [(key, value)]).Valid := by
  refine .object (List.pairwise_singleton _ _) (fun entry inside => ?_) (fun entry inside => ?_)
  · rw [List.mem_singleton.mp inside]
    exact name
  · rw [List.mem_singleton.mp inside]
    exact text

/-- Assigning a valid value leaves a valid object. -/
theorem Valid.assign {jobj result value : Json} {key : Bytes} (document : jobj.Valid)
    (name : IsUtf8 key) (text : value.Valid) (assigned : jobj.assign key value = some result) :
    result.Valid := by
  cases jobj with
  | null =>
      cases assigned
      exact valid_single name text
  | object members =>
      cases assigned
      exact document.insertMember name text
  | boolean _ | unsigned _ | integer _ | float _ | string _ | array _ => cases assigned

/-- Looking a member up, or making it null, leaves a valid object and a valid member. -/
theorem Valid.access {jobj after value : Json} {key : Bytes} (document : jobj.Valid)
    (name : IsUtf8 key) (accessed : jobj.access key = some (after, value)) :
    after.Valid ∧ value.Valid := by
  cases jobj with
  | null =>
      cases accessed
      exact ⟨valid_single name .null, .null⟩
  | object members =>
      unfold Json.access at accessed
      simp only at accessed
      split at accessed
      · next found =>
          cases accessed
          obtain ⟨other, inside⟩ := mem_of_member found
          cases document with
          | object ascending keys values =>
              exact ⟨.object ascending keys values, values _ inside⟩
      · cases accessed
        exact ⟨document.insertMember name .null, .null⟩
  | boolean _ | unsigned _ | integer _ | float _ | string _ | array _ => cases accessed

end Json

/-- The library checks UTF-8: what it parses is valid, and what is valid it prints. Only a
string converts to one. -/
structure JsonLib.ChecksUtf8 (json : JsonLib) : Prop where
  parse : ∀ text value, json.parse text = some value → value.Valid
  dump : ∀ value, value.Valid → ∃ text, json.dump value = some text
  getString : ∀ value result, json.getString value = some result → value = .string result

namespace Json

mutual

/-- Every value as a list of numbers that ends where its value ends. -/
def code : Json → List Nat
  | .null => [0]
  | .boolean value => [1, value.toNat]
  | .unsigned value => [2, value.toNat]
  | .integer value => [3, value.toUInt64.toNat]
  | .float bits => [4, bits.toNat]
  | .string value => 5 :: value.length :: value.map UInt8.toNat
  | .array elements => 6 :: elements.length :: codeElements elements
  | .object members => 7 :: members.length :: codeMembers members

/-- The numbers of the elements of an array, one behind the other. -/
def codeElements : List Json → List Nat
  | [] => []
  | element :: rest => element.code ++ codeElements rest

/-- The numbers of the members of an object, each behind its key. -/
def codeMembers : List (Bytes × Json) → List Nat
  | [] => []
  | (key, value) :: rest =>
      key.length :: (key.map UInt8.toNat ++ (value.code ++ codeMembers rest))

end

/-- A text of known length is cut off a list of numbers in one way. -/
theorem numbers_append {left right : Bytes} {rest more : List Nat}
    (length : left.length = right.length)
    (same : left.map UInt8.toNat ++ rest = right.map UInt8.toNat ++ more) :
    left = right ∧ rest = more := by
  obtain ⟨texts, behind⟩ := List.append_inj same (by rw [List.length_map, List.length_map, length])
  exact ⟨List.map_injective_iff.mpr (fun _ _ => UInt8.toNat_inj.mp) texts, behind⟩

mutual

/-- A value is cut off a list of numbers in one way. -/
theorem code_append (value other : Json) (rest more : List Nat)
    (same : value.code ++ rest = other.code ++ more) : value = other ∧ rest = more := by
  cases value with
  | null => cases other <;> simp_all [code]
  | boolean value =>
      cases other with
      | boolean other => cases value <;> cases other <;> simp_all [code]
      | _ => simp [code] at same
  | unsigned value =>
      cases other with
      | unsigned other => simpa [code, UInt64.toNat_inj] using same
      | _ => simp [code] at same
  | integer value =>
      cases other with
      | integer other =>
          cases value
          cases other
          simpa [code, UInt64.toNat_inj] using same
      | _ => simp [code] at same
  | float bits =>
      cases other with
      | float other => simpa [code, UInt64.toNat_inj] using same
      | _ => simp [code] at same
  | string value =>
      cases other with
      | string other =>
          simp only [code, List.cons_append, List.cons.injEq, true_and] at same
          obtain ⟨rfl, behind⟩ := numbers_append same.1 same.2
          exact ⟨rfl, behind⟩
      | _ => simp [code] at same
  | array elements =>
      cases other with
      | array others =>
          simp only [code, List.cons_append, List.cons.injEq, true_and] at same
          obtain ⟨rfl, behind⟩ := codeElements_append elements others rest more same.1 same.2
          exact ⟨rfl, behind⟩
      | _ => simp [code] at same
  | object members =>
      cases other with
      | object others =>
          simp only [code, List.cons_append, List.cons.injEq, true_and] at same
          obtain ⟨rfl, behind⟩ := codeMembers_append members others rest more same.1 same.2
          exact ⟨rfl, behind⟩
      | _ => simp [code] at same

/-- The elements are determined by their numbers, whatever follows. -/
theorem codeElements_append (elements others : List Json) (rest more : List Nat)
    (length : elements.length = others.length)
    (same : codeElements elements ++ rest = codeElements others ++ more) :
    elements = others ∧ rest = more := by
  cases elements with
  | nil =>
      cases others with
      | nil => exact ⟨rfl, same⟩
      | cons _ _ => cases length
  | cons first later =>
      cases others with
      | nil => cases length
      | cons other behind =>
          simp only [codeElements, List.append_assoc] at same
          obtain ⟨rfl, tails⟩ := code_append first other _ _ same
          obtain ⟨rfl, last⟩ := codeElements_append later behind rest more
            (Nat.succ.inj length) tails
          exact ⟨rfl, last⟩

/-- The members are determined by their numbers, whatever follows. -/
theorem codeMembers_append (members others : List (Bytes × Json)) (rest more : List Nat)
    (length : members.length = others.length)
    (same : codeMembers members ++ rest = codeMembers others ++ more) :
    members = others ∧ rest = more := by
  match members, others with
  | [], [] => exact ⟨rfl, same⟩
  | [], _ :: _ => cases length
  | _ :: _, [] => cases length
  | (key, first) :: later, (name, other) :: behind =>
      simp only [codeMembers, List.cons_append, List.append_assoc, List.cons.injEq] at same
      obtain ⟨rfl, values⟩ := numbers_append same.1 same.2
      obtain ⟨rfl, tails⟩ := code_append first other _ _ values
      obtain ⟨rfl, last⟩ := codeMembers_append later behind rest more
        (Nat.succ.inj length) tails
      exact ⟨rfl, last⟩

end

theorem code_injective : Function.Injective code := by
  intro value other same
  exact (code_append value other [] [] (congrArg (· ++ []) same)).1

end Json

namespace JsonLib

open Classical in
/-- The text of a value: the one given for the document, the number of its code for others. -/
noncomputable def printed (document : Json) (text : Bytes) (value : Json) : Bytes :=
  if value = document then text else Decimal.numeral (Encodable.encode value.code)

/-- Different values are printed differently. -/
theorem printed_injective {document : Json} {text : Bytes}
    (brace : text.all Decimal.isDigit = false) : Function.Injective (printed document text) := by
  have numeral_ne : ∀ number, Decimal.numeral number ≠ text := by
    intro number same
    rw [← same] at brace
    exact absurd (List.all_eq_true.mpr fun _ member => Decimal.isDigit_of_mem_numeral member)
      (Bool.eq_false_iff.mp brace)
  intro value other same
  unfold printed at same
  split at same
  · next first =>
      split at same
      · next second => exact first.trans second.symm
      · exact absurd same.symm (numeral_ne _)
  · split at same
    · exact absurd same (numeral_ne _)
    · exact Json.code_injective (Encodable.encode_injective (Decimal.numeral_injective same))

open Classical in
/-- A library that prints the document as the text, and parses what it prints. -/
noncomputable def printing (document : Json) (text : Bytes)
    (brace : text.all Decimal.isDigit = false) : JsonLib where
  __ := JsonLib.null
  parse input :=
    if known : ∃ value, value.Valid ∧ printed document text value = input then some known.choose
    else none
  dump value := if value.Valid then some (printed document text value) else none
  dump_valid value output dumped := by
    split at dumped
    · next checked => exact checked
    · cases dumped
  parse_dump value output valid dumped := by
    rw [if_pos valid, Option.some.injEq] at dumped
    subst dumped
    have known : ∃ other : Json, other.Valid ∧
        printed document text other = printed document text value := ⟨value, valid, rfl⟩
    rw [dif_pos known, printed_injective brace known.choose_spec.2]
  dump_ne_nil value output dumped := by
    split at dumped
    · cases dumped
      unfold printed
      split
      · rintro rfl
        cases brace
      · exact Decimal.numeral_ne_nil _
    · cases dumped

open Classical in

theorem printing_parse (document : Json) (text : Bytes) (brace : text.all Decimal.isDigit = false)
    (input : Bytes) : (printing document text brace).parse input =
      if known : ∃ value, value.Valid ∧ printed document text value = input then some known.choose
      else none :=
  rfl

/-- The library prints every valid value, and reads no other. -/
theorem printing_checksUtf8 (document : Json) (text : Bytes)
    (brace : text.all Decimal.isDigit = false) : (printing document text brace).ChecksUtf8 where
  parse input value parsed := by
    rw [printing_parse] at parsed
    split at parsed
    · next known =>
        cases parsed
        exact known.choose_spec.1
    · cases parsed
  dump value checked := ⟨_, if_pos checked⟩
  getString value result converted := by
    cases value with
    | string text =>
        cases converted
        rfl
    | null | boolean _ | unsigned _ | integer _ | float _ | array _ | object _ => cases converted

/-- The known document is printed as its text. -/
theorem printing_dump {document : Json} (checked : document.Valid) (text : Bytes)
    (brace : text.all Decimal.isDigit = false) :
    (printing document text brace).dump document = some text := by
  have dumped : (printing document text brace).dump document =
    some (printed document text document) := if_pos checked
  rw [dumped, printed, if_pos rfl]

end JsonLib

end Bp2p
