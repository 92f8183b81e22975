import Bp2p.Utils

/-! # JSON documents

The values `nlohmann::json` works on and the parts of its interface the node
uses. Members of an object are kept in key order, as a `std::map` keeps them.
Element access follows `operator[]`, which creates what it does not find and
throws on values of the wrong kind. Parsing, printing and the typed accessors
are a parameter (`Bp2p.JsonLib`) with the laws the node relies on, which speak of the
values the library can hold and print (`Bp2p.Json.Valid`).
-/

namespace Bp2p

/-- A JSON value. Integers without a sign are `unsigned`, negative ones
`integer`, all other numbers `float`. -/
inductive Json
  | null
  | boolean (value : Bool)
  | unsigned (value : UInt64)
  | integer (value : Int64)
  | float (bits : UInt64)
  | string (value : Bytes)
  | array (elements : List Json)
  | object (members : List (Bytes × Json))

/-- The bytes encode a text in UTF-8. -/
def IsUtf8 (bytes : Bytes) : Prop :=
  ∃ text : List Char, bytes = text.flatMap String.utf8EncodeChar

namespace Json

/-- The member of a key. -/
def member (key : Bytes) : List (Bytes × Json) → Option Json
  | [] => none
  | (first, value) :: rest => if first = key then some value else member key rest

/-- Put a member in its place in the key order, replacing one of the same key. -/
def insertMember (key : Bytes) (value : Json) : List (Bytes × Json) → List (Bytes × Json)
  | [] => [(key, value)]
  | (first, old) :: rest =>
      if first = key then (key, value) :: rest
      else if compare key first = .lt then (key, value) :: (first, old) :: rest
      else (first, old) :: insertMember key value rest

/-- `jobj[key]` on a value that may be changed: the value after the access and the
element. A missing member is created as null; only null and objects have members. -/
def access (jobj : Json) (key : Bytes) : Option (Json × Json) :=
  match jobj with
  | .null => some (.object [(key, .null)], .null)
  | .object members =>
      match member key members with
      | some value => some (jobj, value)
      | none => some (.object (insertMember key .null members), .null)
  | _ => none

/-- `jobj[key] = value`. -/
def assign (jobj : Json) (key : Bytes) (value : Json) : Option Json :=
  match jobj with
  | .null => some (.object [(key, value)])
  | .object members => some (.object (insertMember key value members))
  | _ => none

/-- `jobj[position]` on a copy: elements missing from an array are null. -/
def element (jobj : Json) (position : Nat) : Option Json :=
  match jobj with
  | .null => some .null
  | .array elements => some (elements.getD position .null)
  | _ => none

/-- Null or an object: a value with members. -/
def HasMembers : Json → Prop
  | .null => True
  | .object _ => True
  | _ => False

/-- The member of a key of any value. -/
def lookup (jobj : Json) (key : Bytes) : Option Json :=
  match jobj with
  | .object members => member key members
  | _ => none

/-- A value that parsing and assigning make, and that is printed: every string is UTF-8, keys
ascend, and numbers are of the kind that fits them. -/
inductive Valid : Json → Prop
  | null : Valid .null
  | boolean (value : Bool) : Valid (.boolean value)
  | unsigned (value : UInt64) : Valid (.unsigned value)
  | integer {value : Int64} (negative : value < 0) : Valid (.integer value)
  -- the exponent is not the one of infinities and of what is no number
  | float {bits : UInt64} (finite : bits &&& 0x7ff0000000000000 ≠ 0x7ff0000000000000) :
      Valid (.float bits)
  | string {value : Bytes} (text : IsUtf8 value) : Valid (.string value)
  | array {elements : List Json} (all : ∀ element ∈ elements, Valid element) :
      Valid (.array elements)
  | object {members : List (Bytes × Json)}
      (ascending : (members.map Prod.fst).Pairwise fun key other => compare key other = .lt)
      (keys : ∀ entry ∈ members, IsUtf8 entry.1) (values : ∀ entry ∈ members, Valid entry.2) :
      Valid (.object members)

/-- An inserted member is found. -/
@[simp] theorem member_insertMember_self (key : Bytes) (value : Json)
    (members : List (Bytes × Json)) : member key (insertMember key value members) = some value := by
  induction members with
  | nil => simp only [insertMember, member, ↓reduceIte]
  | cons first rest ih =>
      obtain ⟨name, old⟩ := first
      unfold insertMember
      split
      · simp only [member, ↓reduceIte]
      · next different =>
          split
          · simp only [member, ↓reduceIte]
          · simp only [member, different, ↓reduceIte, ih]

/-- Inserting a member leaves the others. -/
theorem member_insertMember_of_ne {key other : Bytes} (different : other ≠ key) (value : Json)
    (members : List (Bytes × Json)) :
    member other (insertMember key value members) = member other members := by
  induction members with
  | nil => simp only [insertMember, member, different.symm, ↓reduceIte]
  | cons first rest ih =>
      obtain ⟨name, old⟩ := first
      unfold insertMember
      split
      · next same =>
          simp only [member, same, different.symm, ↓reduceIte]
      · split
        · simp only [member, different.symm, ↓reduceIte]
        · simp only [member, ih]

/-- Assigning succeeds on values with members. -/
theorem HasMembers.assign {jobj : Json} (has : jobj.HasMembers) (key : Bytes) (value : Json) :
    ∃ result, jobj.assign key value = some result := by
  cases jobj with
  | null => exact ⟨_, rfl⟩
  | object members => exact ⟨_, rfl⟩
  | boolean _ | unsigned _ | integer _ | float _ | string _ | array _ => exact has.elim

/-- Assigning leaves an object, sets the member and keeps the others. -/
theorem assign_spec {jobj result : Json} {key : Bytes} {value : Json}
    (assigned : jobj.assign key value = some result) :
    result.HasMembers ∧ result.lookup key = some value ∧
      ∀ other, other ≠ key → result.lookup other = jobj.lookup other := by
  cases jobj with
  | null =>
      rw [Json.assign, Option.some.injEq] at assigned
      subst assigned
      refine ⟨trivial, by simp only [lookup, member, ↓reduceIte], fun other different => ?_⟩
      simp only [lookup, member, different.symm, ↓reduceIte]
  | object members =>
      rw [Json.assign, Option.some.injEq] at assigned
      subst assigned
      exact ⟨trivial, member_insertMember_self key value members,
        fun other different => member_insertMember_of_ne different value members⟩
  | boolean _ | unsigned _ | integer _ | float _ | string _ | array _ => cases assigned

/-- Accessing a member that is there changes nothing. -/
theorem access_of_lookup {jobj value : Json} {key : Bytes} (found : jobj.lookup key = some value) :
    jobj.access key = some (jobj, value) := by
  cases jobj with
  | object members =>
      simp only [lookup] at found
      simp only [access, found]
  | null | boolean _ | unsigned _ | integer _ | float _ | string _ | array _ => cases found

end Json

/-- The JSON library: parsing and printing, which may throw, and the conversions
out of a value, which throw on a value of another kind. What the node relies on
is that parsing inverts printing on the values that the library can hold and print, of
which alone there are texts, and that the conversions return what a value of the right
kind holds. -/
structure JsonLib where
  parse : Bytes → Option Json
  dump : Json → Option Bytes
  getString : Json → Option Bytes
  getUnsignedInt : Json → Option UInt32
  getSizeT : Json → Option UInt64
  getUnsignedLongLong : Json → Option UInt64
  getBool : Json → Option Bool
  dump_valid : ∀ value text, dump value = some text → value.Valid
  parse_dump : ∀ value text, value.Valid → dump value = some text → parse text = some value
  dump_ne_nil : ∀ value text, dump value = some text → text ≠ []
  getString_string : ∀ value, getString (.string value) = some value
  getUnsignedInt_unsigned : ∀ value, getUnsignedInt (.unsigned value) = some value.toUInt32
  getSizeT_unsigned : ∀ value, getSizeT (.unsigned value) = some value
  getUnsignedLongLong_unsigned : ∀ value, getUnsignedLongLong (.unsigned value) = some value
  getBool_boolean : ∀ value, getBool (.boolean value) = some value

theorem JsonLib.parse_of_dump (json : JsonLib) {value : Json} {text : Bytes}
    (dumped : json.dump value = some text) : json.parse text = some value :=
  json.parse_dump value text (json.dump_valid value text dumped) dumped

open Classical in
/-- A library that knows the text of one value. -/
noncomputable def JsonLib.single (document : Json) (text : Bytes) (nonempty : text ≠ []) :
    JsonLib where
  parse input := if input = text then some document else none
  dump value := if value = document ∧ value.Valid then some text else none
  getString
    | .string value => some value
    | _ => none
  getUnsignedInt
    | .unsigned value => some value.toUInt32
    | _ => none
  getSizeT
    | .unsigned value => some value
    | _ => none
  getUnsignedLongLong
    | .unsigned value => some value
    | _ => none
  getBool
    | .boolean value => some value
    | _ => none
  dump_valid value output dumped := by
    split at dumped
    · next known => exact known.2
    · cases dumped
  parse_dump value output _ dumped := by
    split at dumped
    · next known => rw [if_pos (Option.some.inj dumped).symm, known.1]
    · cases dumped
  dump_ne_nil value output dumped := by
    split at dumped
    · exact Option.some.inj dumped ▸ nonempty
    · cases dumped
  getString_string _ := rfl
  getUnsignedInt_unsigned _ := rfl
  getSizeT_unsigned _ := rfl
  getUnsignedLongLong_unsigned _ := rfl
  getBool_boolean _ := rfl

/-- The library that knows the text of null. -/
noncomputable def JsonLib.null : JsonLib :=
  .single .null (ascii ['n', 'u', 'l', 'l']) (List.cons_ne_nil _ _)

end Bp2p
