import Bp2p.NewTorrent
import Bp2p.TorrentObject
import Mathlib.Data.List.TakeWhile

/-! # Where a received package is written

The package of a torrent is written at the directory of the packages followed by the
torrent's name, which for a received torrent comes from the text of a peer. The system
reads a path up to its first NUL byte. `isValid` asks that the name is not empty, so the
path leaves the directory exactly if the text says so (`Bp2p.Torrent.staysInside_iff`).
-/

namespace Bp2p

namespace Torrent

/-- The byte between the components of a path. -/
def slash : UInt8 := 47

/-- The entries of every directory that are directories themselves: it and its parent. -/
def dotEntries : List Bytes := [[46], [46, 46]]

/-- A path names an entry directly inside a directory, which is given with its slash. -/
def EntryOf (directory path : Bytes) : Prop :=
  ∃ entry, path = directory ++ entry ∧ entry ≠ [] ∧ slash ∉ entry ∧ entry ∉ dotEntries

/-- The package of the torrent is an entry of the directory of the packages. -/
structure StaysInside (env : Env) (torrent : Torrent) : Prop where
  entry : EntryOf (getTorrentDataPath env) (cString (torrent.getPackagePath env))
  noSlash : slash ∉ torrent.name
  noDots : torrent.name ∉ dotEntries

/-- The name a text gives, as `deserialize` reads it. -/
def describedName (env : Env) (text : Bytes) : Option Bytes := do
  let jobj ← env.json.parse text
  let (_, value) ← jobj.access nameKey
  env.json.getString value

/-- A name without slashes that is read as an entry of its own. -/
structure NamesEntry (name : Bytes) : Prop where
  noSlash : slash ∉ name
  nonempty : cString name ≠ []
  noDots : cString name ∉ dotEntries

/-- A front without a NUL byte is part of the C string. -/
theorem cString_append {front : Bytes} (clean : 0 ∉ front) (rest : Bytes) :
    cString (front ++ rest) = front ++ cString rest := by
  unfold cString
  apply List.takeWhile_append_of_pos
  intro byte member
  rw [bne_iff_ne]
  exact fun zero => clean (zero ▸ member)

theorem not_mem_cString (memory : Bytes) : 0 ∉ cString memory :=
  fun member => absurd (List.mem_takeWhile_imp member) (by decide)

/-- The package is inside if the application is found under a path without NUL and the name
is that of an entry. -/
theorem staysInside_iff_namesEntry {env : Env} {torrent : Torrent} :
    torrent.StaysInside env ↔ 0 ∉ env.applicationPath ∧ NamesEntry torrent.name := by
  have plain : (0 : UInt8) ∉ torrentDataDir := by decide
  constructor
  · rintro ⟨⟨entry, path, filled, flat, proper⟩, noSlash, noDots⟩
    have clean : 0 ∉ getTorrentDataPath env := by
      have none := not_mem_cString (torrent.getPackagePath env)
      rw [path] at none
      exact fun member => none (List.mem_append_left _ member)
    have same : cString torrent.name = entry :=
      List.append_cancel_left ((cString_append clean torrent.name).symm.trans path)
    refine ⟨fun member => clean (List.mem_append_left _ member), noSlash, ?_, ?_⟩
    · rw [same]
      exact filled
    · rw [same]
      exact proper
  · rintro ⟨application, noSlash, nonempty, noDots⟩
    have clean : 0 ∉ getTorrentDataPath env := by
      intro member
      rcases List.mem_append.mp member with front | back
      · exact application front
      · exact plain back
    refine ⟨⟨cString torrent.name, cString_append clean _, nonempty, ?_, noDots⟩, noSlash, ?_⟩
    · exact fun member => noSlash ((List.takeWhile_sublist _).subset member)
    · intro dots
      have whole : cString torrent.name = torrent.name := by
        rcases List.mem_pair.mp dots with same | same
        · rw [same]
          rfl
        · rw [same]
          rfl
      rw [whole] at noDots
      exact noDots dots

/-- An object that has chunks once it was read has the name of the text. -/
theorem describedName_of_deserialize {env : Env} {create : Bool} (torrent : Torrent)
    (text : torrent.serializedObj ≠ []) (filled : (deserialize env create torrent).chunks ≠ []) :
    describedName env torrent.serializedObj = some (deserialize env create torrent).name := by
  simp only [deserialize, List.isEmpty_iff, text, ↓reduceIte] at filled ⊢
  cases parsed : env.json.parse torrent.serializedObj with
  | none => simp only [parsed, List.mergeSort_nil, ne_eq, not_true_eq_false] at filled
  | some jobj =>
      simp only [parsed] at filled ⊢
      cases read : deserializeFields env create { torrent with chunks := [], jobj } with
      | error thrown => simp only [read, List.mergeSort_nil, ne_eq, not_true_eq_false] at filled
      | ok after =>
          obtain ⟨named, fetched⟩ := (deserializeFields_ok read).1
          unfold fetch at fetched
          split at fetched
          · cases fetched
          · next document value accessed =>
              split at fetched
              · cases fetched
              · next name converted =>
                  cases fetched
                  simp only [describedName, parsed, bind, Option.bind_some, accessed, converted]

/-- What is accepted has the name of the text, which is not empty. -/
theorem describedName_of_accepted {env : Env} {refuses : Insert → Bool} {torrent tor : Torrent}
    {text : Bytes} {tables after : Database}
    (accepted : torrent.createTorrentFromSerializedObj env refuses text tables =
      (.ok (tor, true), after)) :
    describedName env text = some tor.name := by
  by_cases empty : text = []
  · subst empty
    cases accepted
  cases serialized :
      (deserialize env true { torrent with serializedObj := text }).serialize env with
  | error thrown =>
      simp only [createTorrentFromSerializedObj, List.isEmpty_iff, empty, ↓reduceIte, serialized,
        Prod.mk.injEq, reduceCtorEq, false_and] at accepted
  | ok written =>
      rw [createTorrentFromSerializedObj_of_serialize refuses torrent tables empty serialized,
        Prod.mk.injEq, Except.ok.injEq, Prod.mk.injEq] at accepted
      obtain ⟨⟨rfl, inserted⟩, _⟩ := accepted
      have valid := isValid_of_insertIfValid (Prod.ext rfl inserted)
      obtain ⟨jobj, serializedObj, same⟩ := serialize_ok serialized
      have filled := (isValid_iff.mp valid).2.2.1
      rw [same] at filled ⊢
      exact describedName_of_deserialize _ empty filled

/-- **Where a received package is written.** The package of an accepted torrent is an entry
of the directory of the packages exactly if the name in the text is the name of one, and the
path of the application has no NUL. -/
theorem staysInside_iff {env : Env} {refuses : Insert → Bool} {torrent tor : Torrent}
    {text : Bytes} {tables after : Database}
    (accepted : torrent.createTorrentFromSerializedObj env refuses text tables =
      (.ok (tor, true), after)) :
    tor.StaysInside env ↔
      0 ∉ env.applicationPath ∧ ∃ name, describedName env text = some name ∧ NamesEntry name := by
  rw [describedName_of_accepted accepted, staysInside_iff_namesEntry]
  simp only [Option.some.injEq, exists_eq_left']

/-- The description of the package `a` is accepted, and its package stays inside. -/
theorem staysInside_iff_letter :
    ∃ tor, tor.StaysInside (.byLength (letterLib 7 [(1, false)])) ∧
      ∃ after, ({} : Torrent).createTorrentFromSerializedObj (.byLength (letterLib 7 [(1, false)]))
        (fun _ => false) (letterText 7 [(1, false)]) {} = (.ok (tor, true), after) := by
  have created := createTorrentFromSerializedObj_of_documents
    (.byLength (letterLib 7 [(1, false)])) (letterTorrent 7 1 false)
    (fun _ => false) {} ⟨List.cons_ne_nil _ _, by decide, List.cons_ne_nil _ _⟩ le_rfl
    (documents_of_serializeFields rfl) (dump_letterDocument 7 (by decide)) rfl
  refine ⟨_, (staysInside_iff created).mpr ⟨List.not_mem_nil, [97], ?_, ?_⟩, _, created⟩
  · exact describedName_of_accepted created
  · exact ⟨by decide, List.cons_ne_nil _ _, by decide⟩

/-- The torrent of one byte under a name that leaves the directory, `../a`. -/
def climbingTorrent : Torrent := { letterTorrent 7 1 false with name := [46, 46, 47, 97] }

/-- The document of the climbing torrent. -/
def climbingDocument : Json :=
  .object [(Decimal.numeral 0, .array [.unsigned 1, .boolean false]),
    (nameKey, .string climbingTorrent.name), (numPiecesKey, .unsigned 1), (sizeKey, .unsigned 1),
    (uidKey, .unsigned 7)]

/-- `{"0":[1,false],"name":"../a","numPieces":1,"size":1,"uid":7}` -/
def climbingText : Bytes :=
  let flag := ascii ['f', 'a', 'l', 's', 'e']
  let chunk := 91 :: (Decimal.numeral 1 ++ 44 :: (flag ++ [93]))
  let members := [memberText (Decimal.numeral 0) chunk,
    memberText nameKey (34 :: (climbingTorrent.name ++ [34])),
    memberText numPiecesKey (Decimal.numeral 1), memberText sizeKey (Decimal.numeral 1),
    memberText uidKey (Decimal.numeral 7)]
  123 :: ([44].intercalate members ++ [125])

theorem climbingDocument_valid : climbingDocument.Valid := by
  refine .object ?_ (fun entry inside => ?_) (fun entry inside => ?_)
  · show [Decimal.numeral 0, nameKey, numPiecesKey, sizeKey, uidKey].Pairwise _
    decide
  · simp only [List.mem_cons, List.not_mem_nil, or_false] at inside
    rcases inside with rfl | rfl | rfl | rfl | rfl <;> exact isUtf8_of_all rfl
  · simp only [List.mem_cons, List.not_mem_nil, or_false] at inside
    rcases inside with rfl | rfl | rfl | rfl | rfl
    · refine .array fun element member => ?_
      rcases List.mem_pair.mp member with rfl | rfl
      · exact .unsigned _
      · exact .boolean _
    · exact .string (isUtf8_of_all rfl)
    · exact .unsigned _
    · exact .unsigned _
    · exact .unsigned _

/-- A name that climbs out of the directory is accepted. -/
theorem staysInside_iff_fails :
    ¬ ∀ (env : Env) (refuses : Insert → Bool) (text : Bytes) (tables after : Database)
        (tor : Torrent), ({} : Torrent).createTorrentFromSerializedObj env refuses text tables =
      (.ok (tor, true), after) → tor.StaysInside env := by
  intro always
  have created := createTorrentFromSerializedObj_of_documents
    (.byLength (.single climbingDocument climbingText (List.cons_ne_nil _ _)))
    climbingTorrent (fun _ => false) {}
    ⟨List.cons_ne_nil _ _, by decide, List.cons_ne_nil _ _⟩ le_rfl
    (documents_of_serializeFields rfl) (if_pos ⟨rfl, climbingDocument_valid⟩) rfl
  have inside := always _ _ _ _ _ _ created
  exact absurd inside.noSlash (by decide)

end Torrent

end Bp2p
