import Bp2p.Torrent

/-! # Inserts

The inserts keep the primary and foreign keys (`Bp2p.Database.Keyed`). Inserts executed
one after the other leave the rows of the first of them, up to one that fails
(`Bp2p.Database.executeAll_spec`); none fails exactly if the server accepts them and
their primary keys are new (`Bp2p.Database.executeAll_true_iff`).
-/

namespace Bp2p

/-- The primary and foreign keys of the tables. -/
structure Database.Keyed (tables : Database) : Prop where
  torrents : (tables.torrents.map (·.uid)).Nodup
  chunks : (tables.chunks.map fun row => (row.uid, row.chunkIndex)).Nodup
  references : ∀ row ∈ tables.chunks, tables.hasTorrent row.uid = true
  fileReferences : ∀ row ∈ tables.files, tables.hasTorrent row.uid = true

theorem Database.hasTorrent_iff {tables : Database} {uid : UInt32} :
    tables.hasTorrent uid = true ↔ uid ∈ tables.torrents.map (·.uid) := by
  simp only [hasTorrent, List.any_eq_true, beq_iff_eq, List.mem_map]

theorem Database.hasTorrent_false_iff {tables : Database} {uid : UInt32} :
    tables.hasTorrent uid = false ↔ ∀ row ∈ tables.torrents, row.uid ≠ uid := by
  simp only [hasTorrent, List.any_eq_false, beq_iff_eq]

theorem nodup_append_singleton {α : Type} {list : List α} {last : α} :
    (list ++ [last]).Nodup ↔ list.Nodup ∧ last ∉ list := by
  rw [List.nodup_append_comm, List.singleton_append, List.nodup_cons, and_comm]

/-- A torrent's insert fails on a uid that is there, or because the server fails it. -/
theorem Database.refused_of_execute {refuses : Insert → Bool} {tables : Database}
    {row : TorrentsRecord} (executed : tables.execute refuses (.torrents row) = none) :
    tables.hasTorrent row.uid = true ∨ refuses (.torrents row) = true := by
  unfold execute at executed
  split at executed
  · next refused => exact .inr refused
  · simp only [insert] at executed
    split at executed
    · next there => exact .inl there
    · cases executed

/-- A primary key of one of the tables. -/
inductive PrimaryKey
  | torrents (uid : UInt32)
  | files (uid : UInt32) (name : Bytes)
  | chunks (uid chunkIndex : UInt32)
  deriving DecidableEq

/-- The primary key of the row an insert adds. -/
def Insert.key : Insert → PrimaryKey
  | .torrents row => .torrents row.uid
  | .files row => .files row.uid row.name
  | .chunks row => .chunks row.uid row.chunkIndex

namespace Database

/-- A row of the table has the key. -/
def Holds (tables : Database) : PrimaryKey → Prop
  | .torrents uid => ∃ row ∈ tables.torrents, row.uid = uid
  | .files uid name => ∃ row ∈ tables.files, row.uid = uid ∧ row.name = name
  | .chunks uid chunkIndex =>
      ∃ row ∈ tables.chunks, row.uid = uid ∧ row.chunkIndex = chunkIndex

/-- The torrent an insert refers to has a row. -/
def Referenced (tables : Database) : Insert → Prop
  | .torrents _ => True
  | .files row => tables.hasTorrent row.uid = true
  | .chunks row => tables.hasTorrent row.uid = true

/-- The tables with the row of an insert behind the others. -/
def append (tables : Database) : Insert → Database
  | .torrents row => { tables with torrents := tables.torrents ++ [row] }
  | .files row => { tables with files := tables.files ++ [row] }
  | .chunks row => { tables with chunks := tables.chunks ++ [row] }

/-- An insert adds its row exactly if its primary key is new and its reference there. -/
theorem insert_eq_some_iff {tables after : Database} {statement : Insert} :
    tables.insert statement = some after ↔
      ¬ tables.Holds statement.key ∧ tables.Referenced statement ∧
        after = tables.append statement := by
  cases statement with
  | torrents row =>
      simp only [insert, Option.ite_none_left_eq_some, Option.some.injEq, Holds, Insert.key,
        Referenced, append, hasTorrent, List.any_eq_true, beq_iff_eq, true_and, @eq_comm _ after]
  | files row =>
      simp only [insert, Option.ite_none_left_eq_some, Option.some.injEq, Holds, Insert.key,
        Referenced, append, Bool.or_eq_true, List.any_eq_true, Bool.and_eq_true, beq_iff_eq,
        Bool.not_eq_eq_eq_not, Bool.not_true, not_or, Bool.not_eq_false, and_assoc,
        @eq_comm _ after]
  | chunks row =>
      simp only [insert, Option.ite_none_left_eq_some, Option.some.injEq, Holds, Insert.key,
        Referenced, append, Bool.or_eq_true, List.any_eq_true, Bool.and_eq_true, beq_iff_eq,
        Bool.not_eq_eq_eq_not, Bool.not_true, not_or, Bool.not_eq_false, and_assoc,
        @eq_comm _ after]

/-- A statement is executed if it is not refused, its key is new and what it refers to is there. -/
theorem execute_eq_some_iff {refuses : Insert → Bool} {tables after : Database}
    {statement : Insert} :
    tables.execute refuses statement = some after ↔
      refuses statement = false ∧ ¬ tables.Holds statement.key ∧
        tables.Referenced statement ∧ after = tables.append statement := by
  rw [execute, Option.ite_none_left_eq_some, insert_eq_some_iff, Bool.not_eq_true]

theorem holds_append (tables : Database) (statement : Insert) (key : PrimaryKey) :
    (tables.append statement).Holds key ↔ tables.Holds key ∨ key = statement.key := by
  cases statement <;> cases key <;>
    simp [append, Holds, Insert.key, or_and_right, exists_or, eq_comm]

/-- A statement removes no torrent. -/
theorem hasTorrent_append {tables : Database} {uid : UInt32}
    (there : tables.hasTorrent uid = true) (statement : Insert) :
    (tables.append statement).hasTorrent uid = true := by
  cases statement with
  | torrents row =>
      rw [hasTorrent_iff] at there ⊢
      rw [append, List.map_append]
      exact List.mem_append_left _ there
  | files row => exact there
  | chunks row => exact there

/-- A statement removes nothing that another one refers to. -/
theorem Referenced.append {tables : Database} {statement : Insert}
    (there : tables.Referenced statement) (other : Insert) :
    (tables.append other).Referenced statement := by
  cases statement with
  | torrents row => trivial
  | files row => exact hasTorrent_append there other
  | chunks row => exact hasTorrent_append there other

/-- A row with a new primary key and a reference that is there keeps the keys. -/
theorem Keyed.append {tables : Database} (keyed : tables.Keyed) {statement : Insert}
    (fresh : ¬ tables.Holds statement.key) (there : tables.Referenced statement) :
    (tables.append statement).Keyed := by
  cases statement with
  | torrents row =>
      refine ⟨?_, keyed.chunks, fun chunk member => hasTorrent_append
        (keyed.references chunk member) _, fun file member => hasTorrent_append
        (keyed.fileReferences file member) _⟩
      rw [Database.append, List.map_append, List.map_singleton]
      refine nodup_append_singleton.mpr ⟨keyed.torrents, fun member => fresh ?_⟩
      exact List.mem_map.mp member
  | files row =>
      refine ⟨keyed.torrents, keyed.chunks, keyed.references, fun file member => ?_⟩
      rcases List.mem_append.mp member with old | new
      · exact keyed.fileReferences file old
      · rw [List.mem_singleton.mp new]
        exact there
  | chunks row =>
      refine ⟨keyed.torrents, ?_, fun chunk member => ?_, keyed.fileReferences⟩
      · rw [Database.append, List.map_append, List.map_singleton]
        refine nodup_append_singleton.mpr ⟨keyed.chunks, fun member => fresh ?_⟩
        obtain ⟨other, stored, same⟩ := List.mem_map.mp member
        exact ⟨other, stored, Prod.mk.inj same⟩
      · rcases List.mem_append.mp member with old | new
        · exact keyed.references chunk old
        · rw [List.mem_singleton.mp new]
          exact there

/-- Inserts one after the other, up to the first one that fails. -/
def executeAll (refuses : Insert → Bool) : List Insert → Database → Database × Bool
  | [], tables => (tables, true)
  | statement :: rest, tables =>
      match tables.execute refuses statement with
      | some tables => executeAll refuses rest tables
      | none => (tables, false)

/-- Statements are executed one behind the other until one fails. -/
theorem executeAll_append (refuses : Insert → Bool) (first second : List Insert)
    (tables : Database) :
    executeAll refuses (first ++ second) tables =
      if (executeAll refuses first tables).2 = true then
        executeAll refuses second (executeAll refuses first tables).1
      else executeAll refuses first tables := by
  induction first generalizing tables with
  | nil => rfl
  | cons statement rest ih =>
      rw [List.cons_append, executeAll, executeAll]
      cases tables.execute refuses statement with
      | none => rfl
      | some after => exact ih after

/-- The inserts executed are the first ones, and all of them on success; the server
accepts each, and the keys stay in order. -/
theorem executeAll_spec (refuses : Insert → Bool) (statements : List Insert)
    (tables : Database) :
    ∃ executed, executed <+: statements ∧
      (executeAll refuses statements tables).1 = executed.foldl append tables ∧
      ((executeAll refuses statements tables).2 = true → executed = statements) ∧
      (∀ statement ∈ executed, refuses statement = false) ∧
      (tables.Keyed → (executeAll refuses statements tables).1.Keyed) := by
  induction statements generalizing tables with
  | nil =>
      exact ⟨[], List.prefix_rfl, rfl, fun _ => rfl,
        fun _ member => absurd member List.not_mem_nil, id⟩
  | cons statement rest ih =>
      unfold executeAll
      split
      · next after executed =>
          obtain ⟨accepted, fresh, there, rfl⟩ := execute_eq_some_iff.mp executed
          obtain ⟨others, front, left, all, accepts, keyed⟩ := ih (tables.append statement)
          refine ⟨statement :: others, List.cons_prefix_cons.mpr ⟨rfl, front⟩, ?_,
            fun done => by rw [all done], List.forall_mem_cons.mpr ⟨accepted, accepts⟩,
            fun valid => keyed (valid.append fresh there)⟩
          rw [left, List.foldl_cons]
      · exact ⟨[], List.nil_prefix, rfl, fun done => absurd done Bool.false_ne_true,
          fun _ member => absurd member List.not_mem_nil, id⟩

/-- Inserts whose references are there all succeed exactly if the server accepts them and
their primary keys are new. -/
theorem executeAll_true_iff {refuses : Insert → Bool} {statements : List Insert}
    {tables : Database} (referenced : ∀ statement ∈ statements, tables.Referenced statement) :
    (executeAll refuses statements tables).2 = true ↔
      (∀ statement ∈ statements, refuses statement = false) ∧
        (statements.map Insert.key).Nodup ∧
        ∀ statement ∈ statements, ¬ tables.Holds statement.key := by
  induction statements generalizing tables with
  | nil =>
      exact iff_of_true rfl ⟨fun _ member => absurd member List.not_mem_nil, List.nodup_nil,
        fun _ member => absurd member List.not_mem_nil⟩
  | cons statement rest ih =>
      obtain ⟨there, others⟩ := List.forall_mem_cons.mp referenced
      rw [List.map_cons, List.nodup_cons, List.forall_mem_cons, List.forall_mem_cons, executeAll]
      cases executed : tables.execute refuses statement with
      | some after =>
          obtain ⟨accepted, fresh, _, rfl⟩ := execute_eq_some_iff.mp executed
          simp only
          rw [ih fun other member => (others other member).append statement]
          simp only [holds_append, not_or, accepted, fresh, not_false_eq_true, true_and,
            List.mem_map, not_exists, not_and, forall_and]
          constructor
          · rintro ⟨accepts, distinct, new, different⟩
            exact ⟨accepts, ⟨different, distinct⟩, new⟩
          · rintro ⟨accepts, ⟨different, distinct⟩, new⟩
            exact ⟨accepts, distinct, new, different⟩
      | none =>
          refine iff_of_false Bool.false_ne_true ?_
          rintro ⟨⟨accepted, _⟩, _, fresh, _⟩
          have succeeds := execute_eq_some_iff.mpr ⟨accepted, fresh, there, rfl⟩
          rw [executed] at succeeds
          cases succeeds

/-- A row of the table `files` was there, or was inserted. -/
theorem mem_files_foldl_append {row : FilesRecord} {executed : List Insert} {tables : Database} :
    row ∈ (executed.foldl append tables).files ↔
      row ∈ tables.files ∨ .files row ∈ executed := by
  induction executed generalizing tables with
  | nil => simp
  | cons statement rest ih =>
      rw [List.foldl_cons, ih, List.mem_cons, ← or_assoc]
      cases statement <;> simp [append]

/-- The rows of inserts into the table `files`, one after the other. -/
theorem foldl_append_files (rows : List FilesRecord) (tables : Database) :
    (rows.map Insert.files).foldl append tables =
      { tables with files := tables.files ++ rows } := by
  induction rows generalizing tables with
  | nil => rw [List.append_nil]; rfl
  | cons row rest ih =>
      rw [List.map_cons, List.foldl_cons, ih, append, List.append_assoc, List.singleton_append]

/-- The rows of inserts into the table `chunks`, one after the other. -/
theorem foldl_append_chunks (rows : List ChunksRecord) (tables : Database) :
    (rows.map Insert.chunks).foldl append tables =
      { tables with chunks := tables.chunks ++ rows } := by
  induction rows generalizing tables with
  | nil => rw [List.append_nil]; rfl
  | cons row rest ih =>
      rw [List.map_cons, List.foldl_cons, ih, append, List.append_assoc, List.singleton_append]

end Database

end Bp2p
