import Bp2p.GenerateChunks
import Bp2p.NodeFrame

/-! # Packages replaced by failed commands

`createTorrent` writes the package of a new torrent before anything is decided about it,
at a path made of the name alone. If it fails behind that, the torrent that has its package
in the same file keeps its entry and loses its package: a failed command leaves all packages
as they were exactly if it packages nothing, or no torrent has its package in a file that is
written, or the file is there as it is left (`Bp2p.Node.createTorrent_unchanged_iff`).
-/

namespace Bp2p

namespace Package

/-- What `compress` finds in the temporary file behind `archive`. -/
def archived (tools : PackageTools) (filenames : List Bytes) (files : FileStore) : Option Bytes :=
  (tools.archive files filenames).or (files tempName)

/-- The file of a path is the compressed archive of the files already, unless compressing it
does not open its destination. -/
def IsPackageOf (tools : PackageTools) (filenames : List Bytes) (files : FileStore)
    (path : Bytes) : Prop :=
  ∀ content, (tools.compress (archived tools filenames files)).2 = some content →
    files path = some content

/-- Packaging under a name spares a path: there is no file there that is removed as the
temporary one, and none that is written over by another package. -/
def SparesPath (tools : PackageTools) (name : Bytes) (filenames : List Bytes) (files : FileStore)
    (path : Bytes) : Prop :=
  if files.fileOf path = files.fileOf tempName then files path = none
  else files.fileOf path = files.fileOf name → IsPackageOf tools filenames files path

variable {tools : PackageTools} {name path : Bytes} {filenames : List Bytes} {files : FileStore}

@[simp] theorem package_fileOf :
    (package tools name filenames files).1.fileOf = files.fileOf := by
  unfold package
  split
  · simp only [Files.remove_fileOf, leave_fileOf]
  · rfl

/-- Packaging writes its destination, and the temporary file is gone behind it. -/
theorem package_apply (present : filenames.all files.doesFileExist = true) :
    (package tools name filenames files).1 path =
      if files.fileOf path = files.fileOf tempName then none
      else if files.fileOf path = files.fileOf name then
        (tools.compress (archived tools filenames files)).2.or (files path)
      else files path := by
  simp only [package, present, ↓reduceIte]
  have read : leave files tempName (tools.archive files filenames) tempName =
      archived tools filenames files := leave_self ..
  rw [read]
  generalize (tools.compress (archived tools filenames files)).2 = dest
  have fileOf : (leave (leave files tempName (tools.archive files filenames)) name dest).fileOf =
      files.fileOf := by rw [leave_fileOf, leave_fileOf]
  by_cases lasting : files.fileOf path = files.fileOf tempName
  · rw [if_pos lasting, Files.remove_of_eq]
    rw [fileOf, lasting]
  · rw [if_neg lasting, Files.remove_of_ne]
    · have kept : leave files tempName (tools.archive files filenames) path = files path :=
        leave_of_ne _ lasting _
      split
      · next destination =>
          rw [leave_of_eq _ (by rwa [leave_fileOf]), kept]
      · next other =>
          rw [leave_of_ne _ (by rwa [leave_fileOf]), kept]
    · rwa [fileOf]

/-- Packaging leaves the file of a path exactly if it spares it. -/
theorem package_apply_eq_iff (present : filenames.all files.doesFileExist = true) :
    (package tools name filenames files).1 path = files path ↔
      SparesPath tools name filenames files path := by
  rw [package_apply present, SparesPath]
  split
  · exact eq_comm
  · split
    · next destination =>
        simp only [destination, forall_const, IsPackageOf]
        cases opened : (tools.compress (archived tools filenames files)).2 with
        | none => simp only [Option.none_or, reduceCtorEq, false_implies, implies_true]
        | some content =>
            simp only [Option.some_or, Option.some.injEq, forall_eq']
            exact eq_comm
    · next other => simp only [other, false_implies]

end Package

namespace Torrent

/-- There are a name and files, all of which exist. -/
def Packages (files : FileStore) (torrent : Torrent) : Prop :=
  torrent.name ≠ [] ∧ torrent.files ≠ [] ∧ torrent.files.all files.doesFileExist = true

/-- What is packaged is written at the path of the package. -/
theorem package_files (env : Env) {files : FileStore} {torrent : Torrent}
    (packages : torrent.Packages files) : (torrent.package env files).2.1 =
      (Package.package env.tools (torrent.getPackagePath env) torrent.files files).1 := by
  obtain ⟨named, listed, _⟩ := packages
  simp only [package, List.isEmpty_iff, named, listed, Bool.or_eq_true, or_self, ↓reduceIte]
  split
  · rfl
  · rfl

/-- Without anything to package no file changes. -/
theorem package_files_of_not (env : Env) {files : FileStore} {torrent : Torrent}
    (idle : ¬ torrent.Packages files) : (torrent.package env files).2.1 = files := by
  unfold package
  split
  · rfl
  · next filled =>
      simp only [Bool.or_eq_true, List.isEmpty_iff, not_or] at filled
      have absent : ¬ torrent.files.all files.doesFileExist = true :=
        fun present => idle ⟨filled.1, filled.2, present⟩
      simp only [Package.package, if_neg absent]
      rfl

/-- `create` writes files where it packages only. -/
theorem create_files (env : Env) (refuses : Insert → Bool) (torrent : Torrent) (files : FileStore)
    (tables : Database) :
    (torrent.create env refuses files tables).2.1 = (torrent.package env files).2.1 := by
  unfold create
  generalize torrent.package env files = packed
  obtain ⟨packaged, left, ret⟩ := packed
  simp only
  split
  · rfl
  · split
    · rfl
    · rfl

end Torrent

namespace Node

/-- Nothing is packaged under the name, or packaging spares the packages of all torrents. -/
def SparesPackages (env : Env) (node : Node) (name : Bytes) (filenames : List Bytes) : Prop :=
  (Torrent.ofFiles name filenames).Packages node.files →
    ∀ (key : Bytes) (torrent : Torrent), node.name2torrent[key]? = some torrent →
      Package.SparesPath env.tools (Torrent.getTorrentDataPath env ++ name) filenames node.files
        (torrent.getPackagePath env)

/-- The map of torrents is the same, and so are the packages of its torrents. -/
def KeepsPackages (env : Env) (node after : Node) : Prop :=
  after.name2torrent = node.name2torrent ∧
    ∀ (key : Bytes) (torrent : Torrent), node.name2torrent[key]? = some torrent →
      after.files (torrent.getPackagePath env) = node.files (torrent.getPackagePath env)

/-- **A failed command.** When `createTorrent` returns false the map of torrents is the same,
and the packages of its torrents are exactly if the command spares them. -/
theorem createTorrent_unchanged_iff {env : Env} {server : Server} {node after : Node}
    {name : Bytes} {filenames : List Bytes}
    (failed : node.createTorrent env server name filenames = some (after, false)) :
    node.KeepsPackages env after ↔ node.SparesPackages env name filenames := by
  obtain ⟨t, files, tables, made, rfl⟩ := createTorrent_spec failed
  have left := congrArg (fun result => result.2.1) made
  simp only [Torrent.create_files] at left
  simp only [KeepsPackages, SparesPackages, Bool.false_eq_true, ↓reduceIte, destroy, true_and,
    ← left]
  by_cases packages : (Torrent.ofFiles name filenames).Packages node.files
  · rw [Torrent.package_files env packages]
    simp only [packages, forall_const]
    exact forall₃_congr fun _ _ _ => Package.package_apply_eq_iff packages.2.2
  · rw [Torrent.package_files_of_not env packages]
    simp only [packages, false_implies, implies_true]

/-- The temporary file cannot be opened: nothing is archived, and compressing it opens its
destination and fails. -/
def closedTemp (json : JsonLib) : Env :=
  { Env.byLength json with tools := { PackageTools.idle with compress := fun _ => (-1, some []) } }

/-- A node with the torrent of one byte and its package, and a file to make a torrent of. -/
def sharing : Node where
  name2torrent := Std.TreeMap.insert {} [97] (Torrent.letterTorrent 7 1 true)
  files := Torrent.letterFiles.write [102] [1]

/-- A command that fails under another name. -/
theorem createTorrent_unchanged_iff_other :
    ∃ after, sharing.createTorrent (closedTemp .null) ⟨.insertion, fun _ => false⟩ [98] [[102]] =
      some (after, false) ∧ sharing.KeepsPackages (closedTemp .null) after := by
  obtain ⟨after, failed⟩ : ∃ after, sharing.createTorrent (closedTemp .null)
      ⟨.insertion, fun _ => false⟩ [98] [[102]] = some (after, false) := ⟨_, rfl⟩
  refine ⟨after, failed, (createTorrent_unchanged_iff failed).mpr fun _ key torrent found => ?_⟩
  rw [sharing, Std.TreeMap.getElem?_insert] at found
  split at found
  · cases found
    have other : (Torrent.letterTorrent 7 1 true).getPackagePath (closedTemp .null) ≠
        Torrent.getTorrentDataPath (closedTemp .null) ++ [98] := by decide
    have lasting : (Torrent.letterTorrent 7 1 true).getPackagePath (closedTemp .null) ≠
        Package.tempName := by decide
    exact (if_neg lasting).mpr fun same => absurd same other
  · cases found

/-- A command that fails under the name of a torrent empties its package. -/
theorem createTorrent_unchanged_iff_fails :
    ¬ ∀ (env : Env) (server : Server) (node after : Node) (name : Bytes) (filenames : List Bytes),
      node.createTorrent env server name filenames = some (after, false) →
        node.KeepsPackages env after := by
  intro keeps
  have failed : sharing.createTorrent (closedTemp .null) ⟨.insertion, fun _ => false⟩ [97]
    [[102]] = some (_, false) := rfl
  have unchanged := (keeps _ _ _ _ _ _ failed).2 [97] (Torrent.letterTorrent 7 1 true) rfl
  cases unchanged

end Node

end Bp2p
