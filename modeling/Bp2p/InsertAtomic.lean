import Bp2p.Tables

/-! # A torrent inserted in full or not at all

The row of a torrent, the rows of its files and the rows of its chunks are inserted one
after the other, each a statement of its own, and what a failing one leaves is not taken
back. A failed insert leaves the tables as they were exactly if its first statement is
the one that fails (`Bp2p.Torrent.leavesUnchanged_iff`).
-/

namespace Bp2p

namespace Torrent

/-- An insert of a torrent that fails leaves the tables as they were. -/
def LeavesUnchanged (refuses : Insert → Bool) (torrent : Torrent) (tables : Database) : Prop :=
  (torrent.insertTorrentToDB refuses tables).2 = false →
    (torrent.insertTorrentToDB refuses tables).1 = tables

/-- Behind the row of a torrent, the tables are no longer what they were. -/
theorem ne_of_torrents_append {tables after : Database} {row : TorrentsRecord}
    (grown : after.torrents = tables.torrents ++ [row]) : after ≠ tables := by
  rintro rfl
  have longer := congrArg List.length grown
  rw [List.length_append, List.length_singleton] at longer
  omega

/-- **A torrent inserted in full or not at all.** A failed insert leaves the tables as they
were exactly if its failure is that of the torrent's own row, which has a uid that is there
or is failed by the server; otherwise nothing may keep the torrent from being inserted. -/
theorem leavesUnchanged_iff (refuses : Insert → Bool) (torrent : Torrent) (tables : Database) :
    LeavesUnchanged refuses torrent tables ↔
      tables.hasTorrent torrent.db.key = true ∨
        refuses (.torrents torrent.torrentsRecord) = true ∨
        torrent.Insertable refuses tables := by
  unfold LeavesUnchanged
  rw [← insertTorrentToDB_true_iff]
  rcases insertTorrentToDB_spec refuses torrent tables with
    ⟨same, refused⟩ | ⟨absent, accepted, files, added, _, left, _, _⟩
  · rw [same]
    exact iff_of_true (fun _ => rfl) (or_assoc.mp (.inl refused))
  · have grown : (torrent.insertTorrentToDB refuses tables).1.torrents =
        tables.torrents ++ [torrent.torrentsRecord] := by rw [left]
    have changed := ne_of_torrents_append grown
    simp only [absent, accepted, Bool.false_eq_true, false_or, changed, imp_false,
      Bool.not_eq_false]

/-- The torrent of one byte with a file named twice. -/
def twiceNamed : Torrent :=
  { letterTorrent 7 1 true with db := { uid := 7 }, files := [[97], [97]] }

/-- A torrent with a file named twice is refused behind its row and the row of the file. -/
theorem leavesUnchanged_fails :
    ¬ ∀ (refuses : Insert → Bool) (torrent : Torrent) (tables : Database),
      (torrent.insertTorrentToDB refuses tables).2 = false →
        (torrent.insertTorrentToDB refuses tables).1 = tables := by
  intro always
  have same := always (fun _ => false) twiceNamed {} (by decide)
  have rows := congrArg (fun tables => tables.files.length) same
  exact absurd rows (by decide)

end Torrent

end Bp2p
