import Bp2p.GenerateChunks

/-! # The uid of a package

`generateChunks` folds the hashes of the chunks into the uid (`Bp2p.Torrent.generateChunks_uid`).
Every turn moves what was there one bit down, so the difference a chunk makes is halved by
each chunk behind it (`Bp2p.Torrent.toNat_uidOf_xor`). It reaches the uid exactly when at most
62 chunks follow (`Bp2p.Torrent.uidOf_dependsOn_iff`).
-/

namespace Bp2p

namespace Torrent

/-- One turn of the loop of `generateChunks` on the uid. -/
def nextUid (uid chunkHash : UInt64) : UInt64 := (uid ^^^ (chunkHash <<< 1)) >>> 1

/-- The uid of a package with these hashes. -/
def uidOf (hashes : List UInt64) : UInt64 := hashes.foldl nextUid 0

theorem addChunk_uid (env : Env) (i : Nat) (fileChunk : Bytes) (torrent : Torrent) :
    (torrent.addChunk env i fileChunk).uid = nextUid torrent.uid (env.hash fileChunk.dropLast) := by
  rw [List.dropLast_eq_take]
  rfl

/-- The uid of a package is made of its hashes in order. -/
theorem generateLoop_uid {env : Env} {i : Nat} {rest : Bytes} {torrent generated : Torrent}
    (completes : generateLoop env i rest torrent = .ok generated) :
    generated.uid = ((generatedChunks env i rest).map (·.hash)).foldl nextUid torrent.uid := by
  induction i, rest, torrent using generateLoop.induct env with
  | case1 i rest torrent nothing =>
      rw [generateLoop, if_pos nothing] at completes
      cases completes
  | case2 i rest torrent something short =>
      rw [generateLoop, if_neg something, if_pos short, Except.ok.injEq] at completes
      rw [← completes, generatedChunks_of_short env i something short, addChunk_uid]
      rfl
  | case3 i rest torrent something long ih =>
      rw [generateLoop, if_neg something, if_neg long] at completes
      rw [ih completes, generatedChunks_of_long env i (Nat.not_lt.mp long), List.map_cons,
        List.foldl_cons, addChunk_uid]

/-- The uid of a new object is folded from the hashes of its chunks. -/
theorem generateChunks_uid {env : Env} {files : FileStore} {torrent seeder : Torrent}
    {ret : Int32} (packaged : torrent.packagePath ≠ []) (new : torrent.uid = 0)
    (completes : torrent.generateChunks env files = .ok (seeder, ret)) :
    seeder.uid = uidOf (seeder.chunks.map (·.hash)) := by
  simp only [generateChunks, List.isEmpty_iff, packaged, ↓reduceIte] at completes
  split at completes
  · cases completes
  · next generated loop =>
      have folded := generateLoop_uid loop
      obtain ⟨_, uid, same⟩ := generateLoop_ok loop
      rw [Except.ok.injEq, Prod.mk.injEq] at completes
      rw [← completes.1]
      refine folded.trans ?_
      rw [same, new]
      rfl

/-- A difference of uids is shifted by the next chunk. -/
theorem nextUid_xor (first second chunkHash : UInt64) :
    nextUid first chunkHash ^^^ nextUid second chunkHash = (first ^^^ second) >>> 1 := by
  have cancel : (first ^^^ chunkHash <<< 1) ^^^ (second ^^^ chunkHash <<< 1) =
      first ^^^ second := by
    rw [UInt64.xor_comm second, ← UInt64.xor_assoc, UInt64.xor_assoc first, UInt64.xor_self,
      UInt64.xor_zero]
  rw [nextUid, nextUid, ← UInt64.shiftRight_xor, cancel]

theorem toNat_shiftRight_one (word : UInt64) : (word >>> 1).toNat = word.toNat / 2 := by
  rw [UInt64.toNat_shiftRight]
  exact Nat.shiftRight_eq_div_pow word.toNat 1

/-- A difference is halved by every chunk that follows. -/
theorem toNat_foldl_xor (hashes : List UInt64) (first second : UInt64) :
    (hashes.foldl nextUid first ^^^ hashes.foldl nextUid second).toNat =
      (first ^^^ second).toNat / 2 ^ hashes.length := by
  induction hashes generalizing first second with
  | nil => rw [List.foldl_nil, List.foldl_nil, List.length_nil, Nat.pow_zero, Nat.div_one]
  | cons chunkHash hashes ih =>
      rw [List.foldl_cons, List.foldl_cons, ih, nextUid_xor, toNat_shiftRight_one,
        Nat.div_div_eq_div_mul, List.length_cons, Nat.pow_succ']

/-- The two shifts of a turn drop the highest bit of the hash. -/
theorem toNat_nextUid_xor (uid first second : UInt64) :
    (nextUid uid first ^^^ nextUid uid second).toNat = (first ^^^ second).toNat % 2 ^ 63 := by
  have cancel : (uid ^^^ first <<< 1) ^^^ (uid ^^^ second <<< 1) = (first ^^^ second) <<< 1 := by
    rw [UInt64.xor_comm uid, UInt64.xor_assoc, ← UInt64.xor_assoc uid, UInt64.xor_self,
      UInt64.zero_xor, UInt64.shiftLeft_xor]
  rw [nextUid, nextUid, ← UInt64.shiftRight_xor, cancel, toNat_shiftRight_one,
    UInt64.toNat_shiftLeft]
  have shifted : (first ^^^ second).toNat <<< ((1 : UInt64).toNat % 64) =
      (first ^^^ second).toNat * 2 := Nat.shiftLeft_eq _ 1
  rw [shifted]
  omega

theorem toNat_uidOf_xor (front back : List UInt64) (first second : UInt64) :
    (uidOf (front ++ first :: back) ^^^ uidOf (front ++ second :: back)).toNat =
      (first ^^^ second).toNat % 2 ^ 63 / 2 ^ back.length := by
  simp only [uidOf, List.foldl_append, List.foldl_cons]
  rw [toNat_foldl_xor, toNat_nextUid_xor]

/-- What a replaced hash changes. -/
theorem uidOf_set_ne_iff {hashes : List UInt64} {k : Nat} (inside : k < hashes.length)
    (chunkHash : UInt64) :
    uidOf (hashes.set k chunkHash) ≠ uidOf hashes ↔
      (chunkHash ^^^ hashes[k]).toNat % 2 ^ 63 / 2 ^ (hashes.length - (k + 1)) ≠ 0 := by
  have cut : hashes.take k ++ hashes[k] :: hashes.drop (k + 1) = hashes := by
    rw [← List.drop_eq_getElem_cons inside, List.take_append_drop]
  have replaced : hashes.set k chunkHash = hashes.take k ++ chunkHash :: hashes.drop (k + 1) := by
    rw [List.set_eq_take_append_cons_drop, if_pos inside]
  have difference := toNat_uidOf_xor (hashes.take k) (hashes.drop (k + 1)) chunkHash hashes[k]
  rw [List.length_drop, cut, ← replaced] at difference
  rw [← difference, ne_eq, ne_eq, ← UInt64.xor_eq_zero_iff, ← UInt64.toNat_inj,
    UInt64.toNat_zero]

/-- **When a chunk matters.** Another hash of a chunk can change the uid exactly when at most 62
chunks stand behind it. -/
theorem uidOf_dependsOn_iff (hashes : List UInt64) (k : Nat) (inside : k < hashes.length) :
    (∃ chunkHash, uidOf (hashes.set k chunkHash) ≠ uidOf hashes) ↔ hashes.length - k ≤ 63 := by
  simp only [uidOf_set_ne_iff inside]
  constructor
  · rintro ⟨chunkHash, changed⟩
    by_contra far
    have small : (chunkHash ^^^ hashes[k]).toNat % 2 ^ 63 < 2 ^ (hashes.length - (k + 1)) :=
      Nat.lt_of_lt_of_le (Nat.mod_lt _ (Nat.two_pow_pos 63))
        (Nat.pow_le_pow_right Nat.two_pos (by omega))
    exact changed (Nat.div_eq_of_lt small)
  · intro near
    -- the highest bit that a turn does not drop
    have bit : ((1 : UInt64) <<< 62).toNat % 2 ^ 63 = 2 ^ 62 := by decide
    refine ⟨(1 : UInt64) <<< 62 ^^^ hashes[k], ?_⟩
    rw [UInt64.xor_assoc, UInt64.xor_self, UInt64.xor_zero, bit]
    have large : 2 ^ (hashes.length - (k + 1)) ≤ 2 ^ 62 :=
      Nat.pow_le_pow_right Nat.two_pos (by omega)
    exact Nat.pos_iff_ne_zero.mp (Nat.div_pos large (Nat.two_pow_pos _))

theorem uidOf_dependsOn_iff_first :
    (∃ chunkHash, uidOf ([5, 7].set 0 chunkHash) ≠ uidOf [5, 7]) ↔ [5, 7].length - 0 ≤ 63 :=
  uidOf_dependsOn_iff [5, 7] 0 (by decide)

/-- The first of 64 chunks has no influence. -/
theorem uidOf_dependsOn_fails :
    ¬ ∀ (hashes : List UInt64) (k : Nat), k < hashes.length →
      ∃ chunkHash, uidOf (hashes.set k chunkHash) ≠ uidOf hashes := by
  intro claim
  obtain ⟨chunkHash, changed⟩ :=
    claim (List.replicate 64 0) 0 (by rw [List.length_replicate]; decide)
  rw [uidOf_set_ne_iff (by rw [List.length_replicate]; decide)] at changed
  have behind : (List.replicate 64 (0 : UInt64)).length - (0 + 1) = 63 := by
    rw [List.length_replicate]
  rw [behind] at changed
  exact changed (Nat.div_eq_of_lt (Nat.mod_lt _ (Nat.two_pow_pos 63)))

end Torrent

end Bp2p
