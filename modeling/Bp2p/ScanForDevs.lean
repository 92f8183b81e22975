import Bp2p.Packet
import Bp2p.SwapKeyVal

/-! # Scanning for devices

`scanForDevs` asks every local device which devices are near it and keeps the answers in two
maps, one from local to remote devices and one the other way round. The local devices are
removed from each answer (`Bp2p.Node.removeLocalDevs_eq`). The second map is then what
`swapKeyVal` would make of the first, so they are converse
(`Bp2p.Node.scanForDevs_converse`). What an inquiry finds is an input, a list for each local
device.
-/

namespace Bp2p

/-- `DevStatus`. -/
inductive DevStatus
  | ready
  | busy
  | inactive
  deriving DecidableEq

/-- The maps of a node that a scan fills. -/
structure DeviceMaps where
  local2remote : Std.TreeMap DeviceDescriptor (List DeviceDescriptor) := {}
  remote2local : Std.TreeMap DeviceDescriptor (List DeviceDescriptor) := {}
  remoteStatus : Std.TreeMap DeviceDescriptor DevStatus := {}

/-- The devices with a status are those with a vector of local devices. -/
def DeviceMaps.Statused (maps : DeviceMaps) : Prop :=
  ∀ remote, remote ∈ maps.remoteStatus ↔ remote ∈ maps.remote2local

namespace Node

/-- The loop that removes the local devices from a scan. -/
def removeLocalDevs (localDevs remoteDevs : List DeviceDescriptor) : List DeviceDescriptor :=
  localDevs.foldl
    (fun remoteDevs locDev =>
      if remoteDevs.contains locDev then remoteDevs.filter (· != locDev) else remoteDevs)
    remoteDevs

/-- One turn of the loop over the remote devices of a local one. -/
def addRemote (localDev : DeviceDescriptor) (maps : DeviceMaps) (remote : DeviceDescriptor) :
    DeviceMaps :=
  { maps with
    remote2local :=
      match maps.remote2local[remote]? with
      | none => maps.remote2local.insert remote [localDev]
      | some locals => maps.remote2local.insert remote (locals ++ [localDev])
    remoteStatus := maps.remoteStatus.insert remote .ready }

/-- One turn of the loop over the local devices; the vector of remote devices is cleared
behind each. -/
def scanLocal (localDevs : List DeviceDescriptor)
    (findNearbyDevs : DeviceDescriptor → List DeviceDescriptor) (maps : DeviceMaps)
    (localDev : DeviceDescriptor) : DeviceMaps :=
  let remoteDevs := removeLocalDevs localDevs (findNearbyDevs localDev)
  remoteDevs.foldl (addRemote localDev)
    { maps with local2remote := maps.local2remote.insert localDev remoteDevs }

/-- `scanForDevs`, from maps that are cleared first. -/
def scanForDevs (localDevs : List DeviceDescriptor)
    (findNearbyDevs : DeviceDescriptor → List DeviceDescriptor) (maps : DeviceMaps) :
    DeviceMaps :=
  localDevs.foldl (scanLocal localDevs findNearbyDevs)
    { maps with local2remote := {}, remote2local := {}, remoteStatus := {} }

/-- What is left of a scan is what is not local. -/
theorem removeLocalDevs_eq (localDevs remoteDevs : List DeviceDescriptor) :
    removeLocalDevs localDevs remoteDevs =
      remoteDevs.filter fun remote => decide (remote ∉ localDevs) := by
  unfold removeLocalDevs
  induction localDevs generalizing remoteDevs with
  | nil => simp only [List.foldl_nil, List.not_mem_nil, not_false_eq_true, decide_true,
      List.filter_true]
  | cons locDev localDevs ih =>
      have removed : (if remoteDevs.contains locDev then remoteDevs.filter (· != locDev)
          else remoteDevs) = remoteDevs.filter (· != locDev) := by
        split
        · rfl
        · next absent =>
            refine (List.filter_eq_self.mpr fun remote member => bne_iff_ne.mpr ?_).symm
            rintro rfl
            exact absent (List.contains_iff_mem.mpr member)
      rw [List.foldl_cons, removed, ih, List.filter_filter]
      refine List.filter_congr fun remote _ => ?_
      simp only [List.mem_cons, not_or, Bool.decide_and, bne, Bool.and_comm, decide_not,
        beq_eq_decide]

/-- A remote device lists the local one that found it. -/
theorem addRemote_remote2local (localDev : DeviceDescriptor) (maps : DeviceMaps)
    (remote : DeviceDescriptor) :
    (addRemote localDev maps remote).remote2local =
      Utils.swapVal maps.remote2local localDev remote := by
  cases found : maps.remote2local[remote]? with
  | none => simp only [addRemote, Utils.swapVal, found]
  | some locals => simp only [addRemote, Utils.swapVal, found]

/-- What is found does not change what a local device lists. -/
theorem foldl_addRemote_local2remote (localDev : DeviceDescriptor) (maps : DeviceMaps)
    (remoteDevs : List DeviceDescriptor) :
    (remoteDevs.foldl (addRemote localDev) maps).local2remote = maps.local2remote := by
  induction remoteDevs generalizing maps with
  | nil => rfl
  | cons remote remoteDevs ih => rw [List.foldl_cons, ih, addRemote]

/-- The devices that are found list the local one, in order. -/
theorem foldl_addRemote_remote2local (localDev : DeviceDescriptor) (maps : DeviceMaps)
    (remoteDevs : List DeviceDescriptor) :
    (remoteDevs.foldl (addRemote localDev) maps).remote2local =
      remoteDevs.foldl (fun dest remote => Utils.swapVal dest localDev remote)
        maps.remote2local := by
  induction remoteDevs generalizing maps with
  | nil => rfl
  | cons remote remoteDevs ih => rw [List.foldl_cons, ih, addRemote_remote2local, List.foldl_cons]

theorem statused_addRemote {maps : DeviceMaps} (statused : maps.Statused)
    (localDev remote : DeviceDescriptor) : (addRemote localDev maps remote).Statused := by
  intro other
  rw [addRemote_remote2local, Utils.mem_swapVal, ← statused other]
  simp only [addRemote, Std.TreeMap.mem_insert, Std.LawfulEqOrd.compare_eq_iff_eq]

section

variable (localDevs : List DeviceDescriptor)
  (findNearbyDevs : DeviceDescriptor → List DeviceDescriptor)

/-- The remote devices a local device finds. -/
def remotesOf (localDev : DeviceDescriptor) : List DeviceDescriptor :=
  removeLocalDevs localDevs (findNearbyDevs localDev)

/-- A local device that was scanned lists the devices it found. -/
theorem getElem?_local2remote_foldl (scanned : List DeviceDescriptor) (maps : DeviceMaps)
    (localDev : DeviceDescriptor) :
    (scanned.foldl (scanLocal localDevs findNearbyDevs) maps).local2remote[localDev]? =
      if localDev ∈ scanned then some (remotesOf localDevs findNearbyDevs localDev)
      else maps.local2remote[localDev]? := by
  induction scanned generalizing maps with
  | nil => simp only [List.foldl_nil, List.not_mem_nil, ↓reduceIte]
  | cons first scanned ih =>
      rw [List.foldl_cons, ih, scanLocal, foldl_addRemote_local2remote]
      simp only [List.mem_cons, Std.TreeMap.getElem?_insert, Std.LawfulEqOrd.compare_eq_iff_eq]
      by_cases later : localDev ∈ scanned
      · simp only [later, ↓reduceIte, or_true]
      · by_cases now : localDev = first
        · subst now
          simp only [later, ↓reduceIte, or_false, remotesOf]
        · simp only [later, now, Ne.symm now, or_self, ↓reduceIte]

/-- Scanning lists every local device for the devices it found. -/
theorem remote2local_foldl (scanned : List DeviceDescriptor) (maps : DeviceMaps) :
    (scanned.foldl (scanLocal localDevs findNearbyDevs) maps).remote2local =
      Utils.swapEntries maps.remote2local
        (scanned.map fun localDev => (localDev, remotesOf localDevs findNearbyDevs localDev)) := by
  induction scanned generalizing maps with
  | nil => rfl
  | cons first scanned ih =>
      rw [List.foldl_cons, ih, scanLocal, foldl_addRemote_remote2local]
      rfl

theorem statused_foldl {maps : DeviceMaps} (statused : maps.Statused)
    (scanned : List DeviceDescriptor) :
    (scanned.foldl (scanLocal localDevs findNearbyDevs) maps).Statused := by
  refine List.foldlRecOn scanned _ statused fun maps kept localDev _ => ?_
  exact List.foldlRecOn _ _ kept fun maps kept remote _ => statused_addRemote kept localDev remote

/-- A local device is no remote of a local device. -/
theorem notMem_remotesOf {localDev : DeviceDescriptor} (isLocal : localDev ∈ localDevs)
    (other : DeviceDescriptor) : localDev ∉ remotesOf localDevs findNearbyDevs other := by
  rw [remotesOf, removeLocalDevs_eq, List.mem_filter, decide_eq_true_iff]
  exact fun member => member.2 isLocal

variable (maps : DeviceMaps)

/-- The devices a local one lists are those it found, and none for other devices. -/
theorem getD_local2remote_scanForDevs (localDev : DeviceDescriptor) :
    (scanForDevs localDevs findNearbyDevs maps).local2remote.getD localDev [] =
      if localDev ∈ localDevs then remotesOf localDevs findNearbyDevs localDev else [] := by
  rw [Std.TreeMap.getD_eq_getD_getElem?, scanForDevs, getElem?_local2remote_foldl]
  split
  · rw [Option.getD_some]
  · rw [Std.TreeMap.getElem?_emptyc, Option.getD_none]

theorem remote2local_scanForDevs :
    (scanForDevs localDevs findNearbyDevs maps).remote2local =
      Utils.swapEntries {}
        (localDevs.map fun localDev => (localDev, remotesOf localDevs findNearbyDevs localDev)) :=
  remote2local_foldl localDevs findNearbyDevs localDevs _

/-- The devices a remote one lists are the local ones that found it, in order and as often. -/
theorem getD_remote2local_scanForDevs (remote : DeviceDescriptor) :
    (scanForDevs localDevs findNearbyDevs maps).remote2local.getD remote [] =
      Converse.keysOf
        (localDevs.map fun localDev => (localDev, remotesOf localDevs findNearbyDevs localDev))
        remote := by
  rw [remote2local_scanForDevs, Utils.getD_swapEntries, Std.TreeMap.getD_emptyc, List.nil_append]

theorem filled_scanForDevs :
    Utils.Filled (scanForDevs localDevs findNearbyDevs maps).remote2local :=
  remote2local_scanForDevs localDevs findNearbyDevs maps ▸ Utils.filled_empty.swapEntries _

/-- A local device is not taken for a remote one. -/
theorem notMem_remote2local_scanForDevs {localDev : DeviceDescriptor}
    (isLocal : localDev ∈ localDevs) :
    localDev ∉ (scanForDevs localDevs findNearbyDevs maps).remote2local := by
  rw [Std.TreeMap.mem_iff_isSome_getElem?, Option.not_isSome_iff_eq_none,
    ← (filled_scanForDevs localDevs findNearbyDevs maps).getD_eq_nil_iff,
    getD_remote2local_scanForDevs, Converse.keysOf_eq_nil_iff]
  intro entry member
  obtain ⟨other, _, rfl⟩ := List.mem_map.mp member
  exact notMem_remotesOf localDevs findNearbyDevs isLocal other

theorem statused_scanForDevs : (scanForDevs localDevs findNearbyDevs maps).Statused := by
  refine statused_foldl localDevs findNearbyDevs ?_ localDevs
  intro remote
  simp only [Std.TreeMap.not_mem_emptyc]

/-- Local and remote devices see each other equally often. -/
theorem count_scanForDevs (distinct : localDevs.Nodup) (localDev remote : DeviceDescriptor) :
    ((scanForDevs localDevs findNearbyDevs maps).remote2local.getD remote []).count localDev =
      ((scanForDevs localDevs findNearbyDevs maps).local2remote.getD localDev []).count
        remote := by
  rw [getD_remote2local_scanForDevs, getD_local2remote_scanForDevs]
  split
  · next isLocal =>
      refine Converse.count_keysOf ?_ (List.mem_map.mpr ⟨localDev, isLocal, rfl⟩) remote
      rw [List.map_map]
      exact (List.map_id localDevs).symm ▸ distinct
  · next foreign =>
      rw [List.count_nil, List.count_eq_zero]
      intro member
      obtain ⟨vals, entry, _⟩ := Converse.mem_keysOf.mp member
      obtain ⟨other, isLocal, same⟩ := List.mem_map.mp entry
      cases same
      exact foreign isLocal

end

/-- **The maps of a scan are converse.** Whatever the inquiries of pairwise distinct local
devices find and whatever the maps held, a local device occurs in the vector of a remote one
as often as the remote in the vector of the local one, no local device is a
remote, no vector of `remote2local` is empty, and its keys are those of `remoteStatus`. -/
theorem scanForDevs_converse {localDevs : List DeviceDescriptor} (distinct : localDevs.Nodup)
    (findNearbyDevs : DeviceDescriptor → List DeviceDescriptor) (maps : DeviceMaps) :
    (∀ localDev remote,
      ((scanForDevs localDevs findNearbyDevs maps).remote2local.getD remote []).count localDev =
        ((scanForDevs localDevs findNearbyDevs maps).local2remote.getD localDev []).count
          remote) ∧
    (∀ localDev ∈ localDevs,
      localDev ∉ (scanForDevs localDevs findNearbyDevs maps).remote2local ∧
        ∀ other, localDev ∉
          (scanForDevs localDevs findNearbyDevs maps).local2remote.getD other []) ∧
    Utils.Filled (scanForDevs localDevs findNearbyDevs maps).remote2local ∧
    ∀ remote, remote ∈ (scanForDevs localDevs findNearbyDevs maps).remoteStatus ↔
      remote ∈ (scanForDevs localDevs findNearbyDevs maps).remote2local := by
  refine ⟨count_scanForDevs localDevs findNearbyDevs maps distinct, fun localDev isLocal => ?_,
    filled_scanForDevs localDevs findNearbyDevs maps,
    statused_scanForDevs localDevs findNearbyDevs maps⟩
  refine ⟨notMem_remote2local_scanForDevs localDevs findNearbyDevs maps isLocal, fun other => ?_⟩
  rw [getD_local2remote_scanForDevs]
  split
  · exact notMem_remotesOf localDevs findNearbyDevs isLocal other
  · exact List.not_mem_nil

/-- Two adapters that find each other and, twice, a third device. -/
def overlapping : DeviceMaps :=
  scanForDevs [⟨[49]⟩, ⟨[50]⟩] (fun _ => [⟨[50]⟩, ⟨[51]⟩, ⟨[49]⟩, ⟨[51]⟩])
    { remoteStatus := .ofList [(⟨[52]⟩, .busy)] compare }

/-- The two adapters that find each other and a third device twice. -/
theorem scanForDevs_converse_overlapping :
    (∀ localDev remote, (overlapping.remote2local.getD remote []).count localDev =
      (overlapping.local2remote.getD localDev []).count remote) ∧
    (∀ localDev ∈ ([⟨[49]⟩, ⟨[50]⟩] : List DeviceDescriptor),
      localDev ∉ overlapping.remote2local ∧
        ∀ other, localDev ∉ overlapping.local2remote.getD other []) ∧
    Utils.Filled overlapping.remote2local ∧
    ∀ remote, remote ∈ overlapping.remoteStatus ↔ remote ∈ overlapping.remote2local :=
  scanForDevs_converse (by decide) _ _

example : overlapping.remote2local.toList =
    [(⟨[51]⟩, [⟨[49]⟩, ⟨[49]⟩, ⟨[50]⟩, ⟨[50]⟩])] := by decide

end Node

end Bp2p
