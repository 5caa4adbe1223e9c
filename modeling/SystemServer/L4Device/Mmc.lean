import SystemServer.Core.CString
import SystemServer.Core.LTS

/-!
# The memory card (`ss_mmc_handler.c`)

Three records of one fact: the variable `mmc_status`, the published key, and
the mounts on MMC_MOUNT_POINT. `ss_mmc_inserted` and the unmount request
publish first and set the variable last, `ss_mmc_removed` publishes before it
unmounts; in between there are the failures of `get_mmcblk_num`, of each mount
and of the unmount.

`agrees`: after every operation of every run the three records agree, so the
card is never mounted twice.

The values of the status key are of a header outside the tree (`Keys`); what
the code relies on is that they differ, and that the variable, which starts
as 0, does not start as MOUNTED.
-/
namespace SystemServer.L4.Mmc

/-! ## The source -/

/-- The values of VCONFKEY_SYSMAN_MMC_STATUS. -/
structure Keys where
  REMOVED : Int
  MOUNTED : Int
  INSERTED_NOT_MOUNTED : Int
  removed_ne : REMOVED ≠ MOUNTED
  inserted_ne : INSERTED_NOT_MOUNTED ≠ MOUNTED
  removed_ne_inserted : REMOVED ≠ INSERTED_NOT_MOUNTED
  start_ne : (0 : Int) ≠ MOUNTED

/-- The values of VCONFKEY_SYSMAN_MMC_MOUNT. -/
inductive MountKey where
  | ALREADY | FAILED | COMPLETED
  deriving DecidableEq, Repr

/-- The values of VCONFKEY_SYSMAN_MMC_UNMOUNT. -/
inductive UnmountKey where
  | FAILED | COMPLETED
  deriving DecidableEq, Repr

/-- `mounts` counts what is mounted on MMC_MOUNT_POINT. -/
structure Card where
  mmcStatus : Int
  status : Int
  mountKey : Option MountKey
  unmountKey : Option UnmountKey
  mounts : Nat
  deriving DecidableEq, Repr

/-- What `mount` returns: 0, or -1 with ENOENT or another error. -/
inductive Mount where
  | ok
  | enoent
  | error
  deriving DecidableEq, Repr

/-- What an insertion meets: the number of the block device, -1 if there is
none, the mount of the card and those of its first partition. -/
structure Insert where
  blkNum : Int
  card : Mount
  partition : Nat → Mount

def MNT_DETACH : Int := 2

/-- The retries of the partition.
mirrors ss_mmc_handler.c:205 -/
def RETRIES : Nat := 10

/-- The loop, from the given retry on with `left` retries to go.
mirrors ss_mmc_handler.c:190-205 -/
def mountPartition (partition : Nat → Mount) : Nat → Nat → Bool
  | 0, retry => partition retry = .ok
  | left + 1, retry =>
    match partition retry with
    | .ok => true
    | .enoent => mountPartition partition left (retry + 1)
    | .error => false

/-- An unmount fails where nothing is mounted, a lazy one only there; whether
another one succeeds is `ok`. -/
def umount2 (option : Int) (ok : Bool) (s : Card) : Option Card :=
  if s.mounts = 0 then none
  else if option = MNT_DETACH ∨ ok = true then some { s with mounts := s.mounts - 1 }
  else none

variable (K : Keys)

/-- A mount that succeeded.
mirrors ss_mmc_handler.c:182-188,196-202 -/
def mounted (s : Card) : Card :=
  { s with
    mounts := s.mounts + 1
    status := K.MOUNTED
    mountKey := some .COMPLETED
    mmcStatus := K.MOUNTED }

/-- mirrors ss_mmc_handler.c:148-214 -/
def ssMmcInserted (e : Insert) (s : Card) : Int × Card :=
  if s.mmcStatus = K.MOUNTED then
    (-1, { s with status := K.MOUNTED, mountKey := some .ALREADY })
  else if e.blkNum = -1 then
    (0, { s with status := K.REMOVED, mountKey := some .FAILED, mmcStatus := K.REMOVED })
  else if e.card = .ok then (0, mounted K s)
  else if mountPartition e.partition RETRIES 0 then (0, mounted K s)
  else
    (-1, { s with
      status := K.INSERTED_NOT_MOUNTED
      mountKey := some .FAILED
      mmcStatus := K.INSERTED_NOT_MOUNTED })

/-- mirrors ss_mmc_handler.c:216-226 -/
def ssMmcRemoved (s : Card) : Int × Card :=
  let s := { s with status := K.REMOVED }
  let s := (umount2 MNT_DETACH false s).getD s
  (0, { s with mmcStatus := K.REMOVED })

/-- `none`: the option is NULL, and `atoi` reads it.
mirrors ss_mmc_handler.c:105-132 -/
def ssMmcUnmounted (ok : Bool) (argc : Int) (argv : List CPtr) (s : Card) : Option (Int × Card) :=
  if argc < 1 then some (-1, s)
  else
    (atoiP (arg argv 0)).map fun option =>
      if option < 0 then (-1, s)
      else
        match umount2 option ok s with
        | none => (-1, { s with unmountKey := some .FAILED })
        | some s =>
          (0, { s with
            status := K.INSERTED_NOT_MOUNTED
            unmountKey := some .COMPLETED
            mmcStatus := K.INSERTED_NOT_MOUNTED })

theorem unmounted_isSome_iff (ok : Bool) (argc : Int) (argv : List CPtr) (s : Card) :
    (ssMmcUnmounted K ok argc argv s).isSome ↔ argc < 1 ∨ (arg argv 0).isSome := by
  rw [ssMmcUnmounted, isSome_guarded, Option.isSome_map, isSome_atoiP]

/-! ## Runs -/

inductive Lbl where
  | insert (e : Insert)
  | remove
  | unmount (ok : Bool) (argc : Int) (argv : List CPtr)

def step (s : Card) : Lbl → Option Card
  | .insert e => some (ssMmcInserted K e s).2
  | .remove => some (ssMmcRemoved K s).2
  | .unmount ok argc argv => (ssMmcUnmounted K ok argc argv s).map Prod.snd

/-- Before `ss_mmc_init`, with whatever the keys were. -/
def boot (status : Int) (mountKey : Option MountKey) (unmountKey : Option UnmountKey) : Card :=
  ⟨0, status, mountKey, unmountKey, 0⟩

/-- `ss_mmc_init` is an insertion; the requests are served from then on.
mirrors ss_mmc_handler.c:134-146 -/
def ssMmcInit (e : Insert) (s : Card) : Card := (ssMmcInserted K e s).2

def lts : LTS Card Lbl :=
  ⟨fun s => ∃ e status mountKey unmountKey, s = ssMmcInit K e (boot status mountKey unmountKey),
    step K⟩

/-- The variable is what is published, and it is MOUNTED when something is
mounted, and then it is one mount. -/
structure Agrees (s : Card) : Prop where
  published : s.mmcStatus = s.status
  mounts : s.mounts = if s.mmcStatus = K.MOUNTED then 1 else 0

variable {K}

theorem Agrees.mounts_le {s : Card} (h : Agrees K s) : s.mounts ≤ 1 := by
  rw [h.mounts]
  split <;> omega

/-- An unmount that succeeds takes one mount away. -/
theorem umount2_some {option : Int} {ok : Bool} {s t : Card} (h : umount2 option ok s = some t) :
    s.mounts ≠ 0 ∧ t = { s with mounts := s.mounts - 1 } := by
  unfold umount2 at h
  split at h
  · cases h
  · rename_i hmounts
    split at h
    · exact ⟨hmounts, (Option.some.inj h).symm⟩
    · cases h

/-- A lazy unmount fails only where nothing is mounted. -/
theorem umount2_detach {ok : Bool} {s : Card} (h : umount2 MNT_DETACH ok s = none) :
    s.mounts = 0 := by
  unfold umount2 at h
  split at h
  · assumption
  · simp at h

theorem agrees_mounted {s : Card} (h : s.mounts = 0) : Agrees K (mounted K s) :=
  ⟨rfl, by simp [mounted, h]⟩

/-- An insertion needs no more than that nothing is mounted unless the
variable says so. -/
theorem agrees_inserted {s : Card} (h : s.mounts = if s.mmcStatus = K.MOUNTED then 1 else 0)
    (e : Insert) : Agrees K (ssMmcInserted K e s).2 := by
  unfold ssMmcInserted
  by_cases hm : s.mmcStatus = K.MOUNTED
  · rw [if_pos hm]
    exact ⟨hm, h⟩
  · rw [if_neg hm] at h ⊢
    by_cases hblk : e.blkNum = -1
    · rw [if_pos hblk]
      exact ⟨rfl, by simp [h, K.removed_ne]⟩
    · rw [if_neg hblk]
      by_cases hcard : e.card = .ok
      · rw [if_pos hcard]
        exact agrees_mounted h
      · rw [if_neg hcard]
        split
        · exact agrees_mounted h
        · exact ⟨rfl, by simp [h, K.inserted_ne]⟩

theorem agrees_removed {s : Card} (h : Agrees K s) : Agrees K (ssMmcRemoved K s).2 := by
  have hle := h.mounts_le
  simp only [ssMmcRemoved]
  cases hu : umount2 MNT_DETACH false { s with status := K.REMOVED } with
  | none => exact ⟨rfl, (umount2_detach hu).trans (if_neg K.removed_ne).symm⟩
  | some t =>
    obtain ⟨-, rfl⟩ := umount2_some hu
    refine ⟨rfl, ?_⟩
    simp only [Option.getD_some, if_neg K.removed_ne]
    omega

theorem agrees_unmounted {s : Card} (h : Agrees K s) {ok : Bool} {argc : Int} {argv : List CPtr}
    {r : Int × Card} (hr : ssMmcUnmounted K ok argc argv s = some r) : Agrees K r.2 := by
  unfold ssMmcUnmounted at hr
  split at hr
  · obtain rfl := Option.some.inj hr
    exact h
  · obtain ⟨option, -, rfl⟩ := Option.map_eq_some_iff.mp hr
    by_cases hneg : option < 0
    · rw [if_pos hneg]
      exact h
    · rw [if_neg hneg]
      cases hu : umount2 option ok s with
      | none => exact ⟨h.published, h.mounts⟩
      | some t =>
        obtain ⟨-, rfl⟩ := umount2_some hu
        refine ⟨rfl, ?_⟩
        simp only [if_neg K.inserted_ne]
        have := h.mounts_le
        omega

theorem agrees_inductive : (lts K).Inductive (Agrees K) where
  init := by
    intro s hinit
    obtain ⟨e, status, mountKey, unmountKey, rfl⟩ := hinit
    exact agrees_inserted (by simp [boot, K.start_ne]) e
  step := by
    intro s l s' hs hst
    cases l with
    | insert e =>
      obtain rfl := Option.some.inj hst
      exact agrees_inserted hs.mounts e
    | remove =>
      obtain rfl := Option.some.inj hst
      exact agrees_removed hs
    | unmount ok argc argv =>
      obtain ⟨r, hr, rfl⟩ := Option.map_eq_some_iff.mp hst
      exact agrees_unmounted hs hr

/-- **The state of the card.** After every operation of every run `mmc_status`
is the published status, and the mount point carries one mount if it is
MOUNTED and none otherwise. -/
theorem agrees (K : Keys) (s : Card) (h : (lts K).Reachable s) :
    s.mmcStatus = s.status ∧ s.mounts = if s.mmcStatus = K.MOUNTED then 1 else 0 :=
  have ha := agrees_inductive.reachable h
  ⟨ha.published, ha.mounts⟩

def someKeys : Keys := ⟨0, 1, 2, by decide, by decide, by decide, by decide⟩

/-- Mounted at the second try of the partition, then a forced unmount that
fails: the card stays mounted. -/
theorem agrees_forced : ∃ s, (lts someKeys).Reachable s ∧ s.unmountKey = some .FAILED ∧
    s.mmcStatus = someKeys.MOUNTED ∧ s.mounts = 1 ∧
    s.mmcStatus = s.status ∧ s.mounts = if s.mmcStatus = someKeys.MOUNTED then 1 else 0 := by
  have hreach : (lts someKeys).Reachable ⟨1, 1, some .COMPLETED, some .FAILED, 1⟩ :=
    ⟨_, [.unmount false 1 [some ⟨0, lit "1"⟩]],
      ⟨⟨0, .error, fun n => if n = 0 then .enoent else .ok⟩, 0, none, none, rfl⟩, by decide⟩
  exact ⟨_, hreach, rfl, rfl, rfl, agrees someKeys _ hreach⟩

end SystemServer.L4.Mmc
