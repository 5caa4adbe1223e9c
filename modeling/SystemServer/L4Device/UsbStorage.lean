import SystemServer.Core.CString
import SystemServer.Core.LTS

/-!
# USB storage (`ss_usb_storage_handler.c`)

A USB storage is mounted on a directory of its own under MOUNT_POINT. A tmpfs
is mounted on MOUNT_POINT itself first, once, so that a directory that is no
mount point any more does not collect user data; `tempfs_mounted` remembers
that it is there. A removal unmounts the device and then MOUNT_POINT.

* `tmpfs_iff`: after that unmount the variable is set to 1, so it is right
  throughout a run exactly when no removal takes the last tmpfs away.
* `others_iff`: the tmpfs goes with everything mounted on it, so the other
  devices stay exactly when none is mounted on the tmpfs that goes.
* `announced_iff`: an addition looks for the device in the mount table with
  `strstr`, so what it announces is mounted exactly when no longer name makes
  up for a missing one.

A mount is on the newest tmpfs at the time, or on the directory below; a lazy
unmount takes the newest mount of a path with all below it, and fails where
nothing is mounted. Outcomes of the calls, and what is mounted before the
first of them, are arbitrary. A device name is one component of a path.

Ghost state: `created` are the directories made for devices, with whether the
tmpfs was there.
-/
namespace SystemServer.L4.UsbStorage

/-! ## The source -/

/-- mirrors ss_usb_storage_handler.c:34,39 -/
def BUF_MAX : Nat := 512
def MOUNT_POINT : Bytes := lit "/opt/storage/usb"

/-- A device and the directory it is mounted on. -/
structure Mount where
  dir : Bytes
  dev : Bytes
  deriving DecidableEq, Repr

/-- What is mounted on each tmpfs, the newest first, and below them all. -/
structure Table where
  tmpfs : List (List Mount)
  base : List Mount
  deriving DecidableEq, Repr

/-- The two keys a storage is announced on. -/
inductive Key where
  | ADDED
  | REMOVED
  deriving DecidableEq, Repr

/-- A call of `vconf_set_int` and whether it succeeded. -/
structure Write where
  key : Key
  value : Int
  ok : Bool
  deriving DecidableEq, Repr

structure Usb where
  table : Table
  tempfsMounted : Int
  addedNotiValue : Int
  removedNotiValue : Int
  writes : List Write
  created : List (Bytes × Bool)
  deriving DecidableEq, Repr

/-- `mount` of the tmpfs: 0, or -1 with EBUSY or another error. -/
inductive Tmpfs where
  | ok
  | ebusy
  | error
  deriving DecidableEq, Repr

/-- `mkdir` of a device's directory: 0, or -1 with EEXIST or another error. -/
inductive Mkdir where
  | made
  | eexist
  | error
  deriving DecidableEq, Repr

/-- What the calls of an addition come to; `mtab` is the device names of the
mount table as it is read. -/
structure Add where
  pointAccess : Bool
  pointMkdir : Bool
  tmpfs : Tmpfs
  chmod : Bool
  pointUmount : Bool
  access : Bool
  mkdir : Mkdir
  mount : Bool
  mtab : List Bytes
  vconf : Bool
  vconfReset : Bool

/-- What the calls of a removal come to. -/
structure Remove where
  access : Bool
  umount : Bool
  pointUmount : Bool
  vconf : Bool
  vconfReset : Bool

/-- What is mounted on the directories a path leads to now. -/
def Table.top (t : Table) : List Mount := t.tmpfs.headD t.base

def Table.setTop (t : Table) (ms : List Mount) : Table :=
  match t.tmpfs with
  | [] => { t with base := ms }
  | _ :: rest => { t with tmpfs := ms :: rest }

def Table.all (t : Table) : List Mount := t.tmpfs.flatten ++ t.base

/-- `umount2(MOUNT_POINT, MNT_DETACH)`. -/
def Table.umountPoint (ok : Bool) (t : Table) : Option Table :=
  match t.tmpfs with
  | [] => none
  | _ :: rest => if ok then some { t with tmpfs := rest } else none

/-- `umount2(dir, MNT_DETACH)`. -/
def Table.umountDir (ok : Bool) (dir : Bytes) (t : Table) : Option Table :=
  if t.top.any (·.dir = dir) ∧ ok = true then some (t.setTop (t.top.eraseP (·.dir = dir))) else none

/-- `snprintf(buf, BUF_MAX, "%s%s", MOUNT_POINT, rel)`. -/
def mntPoint (rel : Bytes) : Bytes := (MOUNT_POINT ++ rel).take (BUF_MAX - 1)

/-- The last slash and what follows it. -/
def strrchrSlash (dev : Bytes) : Option Bytes :=
  if (47 : UInt8) ∈ dev then some (47 :: (dev.reverse.takeWhile (· ≠ 47)).reverse) else none

/-- The string occurs in the other. -/
def strstr (haystack needle : Bytes) : Bool := haystack.tails.any (needle.isPrefixOf ·)

/-- The next value of a counter that starts again at 1.
mirrors ss_usb_storage_handler.c:190-194,244-248 -/
def nextNoti (value : Int) : Int := if value < INT_MAX then value + 1 else 1

/-- `rmdir` of a directory whose mount failed changes no mount.
mirrors ss_usb_storage_handler.c:45-86 -/
def ssMountDevice (e : Add) (dev : Bytes) (s : Usb) : Int × Usb :=
  if ¬ e.access then (-1, s)
  else
    match strrchrSlash dev with
    | none => (-1, s)
    | some rel =>
      let dir := mntPoint rel
      let s := if e.mkdir = .made then
          { s with created := s.created ++ [(dir, !s.table.tmpfs.isEmpty)] } else s
      if e.mkdir = .error then (-1, s)
      else if ¬ e.mount then (-1, s)
      else (0, { s with table := s.table.setTop (⟨dir, dev⟩ :: s.table.top) })

/-- mirrors ss_usb_storage_handler.c:88-125 -/
def ssUnmountDevice (e : Remove) (dir : Bytes) (s : Usb) : Int × Usb :=
  if ¬ e.access then (-1, s)
  else
    match s.table.umountDir e.umount dir with
    | none => (-1, s)
    | some t => (0, { s with table := t })

/-- MOUNT_POINT and its tmpfs, and whether the addition goes on.
mirrors ss_usb_storage_handler.c:146-170 -/
def protect (e : Add) (s : Usb) : Bool × Usb :=
  if ¬ e.pointAccess ∧ ¬ e.pointMkdir then (false, s)
  else if s.tempfsMounted = 1 then (true, s)
  else
    match e.tmpfs with
    | .error => (false, s)
    | .ebusy => (true, s)
    | .ok =>
      let t := { s.table with tmpfs := [] :: s.table.tmpfs }
      if e.chmod then (true, { s with table := t, tempfsMounted := 1 })
      else (false, { s with table := (t.umountPoint e.pointUmount).getD t })

/-- The loop over the mount table. The popup changes nothing here.
mirrors ss_usb_storage_handler.c:183-221 -/
def announce (e : Add) (dev : Bytes) (s : Usb) : Int × Usb :=
  if e.mtab.any (strstr · dev) then
    let value := nextNoti s.addedNotiValue
    let reset := if e.vconf then [] else [⟨Key.ADDED, -1, e.vconfReset⟩]
    (0, { s with
      addedNotiValue := value
      writes := s.writes ++ ⟨Key.ADDED, value, e.vconf⟩ :: reset })
  else (-1, s)

/-- mirrors ss_usb_storage_handler.c:127-222 -/
def ssUsbStorageAdded (e : Add) (argc : Int) (argv : List CPtr) (s : Usb) : Int × Usb :=
  match arg argv 0 with
  | none => (-1, s)
  | some str =>
    if argc ≠ 1 then (-1, s)
    else
      let dev := cstr str.bytes
      let r := protect e s
      if ¬ r.1 then (-1, r.2)
      else if strrchrSlash dev = none then (-1, r.2)
      else announce e dev (ssMountDevice e dev r.2).2

/-- Where the broadcast fails the other key is reset.
mirrors ss_usb_storage_handler.c:224-260 -/
def ssUsbStorageRemoved (e : Remove) (argc : Int) (argv : List CPtr) (s : Usb) : Int × Usb :=
  match arg argv 0 with
  | none => (-1, s)
  | some str =>
    if argc ≠ 1 then (-1, s)
    else
      let r := ssUnmountDevice e (mntPoint (47 :: cstr str.bytes)) s
      if r.1 = 0 then
        let s := match r.2.table.umountPoint e.pointUmount with
          | none => r.2
          | some t => { r.2 with table := t, tempfsMounted := 1 }
        let value := nextNoti s.removedNotiValue
        let reset := if e.vconf then [] else [⟨Key.ADDED, -1, e.vconfReset⟩]
        (0, { s with
          removedNotiValue := value
          writes := s.writes ++ ⟨Key.REMOVED, value, e.vconf⟩ :: reset })
      else (0, r.2)

/-! ## Runs -/

inductive Lbl where
  | add (e : Add) (argc : Int) (argv : List CPtr)
  | remove (e : Remove) (argc : Int) (argv : List CPtr)

/-- One component of a path. -/
def isName (name : Bytes) : Bool :=
  name ≠ [] && name ≠ lit "." && name ≠ lit ".." && !name.contains 47 && name.length ≤ 255

/-- The device, if there is one, has a name. -/
def Lbl.named : Lbl → Bool
  | .add _ _ argv => (arg argv 0).all fun str => (strrchrSlash (cstr str.bytes)).all (isName ·.tail)
  | .remove _ _ argv => (arg argv 0).all fun str => isName (cstr str.bytes)

def step (s : Usb) (l : Lbl) : Option Usb :=
  if l.named then
    match l with
    | .add e argc argv => some (ssUsbStorageAdded e argc argv s).2
    | .remove e argc argv => some (ssUsbStorageRemoved e argc argv s).2
  else none

/-- At the start, whatever is mounted. -/
def boot (table : Table) : Usb := ⟨table, 0, 0, 0, [], []⟩

def lts : LTS Usb Lbl := ⟨fun s => ∃ table, s = boot table, step⟩

/-! ## The pieces -/

/-- The variable is right: where it is 1, a tmpfs is mounted. -/
def Known (s : Usb) : Prop := s.tempfsMounted = 1 → s.table.tmpfs ≠ []

instance (s : Usb) : Decidable (Known s) :=
  inferInstanceAs (Decidable (s.tempfsMounted = 1 → s.table.tmpfs ≠ []))

theorem setTop_tmpfs (t : Table) (ms : List Mount) : (t.setTop ms).tmpfs = [] ↔ t.tmpfs = [] := by
  unfold Table.setTop
  cases t.tmpfs <;> simp

theorem setTop_length (t : Table) (ms : List Mount) :
    (t.setTop ms).tmpfs.length = t.tmpfs.length := by
  unfold Table.setTop
  cases t.tmpfs <;> simp

theorem mem_all_setTop {t : Table} {ms : List Mount} {m : Mount}
    (h : m ∈ t.top → m ∈ ms) (hm : m ∈ t.all) : m ∈ (t.setTop ms).all := by
  unfold Table.setTop Table.all Table.top at *
  cases ht : t.tmpfs with
  | nil => simp [ht] at h hm ⊢; exact h hm
  | cons top rest =>
    simp only [ht, List.headD_cons, List.flatten_cons, List.append_assoc, List.mem_append] at h hm ⊢
    exact hm.imp_left h

/-- The tmpfs is there when the addition goes on, or could not be mounted. -/
theorem protect_spec (e : Add) {s : Usb} (h : Known s) :
    Known (protect e s).2 ∧ (protect e s).2.created = s.created ∧
      ((protect e s).1 = true → (protect e s).2.table.tmpfs ≠ [] ∨
        s.tempfsMounted ≠ 1 ∧ e.tmpfs = .ebusy) := by
  unfold protect
  split
  · exact ⟨h, rfl, fun hf => by cases hf⟩
  · by_cases hone : s.tempfsMounted = 1
    · rw [if_pos hone]
      exact ⟨h, rfl, fun _ => .inl (h hone)⟩
    · rw [if_neg hone]
      cases ht : e.tmpfs with
      | error => exact ⟨h, rfl, fun hf => by cases hf⟩
      | ebusy => exact ⟨h, rfl, fun _ => .inr ⟨hone, rfl⟩⟩
      | ok =>
        by_cases hchmod : e.chmod = true
        · simp only [if_pos hchmod]
          exact ⟨fun _ => List.cons_ne_nil _ _, trivial, fun _ => .inl (List.cons_ne_nil _ _)⟩
        · simp only [if_neg hchmod]
          exact ⟨fun hf => absurd hf hone, trivial, fun hf => by cases hf⟩

/-- A directory is made on the tmpfs that is there. -/
theorem mountDevice_spec (e : Add) (dev : Bytes) (s : Usb) :
    (ssMountDevice e dev s).2.tempfsMounted = s.tempfsMounted ∧
      ((ssMountDevice e dev s).2.table.tmpfs = [] ↔ s.table.tmpfs = []) ∧
      ∃ xs, (ssMountDevice e dev s).2.created = s.created ++ xs ∧
        ∀ x ∈ xs, x.2 = !s.table.tmpfs.isEmpty := by
  have hnone : ∃ xs, s.created = s.created ++ xs ∧ ∀ x ∈ xs, x.2 = !s.table.tmpfs.isEmpty :=
    ⟨[], by simp⟩
  unfold ssMountDevice
  split
  · exact ⟨rfl, Iff.rfl, hnone⟩
  · split
    · exact ⟨rfl, Iff.rfl, hnone⟩
    · cases hmk : e.mkdir with
      | made =>
        simp only [if_true]
        split
        · contradiction
        · split
          · exact ⟨rfl, Iff.rfl, _, rfl, by simp⟩
          · exact ⟨rfl, setTop_tmpfs _ _, _, rfl, by simp⟩
      | eexist =>
        simp only [reduceCtorEq, if_false]
        split
        · exact ⟨rfl, Iff.rfl, hnone⟩
        · exact ⟨rfl, setTop_tmpfs _ _, hnone⟩
      | error => exact ⟨rfl, Iff.rfl, hnone⟩

theorem announce_spec (e : Add) (dev : Bytes) (s : Usb) :
    (announce e dev s).2.tempfsMounted = s.tempfsMounted ∧
      (announce e dev s).2.table = s.table ∧ (announce e dev s).2.created = s.created := by
  unfold announce
  split <;> exact ⟨rfl, rfl, rfl⟩

/-- The directory a removal is about. -/
def dirOf (argv : List CPtr) : Bytes :=
  mntPoint (47 :: ((arg argv 0).map fun str => cstr str.bytes).getD [])

/-- The removal unmounts its device. -/
def Detaches (e : Remove) (argc : Int) (argv : List CPtr) (s : Usb) : Prop :=
  (argc = 1 ∧ (arg argv 0).isSome) ∧ e.access = true ∧ e.umount = true ∧
    s.table.top.any (·.dir = dirOf argv)

instance (e : Remove) (argc : Int) (argv : List CPtr) (s : Usb) :
    Decidable (Detaches e argc argv s) :=
  inferInstanceAs (Decidable ((argc = 1 ∧ (arg argv 0).isSome) ∧ e.access = true ∧
    e.umount = true ∧ s.table.top.any (·.dir = dirOf argv)))

/-- The mount table after the device is unmounted. -/
def without (argv : List CPtr) (s : Usb) : Table :=
  s.table.setTop (s.table.top.eraseP (·.dir = dirOf argv))

theorem unmountDevice_eq (e : Remove) (argv : List CPtr) (s : Usb) :
    ssUnmountDevice e (dirOf argv) s =
      if e.access = true ∧ e.umount = true ∧ s.table.top.any (·.dir = dirOf argv) then
        (0, { s with table := without argv s })
      else (-1, s) := by
  unfold ssUnmountDevice Table.umountDir without
  by_cases ha : e.access = true
  · by_cases hd : s.table.top.any (·.dir = dirOf argv) = true ∧ e.umount = true
    · simp only [ha, not_true_eq_false, if_false, hd.1, hd.2, and_self, if_true]
    · have hd' : ¬ (e.access = true ∧ e.umount = true ∧ s.table.top.any (·.dir = dirOf argv) = true) :=
        fun h => hd ⟨h.2.2, h.2.1⟩
      rw [if_neg hd, if_neg hd', if_neg (not_not_intro ha)]
  · rw [if_pos ha, if_neg fun h => ha h.1]

/-- A removal that does not unmount its device does nothing. -/
theorem removed_kept {e : Remove} {argc : Int} {argv : List CPtr} {s : Usb}
    (h : ¬ Detaches e argc argv s) : (ssUsbStorageRemoved e argc argv s).2 = s := by
  unfold ssUsbStorageRemoved
  cases harg : arg argv 0 with
  | none => rfl
  | some str =>
    by_cases hargc : argc = 1
    · have hdir : mntPoint (47 :: cstr str.bytes) = dirOf argv := by simp [dirOf, harg]
      have hd : ¬ (e.access = true ∧ e.umount = true ∧ s.table.top.any (·.dir = dirOf argv)) :=
        fun hd => h ⟨⟨hargc, by simp [harg]⟩, hd⟩
      simp only [hargc, ne_eq, not_true_eq_false, if_false, hdir, unmountDevice_eq, if_neg hd]
      rfl
    · simp only [ne_eq, hargc, not_false_eq_true, if_true]

/-- One that does unmounts MOUNT_POINT as well, if it can, and broadcasts. -/
theorem removed_detached {e : Remove} {argc : Int} {argv : List CPtr} {s : Usb}
    (h : Detaches e argc argv s) :
    (ssUsbStorageRemoved e argc argv s).2 =
      let s' := match (without argv s).umountPoint e.pointUmount with
        | none => { s with table := without argv s }
        | some t => { s with table := t, tempfsMounted := 1 }
      { s' with
        removedNotiValue := nextNoti s.removedNotiValue
        writes := s.writes ++ ⟨.REMOVED, nextNoti s.removedNotiValue, e.vconf⟩ ::
          if e.vconf then [] else [⟨.ADDED, -1, e.vconfReset⟩] } := by
  obtain ⟨⟨hargc, hsome⟩, hd⟩ := h
  obtain ⟨str, harg⟩ := Option.isSome_iff_exists.mp hsome
  have hdir : mntPoint (47 :: cstr str.bytes) = dirOf argv := by simp [dirOf, harg]
  simp only [ssUsbStorageRemoved, harg, hargc, ne_eq, not_true_eq_false, if_false, hdir,
    unmountDevice_eq, if_pos hd, if_true]
  cases (without argv s).umountPoint e.pointUmount <;> rfl

/-- What a removal does to the mount table and the variable: nothing, or it
unmounts its device, or it takes the newest tmpfs away after that. -/
structure Removed (e : Remove) (argc : Int) (argv : List CPtr) (s s' : Usb) : Prop where
  created : s'.created = s.created
  kept : ¬ Detaches e argc argv s → s'.table = s.table ∧ s'.tempfsMounted = s.tempfsMounted
  detached : Detaches e argc argv s → (without argv s).umountPoint e.pointUmount = none →
    s'.table = without argv s ∧ s'.tempfsMounted = s.tempfsMounted
  taken : ∀ t, Detaches e argc argv s → (without argv s).umountPoint e.pointUmount = some t →
    s'.table = t ∧ s'.tempfsMounted = 1

theorem removed_spec (e : Remove) (argc : Int) (argv : List CPtr) (s : Usb) :
    Removed e argc argv s (ssUsbStorageRemoved e argc argv s).2 := by
  by_cases hd : Detaches e argc argv s
  · rw [removed_detached hd]
    cases hp : (without argv s).umountPoint e.pointUmount with
    | none =>
      refine ⟨rfl, fun h => absurd hd h, fun _ _ => ⟨rfl, rfl⟩, fun t _ ht => ?_⟩
      cases hp.symm.trans ht
    | some t =>
      refine ⟨rfl, fun h => absurd hd h, fun _ ht => ?_, fun t' _ ht => ?_⟩
      · cases hp.symm.trans ht
      · obtain rfl := Option.some.inj (hp.symm.trans ht)
        exact ⟨rfl, rfl⟩
  · rw [removed_kept hd]
    exact ⟨rfl, fun _ => ⟨rfl, rfl⟩, fun h => absurd h hd, fun _ h => absurd h hd⟩

/-! ## The tmpfs -/

/-- Mounting the tmpfs is refused with EBUSY in this addition. -/
def Refused (s : Usb) : Lbl → Prop
  | .add e _ _ => s.tempfsMounted ≠ 1 ∧ e.tmpfs = .ebusy
  | .remove _ _ _ => False

/-- The variable is right afterwards, and no directory was made for a device
without the tmpfs, unless that was refused. -/
def Protects (s : Usb) (l : Lbl) (s' : Usb) : Prop :=
  Known s' ∧ ∀ x ∈ s'.created.drop s.created.length, x.2 = true ∨ Refused s l

/-- A removal that unmounts its device and then MOUNT_POINT leaves a tmpfs. -/
def LeavesTmpfs (s : Usb) : Lbl → Prop
  | .add _ _ _ => True
  | .remove e argc argv =>
    Detaches e argc argv s → e.pointUmount = true → s.table.tmpfs.length ≠ 1

instance (s : Usb) : ∀ l, Decidable (LeavesTmpfs s l)
  | .add _ _ _ => .isTrue trivial
  | .remove e argc argv => inferInstanceAs (Decidable
      (Detaches e argc argv s → e.pointUmount = true → s.table.tmpfs.length ≠ 1))

theorem added_protects (e : Add) (argc : Int) (argv : List CPtr) {s : Usb} (h : Known s) :
    Protects s (.add e argc argv) (ssUsbStorageAdded e argc argv s).2 := by
  have hsame : ∀ t : Usb, Known t → t.created = s.created → Protects s (.add e argc argv) t := by
    intro t ht hcreated
    refine ⟨ht, fun x hx => ?_⟩
    rw [hcreated, List.drop_length] at hx
    exact absurd hx List.not_mem_nil
  unfold ssUsbStorageAdded
  cases arg argv 0 with
  | none => exact hsame s h rfl
  | some str =>
    simp only
    split
    · exact hsame s h rfl
    · obtain ⟨hknown, hcreated, htmpfs⟩ := protect_spec e h
      split
      · exact hsame _ hknown hcreated
      · rename_i hgo
        split
        · exact hsame _ hknown hcreated
        · obtain ⟨hvar, htable, xs, hxs, hall⟩ :=
            mountDevice_spec e (cstr str.bytes) (protect e s).2
          obtain ⟨hvar', htable', hcreated'⟩ :=
            announce_spec e (cstr str.bytes) (ssMountDevice e (cstr str.bytes) (protect e s).2).2
          refine ⟨fun hone => ?_, fun x hx => ?_⟩
          · rw [htable', ne_eq, htable]
            exact hknown (by rw [← hvar, ← hvar', hone])
          · rw [hcreated', hxs, hcreated, List.drop_left] at hx
            rcases htmpfs (by simpa using hgo) with hthere | hrefused
            · refine .inl ((hall x hx).trans ?_)
              simpa using hthere
            · exact .inr hrefused

/-- The point is unmounted if there is a tmpfs on it, and the call succeeds. -/
theorem umountPoint_eq_some {t t' : Table} {ok : Bool} :
    t.umountPoint ok = some t' ↔
      ok = true ∧ ∃ top rest, t.tmpfs = top :: rest ∧ t' = { t with tmpfs := rest } := by
  unfold Table.umountPoint
  cases t.tmpfs with
  | nil => simp
  | cons top rest => cases ok <;> simp [eq_comm]

theorem removed_protects_iff (e : Remove) (argc : Int) (argv : List CPtr) {s : Usb} (h : Known s) :
    Protects s (.remove e argc argv) (ssUsbStorageRemoved e argc argv s).2 ↔
      LeavesTmpfs s (.remove e argc argv) := by
  have hspec := removed_spec e argc argv s
  have hnone : ∀ x ∈ (ssUsbStorageRemoved e argc argv s).2.created.drop s.created.length,
      x.2 = true ∨ Refused s (.remove e argc argv) := by
    rw [hspec.created, List.drop_length]
    exact fun x hx => absurd hx List.not_mem_nil
  rw [Protects, and_iff_left hnone]
  by_cases hd : Detaches e argc argv s
  · cases hp : (without argv s).umountPoint e.pointUmount with
    | none =>
      obtain ⟨htable, hvar⟩ := hspec.detached hd hp
      have hknown : Known (ssUsbStorageRemoved e argc argv s).2 := by
        intro hone
        rw [htable, without, ne_eq, setTop_tmpfs]
        exact h (hvar ▸ hone)
      refine iff_of_true hknown fun _ hpoint hlen => ?_
      rw [hpoint, Table.umountPoint] at hp
      split at hp
      · rename_i hnil
        rw [← setTop_length s.table, ← without, hnil] at hlen
        cases hlen
      · cases hp
    | some t =>
      obtain ⟨htable, hvar⟩ := hspec.taken t hd hp
      obtain ⟨hpoint, top, rest, htmpfs, rfl⟩ := umountPoint_eq_some.mp hp
      have hlen : s.table.tmpfs.length = rest.length + 1 := by
        rw [← setTop_length s.table, ← without, htmpfs, List.length_cons]
      rw [Known, hvar, htable, LeavesTmpfs, hlen]
      simp [hd, hpoint]
  · obtain ⟨htable, hvar⟩ := hspec.kept hd
    refine iff_of_true ?_ fun hdet => absurd hdet hd
    rw [Known, htable, hvar]
    exact h

theorem protects_iff {s s' : Usb} {l : Lbl} (h : Known s) (hst : step s l = some s') :
    Protects s l s' ↔ LeavesTmpfs s l := by
  obtain ⟨-, hst⟩ := Option.ite_none_right_eq_some.mp hst
  cases l with
  | add e argc argv =>
    obtain rfl := Option.some.inj hst
    exact iff_of_true (added_protects e argc argv h) trivial
  | remove e argc argv =>
    obtain rfl := Option.some.inj hst
    exact removed_protects_iff e argc argv h

theorem along_protects_iff {s : Usb} (h : Known s) (ls : List Lbl) :
    lts.Along Protects s ls ↔ lts.Meets LeavesTmpfs s ls := by
  have hok : ∀ s l s', Known s → lts.step s l = some s' →
      (Protects s l s' ↔ LeavesTmpfs s l) := fun _ _ _ hs hst => protects_iff hs hst
  exact LTS.along_iff hok (fun s l s' hs hl hst => ((hok s l s' hs hst).mpr hl).1) h ls

/-- **The protective tmpfs.** In every run `tempfs_mounted` is right in every
state, and no directory is made for a device without the tmpfs unless EBUSY
refused it in that call, if and only if no removal takes the last tmpfs away. -/
theorem tmpfs_iff (s₀ : Usb) (h₀ : lts.init s₀) (ls : List Lbl) :
    lts.Along Protects s₀ ls ↔ lts.Meets LeavesTmpfs s₀ ls := by
  obtain ⟨table, rfl⟩ := h₀
  exact along_protects_iff (fun hone => absurd hone (by simp [boot])) ls

/-- Everything goes well; the mount table lists what was asked for. -/
def fine (dev : Bytes) : Lbl :=
  .add ⟨true, true, .ok, true, true, true, .made, true, [dev], true, true⟩ 1 [some ⟨0, dev⟩]

def unplug (pointUmount : Bool) (name : Bytes) : Lbl :=
  .remove ⟨true, true, pointUmount, true, true⟩ 1 [some ⟨0, name⟩]

def empty : Usb := boot ⟨[], []⟩

/-- MOUNT_POINT stays busy. -/
theorem tmpfs_busy :
    (lts.run empty [fine (lit "/dev/sda"), unplug false (lit "sda"), fine (lit "/dev/sda")]).isSome ∧
      lts.Along Protects empty
        [fine (lit "/dev/sda"), unplug false (lit "sda"), fine (lit "/dev/sda")] :=
  ⟨by decide, (tmpfs_iff empty ⟨_, rfl⟩ _).mpr (by decide)⟩

/-- In, out and in again: the second time there is no tmpfs. -/
theorem tmpfs_gone :
    ((lts.run empty [fine (lit "/dev/sda"), unplug true (lit "sda"), fine (lit "/dev/sda")]).map
        fun s => (s.tempfsMounted, s.table.tmpfs, s.created)) =
      some (1, [], [(mntPoint (lit "/sda"), true), (mntPoint (lit "/sda"), false)]) ∧
    ¬ lts.Along Protects empty
        [fine (lit "/dev/sda"), unplug true (lit "sda"), fine (lit "/dev/sda")] := by
  refine ⟨by decide, fun h => ?_⟩
  exact absurd ((along_protects_iff (by decide) _).mp h) (by decide)

/-! ## The other devices -/

/-- A device other than that of the removal stays mounted on its directory. -/
def Stays (s : Usb) : Lbl → Usb → Prop
  | .add _ _ _, _ => True
  | .remove _ _ argv, s' => ∀ m ∈ s.table.all, m.dir ≠ dirOf argv → m ∈ s'.table.all

instance (s : Usb) : ∀ l s', Decidable (Stays s l s')
  | .add _ _ _, _ => .isTrue trivial
  | .remove _ _ argv, s' => inferInstanceAs (Decidable
      (∀ m ∈ s.table.all, m.dir ≠ dirOf argv → m ∈ s'.table.all))

/-- What is mounted on the newest tmpfs on other directories than `dir` is
mounted there below it as well. -/
def Table.Spares (t : Table) (dir : Bytes) : Prop :=
  ∀ m ∈ t.tmpfs.headD [], m.dir ≠ dir → m ∈ t.tmpfs.tail.flatten ++ t.base

instance (t : Table) (dir : Bytes) : Decidable (t.Spares dir) :=
  inferInstanceAs (Decidable
    (∀ m ∈ t.tmpfs.headD [], m.dir ≠ dir → m ∈ t.tmpfs.tail.flatten ++ t.base))

/-- A removal that unmounts its device and then MOUNT_POINT finds no other
device that is mounted on the newest tmpfs only. -/
def Alone (s : Usb) : Lbl → Prop
  | .add _ _ _ => True
  | .remove e argc argv =>
    Detaches e argc argv s → e.pointUmount = true → s.table.Spares (dirOf argv)

instance (s : Usb) : ∀ l, Decidable (Alone s l)
  | .add _ _ _ => .isTrue trivial
  | .remove e argc argv => inferInstanceAs (Decidable
      (Detaches e argc argv s → e.pointUmount = true → s.table.Spares (dirOf argv)))

/-- Unmounting a device leaves the others. -/
theorem mem_without {argv : List CPtr} {s : Usb} {m : Mount} (hm : m ∈ s.table.all)
    (hdir : m.dir ≠ dirOf argv) : m ∈ (without argv s).all :=
  mem_all_setTop (fun ht => (List.mem_eraseP_of_neg (by simpa using hdir)).mpr ht) hm

theorem stays_removed_iff (e : Remove) (argc : Int) (argv : List CPtr) (s : Usb) :
    Stays s (.remove e argc argv) (ssUsbStorageRemoved e argc argv s).2 ↔
      Alone s (.remove e argc argv) := by
  have hspec := removed_spec e argc argv s
  by_cases hd : Detaches e argc argv s
  · cases hp : (without argv s).umountPoint e.pointUmount with
    | none =>
      refine iff_of_true (fun m hm hdir => ?_) fun _ hpoint => ?_
      · rw [(hspec.detached hd hp).1]
        exact mem_without hm hdir
      · have hnil : s.table.tmpfs = [] := by
          rw [hpoint, Table.umountPoint] at hp
          split at hp
          · rename_i hnil
            exact (setTop_tmpfs _ _).mp hnil
          · cases hp
        intro m hm
        rw [hnil] at hm
        exact absurd hm List.not_mem_nil
    | some t =>
      obtain ⟨hpoint, top, rest, htmpfs, rfl⟩ := umountPoint_eq_some.mp hp
      obtain ⟨top₀, htmpfs₀, hbase⟩ : ∃ top₀, s.table.tmpfs = top₀ :: rest ∧
          (without argv s).base = s.table.base := by
        unfold without Table.setTop at htmpfs ⊢
        cases ht : s.table.tmpfs with
        | nil => simp [ht] at htmpfs
        | cons top₀ rest₀ =>
          simp only [ht, List.cons.injEq] at htmpfs
          exact ⟨top₀, by rw [htmpfs.2], rfl⟩
      simp only [Stays, Alone, (hspec.taken _ hd hp).1, Table.all, Table.Spares, htmpfs₀, hbase,
        List.headD_cons, List.tail_cons, List.flatten_cons, List.append_assoc]
      constructor
      · exact fun h _ _ m hm hdir => h m (List.mem_append_left _ hm) hdir
      · intro h m hm hdir
        rcases List.mem_append.mp hm with htop | hbelow
        · exact h hd hpoint m htop hdir
        · exact hbelow
  · refine iff_of_true (fun m hm _ => ?_) fun hdet => absurd hdet hd
    rw [(hspec.kept hd).1]
    exact hm

theorem stays_iff {s s' : Usb} {l : Lbl} (hst : step s l = some s') : Stays s l s' ↔ Alone s l := by
  obtain ⟨-, hst⟩ := Option.ite_none_right_eq_some.mp hst
  cases l with
  | add e argc argv => exact Iff.rfl
  | remove e argc argv =>
    obtain rfl := Option.some.inj hst
    exact stays_removed_iff e argc argv s

/-- **The other devices.** In every run every removal leaves all other devices
mounted on their directories if and only if none takes away a tmpfs on which
another one is mounted, and only there. -/
theorem others_iff (s₀ : Usb) (ls : List Lbl) :
    lts.Along Stays s₀ ls ↔ lts.Meets Alone s₀ ls := by
  have hok : ∀ s l s', True → lts.step s l = some s' → (Stays s l s' ↔ Alone s l) :=
    fun _ _ _ _ hst => stays_iff hst
  exact LTS.along_iff hok (fun _ _ _ _ _ _ => trivial) trivial ls

/-- Two sticks, and one is removed. -/
theorem others_gone :
    ((lts.run empty [fine (lit "/dev/sda"), fine (lit "/dev/sdb"), unplug true (lit "sda")]).map
        fun s => s.table.all) = some [] ∧
    ¬ lts.Along Stays empty
        [fine (lit "/dev/sda"), fine (lit "/dev/sdb"), unplug true (lit "sda")] := by
  exact ⟨by decide, by decide⟩

/-! ## What is announced -/

/-- The addition is about `dev` and gets as far as mounting it. -/
structure Reaches (e : Add) (argc : Int) (argv : List CPtr) (s : Usb) (dev : Bytes) : Prop where
  argc : argc = 1
  argv : ∃ str, arg argv 0 = some str ∧ cstr str.bytes = dev
  protect : (protect e s).1 = true
  slash : strrchrSlash dev ≠ none

/-- It returns 0, having set the key to the next value. -/
def Announced (e : Add) (argc : Int) (argv : List CPtr) (s : Usb) : Prop :=
  (ssUsbStorageAdded e argc argv s).1 = 0 ∧
    ⟨.ADDED, nextNoti s.addedNotiValue, e.vconf⟩ ∈
      (ssUsbStorageAdded e argc argv s).2.writes.drop s.writes.length

/-- Every string occurs in itself. -/
theorem strstr_self (dev : Bytes) : strstr dev dev = true := by
  refine List.any_eq_true.mpr ⟨dev, ?_, by simp⟩
  cases dev with
  | nil => exact List.mem_cons_self
  | cons c dev => exact List.mem_cons_self

theorem protect_writes (e : Add) (s : Usb) :
    (protect e s).2.writes = s.writes ∧ (protect e s).2.addedNotiValue = s.addedNotiValue ∧
      (protect e s).2.removedNotiValue = s.removedNotiValue := by
  unfold protect
  split
  · exact ⟨rfl, rfl, rfl⟩
  · split
    · exact ⟨rfl, rfl, rfl⟩
    · split
      · exact ⟨rfl, rfl, rfl⟩
      · exact ⟨rfl, rfl, rfl⟩
      · simp only
        split
        · exact ⟨rfl, rfl, rfl⟩
        · exact ⟨rfl, rfl, rfl⟩

theorem mountDevice_writes (e : Add) (dev : Bytes) (s : Usb) :
    (ssMountDevice e dev s).2.writes = s.writes ∧
      (ssMountDevice e dev s).2.addedNotiValue = s.addedNotiValue ∧
      (ssMountDevice e dev s).2.removedNotiValue = s.removedNotiValue := by
  unfold ssMountDevice
  split
  · exact ⟨rfl, rfl, rfl⟩
  · split
    · exact ⟨rfl, rfl, rfl⟩
    · cases e.mkdir <;> cases e.mount <;> exact ⟨rfl, rfl, rfl⟩

/-- The outcome of the mount plays no part. -/
theorem announced_strstr {e : Add} {argc : Int} {argv : List CPtr} {s : Usb} {dev : Bytes}
    (h : Reaches e argc argv s dev) :
    Announced e argc argv s ↔ ∃ name ∈ e.mtab, strstr name dev = true := by
  obtain ⟨str, harg, hdev⟩ := h.argv
  obtain ⟨hwrites, hvalue, -⟩ := protect_writes e s
  obtain ⟨hwrites', hvalue', -⟩ := mountDevice_writes e dev (protect e s).2
  have hadded : ssUsbStorageAdded e argc argv s =
      announce e dev (ssMountDevice e dev (protect e s).2).2 := by
    simp only [ssUsbStorageAdded, harg, hdev, h.argc, h.protect, h.slash, ne_eq, not_true_eq_false,
      if_false]
  rw [Announced, hadded, announce, hwrites', hvalue', hwrites, hvalue]
  by_cases hany : e.mtab.any (strstr · dev)
  · rw [if_pos hany]
    refine iff_of_true ⟨rfl, ?_⟩ (List.any_eq_true.mp hany)
    rw [List.drop_left]
    exact List.mem_cons_self
  · rw [if_neg hany]
    refine iff_of_false (fun hret => absurd hret.1 (by simp)) fun hex => ?_
    exact hany (List.any_eq_true.mpr hex)

/-- **Only what is mounted is announced.** An addition that gets as far as
mounting its device returns 0 and sets the key exactly when the device is in
the mount table, if and only if the table has no name in which the device
occurs, or the device itself. -/
theorem announced_iff (e : Add) (argc : Int) (argv : List CPtr) (s : Usb) (dev : Bytes)
    (h : Reaches e argc argv s dev) :
    (Announced e argc argv s ↔ dev ∈ e.mtab) ↔
      ((∃ name ∈ e.mtab, strstr name dev = true) → dev ∈ e.mtab) := by
  rw [announced_strstr h]
  exact ⟨fun hiff => hiff.mp, fun himp => ⟨himp, fun hmem => ⟨dev, hmem, strstr_self dev⟩⟩⟩

/-- An addition whose mount fails, with the given mount table. -/
def unmounted (mtab : List Bytes) : Add :=
  ⟨true, true, .ok, true, true, true, .made, false, mtab, true, true⟩

theorem reaches_sda (mtab : List Bytes) :
    Reaches (unmounted mtab) 1 [some ⟨0, lit "/dev/sda"⟩] empty (lit "/dev/sda") where
  argc := rfl
  argv := ⟨_, rfl, by decide⟩
  protect := rfl
  slash := by decide

theorem announced_other :
    Announced (unmounted [lit "/dev/sdb1"]) 1 [some ⟨0, lit "/dev/sda"⟩] empty ↔
      lit "/dev/sda" ∈ [lit "/dev/sdb1"] :=
  (announced_iff _ 1 _ empty _ (reaches_sda [lit "/dev/sdb1"])).mpr (by decide)

/-- The disk is announced for its partition. -/
theorem announced_partition :
    ¬ (Announced (unmounted [lit "/dev/sda1"]) 1 [some ⟨0, lit "/dev/sda"⟩] empty ↔
      lit "/dev/sda" ∈ [lit "/dev/sda1"]) := by
  rw [announced_strstr (reaches_sda [lit "/dev/sda1"])]
  exact fun h => absurd (h.mp ⟨_, List.mem_singleton.mpr rfl, by decide⟩) (by decide)

end SystemServer.L4.UsbStorage
