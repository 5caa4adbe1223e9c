import SystemServer.L4Device.UsbStorage

/-!
# The keys of USB storage (`ss_usb_storage_handler.c`)

An addition is broadcast on one key and a removal on another, with a counter
each that goes from INT_MAX to 1, so that every broadcast changes its key. A
broadcast that fails resets a key to -1: the addition its own, but the removal
that of the additions.

* `counted_step`: the values of the broadcasts on a key are those of its
  counter, one after the other, whatever fails.
* `keys_iff`: in every run both actions touch their own key only, and every
  successful broadcast is positive and differs from those shortly before it,
  if and only if every removal that unmounts its device is broadcast.

Here an action gets any string, and what is mounted may change between two
actions, so that the calls have every outcome.
-/
namespace SystemServer.L4.StorageKeys

open SystemServer.L4.UsbStorage (Usb Key Write Table Add Remove Detaches boot nextNoti
  ssUsbStorageAdded ssUsbStorageRemoved removed_kept)

/-! ## Runs -/

inductive Lbl where
  | add (e : Add) (argc : Int) (argv : List CPtr)
  | remove (e : Remove) (argc : Int) (argv : List CPtr)
  | mounts (table : Table)

def step (s : Usb) : Lbl → Option Usb
  | .add e argc argv => some (ssUsbStorageAdded e argc argv s).2
  | .remove e argc argv => some (ssUsbStorageRemoved e argc argv s).2
  | .mounts table => some { s with table := table }

def lts : LTS Usb Lbl := ⟨fun s => ∃ table, s = boot table, step⟩

/-- The runs of devices that have a name are among these. -/
theorem reachable_of_named {s : Usb} (h : UsbStorage.lts.Reachable s) : lts.Reachable s := by
  refine LTS.Reachable.map (T := UsbStorage.lts) (U := lts) id (fun _ hs => hs)
    (fun s l s' _ hst => .inr ?_) h
  obtain ⟨-, hst⟩ := Option.ite_none_right_eq_some.mp hst
  cases l with
  | add e argc argv => exact ⟨.add e argc argv, hst⟩
  | remove e argc argv => exact ⟨.remove e argc argv, hst⟩

/-! ## What the actions write -/

/-- A broadcast, and the reset where it fails. -/
def said (k : Key) (value : Int) (ok : Bool) (reset : Key) (resetOk : Bool) : List Write :=
  ⟨k, value, ok⟩ :: if ok then [] else [⟨reset, -1, resetOk⟩]

/-- An addition writes nothing, or the next value to its key. -/
theorem added_writes (e : Add) (argc : Int) (argv : List CPtr) (s : Usb) :
    let s' := (ssUsbStorageAdded e argc argv s).2
    s'.removedNotiValue = s.removedNotiValue ∧
      (s'.addedNotiValue = s.addedNotiValue ∧ s'.writes = s.writes ∨
        s'.addedNotiValue = nextNoti s.addedNotiValue ∧ s'.writes = s.writes ++
          said .ADDED (nextNoti s.addedNotiValue) e.vconf .ADDED e.vconfReset) := by
  obtain ⟨hw, ha, hr⟩ := UsbStorage.protect_writes e s
  unfold ssUsbStorageAdded
  cases arg argv 0 with
  | none => exact ⟨rfl, .inl ⟨rfl, rfl⟩⟩
  | some str =>
    simp only
    split
    · exact ⟨rfl, .inl ⟨rfl, rfl⟩⟩
    · split
      · exact ⟨hr, .inl ⟨ha, hw⟩⟩
      · split
        · exact ⟨hr, .inl ⟨ha, hw⟩⟩
        · obtain ⟨hw', ha', hr'⟩ :=
            UsbStorage.mountDevice_writes e (cstr str.bytes) (UsbStorage.protect e s).2
          rw [hw] at hw'
          rw [ha] at ha'
          rw [hr] at hr'
          unfold UsbStorage.announce
          split
          · simp only [hw', ha', hr', said]
            exact ⟨trivial, .inr ⟨trivial, trivial⟩⟩
          · exact ⟨hr', .inl ⟨ha', hw'⟩⟩

/-- A removal that unmounts its device writes the next value to its key. -/
theorem removed_writes {e : Remove} {argc : Int} {argv : List CPtr} {s : Usb}
    (h : Detaches e argc argv s) :
    let s' := (ssUsbStorageRemoved e argc argv s).2
    s'.addedNotiValue = s.addedNotiValue ∧
      s'.removedNotiValue = nextNoti s.removedNotiValue ∧ s'.writes = s.writes ++
        said .REMOVED (nextNoti s.removedNotiValue) e.vconf .ADDED e.vconfReset := by
  rw [UsbStorage.removed_detached h]
  cases (UsbStorage.without argv s).umountPoint e.pointUmount <;> exact ⟨rfl, rfl, rfl⟩

/-! ## The counters -/

/-- The broadcasts on a key; -1 is a reset. -/
def broadcasts (k : Key) (ws : List Write) : List Write :=
  ws.filter fun w => w.key = k ∧ w.value ≠ -1

theorem broadcasts_append (k : Key) (ws ws' : List Write) :
    broadcasts k (ws ++ ws') = broadcasts k ws ++ broadcasts k ws' :=
  List.filter_append ..

theorem broadcasts_said {v : Int} (hv : v ≠ -1) (k : Key) (ok : Bool) (r : Key) (rok : Bool) :
    broadcasts k (said k v ok r rok) = [⟨k, v, ok⟩] := by
  cases ok <;> simp [broadcasts, said, hv]

theorem broadcasts_said_other {k k' : Key} (h : k ≠ k') (v : Int) (ok : Bool) (r : Key)
    (rok : Bool) : broadcasts k' (said k v ok r rok) = [] := by
  cases ok <;> simp [broadcasts, said, h]

/-- The counter after `n + 1` broadcasts. -/
theorem nextNoti_iterate (n : Nat) : nextNoti^[n + 1] 0 = n % INT_MAX + 1 := by
  induction n with
  | zero => decide
  | succ n ih =>
    rw [Function.iterate_succ_apply', ih]
    unfold UsbStorage.nextNoti INT_MAX
    split <;> omega

theorem nextNoti_pos (n : Nat) : 0 < nextNoti^[n + 1] 0 := by
  rw [nextNoti_iterate]
  unfold INT_MAX
  omega

/-- Less than a round apart, the values differ. -/
theorem nextNoti_ne {i j : Nat} (hlt : j < i) (hround : (i : Int) < j + INT_MAX) :
    nextNoti^[j + 1] 0 ≠ nextNoti^[i + 1] 0 := by
  rw [nextNoti_iterate, nextNoti_iterate]
  unfold INT_MAX at *
  omega

/-- The counter of a key is where its broadcasts have got to, and each of them
has the value the counter had. -/
structure Counted (k : Key) (value : Int) (ws : List Write) : Prop where
  counter : value = nextNoti^[(broadcasts k ws).length] 0
  values : ∀ i w, (broadcasts k ws)[i]? = some w → w.value = nextNoti^[i + 1] 0

/-- What is written to the other key does not count. -/
theorem Counted.other {k : Key} {v : Int} {ws ws' : List Write} (h : Counted k v ws)
    (hws : broadcasts k ws' = []) : Counted k v (ws ++ ws') := by
  have hsame : broadcasts k (ws ++ ws') = broadcasts k ws := by
    rw [broadcasts_append, hws, List.append_nil]
  exact ⟨hsame ▸ h.counter, hsame ▸ h.values⟩

theorem Counted.said {k : Key} {v : Int} {ws : List Write} (h : Counted k v ws) (ok : Bool) (r : Key)
    (rok : Bool) : Counted k (nextNoti v) (ws ++ said k (nextNoti v) ok r rok) := by
  have hnext : nextNoti v = nextNoti^[(broadcasts k ws).length + 1] 0 := by
    rw [Function.iterate_succ_apply', ← h.counter]
  have hpos := nextNoti_pos (broadcasts k ws).length
  rw [← hnext] at hpos
  have happend : broadcasts k (ws ++ StorageKeys.said k (nextNoti v) ok r rok) =
      broadcasts k ws ++ [⟨k, nextNoti v, ok⟩] := by
    rw [broadcasts_append, broadcasts_said (by omega)]
  refine ⟨?_, fun i w hw => ?_⟩
  · rw [happend, List.length_append, List.length_singleton, hnext]
  · rw [happend] at hw
    rcases Nat.lt_or_ge i (broadcasts k ws).length with hi | hi
    · rw [List.getElem?_append_left hi] at hw
      exact h.values i w hw
    · rw [List.getElem?_append_right hi] at hw
      obtain ⟨hzero, hwv⟩ := List.getElem?_eq_some_iff.mp hw
      have hlen : i = (broadcasts k ws).length := by
        rw [List.length_singleton] at hzero
        omega
      rw [List.getElem_singleton] at hwv
      rw [← hwv, hlen, ← hnext]

structure CountedBoth (s : Usb) : Prop where
  added : Counted .ADDED s.addedNotiValue s.writes
  removed : Counted .REMOVED s.removedNotiValue s.writes

theorem countedBoth_boot (table : Table) : CountedBoth (boot table) :=
  ⟨⟨rfl, fun _ _ h => by simp [boot, broadcasts] at h⟩,
    ⟨rfl, fun _ _ h => by simp [boot, broadcasts] at h⟩⟩

/-- **The counters** go on with every broadcast, and with nothing else. -/
theorem counted_step {s s' : Usb} {l : Lbl} (h : CountedBoth s) (hst : step s l = some s') :
    CountedBoth s' := by
  cases l with
  | add e argc argv =>
    obtain rfl := Option.some.inj hst
    obtain ⟨hr, ⟨ha, hw⟩ | ⟨ha, hw⟩⟩ := added_writes e argc argv s
    · exact ⟨by rw [ha, hw]; exact h.added, by rw [hr, hw]; exact h.removed⟩
    · refine ⟨?_, ?_⟩
      · rw [ha, hw]
        exact h.added.said ..
      · rw [hr, hw]
        exact h.removed.other (broadcasts_said_other (by decide) ..)
  | remove e argc argv =>
    obtain rfl := Option.some.inj hst
    by_cases hd : Detaches e argc argv s
    · obtain ⟨ha, hr, hw⟩ := removed_writes hd
      refine ⟨?_, ?_⟩
      · rw [ha, hw]
        exact h.added.other (broadcasts_said_other (by decide) ..)
      · rw [hr, hw]
        exact h.removed.said ..
    · rw [removed_kept hd]
      exact h
  | mounts table =>
    obtain rfl := Option.some.inj hst
    exact ⟨h.added, h.removed⟩

/-! ## Its own key -/

/-- All that is written in between is to one key. -/
def WritesOnly (k : Key) (s s' : Usb) : Prop :=
  ∃ ws, s'.writes = s.writes ++ ws ∧ ∀ w ∈ ws, w.key = k

/-- An action writes to its own key only. -/
def OwnKey (s : Usb) : Lbl → Usb → Prop
  | .add _ _ _, s' => WritesOnly .ADDED s s'
  | .remove _ _ _, s' => WritesOnly .REMOVED s s'
  | .mounts _, s' => s'.writes = s.writes

/-- A successful broadcast is positive, and its value is not that of any of the
INT_MAX - 1 broadcasts before it. -/
def Fresh (ws : List Write) : Prop :=
  ∀ (k : Key) (i : Nat) (w : Write), (broadcasts k ws)[i]? = some w → w.ok = true →
    0 < w.value ∧ ∀ (j : Nat) (w' : Write), j < i → (i : Int) < j + INT_MAX →
      (broadcasts k ws)[j]? = some w' → w'.value ≠ w.value

def Right (s : Usb) (l : Lbl) (s' : Usb) : Prop := OwnKey s l s' ∧ Fresh s'.writes

/-- A removal that unmounts its device is broadcast. -/
def Heard (s : Usb) : Lbl → Prop
  | .add _ _ _ => True
  | .remove e argc argv => Detaches e argc argv s → e.vconf = true
  | .mounts _ => True

instance (s : Usb) : ∀ l, Decidable (Heard s l)
  | .add _ _ _ => .isTrue trivial
  | .remove e argc argv => inferInstanceAs (Decidable (Detaches e argc argv s → e.vconf = true))
  | .mounts _ => .isTrue trivial

theorem CountedBoth.fresh {s : Usb} (h : CountedBoth s) : Fresh s.writes := by
  have hkey : ∀ k, ∃ v, Counted k v s.writes := by
    intro k
    cases k with
    | ADDED => exact ⟨_, h.added⟩
    | REMOVED => exact ⟨_, h.removed⟩
  intro k i w hw _
  obtain ⟨v, hc⟩ := hkey k
  rw [hc.values i w hw]
  refine ⟨nextNoti_pos i, fun j w' hlt hround hw' => ?_⟩
  rw [hc.values j w' hw']
  exact nextNoti_ne hlt hround

theorem writesOnly_iff {k : Key} {s s' : Usb} {ws : List Write} (h : s'.writes = s.writes ++ ws) :
    WritesOnly k s s' ↔ ∀ w ∈ ws, w.key = k := by
  constructor
  · intro ⟨ws', h', hown⟩
    rw [h] at h'
    exact List.append_cancel_left h' ▸ hown
  · exact fun hown => ⟨ws, h, hown⟩

theorem writesOnly_same {k : Key} {s s' : Usb} (h : s'.writes = s.writes) : WritesOnly k s s' :=
  (writesOnly_iff (by rw [h, List.append_nil])).mpr fun _ hw => absurd hw List.not_mem_nil

/-- A broadcast keeps to its key if it succeeds, or resets that key. -/
theorem said_key_iff {k r : Key} {v : Int} {ok rok : Bool} :
    (∀ w ∈ said k v ok r rok, w.key = k) ↔ ok = true ∨ r = k := by
  cases ok <;> simp [said]

theorem ownKey_added (e : Add) (argc : Int) (argv : List CPtr) (s : Usb) :
    OwnKey s (.add e argc argv) (ssUsbStorageAdded e argc argv s).2 := by
  obtain ⟨-, ⟨-, hw⟩ | ⟨-, hw⟩⟩ := added_writes e argc argv s
  · exact writesOnly_same hw
  · exact (writesOnly_iff hw).mpr (said_key_iff.mpr (.inr rfl))

theorem ownKey_removed_iff (e : Remove) (argc : Int) (argv : List CPtr) (s : Usb) :
    OwnKey s (.remove e argc argv) (ssUsbStorageRemoved e argc argv s).2 ↔
      Heard s (.remove e argc argv) := by
  by_cases hd : Detaches e argc argv s
  · obtain ⟨-, -, hw⟩ := removed_writes hd
    have hown : OwnKey s (.remove e argc argv) (ssUsbStorageRemoved e argc argv s).2 ↔
        e.vconf = true ∨ Key.ADDED = .REMOVED := (writesOnly_iff hw).trans said_key_iff
    rw [hown, Heard]
    simp [hd]
  · rw [removed_kept hd]
    exact iff_of_true (writesOnly_same rfl) fun hdet => absurd hdet hd

theorem right_iff {s s' : Usb} {l : Lbl} (h : CountedBoth s) (hst : step s l = some s') :
    Right s l s' ↔ Heard s l := by
  rw [Right, and_iff_left (counted_step h hst).fresh]
  cases l with
  | add e argc argv =>
    obtain rfl := Option.some.inj hst
    exact iff_of_true (ownKey_added e argc argv s) trivial
  | remove e argc argv =>
    obtain rfl := Option.some.inj hst
    exact ownKey_removed_iff e argc argv s
  | mounts table =>
    obtain rfl := Option.some.inj hst
    exact iff_of_true rfl trivial

/-- **To each action its key.** In every run additions and removals write to
their own key only, and every successful broadcast is positive and differs
from those of the round before it, if and only if every removal that unmounts
its device is broadcast. -/
theorem keys_iff (s₀ : Usb) (h₀ : lts.init s₀) (ls : List Lbl) :
    lts.Along Right s₀ ls ↔ lts.Meets Heard s₀ ls := by
  have hok : ∀ s l s', CountedBoth s → lts.step s l = some s' → (Right s l s' ↔ Heard s l) :=
    fun _ _ _ hs hst => right_iff hs hst
  have hcount : lts.Guarded Heard CountedBoth := fun _ _ _ hs _ hst => counted_step hs hst
  obtain ⟨table, rfl⟩ := h₀
  exact LTS.along_iff hok hcount (countedBoth_boot table) ls

/-- Plugged in, and what the broadcast comes to. -/
def plug (vconf : Bool) : Lbl :=
  .add ⟨true, true, .ok, true, true, true, .made, true, [lit "/dev/sda"], vconf, true⟩ 1
    [some ⟨0, lit "/dev/sda"⟩]

def unplug (vconf : Bool) : Lbl :=
  .remove ⟨true, true, false, vconf, true⟩ 1 [some ⟨0, lit "sda"⟩]

/-- An addition that is not broadcast resets its own key. -/
theorem keys_unheard :
    (lts.run UsbStorage.empty [plug false, unplug true, plug true]).map (·.writes) =
      some [⟨.ADDED, 1, false⟩, ⟨.ADDED, -1, true⟩, ⟨.REMOVED, 1, true⟩, ⟨.ADDED, 2, true⟩] ∧
    lts.Along Right UsbStorage.empty [plug false, unplug true, plug true] :=
  ⟨by decide, (keys_iff UsbStorage.empty ⟨_, rfl⟩ _).mpr (by decide)⟩

/-- A removal that is not broadcast resets the key of the additions. -/
theorem keys_slip : (lts.run UsbStorage.empty [plug true, unplug false]).map (·.writes) =
      some [⟨.ADDED, 1, true⟩, ⟨.REMOVED, 1, false⟩, ⟨.ADDED, -1, true⟩] ∧
    ¬ lts.Along Right UsbStorage.empty [plug true, unplug false] := by
  refine ⟨by decide, fun h => ?_⟩
  have hown := ((h _ rfl).2 _ rfl).1.1
  exact absurd ((ownKey_removed_iff ..).mp hown) (by decide)

end SystemServer.L4.StorageKeys
