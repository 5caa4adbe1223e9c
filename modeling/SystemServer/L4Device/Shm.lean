import Mathlib.Data.List.AList
import SystemServer.Core.LTS

/-!
# What the shared-memory sweep takes (`ss_lowmem_handler.c`)

`remove_shm` goes over the kernel's table of shared-memory segments, up to the
highest index in use when it starts, and removes those that nobody has
attached. To look (SHM_STAT) and to remove (IPC_RMID) are two system calls, and
between any two of its calls other processes create, attach, detach and
remove segments. A segment that is removed while it is attached is only marked,
and goes with its last detach.

* `swept_iff`: from any moment of a pass on, a segment is there and unmarked at
  the end exactly when no look of the pass finds it unattached. One that is
  ahead of the pass, unattached and not attached by anybody is gone at the end.

So whoever has made a segment and not yet attached it can lose it to the pass,
and one who attaches it between the look and the removal has it marked.
In `LowMem` the pass is one effect.
-/
namespace SystemServer.L4.Shm

/-! ## The kernel's table -/

/-- How many have a segment attached, and whether it goes with the last detach. -/
structure Att where
  nattch : Nat
  dest : Bool
  deriving DecidableEq, Repr

structure Seg where
  shmid : Nat
  att : Att
  deriving DecidableEq, Repr

/-- The segments by their index. -/
abbrev Table := AList fun _ : Nat => Seg

/-- An identifier carries its index. -/
def index (shmid : Nat) : Nat := shmid % 32768

/-- SHM_STAT takes an index. -/
def shmStat (t : Table) (id : Nat) : Option Seg := t.lookup id

/-- SHM_INFO: the highest index in use, 0 if there is none. -/
def maxIndex (t : Table) : Nat := t.keys.foldr max 0

/-- A segment, by its identifier. -/
def att (t : Table) (shmid : Nat) : Option Att :=
  ((t.lookup (index shmid)).filter fun g => g.shmid = shmid).map Seg.att

/-- What a call does to a segment; nothing is left of it at `none`. -/
def update (t : Table) (shmid : Nat) (f : Att → Option Att) : Table :=
  match att t shmid with
  | none => t
  | some a =>
    match f a with
    | none => t.erase (index shmid)
    | some a' => t.insert (index shmid) ⟨shmid, a'⟩

/-- IPC_RMID -/
def rmid (a : Att) : Option Att := if a.nattch = 0 then none else some { a with dest := true }

def shmat (a : Att) : Option Att := some { a with nattch := a.nattch + 1 }

def shmdt (a : Att) : Option Att :=
  if a.nattch = 1 ∧ a.dest = true then none else some { a with nattch := a.nattch - 1 }

/-! ## The source -/

/-- Where `remove_shm` is: before SHM_INFO, before it looks at `id`, before it
removes what it found there, at its end. -/
inductive Pc where
  | info
  | look (id maxid : Nat)
  | take (id maxid shmid : Nat)
  | done (ret : Int)
  deriving DecidableEq, Repr

/-- The next turn of the loop.
mirrors ss_lowmem_handler.c:87 -/
def next (id maxid : Nat) : Pc := if id + 1 ≤ maxid then .look (id + 1) maxid else .done 0

/-- What comes of a look.
mirrors ss_lowmem_handler.c:88-94 -/
def looked (id maxid : Nat) : Option Seg → Pc
  | none => next id maxid
  | some g => if g.att.nattch = 0 then .take id maxid g.shmid else next id maxid

structure St where
  pc : Pc
  table : Table

/-- The calls of the pass, and those of other processes. -/
inductive Lbl where
  | info (ok : Bool)
  | stat
  | rmid
  | shmget (shmid : Nat)
  | shmat (shmid : Nat)
  | shmdt (shmid : Nat)
  | remove (shmid : Nat)
  deriving DecidableEq, Repr

/-- mirrors ss_lowmem_handler.c:75-98 -/
def step (s : St) : Lbl → Option St
  | .info ok =>
    match s.pc with
    | .info => some { s with pc := if ok then .look 0 (maxIndex s.table) else .done (-1) }
    | _ => none
  | .stat =>
    match s.pc with
    | .look id maxid => some { s with pc := looked id maxid (shmStat s.table id) }
    | _ => none
  | .rmid =>
    match s.pc with
    | .take id maxid shmid => some ⟨next id maxid, update s.table shmid Shm.rmid⟩
    | _ => none
  | .shmget shmid =>
    if shmStat s.table (index shmid) = none then
      some { s with table := s.table.insert (index shmid) ⟨shmid, 0, false⟩ } else none
  | .shmat shmid => some { s with table := update s.table shmid Shm.shmat }
  | .shmdt shmid =>
    if (att s.table shmid).any (0 < ·.nattch) then
      some { s with table := update s.table shmid Shm.shmdt } else none
  | .remove shmid => some { s with table := update s.table shmid Shm.rmid }

def lts : LTS St Lbl := ⟨fun s => s.pc = .info, step⟩

/-! ## One segment -/

section Segment

variable {t : Table} {x y : Nat}

theorem att_eq_some {a : Att} : att t x = some a ↔ t.lookup (index x) = some ⟨x, a⟩ := by
  rw [att, Option.map_eq_some_iff]
  constructor
  · rintro ⟨⟨shmid, b⟩, hg, rfl⟩
    obtain ⟨hlookup, hid⟩ := Option.filter_eq_some_iff.mp hg
    obtain rfl : shmid = x := of_decide_eq_true hid
    exact hlookup
  · intro hlookup
    exact ⟨⟨x, a⟩, Option.filter_eq_some_iff.mpr ⟨hlookup, decide_eq_true rfl⟩, rfl⟩

theorem att_insert (t : Table) (x : Nat) (a : Att) :
    att (t.insert (index x) ⟨x, a⟩) x = some a := att_eq_some.mpr (AList.lookup_insert t)

theorem att_erase (t : Table) (x : Nat) : att (t.erase (index x)) x = none := by
  rw [att, AList.lookup_erase]
  rfl

/-- Nothing that is done to the entry of one segment changes another one. -/
theorem att_insert_of_ne (hxy : x ≠ y) (ht : ∀ g, t.lookup (index y) = some g → g.shmid = y) (a : Att) :
    att (t.insert (index y) ⟨y, a⟩) x = att t x := by
  by_cases hi : index x = index y
  · have hnone : att t x = none := by
      rw [att, hi, Option.map_eq_none_iff, Option.filter_eq_none_iff]
      exact fun g hg => by simpa [ht g hg] using hxy.symm
    have hother : att (t.insert (index y) ⟨y, a⟩) x = none := by
      rw [att, hi, AList.lookup_insert, Option.filter_some, if_neg (by simpa using hxy.symm)]
      rfl
    rw [hnone, hother]
  · rw [att, att, AList.lookup_insert_ne hi]

theorem att_erase_of_ne (hxy : x ≠ y) (ht : ∀ g, t.lookup (index y) = some g → g.shmid = y) :
    att (t.erase (index y)) x = att t x := by
  by_cases hi : index x = index y
  · have hnone : att t x = none := by
      rw [att, hi, Option.map_eq_none_iff, Option.filter_eq_none_iff]
      exact fun g hg => by simpa [ht g hg] using hxy.symm
    rw [hnone, att, hi, AList.lookup_erase]
    rfl
  · rw [att, att, AList.lookup_erase_ne hi]

theorem att_update_self (f : Att → Option Att) : att (update t x f) x = (att t x).bind f := by
  rw [update]
  cases hx : att t x with
  | none => exact hx
  | some a =>
    simp only [Option.bind_some]
    cases f a with
    | none => exact att_erase t x
    | some a' => exact att_insert t x a'

theorem att_update_of_ne (hxy : x ≠ y) (f : Att → Option Att) : att (update t y f) x = att t x := by
  rw [update]
  cases hy : att t y with
  | none => rfl
  | some a =>
    have hown : ∀ g, t.lookup (index y) = some g → g.shmid = y := by
      intro g hg
      obtain rfl := Option.some.inj ((att_eq_some.mp hy).symm.trans hg)
      rfl
    simp only
    cases f a with
    | none => exact att_erase_of_ne hxy hown
    | some a' => exact att_insert_of_ne hxy hown a'

theorem le_foldr_max {i : Nat} {is : List Nat} (h : i ∈ is) : i ≤ is.foldr max 0 := by
  induction is with
  | nil => cases h
  | cons j is ih =>
    rcases List.mem_cons.mp h with rfl | h
    · exact le_max_left _ _
    · exact le_trans (ih h) (le_max_right _ _)

/-- The index of a segment is in use. -/
theorem le_maxIndex {a : Att} (h : att t x = some a) : index x ≤ maxIndex t := by
  refine le_foldr_max (AList.mem_keys.mp (AList.lookup_isSome.mp ?_))
  rw [att_eq_some.mp h]
  rfl

end Segment

/-! ## A step, seen from one segment -/

/-- Nobody else removes the segment, and its identifier is not given again. -/
def Leaves (x : Nat) (l : Lbl) : Prop := l ≠ .remove x ∧ l ≠ .shmget x

instance (x : Nat) (l : Lbl) : Decidable (Leaves x l) :=
  inferInstanceAs (Decidable (l ≠ .remove x ∧ l ≠ .shmget x))

/-- The pass is about to remove the segment. -/
def Taking (x : Nat) (pc : Pc) : Prop := ∃ id maxid, pc = .take id maxid x

/-- What the call does to the segment. -/
def effect (x : Nat) (pc : Pc) : Lbl → Att → Option Att
  | .shmat y => if y = x then shmat else some
  | .shmdt y => if y = x then shmdt else some
  | .remove y => if y = x then rmid else some
  | .rmid =>
    match pc with
    | .take _ _ y => if y = x then rmid else some
    | _ => some
  | _ => some

theorem att_update (t : Table) (x y : Nat) (f : Att → Option Att) :
    att (update t y f) x = (att t x).bind (if y = x then f else some) := by
  by_cases hxy : y = x
  · subst hxy
    rw [if_pos rfl, att_update_self]
  · rw [if_neg hxy, att_update_of_ne (Ne.symm hxy), Option.bind_fun_some]

theorem att_step {x : Nat} {s s' : St} {l : Lbl} (hl : l ≠ .shmget x) (hst : step s l = some s') :
    att s'.table x = (att s.table x).bind (effect x s.pc l) := by
  cases l with
  | info ok =>
    simp only [step] at hst
    split at hst
    · obtain rfl := Option.some.inj hst
      exact (Option.bind_fun_some _).symm
    · cases hst
  | stat =>
    simp only [step] at hst
    split at hst
    · obtain rfl := Option.some.inj hst
      exact (Option.bind_fun_some _).symm
    · cases hst
  | rmid =>
    simp only [step] at hst
    split at hst
    · rename_i id maxid y hpc
      obtain rfl := Option.some.inj hst
      simp only [effect, hpc]
      exact att_update s.table x y rmid
    · cases hst
  | shmget y =>
    have hxy : x ≠ y := fun h => hl (by rw [h])
    obtain ⟨hfree, hst⟩ := Option.ite_none_right_eq_some.mp hst
    obtain rfl := Option.some.inj hst
    have hown : ∀ g, s.table.lookup (index y) = some g → g.shmid = y :=
      fun g hg => absurd (hfree.symm.trans hg) (Option.some_ne_none _).symm
    rw [att_insert_of_ne hxy hown]
    exact (Option.bind_fun_some _).symm
  | shmat y =>
    obtain rfl := Option.some.inj hst
    exact att_update s.table x y shmat
  | shmdt y =>
    obtain ⟨-, hst⟩ := Option.ite_none_right_eq_some.mp hst
    obtain rfl := Option.some.inj hst
    exact att_update s.table x y shmdt
  | remove y =>
    obtain rfl := Option.some.inj hst
    exact att_update s.table x y rmid

/-- The pass goes on by its own calls alone. -/
theorem pc_step {s s' : St} {l : Lbl} (hst : step s l = some s') :
    (∃ ok, l = .info ok ∧ s.pc = .info ∧
      s'.pc = if ok then .look 0 (maxIndex s.table) else .done (-1)) ∨
    (∃ id maxid, l = .stat ∧ s.pc = .look id maxid ∧
      s'.pc = looked id maxid (shmStat s.table id)) ∨
    (∃ id maxid y, l = .rmid ∧ s.pc = .take id maxid y ∧ s'.pc = next id maxid) ∨
    (l ≠ .stat ∧ l ≠ .rmid ∧ s'.pc = s.pc) := by
  cases l with
  | info ok =>
    simp only [step] at hst
    split at hst
    · rename_i hpc
      obtain rfl := Option.some.inj hst
      exact .inl ⟨ok, rfl, hpc, rfl⟩
    · cases hst
  | stat =>
    simp only [step] at hst
    split at hst
    · rename_i id maxid hpc
      obtain rfl := Option.some.inj hst
      exact .inr (.inl ⟨id, maxid, rfl, hpc, rfl⟩)
    · cases hst
  | rmid =>
    simp only [step] at hst
    split at hst
    · rename_i id maxid y hpc
      obtain rfl := Option.some.inj hst
      exact .inr (.inr (.inl ⟨id, maxid, y, rfl, hpc, rfl⟩))
    · cases hst
  | shmget y =>
    obtain ⟨-, hst⟩ := Option.ite_none_right_eq_some.mp hst
    obtain rfl := Option.some.inj hst
    exact .inr (.inr (.inr ⟨Lbl.noConfusion, Lbl.noConfusion, rfl⟩))
  | shmat y =>
    obtain rfl := Option.some.inj hst
    exact .inr (.inr (.inr ⟨Lbl.noConfusion, Lbl.noConfusion, rfl⟩))
  | shmdt y =>
    obtain ⟨-, hst⟩ := Option.ite_none_right_eq_some.mp hst
    obtain rfl := Option.some.inj hst
    exact .inr (.inr (.inr ⟨Lbl.noConfusion, Lbl.noConfusion, rfl⟩))
  | remove y =>
    obtain rfl := Option.some.inj hst
    exact .inr (.inr (.inr ⟨Lbl.noConfusion, Lbl.noConfusion, rfl⟩))

/-! ## What the pass takes -/

/-- There, and not marked. -/
def Whole (t : Table) (x : Nat) : Prop := ∃ a, att t x = some a ∧ a.dest = false

def Unattached (t : Table) (x : Nat) : Prop := ∃ a, att t x = some a ∧ a.nattch = 0

/-- The look of the pass finds the segment unattached. -/
def FindsFree (x : Nat) (s : St) (l : Lbl) : Prop :=
  l = .stat ∧ ∃ id maxid a, s.pc = .look id maxid ∧ shmStat s.table id = some ⟨x, a⟩ ∧ a.nattch = 0

theorem not_taking_next (x id maxid : Nat) : ¬ Taking x (next id maxid) := by
  rintro ⟨id', maxid', h⟩
  rw [next] at h
  split at h <;> cases h

theorem taking_looked {x id maxid : Nat} {o : Option Seg} :
    Taking x (looked id maxid o) ↔ ∃ a, o = some ⟨x, a⟩ ∧ a.nattch = 0 := by
  cases o with
  | none => exact iff_of_false (not_taking_next _ _ _) (by simp)
  | some g =>
    obtain ⟨shmid, a⟩ := g
    rw [looked]
    by_cases ha : a.nattch = 0
    · rw [if_pos ha]
      constructor
      · rintro ⟨id', maxid', h⟩
        cases h
        exact ⟨a, rfl, ha⟩
      · rintro ⟨a', h, -⟩
        cases h
        exact ⟨id, maxid, rfl⟩
    · rw [if_neg ha]
      refine iff_of_false (not_taking_next _ _ _) ?_
      rintro ⟨a', h, ha'⟩
      cases h
      exact ha ha'

/-- When the pass comes to take the segment. -/
theorem taking_step {x : Nat} {s s' : St} {l : Lbl} (hst : step s l = some s') :
    Taking x s'.pc ↔ FindsFree x s l ∨ (Taking x s.pc ∧ l ≠ .rmid) := by
  rcases pc_step hst with ⟨ok, rfl, hpc, hpc'⟩ | ⟨id, maxid, rfl, hpc, hpc'⟩ |
    ⟨id, maxid, y, rfl, hpc, hpc'⟩ | ⟨hstat, hrmid, hpc'⟩
  · refine iff_of_false ?_ ?_
    · rintro ⟨id, maxid, h⟩
      rw [hpc'] at h
      split at h <;> cases h
    · rintro (⟨h, -⟩ | ⟨⟨id, maxid, h⟩, -⟩)
      · cases h
      · cases hpc.symm.trans h
  · rw [hpc', taking_looked]
    constructor
    · rintro ⟨a, hstat, ha⟩
      exact .inl ⟨rfl, id, maxid, a, hpc, hstat, ha⟩
    · rintro (⟨-, id', maxid', a, hpc₂, hstat, ha⟩ | ⟨⟨id', maxid', h⟩, -⟩)
      · cases hpc.symm.trans hpc₂
        exact ⟨a, hstat, ha⟩
      · cases hpc.symm.trans h
  · rw [hpc']
    refine iff_of_false (not_taking_next _ _ _) ?_
    rintro (⟨h, -⟩ | ⟨-, h⟩)
    · cases h
    · exact h rfl
  · rw [hpc']
    constructor
    · exact fun h => .inr ⟨h, hrmid⟩
    · rintro (⟨h, -⟩ | ⟨h, -⟩)
      · exact absurd h hstat
      · exact h

/-- Everything but a removal leaves a segment unmarked, or marked. -/
def Spares (f : Att → Option Att) : Prop := ∀ a, (∃ a', f a = some a' ∧ a'.dest = false) ↔ a.dest = false

theorem spares_some : Spares some := fun a => by simp

theorem spares_shmat : Spares shmat := fun a => by simp [shmat]

theorem spares_shmdt : Spares shmdt := by
  intro a
  rw [shmdt]
  by_cases hlast : a.nattch = 1 ∧ a.dest = true
  · rw [if_pos hlast, hlast.2]
    simp
  · rw [if_neg hlast]
    simp

theorem rmid_marks (a : Att) : ¬ ∃ a', rmid a = some a' ∧ a'.dest = false := by
  rintro ⟨a', ha', hdest⟩
  rw [rmid] at ha'
  split at ha'
  · cases ha'
  · cases ha'
    cases hdest

/-- Where nobody else removes it, the pass alone does. -/
theorem effect_cases {x : Nat} {pc : Pc} {l : Lbl} (hl : Leaves x l) :
    (l = .rmid ∧ Taking x pc ∧ effect x pc l = rmid) ∨
    (¬ (l = .rmid ∧ Taking x pc) ∧
      (effect x pc l = some ∨ (l = .shmat x ∧ effect x pc l = shmat) ∨ effect x pc l = shmdt)) := by
  cases l with
  | info ok => exact .inr ⟨fun h => Lbl.noConfusion h.1, .inl rfl⟩
  | stat => exact .inr ⟨fun h => Lbl.noConfusion h.1, .inl rfl⟩
  | rmid =>
    by_cases htake : Taking x pc
    · obtain ⟨id, maxid, rfl⟩ := htake
      exact .inl ⟨rfl, ⟨id, maxid, rfl⟩, if_pos rfl⟩
    · refine .inr ⟨fun h => htake h.2, .inl ?_⟩
      cases pc with
      | take id maxid y => exact if_neg fun h => htake ⟨id, maxid, by rw [h]⟩
      | _ => rfl
  | shmget y => exact .inr ⟨fun h => Lbl.noConfusion h.1, .inl rfl⟩
  | shmat y =>
    refine .inr ⟨fun h => Lbl.noConfusion h.1, ?_⟩
    by_cases hy : y = x
    · subst hy
      exact .inr (.inl ⟨rfl, if_pos rfl⟩)
    · exact .inl (if_neg hy)
  | shmdt y =>
    refine .inr ⟨fun h => Lbl.noConfusion h.1, ?_⟩
    by_cases hy : y = x
    · exact .inr (.inr (if_pos hy))
    · exact .inl (if_neg hy)
  | remove y =>
    have hy : y ≠ x := fun h => hl.1 (by rw [h])
    exact .inr ⟨fun h => Lbl.noConfusion h.1, .inl (if_neg hy)⟩

theorem whole_step {x : Nat} {s s' : St} {l : Lbl} (hl : Leaves x l) (hst : step s l = some s') :
    Whole s'.table x ↔ Whole s.table x ∧ ¬ (l = .rmid ∧ Taking x s.pc) := by
  have hbind : Whole s'.table x ↔
      ∃ a, att s.table x = some a ∧ ∃ a', effect x s.pc l a = some a' ∧ a'.dest = false := by
    simp only [Whole, att_step hl.2 hst, Option.bind_eq_some_iff]
    constructor
    · rintro ⟨a', ⟨a, ha, ha'⟩, hdest⟩
      exact ⟨a, ha, a', ha', hdest⟩
    · rintro ⟨a, ha, a', ha', hdest⟩
      exact ⟨a', ⟨a, ha, ha'⟩, hdest⟩
  rw [hbind]
  rcases effect_cases hl with ⟨hrmid, htake, heff⟩ | ⟨hnot, heff⟩
  · rw [heff]
    refine iff_of_false ?_ fun h => h.2 ⟨hrmid, htake⟩
    rintro ⟨a, -, ha'⟩
    exact rmid_marks a ha'
  · have hspares : Spares (effect x s.pc l) := by
      rcases heff with heff | ⟨-, heff⟩ | heff
      · exact heff ▸ spares_some
      · exact heff ▸ spares_shmat
      · exact heff ▸ spares_shmdt
    simp only [hspares _, and_iff_left hnot]
    rfl

/-- Whole, and not about to be taken. -/
def Safe (x : Nat) (s : St) : Prop := Whole s.table x ∧ ¬ Taking x s.pc

theorem safe_step {x : Nat} {s s' : St} {l : Lbl} (hl : Leaves x l) (hst : step s l = some s') :
    Safe x s' ↔ Safe x s ∧ ¬ FindsFree x s l := by
  rw [Safe, Safe, whole_step hl hst, taking_step hst]
  tauto

theorem safe_run {x : Nat} {s s' : St} {ls : List Lbl} (hls : ∀ l ∈ ls, Leaves x l)
    (hr : lts.run s ls = some s') :
    Safe x s' ↔ Safe x s ∧ lts.Meets (fun s l => ¬ FindsFree x s l) s ls := by
  induction ls generalizing s with
  | nil =>
    obtain rfl := Option.some.inj hr
    exact (and_iff_left trivial).symm
  | cons l ls ih =>
    obtain ⟨s₁, hst, hr⟩ := LTS.run_cons.mp hr
    have hl : Leaves x l := hls l List.mem_cons_self
    rw [ih (fun l hl => hls l (List.mem_cons_of_mem _ hl)) hr, safe_step hl hst,
      LTS.meets_cons hst, and_assoc]

/-! ## What it does not leave -/

/-- The pass has yet to look at the index. -/
def Ahead (i : Nat) : Pc → Prop
  | .info => True
  | .look id maxid => id ≤ i ∧ i ≤ maxid
  | .take id maxid _ => id < i ∧ i ≤ maxid
  | .done _ => False

theorem ahead_next {i id maxid : Nat} (hid : id < i) (hi : i ≤ maxid) : Ahead i (next id maxid) := by
  rw [next, if_pos (by omega)]
  exact ⟨hid, hi⟩

theorem ahead_looked {i id maxid : Nat} (o : Option Seg) (hid : id < i) (hi : i ≤ maxid) :
    Ahead i (looked id maxid o) := by
  cases o with
  | none => exact ahead_next hid hi
  | some g =>
    rw [looked]
    split
    · exact ⟨hid, hi⟩
    · exact ahead_next hid hi

/-- Gone, or still to be taken by the pass; unless the pass came to nothing. -/
def Doomed (x : Nat) (s : St) : Prop :=
  att s.table x = none ∨ s.pc = .done (-1) ∨
    (Unattached s.table x ∧ (Ahead (index x) s.pc ∨ Taking x s.pc))

/-- What nobody attaches stays unattached until it is removed. -/
theorem unattached_step {x : Nat} {s s' : St} {l : Lbl} (hl : Leaves x l ∧ l ≠ .shmat x)
    (hst : step s l = some s') (h : Unattached s.table x) :
    (l = .rmid ∧ Taking x s.pc ∧ att s'.table x = none) ∨
    (¬ (l = .rmid ∧ Taking x s.pc) ∧ Unattached s'.table x) := by
  obtain ⟨a, ha, hfree⟩ := h
  have hatt := att_step hl.1.2 hst
  rw [ha, Option.bind_some] at hatt
  rcases effect_cases hl.1 with ⟨hrmid, htake, heff⟩ | ⟨hnot, heff | ⟨hshmat, -⟩ | heff⟩
  · exact .inl ⟨hrmid, htake, by rw [hatt, heff, rmid, if_pos hfree]⟩
  · exact .inr ⟨hnot, a, by rw [hatt, heff], hfree⟩
  · exact absurd hshmat hl.2
  · have hdt : shmdt a = some { a with nattch := a.nattch - 1 } :=
      if_neg fun h => absurd (hfree.symm.trans h.1) Nat.zero_ne_one
    exact .inr ⟨hnot, _, by rw [hatt, heff, hdt], by rw [hfree]⟩

theorem doomed_guarded (x : Nat) :
    lts.Guarded (fun _ l => Leaves x l ∧ l ≠ .shmat x) (Doomed x) := by
  intro s l s' h hl hst
  rcases h with hgone | hfailed | ⟨hfree, hway⟩
  · left
    rw [att_step hl.1.2 hst, hgone, Option.bind_none]
  · rcases pc_step hst with ⟨_, -, hpc, -⟩ | ⟨_, _, -, hpc, -⟩ | ⟨_, _, _, -, hpc, -⟩ | ⟨-, -, hpc'⟩
    · cases hfailed.symm.trans hpc
    · cases hfailed.symm.trans hpc
    · cases hfailed.symm.trans hpc
    · exact .inr (.inl (hpc'.trans hfailed))
  · rcases unattached_step hl hst hfree with ⟨-, -, hgone⟩ | ⟨hnot, hfree'⟩
    · exact .inl hgone
    obtain ⟨a, ha, hzero⟩ := hfree
    rcases pc_step hst with ⟨ok, rfl, -, hpc'⟩ | ⟨id, maxid, rfl, hpc, hpc'⟩ |
      ⟨id, maxid, y, rfl, hpc, hpc'⟩ | ⟨-, -, hpc'⟩
    · cases ok with
      | false => exact .inr (.inl hpc')
      | true => exact .inr (.inr ⟨hfree', .inl (hpc' ▸ ⟨Nat.zero_le _, le_maxIndex ha⟩)⟩)
    · obtain ⟨hid, hi⟩ : id ≤ index x ∧ index x ≤ maxid := by
        rcases hway with hahead | ⟨_, _, htake⟩
        · rwa [hpc] at hahead
        · cases hpc.symm.trans htake
      refine .inr (.inr ⟨hfree', hpc' ▸ ?_⟩)
      rcases Nat.lt_or_eq_of_le hid with hlt | rfl
      · exact .inl (ahead_looked _ hlt hi)
      · exact .inr (taking_looked.mpr ⟨a, att_eq_some.mp ha, hzero⟩)
    · obtain ⟨hid, hi⟩ : id < index x ∧ index x ≤ maxid := by
        rcases hway with hahead | htake
        · rwa [hpc] at hahead
        · exact absurd ⟨rfl, htake⟩ hnot
      exact .inr (.inr ⟨hfree', .inl (hpc' ▸ ahead_next hid hi)⟩)
    · exact .inr (.inr ⟨hfree', hpc' ▸ hway⟩)

/-! ## The pass -/

/-- **What the pass takes.** From any moment of a pass on, while nobody else
removes the segment: it is whole at the end exactly when no look finds it
unattached, and if it is unattached and ahead of the pass, and nobody attaches
it, it is gone. -/
theorem swept_iff (x : Nat) (s s' : St) (ls : List Lbl) (r : Int) (hwhole : Whole s.table x)
    (hpc : ¬ Taking x s.pc) (hls : ∀ l ∈ ls, Leaves x l) (hr : lts.run s ls = some s')
    (hdone : s'.pc = .done r) :
    (Whole s'.table x ↔ lts.Meets (fun s l => ¬ FindsFree x s l) s ls) ∧
    (Unattached s.table x → Ahead (index x) s.pc → .shmat x ∉ ls → r ≠ -1 →
      att s'.table x = none) := by
  have hend : ¬ Taking x s'.pc := by
    rintro ⟨id, maxid, h⟩
    cases hdone.symm.trans h
  constructor
  · have hsafe := safe_run hls hr
    rw [Safe, and_iff_left hend] at hsafe
    exact hsafe.trans (and_iff_right ⟨hwhole, hpc⟩)
  · intro hfree hahead hattach hret
    have hmeets : lts.Meets (fun _ l => Leaves x l ∧ l ≠ .shmat x) s ls :=
      LTS.meets_of_labels (fun l hl _ => ⟨hls l hl, fun h => hattach (h ▸ hl)⟩) s
    have hdoomed : Doomed x s := .inr (.inr ⟨hfree, .inl hahead⟩)
    rcases (doomed_guarded x).run hdoomed hmeets hr with hgone | hfailed | ⟨-, hway | hway⟩
    · exact hgone
    · exact absurd (Pc.done.inj (hdone.symm.trans hfailed)) hret
    · rw [hdone] at hway
      exact hway.elim
    · exact absurd hway hend

/-- A segment that is made and attached between the look and the removal. -/
theorem swept_iff_between :
    ¬ lts.Meets (fun s l => ¬ FindsFree 1 s l) ⟨.look 0 1, (∅ : Table).insert 1 ⟨1, 0, false⟩⟩
      [.stat, .stat, .shmat 1, .rmid] := by
  intro hmeets
  have hwhole := ((swept_iff 1 ⟨.look 0 1, (∅ : Table).insert 1 ⟨1, 0, false⟩⟩ _
    [.stat, .stat, .shmat 1, .rmid] 0 ⟨⟨0, false⟩, rfl, rfl⟩ (by rintro ⟨_, _, h⟩; cases h)
    (by decide) rfl rfl).1).mpr hmeets
  obtain ⟨a, ha, hdest⟩ := hwhole
  cases ha
  cases hdest

end SystemServer.L4.Shm
