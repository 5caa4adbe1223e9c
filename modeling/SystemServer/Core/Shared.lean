import Mathlib.Data.Fintype.Basic
import Mathlib.Logic.Function.Basic
import SystemServer.Core.LTS

/-!
# Locks that several share

A lock is held or not, it is not counted. Several owners share it. When what
an owner wants changes, somebody is due to serve him: who takes the lock or
gives it up as this owner wants, and asks none of the others. Two that are due
for one owner may become one, and a change may be silent, with nobody told. A
lock may also be taken and given up again in passing, for nobody.

`Settled`: a lock is held if and only if an owner of it wants it, while none of
them is due to be served. `settled_iff` says what each step has to meet for
that, whatever was before it: a serve makes good for what went wrong earlier,
and the last one decides.
-/
namespace SystemServer.Shared

variable {O K : Type} [DecidableEq O] [DecidableEq K]

structure State (O K : Type) where
  wants : O → Bool
  due : O → Nat
  held : K → Bool

/-- `seen` says whether what the owner wants can be read. -/
inductive Lbl (O K : Type) where
  | change (o : O) (w : Bool)
  | silent (o : O) (w : Bool)
  | merge (o : O)
  | serve (o : O) (seen : Bool)
  | passing (k : K)

def step (lock : O → K) (s : State O K) : Lbl O K → Option (State O K)
  | .change o w =>
    some ⟨Function.update s.wants o w, Function.update s.due o (s.due o + 1), s.held⟩
  | .silent o w => some { s with wants := Function.update s.wants o w }
  | .merge o =>
    if 2 ≤ s.due o then some { s with due := Function.update s.due o (s.due o - 1) } else none
  | .serve o seen =>
    if s.due o = 0 then none
    else some ⟨s.wants, Function.update s.due o (s.due o - 1),
      if seen then Function.update s.held (lock o) (s.wants o) else s.held⟩
  | .passing k => some ⟨s.wants, s.due, Function.update s.held k false⟩

def lts (lock : O → K) : LTS (State O K) (Lbl O K) := ⟨fun _ => True, step lock⟩

variable (lock : O → K)

/-- An owner of the lock wants it. -/
def Wanted (s : State O K) (k : K) : Prop := ∃ o, lock o = k ∧ s.wants o = true

/-- No owner of the lock is due to be served. -/
def Quiet (s : State O K) (k : K) : Prop := ∀ o, lock o = k → s.due o = 0

def Right (s : State O K) (k : K) : Prop := s.held k = true ↔ Wanted lock s k

def Settled (s : State O K) : Prop := ∀ k, Quiet lock s k → Right lock s k

/-- After this serve no owner of the lock is due. -/
def Last (s : State O K) (o : O) : Prop :=
  s.due o = 1 ∧ ∀ o', lock o' = lock o → o' ≠ o → s.due o' = 0

/-- What a step has to meet to leave the locks settled. -/
def Keeps (s : State O K) : Lbl O K → Prop
  | .change _ _ | .merge _ => True
  | .silent o w =>
    Quiet lock s (lock o) → Right lock { s with wants := Function.update s.wants o w } (lock o)
  | .serve o true => Last lock s o → s.wants o = true ∨ ¬ Wanted lock s (lock o)
  | .serve o false => Last lock s o → Right lock s (lock o)
  | .passing k => Quiet lock s k → ¬ Wanted lock s k

section Decide

variable [Fintype O] [Fintype K]

instance (s : State O K) (k : K) : Decidable (Wanted lock s k) :=
  inferInstanceAs (Decidable (∃ o, lock o = k ∧ s.wants o = true))

instance (s : State O K) (k : K) : Decidable (Quiet lock s k) :=
  inferInstanceAs (Decidable (∀ o, lock o = k → s.due o = 0))

instance (s : State O K) (k : K) : Decidable (Right lock s k) :=
  inferInstanceAs (Decidable (s.held k = true ↔ Wanted lock s k))

instance (s : State O K) : Decidable (Settled lock s) :=
  inferInstanceAs (Decidable (∀ k, Quiet lock s k → Right lock s k))

instance (s : State O K) (o : O) : Decidable (Last lock s o) :=
  inferInstanceAs (Decidable (s.due o = 1 ∧ ∀ o', lock o' = lock o → o' ≠ o → s.due o' = 0))

instance (s : State O K) : ∀ l, Decidable (Keeps lock s l)
  | .change _ _ | .merge _ => .isTrue trivial
  | .silent o w => inferInstanceAs (Decidable
      (Quiet lock s (lock o) → Right lock { s with wants := Function.update s.wants o w } (lock o)))
  | .serve o true =>
    inferInstanceAs (Decidable (Last lock s o → s.wants o = true ∨ ¬ Wanted lock s (lock o)))
  | .serve o false => inferInstanceAs (Decidable (Last lock s o → Right lock s (lock o)))
  | .passing k => inferInstanceAs (Decidable (Quiet lock s k → ¬ Wanted lock s k))

end Decide

variable {lock}

omit [DecidableEq O] in
/-- A step that concerns one lock leaves the others as they were. -/
theorem settled_one {s s' : State O K} (hs : Settled lock s) (k₀ : K)
    (hheld : ∀ k, k ≠ k₀ → s'.held k = s.held k)
    (howners : ∀ o, lock o ≠ k₀ → s'.wants o = s.wants o ∧ s'.due o = s.due o) :
    Settled lock s' ↔ (Quiet lock s' k₀ → Right lock s' k₀) := by
  refine ⟨fun h => h k₀, fun h k hquiet => ?_⟩
  by_cases hk : k = k₀
  · subst hk
    exact h hquiet
  · have hown : ∀ o, lock o = k → s'.wants o = s.wants o ∧ s'.due o = s.due o := fun o ho =>
      howners o (ho ▸ hk)
    have hright : Right lock s k := hs k fun o ho => (hown o ho).2 ▸ hquiet o ho
    have hwanted : Wanted lock s' k ↔ Wanted lock s k :=
      exists_congr fun o => and_congr_right fun ho => by rw [(hown o ho).1]
    rw [Right, hheld k hk, hwanted]
    exact hright

omit [DecidableEq K] in
theorem quiet_served {s : State O K} {o : O} (hdue : s.due o ≠ 0) (held : K → Bool) :
    Quiet lock ⟨s.wants, Function.update s.due o (s.due o - 1), held⟩ (lock o) ↔ Last lock s o := by
  simp only [Quiet, Last]
  constructor
  · intro h
    have hself := h o rfl
    rw [Function.update_self] at hself
    refine ⟨by omega, fun o' ho' hne => ?_⟩
    have hother := h o' ho'
    rwa [Function.update_of_ne hne] at hother
  · intro h o' ho'
    by_cases hne : o' = o
    · subst hne
      rw [Function.update_self, h.1]
    · rw [Function.update_of_ne hne]
      exact h.2 o' ho' hne

/-- **What keeps shared locks right.** -/
theorem settled_iff {s s' : State O K} {l : Lbl O K} (hs : Settled lock s)
    (hst : (lts lock).step s l = some s') : Settled lock s' ↔ Keeps lock s l := by
  cases l with
  | change o w =>
    obtain rfl := Option.some.inj hst
    refine (settled_one hs (lock o) ?_ fun o' hne => ?_).trans ?_
    · exact fun _ _ => rfl
    · have ho : o' ≠ o := fun heq => hne (heq ▸ rfl)
      exact ⟨Function.update_of_ne ho _ _, Function.update_of_ne ho _ _⟩
    · refine iff_of_true (fun hquiet => ?_) trivial
      -- its owner is due now
      have hdue := hquiet o rfl
      simp only [Function.update_self] at hdue
      omega
  | silent o w =>
    obtain rfl := Option.some.inj hst
    refine settled_one hs (lock o) ?_ fun o' hne => ?_
    · exact fun _ _ => rfl
    · have ho : o' ≠ o := fun heq => hne (heq ▸ rfl)
      exact ⟨Function.update_of_ne ho _ _, rfl⟩
  | merge o =>
    obtain ⟨htwo, rfl⟩ := Option.ite_some_none_eq_some.mp hst
    refine (settled_one hs (lock o) ?_ fun o' hne => ?_).trans ?_
    · exact fun _ _ => rfl
    · have ho : o' ≠ o := fun heq => hne (heq ▸ rfl)
      exact ⟨rfl, Function.update_of_ne ho _ _⟩
    · refine iff_of_true (fun hquiet => ?_) trivial
      -- one is left
      have hdue := hquiet o rfl
      simp only [Function.update_self] at hdue
      omega
  | serve o seen =>
    obtain ⟨hdue, hst⟩ := Option.ite_none_left_eq_some.mp hst
    obtain rfl := Option.some.inj hst
    have hothers : ∀ o', lock o' ≠ lock o → o' ≠ o := fun o' hne heq => hne (heq ▸ rfl)
    cases seen with
    | false =>
      refine (settled_one hs (lock o) ?_ fun o' hne => ?_).trans ?_
      · exact fun _ _ => rfl
      · exact ⟨rfl, Function.update_of_ne (hothers o' hne) _ _⟩
      · exact imp_congr_left (quiet_served hdue _)
    | true =>
      refine (settled_one hs (lock o) (fun k hne => ?_) fun o' hne => ?_).trans ?_
      · exact Function.update_of_ne hne _ _
      · exact ⟨rfl, Function.update_of_ne (hothers o' hne) _ _⟩
      · refine imp_congr (quiet_served hdue _) ?_
        simp only [Right, if_true, Function.update_self]
        change (s.wants o = true ↔ Wanted lock s (lock o)) ↔ _
        constructor
        · intro h
          by_cases hw : s.wants o = true
          · exact .inl hw
          · exact .inr fun hwanted => hw (h.mpr hwanted)
        · intro h
          exact ⟨fun hw => ⟨o, rfl, hw⟩, fun hwanted => h.resolve_right (not_not.mpr hwanted)⟩
  | passing k =>
    obtain rfl := Option.some.inj hst
    refine (settled_one hs k (fun k' hne => ?_) ?_).trans ?_
    · exact Function.update_of_ne hne _ _
    · exact fun _ _ => ⟨rfl, rfl⟩
    · refine imp_congr_right fun _ => ?_
      simp only [Right, Function.update_self]
      change (false = true ↔ Wanted lock s k) ↔ _
      simp

end SystemServer.Shared
