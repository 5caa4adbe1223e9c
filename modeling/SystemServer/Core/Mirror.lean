import SystemServer.Core.Trace

/-!
# A copy kept by looking

A value changes on its own. Somebody keeps a copy of a view of it: now and
then he looks, and later writes down what he saw. A change asks for a look, or
goes unnoticed; a look that was asked for can be lost, or see something else.

`Settled`: with no look due, the copy is right, or what was seen and is
still to be written is. `settled_iff` says what each step has to meet for that,
whatever was before it: a look that is due makes good for everything that
went wrong until then.
-/
namespace SystemServer.Mirror

variable {A B : Type}

/-- The value, its copy, the looks that are due, and what was seen and is not
written yet. -/
structure State (A B : Type) where
  value : A
  copy : B
  due : Nat
  seen : Option B

inductive Lbl (A B : Type) where
  | change (v : A)
  | silent (v : A)
  | ask
  | look (b : B)
  | lose
  | write

def step (s : State A B) : Lbl A B → Option (State A B)
  | .change v => some { s with value := v, due := s.due + 1 }
  | .silent v => some { s with value := v }
  | .ask => some { s with due := s.due + 1 }
  | .look b =>
    if 0 < s.due ∧ s.seen = none then some { s with due := s.due - 1, seen := some b } else none
  | .lose => if 0 < s.due then some { s with due := s.due - 1 } else none
  | .write => s.seen.map fun b => { s with copy := b, seen := none }

def lts (A B : Type) : LTS (State A B) (Lbl A B) := ⟨fun _ => True, step⟩

/-- What the copy is, or is about to be. -/
def State.coming (s : State A B) : B := s.seen.getD s.copy

/-- With no look due, the copy is right. -/
def Settled (view : A → B) (s : State A B) : Prop := s.due = 0 → s.coming = view s.value

/-- What a step has to meet to leave the copy settled. -/
def Keeps (view : A → B) (s : State A B) : Lbl A B → Prop
  | .change _ | .ask => True
  | .silent v => s.due = 0 → s.coming = view v
  | .look b => s.due = 1 → b = view s.value
  | .lose => s.due = 1 → s.coming = view s.value
  | .write => Settled view s

theorem settled_iff (view : A → B) {s s' : State A B} {l : Lbl A B}
    (h : (lts A B).step s l = some s') : Settled view s' ↔ Keeps view s l := by
  cases l with
  | change v =>
    obtain rfl := Option.some.inj h
    exact iff_of_true (fun hdue => absurd hdue (Nat.succ_ne_zero _)) trivial
  | silent v =>
    obtain rfl := Option.some.inj h
    rfl
  | ask =>
    obtain rfl := Option.some.inj h
    exact iff_of_true (fun hdue => absurd hdue (Nat.succ_ne_zero _)) trivial
  | look b =>
    obtain ⟨hdue, rfl⟩ := Option.ite_some_none_eq_some.mp h
    have hone : s.due - 1 = 0 ↔ s.due = 1 := by omega
    exact imp_congr_left hone
  | lose =>
    obtain ⟨hdue, rfl⟩ := Option.ite_some_none_eq_some.mp h
    have hone : s.due - 1 = 0 ↔ s.due = 1 := by omega
    exact imp_congr_left hone
  | write =>
    obtain ⟨b, hb, rfl⟩ := Option.map_eq_some_iff.mp h
    have hcoming : s.coming = b := by rw [State.coming, hb, Option.getD_some]
    simp only [Keeps, Settled, hcoming]
    rfl

/-- A copy that is settled and has nothing under way is right. -/
theorem Settled.right {view : A → B} {s : State A B} (h : Settled view s) (hdue : s.due = 0)
    (hseen : s.seen = none) : s.copy = view s.value := by
  have hcoming := h hdue
  rwa [State.coming, hseen, Option.getD_none] at hcoming

end SystemServer.Mirror
