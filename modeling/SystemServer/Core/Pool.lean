import Mathlib.Algebra.Order.Group.Multiset
import SystemServer.Core.Trace

/-!
# A pool of jobs

What a work queue is for: a job that is accepted is pending until it is
performed, and nothing else is ever performed. The order is left open.

`conserved` is the law of the pool: what was accepted is what was performed
and what is pending, each job as often. A system that simulates the pool
inherits it (`Simulates.conserved`); where nothing is pending, it performed
what it accepted.
-/
namespace SystemServer.Pool

variable {J : Type}

inductive Ev (J : Type) where
  | accept (j : J)
  | perform (j : J)

def Ev.accepted? : Ev J → Option J
  | .accept j => some j
  | .perform _ => none

def Ev.performed? : Ev J → Option J
  | .accept _ => none
  | .perform j => some j

def accepted (es : List (Ev J)) : Multiset J := es.filterMap Ev.accepted?

def performed (es : List (Ev J)) : Multiset J := es.filterMap Ev.performed?

open Classical in
/-- The state is the bag of pending jobs. -/
noncomputable def step (p : Multiset J) : Ev J → Option (Multiset J)
  | .accept j => some (j ::ₘ p)
  | .perform j => if j ∈ p then some (p.erase j) else none

noncomputable def lts (J : Type) : LTS (Multiset J) (Ev J) := ⟨fun p => p = 0, step⟩

theorem step_perform (p : Multiset J) (j : J) : (lts J).step (j ::ₘ p) (.perform j) = some p := by
  simp [lts, step]

@[simp] theorem accepted_append (es es' : List (Ev J)) :
    accepted (es ++ es') = accepted es + accepted es' := by
  simp only [accepted, List.filterMap_append, Multiset.coe_add]

@[simp] theorem performed_append (es es' : List (Ev J)) :
    performed (es ++ es') = performed es + performed es' := by
  simp only [performed, List.filterMap_append, Multiset.coe_add]

@[simp] theorem accepted_nil : accepted ([] : List (Ev J)) = 0 := rfl

@[simp] theorem performed_nil : performed ([] : List (Ev J)) = 0 := rfl

@[simp] theorem accepted_accept (j : J) : accepted [.accept j] = {j} := rfl

@[simp] theorem accepted_perform (j : J) : accepted [.perform j] = 0 := rfl

@[simp] theorem performed_accept (j : J) : performed [.accept j] = 0 := rfl

@[simp] theorem performed_perform (j : J) : performed [.perform j] = {j} := rfl

theorem accepted_performs {A : Type} (f : A → J) (as : List A) :
    accepted (as.map fun a => Ev.perform (f a)) = 0 := by
  have hnil : (as.map fun a => Ev.perform (f a)).filterMap Ev.accepted? = [] :=
    List.filterMap_eq_nil_iff.mpr fun e he => by
      obtain ⟨a, -, rfl⟩ := List.mem_map.mp he
      rfl
  rw [accepted, hnil]
  rfl

/-- What one event does to the bag. -/
theorem step_conserved {p p' : Multiset J} {e : Ev J} (h : (lts J).step p e = some p') :
    p + accepted [e] = performed [e] + p' := by
  cases e with
  | accept j =>
    obtain rfl := Option.some.inj h
    rw [accepted_accept, performed_accept, zero_add, add_comm, Multiset.singleton_add]
  | perform j =>
    classical
    obtain ⟨hj, rfl⟩ := Option.ite_some_none_eq_some.mp h
    rw [accepted_perform, performed_perform, add_zero, Multiset.singleton_add,
      Multiset.cons_erase hj]

/-- **Conservation.** Over a run of the pool, what was pending and what was
accepted is what was performed and what is pending. -/
theorem conserved {p p' : Multiset J} {es : List (Ev J)} (h : (lts J).run p es = some p') :
    p + accepted es = performed es + p' := by
  induction es generalizing p with
  | nil =>
    obtain rfl := Option.some.inj h
    simp [accepted, performed]
  | cons e es ih =>
    obtain ⟨p₁, hst, hr⟩ := LTS.run_cons.mp h
    have h₁ := step_conserved hst
    have h₂ := ih hr
    calc p + accepted (e :: es) = p + accepted [e] + accepted es := by
          rw [add_assoc, ← accepted_append, List.singleton_append]
      _ = performed [e] + (p₁ + accepted es) := by rw [h₁, add_assoc]
      _ = performed [e] + performed es + p' := by rw [h₂, add_assoc]
      _ = performed (e :: es) + p' := by rw [← performed_append, List.singleton_append]

end SystemServer.Pool

namespace SystemServer.LTS.Simulates

open SystemServer.Pool

variable {S L J : Type} {T : LTS S L} {obs : S → L → S → List (Ev J)} {R : S → Multiset J → Prop}

/-- A system that simulates the pool loses no job and makes none up. -/
theorem conserved (h : T.Simulates obs (Pool.lts J) R) {s s' : S} {p : Multiset J} {ls : List L}
    (hR : R s p) (hr : T.run s ls = some s') :
    ∃ p', R s' p' ∧ p + accepted (T.trace obs s ls) = performed (T.trace obs s ls) + p' := by
  obtain ⟨p', hp', hR'⟩ := h.run hR hr
  exact ⟨p', hR', Pool.conserved hp'⟩

end SystemServer.LTS.Simulates
