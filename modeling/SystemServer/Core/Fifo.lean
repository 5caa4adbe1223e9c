import SystemServer.Core.Pool

/-!
# A queue of jobs

A pool whose jobs are performed in the order they were accepted in. The state
lists those that are pending, the oldest first; a job can be performed when it
is the first.

`in_order` is the law of the queue: what was performed, with what is pending
behind it, is what was accepted, as lists. A system that simulates the queue
inherits it (`Simulates.in_order`).
-/
namespace SystemServer.Fifo

open SystemServer.Pool (Ev)

variable {J : Type}

def accepted (es : List (Ev J)) : List J := es.filterMap Ev.accepted?

def performed (es : List (Ev J)) : List J := es.filterMap Ev.performed?

open Classical in
noncomputable def step (q : List J) : Ev J → Option (List J)
  | .accept j => some (q ++ [j])
  | .perform j => if q.head? = some j then some q.tail else none

noncomputable def lts (J : Type) : LTS (List J) (Ev J) := ⟨fun q => q = [], step⟩

theorem step_perform (q : List J) (j : J) : (lts J).step (j :: q) (.perform j) = some q := by
  simp [lts, step]

@[simp] theorem accepted_append (es es' : List (Ev J)) :
    accepted (es ++ es') = accepted es ++ accepted es' := List.filterMap_append

@[simp] theorem performed_append (es es' : List (Ev J)) :
    performed (es ++ es') = performed es ++ performed es' := List.filterMap_append

/-- What one event does to the queue. -/
theorem step_in_order {q q' : List J} {e : Ev J} (h : (lts J).step q e = some q') :
    q ++ accepted [e] = performed [e] ++ q' := by
  cases e with
  | accept j =>
    obtain rfl := Option.some.inj h
    rfl
  | perform j =>
    obtain ⟨hj, rfl⟩ := Option.ite_some_none_eq_some.mp h
    obtain ⟨rest, rfl⟩ := List.head?_eq_some_iff.mp hj
    exact List.append_nil _

/-- **First in, first out.** Over a run of the queue, what was pending and what
was accepted behind it is what was performed and what is pending behind that. -/
theorem in_order {q q' : List J} {es : List (Ev J)} (h : (lts J).run q es = some q') :
    q ++ accepted es = performed es ++ q' := by
  induction es generalizing q with
  | nil =>
    obtain rfl := Option.some.inj h
    simp [accepted, performed]
  | cons e es ih =>
    obtain ⟨q₁, hst, hr⟩ := LTS.run_cons.mp h
    have hfirst := step_in_order hst
    have hrest := ih hr
    rw [← List.singleton_append, accepted_append, performed_append, ← List.append_assoc, hfirst,
      List.append_assoc, hrest, List.append_assoc]

/-! ## The jobs of one kind -/

def Ev.isKind (K : J → Bool) : Ev J → Bool
  | .accept j => K j
  | .perform j => K j

/-- The events of the jobs of a kind. -/
def only (K : J → Bool) (es : List (Ev J)) : List (Ev J) := es.filter (Ev.isKind K)

theorem filterMap_only {K : J → Bool} {f : Ev J → Option J}
    (hf : ∀ e j, f e = some j → Ev.isKind K e = K j) (es : List (Ev J)) :
    (only K es).filterMap f = (es.filterMap f).filter K := by
  rw [only, List.filterMap_filter, List.filter_filterMap]
  refine List.filterMap_congr fun e _ => ?_
  cases hj : f e with
  | none => simp
  | some j =>
    rw [hf e j hj, Option.filter_some]

theorem accepted_only (K : J → Bool) (es : List (Ev J)) :
    accepted (only K es) = (accepted es).filter K := by
  refine filterMap_only (fun e j hj => ?_) es
  cases e with
  | accept i => rw [← Option.some.inj hj, Ev.isKind]
  | perform i => cases hj

theorem performed_only (K : J → Bool) (es : List (Ev J)) :
    performed (only K es) = (performed es).filter K := by
  refine filterMap_only (fun e j hj => ?_) es
  cases e with
  | accept i => cases hj
  | perform i => rw [← Option.some.inj hj, Ev.isKind]

theorem only_of_kind {K : J → Bool} {e : Ev J} (h : Ev.isKind K e = true) : only K [e] = [e] :=
  List.filter_cons_of_pos h

theorem only_of_not_kind {K : J → Bool} {e : Ev J} (h : ¬ Ev.isKind K e = true) : only K [e] = [] :=
  List.filter_cons_of_neg h

theorem only_append (K : J → Bool) (es es' : List (Ev J)) :
    only K (es ++ es') = only K es ++ only K es' := List.filter_append _ _

end SystemServer.Fifo

namespace SystemServer.LTS.Simulates

open SystemServer.Pool (Ev)

variable {S L J : Type} {T : LTS S L} {obs : S → L → S → List (Ev J)} {R : S → List J → Prop}

/-- A system that simulates the queue performs its jobs in the order it accepted
them in. -/
theorem in_order (h : T.Simulates obs (Fifo.lts J) R) {s s' : S} {q : List J} {ls : List L}
    (hR : R s q) (hr : T.run s ls = some s') :
    ∃ q', R s' q' ∧ q ++ Fifo.accepted (T.trace obs s ls) =
      Fifo.performed (T.trace obs s ls) ++ q' := by
  obtain ⟨q', hq', hR'⟩ := h.run hR hr
  exact ⟨q', hR', Fifo.in_order hq'⟩

end SystemServer.LTS.Simulates
