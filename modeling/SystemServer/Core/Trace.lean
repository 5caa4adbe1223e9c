import SystemServer.Core.LTS

/-!
# What a run shows, and how long it can be

A step shows a list of events (`obs`), and `trace` puts those of a run
together. The events are the labels of another system: `Simulates` says
that each step's events are a run of it between related states, and
`Simulates.run` carries this to whole runs. `within` leaves out the steps
that do not meet a condition.

`Decreases` gives a measure that the steps of one kind lower and other steps
raise by no more than `cost` says; `Decreases.length_le` bounds the
number of steps of that kind in a run, and `Decreases.exists_stuck` runs them
until none is enabled.
-/
namespace SystemServer.LTS

variable {S L A E : Type}

/-! ## Events -/

/-- The events of the run over `ls`, oldest first. -/
def trace (T : LTS S L) (obs : S → L → S → List E) : S → List L → List E
  | _, [] => []
  | s, l :: ls =>
    match T.step s l with
    | none => []
    | some s' => obs s l s' ++ T.trace obs s' ls

/-- The steps of `T` show runs of `U`. -/
structure Simulates (T : LTS S L) (obs : S → L → S → List E) (U : LTS A E) (R : S → A → Prop) :
    Prop where
  init : ∀ s, T.init s → ∃ a, U.init a ∧ R s a
  step : ∀ s a l s', R s a → T.step s l = some s' →
    ∃ a', U.run a (obs s l s') = some a' ∧ R s' a'

variable {T : LTS S L} {U : LTS A E} {obs : S → L → S → List E} {R : S → A → Prop}

theorem trace_cons {s s' : S} {l : L} {ls : List L} (h : T.step s l = some s') :
    T.trace obs s (l :: ls) = obs s l s' ++ T.trace obs s' ls := by
  simp only [trace, h]

/-- A run shows a run. -/
theorem Simulates.run (h : T.Simulates obs U R) {s s' : S} {a : A} {ls : List L} (hR : R s a)
    (hr : T.run s ls = some s') : ∃ a', U.run a (T.trace obs s ls) = some a' ∧ R s' a' := by
  induction ls generalizing s a with
  | nil =>
    obtain rfl := Option.some.inj hr
    exact ⟨a, rfl, hR⟩
  | cons l ls ih =>
    obtain ⟨s₁, hst, hr⟩ := run_cons.mp hr
    obtain ⟨a₁, ha₁, hR₁⟩ := h.step s a l s₁ hR hst
    obtain ⟨a', ha', hR'⟩ := ih hR₁ hr
    refine ⟨a', ?_, hR'⟩
    rw [trace_cons hst, run_append]
    exact ⟨a₁, ha₁, ha'⟩

/-! ## Part of the steps -/

open Classical in
/-- The system that takes only the steps that meet `C`. -/
noncomputable def within (T : LTS S L) (C : S → L → Prop) : LTS S L :=
  ⟨T.init, fun s l => if C s l then T.step s l else none⟩

theorem step_within {C : S → L → Prop} {s s' : S} {l : L} :
    (T.within C).step s l = some s' ↔ C s l ∧ T.step s l = some s' := by
  simp only [within, Option.ite_none_right_eq_some]

variable (obs) in
/-- A run whose steps all meet the condition is a run of that system, and shows
the same. -/
theorem run_within {C : S → L → Prop} {s s' : S} {ls : List L} (hls : T.Meets C s ls)
    (hr : T.run s ls = some s') :
    (T.within C).run s ls = some s' ∧ (T.within C).trace obs s ls = T.trace obs s ls := by
  induction ls generalizing s with
  | nil => exact ⟨hr, rfl⟩
  | cons l ls ih =>
    obtain ⟨s₁, hst, hr⟩ := run_cons.mp hr
    obtain ⟨hl, hls⟩ := (meets_cons hst).mp hls
    obtain ⟨hrun, htrace⟩ := ih hls hr
    have hst' : (T.within C).step s l = some s₁ := step_within.mpr ⟨hl, hst⟩
    exact ⟨run_cons.mpr ⟨s₁, hst', hrun⟩, by rw [trace_cons hst', trace_cons hst, htrace]⟩

/-! ## Bounded runs -/

/-- Under the invariant `I`, a step of the kind `K` lowers `μ`, and another
step raises it by no more than its `cost`. -/
structure Decreases (T : LTS S L) (I : S → Prop) (K : L → Prop) (cost : S → L → Nat) (μ : S → Nat) :
    Prop where
  keep : ∀ s l s', I s → T.step s l = some s' → I s'
  lower : ∀ s l s', I s → K l → T.step s l = some s' → μ s' < μ s
  raise : ∀ s l s', I s → ¬ K l → T.step s l = some s' → μ s' ≤ μ s + cost s l

/-- What the steps of a run that are not of the kind `K` cost. -/
def costs (T : LTS S L) (K : L → Prop) [DecidablePred K] (cost : S → L → Nat) : S → List L → Nat
  | _, [] => 0
  | s, l :: ls =>
    match T.step s l with
    | none => 0
    | some s' => (if K l then 0 else cost s l) + T.costs K cost s' ls

variable {I : S → Prop} {K : L → Prop} {cost : S → L → Nat} {μ : S → Nat}

/-- A run takes no more steps of the kind than the measure and the costs of
the others allow. -/
theorem Decreases.length_le [DecidablePred K] (h : T.Decreases I K cost μ) {s s' : S} {ls : List L}
    (hs : I s) (hr : T.run s ls = some s') :
    ls.countP (fun l => decide (K l)) + μ s' ≤ μ s + T.costs K cost s ls := by
  induction ls generalizing s with
  | nil =>
    obtain rfl := Option.some.inj hr
    simp
  | cons l ls ih =>
    obtain ⟨s₁, hst, hr⟩ := run_cons.mp hr
    have hrest := ih (h.keep s l s₁ hs hst) hr
    simp only [costs, hst, List.countP_cons, decide_eq_true_eq]
    by_cases hK : K l
    · have hlt := h.lower s l s₁ hs hK hst
      simp only [hK, if_true]
      omega
    · have hle := h.raise s l s₁ hs hK hst
      simp only [hK, if_false]
      omega

/-- Steps of the kind can be taken until none is enabled. -/
theorem Decreases.exists_stuck (h : T.Decreases I K cost μ) {s : S} (hs : I s) :
    ∃ ls s', (∀ l ∈ ls, K l) ∧ T.run s ls = some s' ∧ ∀ l, K l → T.step s' l = none := by
  induction hμ : μ s using Nat.strongRecOn generalizing s with
  | ind n ih =>
    by_cases hstuck : ∀ l, K l → T.step s l = none
    · exact ⟨[], s, fun l hl => absurd hl List.not_mem_nil, rfl, hstuck⟩
    · simp only [not_forall] at hstuck
      obtain ⟨l, hK, hsome⟩ := hstuck
      obtain ⟨s₁, hst⟩ := Option.ne_none_iff_exists'.mp hsome
      have hlt := h.lower s l s₁ hs hK hst
      obtain ⟨ls, s', hls, hr, hend⟩ := ih (μ s₁) (hμ ▸ hlt) (h.keep s l s₁ hs hst) rfl
      refine ⟨l :: ls, s', fun x hx => ?_, run_cons.mpr ⟨s₁, hst, hr⟩, hend⟩
      rcases List.mem_cons.mp hx with rfl | hx
      · exact hK
      · exact hls x hx

end SystemServer.LTS
