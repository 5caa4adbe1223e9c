import Mathlib.Tactic.Common

/-!
# Labelled transition systems with a step function

A system is a set of initial states and a partial step function; all
nondeterminism is in the label. `run` executes a list of labels, so a run
is a computation that can be evaluated.

* `Inductive` / `Inductive.reachable`: an invariant of the initial states
  that every step keeps holds in every reachable state.
* `Along Q s ls`: every step the run takes satisfies `Q`. `Meets C` is the
  case of a condition on the state before the step and its label. Both can
  be decided by running.
* `Guarded` / `Guarded.run`: an invariant kept by the steps that meet a
  condition, and from it whole runs whose steps all meet it.
* `along_iff`: where under an invariant one step does the right thing
  exactly when it meets the condition, so does a whole run.
* `along_iff_split`: the steps of a run are those at the end of its prefixes.
* `meets_of_first` / `meets_of_run`: the converse of `Guarded.run`, where the
  (first) step that breaks the condition does a damage that is never repaired.
* `run_iff_along`: what every step keeps exactly when it satisfies `Q`.
* `Reachable.map`: reachability is transported along a state map under
  which every step is a step of the other system or a stutter.
-/
namespace SystemServer

structure LTS (S L : Type) where
  init : S → Prop
  step : S → L → Option S

namespace LTS

variable {S L : Type} (T : LTS S L)

/-- The state after the labels `ls`, `none` when one of them is not enabled. -/
def run : S → List L → Option S
  | s, [] => some s
  | s, l :: ls => (T.step s l).bind fun s' => run s' ls

def Reachable (s : S) : Prop := ∃ s₀ ls, T.init s₀ ∧ T.run s₀ ls = some s

/-- Every step of the run over `ls` satisfies `Q`. -/
def Along (Q : S → L → S → Prop) : S → List L → Prop
  | _, [] => True
  | s, l :: ls => ∀ s', T.step s l = some s' → Q s l s' ∧ Along Q s' ls

/-- Every step of the run is taken in a state that meets `C`. -/
def Meets (C : S → L → Prop) : S → List L → Prop := T.Along fun s l _ => C s l

structure Inductive (P : S → Prop) : Prop where
  init : ∀ s, T.init s → P s
  step : ∀ s l s', P s → T.step s l = some s' → P s'

/-- `P` is kept by the steps that meet `C`. -/
def Guarded (C : S → L → Prop) (P : S → Prop) : Prop :=
  ∀ s l s', P s → C s l → T.step s l = some s' → P s'

variable {T}

@[simp] theorem run_nil (s : S) : T.run s [] = some s := rfl

theorem run_cons {s s' : S} {l : L} {ls : List L} :
    T.run s (l :: ls) = some s' ↔ ∃ s₁, T.step s l = some s₁ ∧ T.run s₁ ls = some s' := by
  simp only [run, Option.bind_eq_some_iff]

theorem run_append {s s' : S} {ls ls' : List L} :
    T.run s (ls ++ ls') = some s' ↔ ∃ s₁, T.run s ls = some s₁ ∧ T.run s₁ ls' = some s' := by
  induction ls generalizing s with
  | nil => simp
  | cons l ls ih =>
    simp only [List.cons_append, run_cons, ih]
    constructor
    · rintro ⟨s₁, h₁, s₂, h₂, h₃⟩; exact ⟨s₂, ⟨s₁, h₁, h₂⟩, h₃⟩
    · rintro ⟨s₂, ⟨s₁, h₁, h₂⟩, h₃⟩; exact ⟨s₁, h₁, s₂, h₂, h₃⟩

theorem Reachable.init {s : S} (h : T.init s) : T.Reachable s := ⟨s, [], h, rfl⟩

theorem Reachable.step {s s' : S} {l : L} (hr : T.Reachable s) (h : T.step s l = some s') :
    T.Reachable s' := by
  obtain ⟨s₀, ls, h₀, hrun⟩ := hr
  refine ⟨s₀, ls ++ [l], h₀, run_append.mpr ⟨s, hrun, ?_⟩⟩
  simp [run, h]

/-! ## Invariants -/

theorem Guarded.run {C : S → L → Prop} {P : S → Prop} (h : T.Guarded C P) {s s' : S}
    {ls : List L} (hs : P s) (hC : T.Meets C s ls) (hr : T.run s ls = some s') : P s' := by
  induction ls generalizing s with
  | nil => simp only [run_nil, Option.some.injEq] at hr; exact hr ▸ hs
  | cons l ls ih =>
    obtain ⟨s₁, h₁, hr⟩ := run_cons.mp hr
    obtain ⟨hc, hC⟩ := hC s₁ h₁
    exact ih (h s l s₁ hs hc h₁) hC hr

theorem meets_true (s : S) (ls : List L) : T.Meets (fun _ _ => True) s ls := by
  induction ls generalizing s with
  | nil => trivial
  | cons l ls ih => exact fun s' _ => ⟨trivial, ih s'⟩

theorem Inductive.run {P : S → Prop} (h : T.Inductive P) {s s' : S} {ls : List L} (hs : P s)
    (hr : T.run s ls = some s') : P s' :=
  Guarded.run (C := fun _ _ => True) (fun s l s' hp _ hst => h.step s l s' hp hst) hs
    (meets_true s ls) hr

theorem Inductive.reachable {P : S → Prop} (h : T.Inductive P) {s : S} (hr : T.Reachable s) :
    P s := by
  obtain ⟨s₀, ls, h₀, hrun⟩ := hr
  exact h.run (h.init s₀ h₀) hrun

theorem Reachable.map {S' L' : Type} {U : LTS S' L'} (f : S → S')
    (hinit : ∀ s, T.init s → U.init (f s))
    (hstep : ∀ s l s', T.Reachable s → T.step s l = some s' →
      f s' = f s ∨ ∃ l', U.step (f s) l' = some (f s'))
    {s : S} (hr : T.Reachable s) : U.Reachable (f s) := by
  have hind : T.Inductive fun s => T.Reachable s ∧ U.Reachable (f s) := by
    refine ⟨fun s hs => ⟨.init hs, .init (hinit s hs)⟩, fun s l s' hs hst => ?_⟩
    refine ⟨hs.1.step hst, ?_⟩
    rcases hstep s l s' hs.1 hst with he | ⟨l', hl'⟩
    · rw [he]; exact hs.2
    · exact hs.2.step hl'
  exact (hind.reachable hr).2

/-! ## Conditions on the steps of a run -/

/-- What every step does, every step of a run does. -/
theorem along_of_step {Q : S → L → S → Prop} (h : ∀ s l s', T.step s l = some s' → Q s l s') (s : S)
    (ls : List L) : T.Along Q s ls := by
  induction ls generalizing s with
  | nil => trivial
  | cons l ls ih => exact fun s' hst => ⟨h s l s' hst, ih s'⟩

theorem along_cons {Q : S → L → S → Prop} {s s' : S} {l : L} {ls : List L}
    (h : T.step s l = some s') : T.Along Q s (l :: ls) ↔ Q s l s' ∧ T.Along Q s' ls := by
  constructor
  · exact fun ha => ha s' h
  · intro ha s₁ h₁
    obtain rfl := Option.some.inj (h.symm.trans h₁)
    exact ha

theorem meets_cons {C : S → L → Prop} {s s' : S} {l : L} {ls : List L} (h : T.step s l = some s') :
    T.Meets C s (l :: ls) ↔ C s l ∧ T.Meets C s' ls :=
  along_cons h

/-- Where every step keeps `P` exactly when it satisfies `Q`, and `P` does not
come back, a run ends in `P` if it begins there and satisfies `Q` throughout. -/
theorem run_iff_along {P : S → Prop} {Q : S → L → S → Prop}
    (hstep : ∀ s l s', T.step s l = some s' → (P s' ↔ P s ∧ Q s l s')) {s s' : S} {ls : List L}
    (h : T.run s ls = some s') : P s' ↔ P s ∧ T.Along Q s ls := by
  induction ls generalizing s with
  | nil =>
    obtain rfl := Option.some.inj h
    exact (and_iff_left trivial).symm
  | cons l ls ih =>
    obtain ⟨s₁, hst, h⟩ := run_cons.mp h
    rw [ih h, hstep s l s₁ hst, along_cons hst, and_assoc]

theorem along_stuck {Q : S → L → S → Prop} {s : S} {l : L} {ls : List L} (h : T.step s l = none) :
    T.Along Q s (l :: ls) :=
  fun _ hs => absurd (h.symm.trans hs) (Option.some_ne_none _).symm

/-- A run is checked by running it. -/
instance decidableAlong (Q : S → L → S → Prop) [∀ s l s', Decidable (Q s l s')] :
    ∀ s ls, Decidable (T.Along Q s ls)
  | _, [] => .isTrue trivial
  | s, l :: ls =>
    match h : T.step s l with
    | none => .isTrue (along_stuck h)
    | some s' =>
      have := decidableAlong Q s' ls
      decidable_of_iff (Q s l s' ∧ T.Along Q s' ls) (along_cons h).symm

instance decidableMeets (C : S → L → Prop) [∀ s l, Decidable (C s l)] (s : S) (ls : List L) :
    Decidable (T.Meets C s ls) :=
  decidableAlong (fun s l _ => C s l) s ls

theorem meets_and {A C : S → L → Prop} {s : S} {ls : List L} (hA : T.Meets A s ls)
    (hC : T.Meets C s ls) : T.Meets (fun s l => A s l ∧ C s l) s ls := by
  induction ls generalizing s with
  | nil => trivial
  | cons l ls ih =>
    intro s' hst
    obtain ⟨ha, hA⟩ := hA s' hst
    obtain ⟨hc, hC⟩ := hC s' hst
    exact ⟨⟨ha, hc⟩, ih hA hC⟩

/-- Up to a label of a run, at it, and from it on. -/
theorem run_split {s s' : S} {ls₁ ls₂ : List L} {l : L} :
    T.run s (ls₁ ++ l :: ls₂) = some s' ↔
      ∃ s₁ s₂, T.run s ls₁ = some s₁ ∧ T.step s₁ l = some s₂ ∧ T.run s₂ ls₂ = some s' := by
  rw [run_append]
  constructor
  · rintro ⟨s₁, h₁, hrest⟩
    obtain ⟨s₂, hst, h₂⟩ := run_cons.mp hrest
    exact ⟨s₁, s₂, h₁, hst, h₂⟩
  · rintro ⟨s₁, s₂, h₁, hst, h₂⟩
    exact ⟨s₁, h₁, run_cons.mpr ⟨s₂, hst, h₂⟩⟩

/-- Along a run, by its prefixes. -/
theorem along_iff_split {Q : S → L → S → Prop} {s : S} {ls : List L} : T.Along Q s ls ↔
    ∀ ls₁ l ls₂, ls = ls₁ ++ l :: ls₂ → ∀ s₁ s₂, T.run s ls₁ = some s₁ →
      T.step s₁ l = some s₂ → Q s₁ l s₂ := by
  constructor
  · intro h ls₁ l ls₂ hls s₁ s₂ h₁ hst
    subst hls
    induction ls₁ generalizing s with
    | nil =>
      obtain rfl := Option.some.inj h₁
      exact (h s₂ hst).1
    | cons x ls₁ ih =>
      obtain ⟨t, ht, h₁⟩ := run_cons.mp h₁
      exact ih h₁ (h t ht).2
  · intro h
    induction ls generalizing s with
    | nil => trivial
    | cons l ls ih =>
      intro s' hst
      refine ⟨h [] l ls rfl s s' rfl hst, ih fun ls₁ x ls₂ hls s₁ s₂ h₁ hst₁ => ?_⟩
      exact h (l :: ls₁) x ls₂ (by rw [hls]; rfl) s₁ s₂ (run_cons.mpr ⟨s', hst, h₁⟩) hst₁

/-- A condition on labels alone. -/
theorem meets_of_labels {C : S → L → Prop} {ls : List L} (h : ∀ l ∈ ls, ∀ s, C s l) (s : S) :
    T.Meets C s ls := by
  induction ls generalizing s with
  | nil => trivial
  | cons l ls ih =>
    exact fun s' _ =>
      ⟨h l List.mem_cons_self s, ih (fun l hl => h l (List.mem_cons_of_mem _ hl)) s'⟩

/-- Where `I` holds for as long as `C` is met, the first step that breaks `C`
leads from there into `D`, and `D` is never left, a run that does not end in
`D` meets `C` throughout; `J` holds in any case, and all steps satisfy `A`. -/
theorem meets_of_first {I J D : S → Prop} {A C : S → L → Prop}
    (hI : T.Guarded (fun s l => A s l ∧ C s l) I) (hJ : ∀ s l s', J s → T.step s l = some s' → J s')
    (hbad : ∀ s l s', I s → J s → ¬ C s l → T.step s l = some s' → D s')
    (hD : ∀ s l s', J s → D s → T.step s l = some s' → D s') {s s' : S} {ls : List L} (hi : I s)
    (hj : J s) (hA : T.Meets A s ls) (hr : T.run s ls = some s') (hn : ¬ D s') : T.Meets C s ls := by
  have hdown : ∀ {s : S} {ls : List L}, J s → D s → T.run s ls = some s' → D s' := by
    intro s ls hj hd hr
    have hboth : T.Guarded (fun _ _ => True) fun s => J s ∧ D s :=
      fun s l s' h _ hst => ⟨hJ s l s' h.1 hst, hD s l s' h.1 h.2 hst⟩
    exact (hboth.run ⟨hj, hd⟩ (meets_true s ls) hr).2
  induction ls generalizing s with
  | nil => trivial
  | cons l ls ih =>
    intro s₁ hst
    obtain ⟨s₂, hst', hr⟩ := run_cons.mp hr
    obtain rfl : s₁ = s₂ := Option.some.inj (hst.symm.trans hst')
    obtain ⟨ha, hA⟩ := hA s₁ hst
    have hj₁ := hJ s l s₁ hj hst
    have hc : C s l := by
      by_contra hc
      exact hn (hdown hj₁ (hbad s l s₁ hi hj hc hst) hr)
    exact ⟨hc, ih (hI s l s₁ hi ⟨ha, hc⟩ hst) hj₁ hA hr⟩

/-- Where a step that breaks `C` leads into `D`, and `D` is never left, a run
that does not end in `D` meets `C` throughout. -/
theorem meets_of_run {I D : S → Prop} {C : S → L → Prop}
    (hI : ∀ s l s', I s → T.step s l = some s' → I s')
    (hbad : ∀ s l s', I s → ¬ C s l → T.step s l = some s' → D s')
    (hD : ∀ s l s', I s → D s → T.step s l = some s' → D s') {s s' : S} {ls : List L} (hs : I s)
    (hr : T.run s ls = some s') (hn : ¬ D s') : T.Meets C s ls :=
  meets_of_first (I := I) (J := I) (fun s l s' h _ hst => hI s l s' h hst) hI
    (fun s l s' h _ hc hst => hbad s l s' h hc hst) hD hs hs (meets_true s ls) hr hn

/-- Under an invariant `I` kept by the steps that meet `C`, a run whose
every step is `Ok` is a run whose every step meets `C`. -/
theorem along_iff {I : S → Prop} {Ok : S → L → S → Prop} {C : S → L → Prop}
    (hok : ∀ s l s', I s → T.step s l = some s' → (Ok s l s' ↔ C s l)) (hI : T.Guarded C I)
    {s : S} (hs : I s) (ls : List L) : T.Along Ok s ls ↔ T.Meets C s ls := by
  induction ls generalizing s with
  | nil => exact Iff.rfl
  | cons l ls ih =>
    constructor
    · intro h s' hst
      have hc : C s l := (hok s l s' hs hst).mp (h s' hst).1
      exact ⟨hc, (ih (hI s l s' hs hc hst)).mp (h s' hst).2⟩
    · intro h s' hst
      have hc : C s l := (h s' hst).1
      exact ⟨(hok s l s' hs hst).mpr hc, (ih (hI s l s' hs hc hst)).mpr (h s' hst).2⟩

end LTS
end SystemServer
