import SystemServer.Core.LTS

/-!
# An object that is made, used and given back

A function makes an object, calls other functions on it, stops at the first
that fails, and gives the object back. `bracket` is the list of the calls it
makes. Read as steps of `lts`, where an object can be used or given back only
while there is one, they are a run that leaves none behind (`bracket_run`),
whatever fails.
-/
namespace SystemServer.Bracket

variable {E : Type}

inductive Ev where
  | make (ok : Bool)
  | use
  | free
  deriving DecidableEq, Repr

/-- The state says whether there is an object. -/
def step : Bool → Ev → Option Bool
  | false, .make ok => some ok
  | true, .use => some true
  | true, .free => some false
  | _, _ => none

def lts : LTS Bool Ev := ⟨fun b => b = false, step⟩

/-- The calls up to the first that fails, and whether none did. -/
def attempt (ok : E → Bool) : List E → List E × Bool
  | [] => ([], true)
  | e :: es => if ok e then (e :: (attempt ok es).1, (attempt ok es).2) else ([e], false)

/-- The calls made: `es` as far as they go, `last` after all of them, and the
object is given back. -/
def bracket (ok : E → Bool) (make free : E) (es last : List E) : List E :=
  if ok make then
    make :: (attempt ok es).1 ++ (if (attempt ok es).2 then last else []) ++ [free]
  else [make]

theorem attempt_initial (ok : E → Bool) (es : List E) : (attempt ok es).1 <+: es := by
  induction es with
  | nil => exact List.prefix_refl []
  | cons e es ih =>
    unfold attempt
    split
    · exact List.prefix_cons_inj e |>.mpr ih
    · exact ⟨es, rfl⟩

theorem attempt_all (ok : E → Bool) (es : List E) :
    (attempt ok es).2 = true ↔ ∀ e ∈ es, ok e = true := by
  induction es with
  | nil => simp [attempt]
  | cons e es ih =>
    unfold attempt
    split
    · rename_i h
      simp [h, ih]
    · rename_i h
      simp [h]

theorem attempt_of_all {ok : E → Bool} {es : List E} (h : ∀ e ∈ es, ok e = true) :
    (attempt ok es).1 = es := by
  induction es with
  | nil => rfl
  | cons e es ih =>
    rw [attempt, if_pos (h e List.mem_cons_self), ih fun x hx => h x (List.mem_cons_of_mem _ hx)]

/-- What a call is to the object. -/
def ev [DecidableEq E] (ok : E → Bool) (make free : E) (e : E) : Ev :=
  if e = make then .make (ok e) else if e = free then .free else .use

theorem uses_run [DecidableEq E] (ok : E → Bool) {make free : E} {es : List E}
    (h : ∀ e ∈ es, e ≠ make ∧ e ≠ free) : lts.run true (es.map (ev ok make free)) = some true := by
  induction es with
  | nil => rfl
  | cons e es ih =>
    have he := h e List.mem_cons_self
    refine LTS.run_cons.mpr ⟨true, ?_, ih fun x hx => h x (List.mem_cons_of_mem _ hx)⟩
    rw [ev, if_neg he.1, if_neg he.2]
    rfl

/-- **Nothing is left behind**, nothing used that is not there, and nothing given
back twice. -/
theorem bracket_run [DecidableEq E] (ok : E → Bool) {make free : E} {es last : List E}
    (hne : free ≠ make) (hes : ∀ e ∈ es, e ≠ make ∧ e ≠ free)
    (hlast : ∀ e ∈ last, e ≠ make ∧ e ≠ free) :
    lts.run false ((bracket ok make free es last).map (ev ok make free)) = some false := by
  unfold bracket
  split
  · rename_i hok
    rw [List.cons_append, List.cons_append, List.map_cons, List.map_append]
    refine LTS.run_cons.mpr ⟨true, by simp [lts, step, ev, hok], LTS.run_append.mpr ⟨true, ?_, ?_⟩⟩
    · refine uses_run ok fun e he => ?_
      rcases List.mem_append.mp he with he | he
      · exact hes e ((attempt_initial ok es).subset he)
      · split at he
        · exact hlast e he
        · cases he
    · simp [LTS.run, lts, step, ev, hne]
  · rename_i hok
    simp [LTS.run, lts, step, ev, hok]

end SystemServer.Bracket
