import Mathlib.Data.List.Basic

/-!
Runs of a machine given by a partial step function. An action that leads
nowhere cannot be taken, so every nondeterministic choice is an action of its
own and a run is determined by its list of actions. The rules lift what one
step preserves to whole runs, to the observations collected along them and to
a second machine that performs every step by a run of its own.
-/
namespace ZmqOut.Runs
universe u v w x
variable {State : Type u} {Action : Type v}

/-- The state after all actions, when every one of them can be taken. -/
def run (step : State → Action → Option State) : State → List Action → Option State
  | s, [] => some s
  | s, a :: rest => (step s a).bind fun t => run step t rest

/-- Every action of the run is taken in a state where `ok` permits it. -/
def Meets (step : State → Action → Option State) (ok : State → Action → Prop) : State → List Action → Prop
  | _, [] => True
  | s, a :: rest => ok s a ∧ ∀ t, step s a = some t → Meets step ok t rest

/-- What the steps of a run show, in order. -/
def trace {Observation : Type w} (step : State → Action → Option State)
    (observe : State → Action → List Observation) : State → List Action → List Observation
  | _, [] => []
  | s, a :: rest => observe s a ++ match step s a with
    | some t => trace step observe t rest
    | none => []

/-- The states that a run from `s` visits before, between and after its actions. -/
def Visits (step : State → Action → Option State) (s : State) (actions : List Action) (u : State) : Prop :=
  ∃ before after, actions = before ++ after ∧ run step s before = some u

section
variable {step : State → Action → Option State}

@[simp] theorem run_nil (s : State) : run step s [] = some s := rfl

@[simp] theorem run_cons (s : State) (a : Action) (rest : List Action) :
    run step s (a :: rest) = (step s a).bind fun t => run step t rest := rfl

/-- The run goes on from where its first action leads. -/
theorem run_taken {s t : State} {a : Action} (taken : step s a = some t) (rest : List Action) :
    run step s (a :: rest) = run step t rest := by
  rw [run_cons,taken,Option.bind_some]

theorem run_cons_some {s t : State} {a : Action} {rest : List Action} :
    run step s (a :: rest) = some t ↔ ∃ u, step s a = some u ∧ run step u rest = some t := by
  simp [Option.bind_eq_some_iff]

theorem run_append (s : State) (before after : List Action) :
    run step s (before ++ after) = (run step s before).bind fun t => run step t after := by
  induction before generalizing s with
  | nil => rfl
  | cons a rest ih =>
    rw [List.cons_append,run_cons,run_cons,Option.bind_assoc]
    exact congrArg _ (funext fun t => ih t)

theorem run_append_some {s t : State} {before after : List Action} :
    run step s (before ++ after) = some t ↔
      ∃ u, run step s before = some u ∧ run step u after = some t := by
  rw [run_append,Option.bind_eq_some_iff]

theorem meets_append {ok : State → Action → Prop} {s u : State} {before after : List Action}
    (meets : Meets step ok s (before ++ after)) (executed : run step s before = some u) :
    Meets step ok s before ∧ Meets step ok u after := by
  induction before generalizing s with
  | nil => cases executed; exact ⟨trivial,meets⟩
  | cons a rest ih =>
    obtain ⟨t,first,later⟩ := run_cons_some.mp executed
    obtain ⟨permitted,onward⟩ := meets
    refine ⟨⟨permitted,?_⟩,(ih (onward t first) later).2⟩
    intro t' same
    rw [first] at same
    cases same
    exact (ih (onward t first) later).1

theorem meets_cons {ok : State → Action → Prop} {s t : State} {a : Action} {rest : List Action} (permitted : ok s a)
    (taken : step s a = some t) (onward : Meets step ok t rest) : Meets step ok s (a :: rest) := by
  refine ⟨permitted,?_⟩
  intro t' taken'
  rw [taken] at taken'
  cases taken'
  exact onward

/-- A condition on the actions alone holds along the run wherever it starts. -/
theorem meets_of_forall {ok : State → Action → Prop} {actions : List Action}
    (every : ∀ a ∈ actions, ∀ s, ok s a) (s : State) : Meets step ok s actions := by
  induction actions generalizing s with
  | nil => trivial
  | cons a rest ih =>
    exact ⟨every a (by simp) s,fun t _ => ih (fun b member => every b (by simp [member])) t⟩

/-- What every permitted step preserves holds after a run of permitted steps. -/
theorem run_invariant {ok : State → Action → Prop} {Holds : State → Prop}
    (preserved : ∀ s a t, Holds s → ok s a → step s a = some t → Holds t)
    {s t : State} {actions : List Action} (start : Holds s) (meets : Meets step ok s actions)
    (executed : run step s actions = some t) : Holds t := by
  induction actions generalizing s with
  | nil => cases executed; exact start
  | cons a rest ih =>
    obtain ⟨u,first,later⟩ := run_cons_some.mp executed
    exact ih (preserved s a u start meets.1 first) (meets.2 u first) later

/-- Conditions that agree on every step agree on every run. -/
theorem meets_congr {ok ok' : State → Action → Prop} (same : ∀ s a, ok s a ↔ ok' s a) {s : State}
    {actions : List Action} : Meets step ok s actions ↔ Meets step ok' s actions := by
  induction actions generalizing s with
  | nil => exact Iff.rfl
  | cons a rest ih =>
    constructor
    · rintro ⟨permitted,onward⟩
      exact ⟨(same s a).mp permitted,fun t taken => ih.mp (onward t taken)⟩
    · rintro ⟨permitted,onward⟩
      exact ⟨(same s a).mpr permitted,fun t taken => ih.mpr (onward t taken)⟩

/-- Where permitted steps preserve what is good and every other step destroys it, a run
    stays good exactly as long as its steps are permitted. -/
theorem visits_iff_meets (Inv : State → Prop) {Good : State → Prop} {ok : State → Action → Prop}
    (kept : ∀ s a t, Inv s → step s a = some t → Inv t)
    (preserved : ∀ s a t, Inv s → Good s → ok s a → step s a = some t → Good t)
    (destroyed : ∀ s a, Inv s → Good s → ¬ ok s a → ∃ t, step s a = some t ∧ ¬ Good t)
    {s : State} {actions : List Action} (inv : Inv s) (good : Good s) :
    (∀ u, Visits step s actions u → Good u) ↔ Meets step ok s actions := by
  induction actions generalizing s with
  | nil =>
    refine ⟨fun _ => trivial,?_⟩
    rintro - u ⟨before,after,split,executed⟩
    obtain ⟨rfl,rfl⟩ := List.append_eq_nil_iff.mp split.symm
    cases executed
    exact good
  | cons a rest ih =>
    constructor
    · intro visited
      refine ⟨?_,?_⟩
      · by_contra excluded
        obtain ⟨t,taken,bad⟩ := destroyed s a inv good excluded
        exact bad (visited t ⟨[a],rest,rfl,by rw [run_taken taken,run_nil]⟩)
      · intro t taken
        have good' : Good t := visited t ⟨[a],rest,rfl,by rw [run_taken taken,run_nil]⟩
        refine (ih (kept s a t inv taken) good').mp ?_
        rintro u ⟨before,after,rfl,executed⟩
        exact visited u ⟨a :: before,after,rfl,by rw [run_taken taken]; exact executed⟩
    · rintro ⟨permitted,onward⟩ u ⟨before,after,split,executed⟩
      cases before with
      | nil => cases executed; exact good
      | cons b before =>
        obtain ⟨rfl,rfl⟩ := List.cons.inj split
        obtain ⟨t,taken,later⟩ := run_cons_some.mp executed
        have good' := preserved s a t inv good permitted taken
        exact (ih (kept s a t inv taken) good').mpr (onward t taken) u ⟨before,after,rfl,later⟩

/-- What every step preserves holds after every run. -/
theorem run_preserved {Holds : State → Prop} (preserved : ∀ s a t, Holds s → step s a = some t → Holds t)
    {s t : State} {actions : List Action} (start : Holds s) (executed : run step s actions = some t) : Holds t :=
  run_invariant (fun s a t holds _ taken => preserved s a t holds taken) start
    (meets_of_forall (fun _ _ _ => trivial) s) executed

/-- The same rule for a property of the observations made so far. -/
theorem run_history {Observation : Type w} {ok : State → Action → Prop}
    {observe : State → Action → List Observation} {Holds : List Observation → State → Prop}
    (preserved : ∀ seen s a t, Holds seen s → ok s a → step s a = some t → Holds (seen ++ observe s a) t)
    {s t : State} {actions : List Action} (seen : List Observation) (start : Holds seen s)
    (meets : Meets step ok s actions) (executed : run step s actions = some t) :
    Holds (seen ++ trace step observe s actions) t := by
  induction actions generalizing s seen with
  | nil => cases executed; simpa [trace] using start
  | cons a rest ih =>
    obtain ⟨u,first,later⟩ := run_cons_some.mp executed
    have onward := ih (seen ++ observe s a) (preserved seen s a u start meets.1 first) (meets.2 u first) later
    simpa [trace,first,List.append_assoc] using onward

/-- Observations that depend on the actions alone are those of every action. -/
theorem trace_actions {Observation : Type w} {observe : Action → List Observation} {s t : State}
    {actions : List Action} (executed : run step s actions = some t) :
    trace step (fun _ a => observe a) s actions = actions.flatMap observe := by
  induction actions generalizing s with
  | nil => rfl
  | cons a rest ih =>
    obtain ⟨u,first,later⟩ := run_cons_some.mp executed
    rw [trace,first,List.flatMap_cons]
    exact congrArg _ (ih later)

/-- Where every step is performed by a second machine through known actions, a whole
    run is performed through those actions in their order. -/
theorem run_performed {State' : Type w} {Action' : Type x} {step' : State' → Action' → Option State'}
    {image : State → State'} {actions' : State → Action → List Action'}
    (performed : ∀ s a t, step s a = some t → run step' (image s) (actions' s a) = some (image t))
    {s t : State} {actions : List Action} (executed : run step s actions = some t) :
    run step' (image s) (trace step actions' s actions) = some (image t) := by
  induction actions generalizing s with
  | nil => cases executed; rfl
  | cons a rest ih =>
    obtain ⟨u,first,later⟩ := run_cons_some.mp executed
    rw [trace,first]
    exact run_append_some.mpr ⟨image u,performed s a u first,ih later⟩

/-- The same rule where related states take the place of an image. -/
theorem run_related {State' : Type w} {Action' : Type x} {step' : State' → Action' → Option State'}
    {R : State' → State → Prop} {actions' : State → Action → List Action'}
    (related : ∀ u s a t, R u s → step s a = some t → ∃ v, run step' u (actions' s a) = some v ∧ R v t)
    {u : State'} {s t : State} {actions : List Action} (start : R u s) (executed : run step s actions = some t) :
    ∃ v, run step' u (trace step actions' s actions) = some v ∧ R v t := by
  induction actions generalizing u s with
  | nil =>
    cases executed
    exact ⟨u,rfl,start⟩
  | cons a rest ih =>
    obtain ⟨r,first,later⟩ := run_cons_some.mp executed
    obtain ⟨w,here,between⟩ := related u s a r start first
    obtain ⟨v,onward,finish⟩ := ih between later
    rw [trace,first]
    exact ⟨v,run_append_some.mpr ⟨w,here,onward⟩,finish⟩

/-- A machine whose every step another machine performs by a run of its own is
    performed by it over whole runs. -/
theorem run_simulated {State' : Type w} {Action' : Type x} {step' : State' → Action' → Option State'}
    {image : State → State'}
    (performed : ∀ s a t, step s a = some t → ∃ actions, run step' (image s) actions = some (image t))
    {s t : State} {actions : List Action} (executed : run step s actions = some t) :
    ∃ actions', run step' (image s) actions' = some (image t) := by
  induction actions generalizing s with
  | nil => cases executed; exact ⟨[],rfl⟩
  | cons a rest ih =>
    obtain ⟨u,first,later⟩ := run_cons_some.mp executed
    obtain ⟨head,headRun⟩ := performed s a u first
    obtain ⟨tail,tailRun⟩ := ih later
    exact ⟨head ++ tail,run_append_some.mpr ⟨image u,headRun,tailRun⟩⟩

end
end ZmqOut.Runs
