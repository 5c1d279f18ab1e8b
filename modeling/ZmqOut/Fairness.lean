import Mathlib.Order.Filter.AtTopBot.Basic
import Mathlib.Order.Filter.Finite
import Mathlib.Order.Interval.Finset.Nat
import ZmqOut.Runs

/-!
Runs that never end, in which time may also pass without an action. What every step keeps
holds from then on; and where the steps of one kind come again and again until the run
rests, a measure that each of them lowers and no other step raises leads to a state where
it rests.
-/
namespace ZmqOut.Fairness
open ZmqOut.Runs
universe u v
variable {State : Type u} {Action : Type v}

/-- At every point in time an action is taken or, where there is none, the state stays. -/
structure Endless (step : State → Action → Option State) where
  state : Nat → State
  action : Nat → Option Action
  taken : ∀ i a, action i = some a → step (state i) a = some (state (i + 1))
  stays : ∀ i, action i = none → state (i + 1) = state i

namespace Endless
variable {step : State → Action → Option State} {ok : State → Action → Prop} {Inv Rests : State → Prop}
  {chosen : Action → Bool}

/-- Until it rests there is always another chosen action to come. -/
def Fair (r : Endless step) (chosen : Action → Bool) (Rests : State → Prop) : Prop :=
  ∀ i, ¬ Rests (r.state i) → ∃ j, i ≤ j ∧ (r.action j).any chosen

theorem reached (r : Endless step) (i : Nat) : ∃ actions, run step (r.state 0) actions = some (r.state i) := by
  induction i with
  | zero => exact ⟨[],rfl⟩
  | succ i ih =>
    obtain ⟨actions,executed⟩ := ih
    cases action : r.action i with
    | none => exact ⟨actions,by rw [r.stays i action]; exact executed⟩
    | some a =>
      refine ⟨actions ++ [a],run_append_some.mpr ⟨r.state i,executed,?_⟩⟩
      rw [run_taken (r.taken i a action),run_nil]

/-- What every permitted step keeps holds from then on. -/
theorem keeps (r : Endless step) {i : Nat} (kept : ∀ s a t, Inv s → ok s a → step s a = some t → Inv t)
    (inv : Inv (r.state i)) (meets : ∀ j a, i ≤ j → r.action j = some a → ok (r.state j) a) {j : Nat} (later : i ≤ j) :
    Inv (r.state j) := by
  induction later with
  | refl => exact inv
  | @step j later ih =>
    cases action : r.action j with
    | none =>
      rw [r.stays j action]
      exact ih
    | some a => exact kept _ _ _ ih (meets j a later action) (r.taken j a action)

theorem leads_to (r : Endless step) (measure : State → Nat) {i : Nat} (fair : r.Fair chosen Rests)
    (spent : ∀ j a, i ≤ j → r.action j = some a → ¬ Rests (r.state j) →
      measure (r.state (j + 1)) + (if chosen a then 1 else 0) ≤ measure (r.state j)) :
    ∃ j, i ≤ j ∧ Rests (r.state j) := by
  generalize start : measure (r.state i) = n
  induction n using Nat.strong_induction_on generalizing i with
  | _ n ih =>
    by_contra never
    have restless : ∀ j, i ≤ j → ¬ Rests (r.state j) := fun j later rests => never ⟨j,later,rests⟩
    have here : ∀ j, i ≤ j → measure (r.state (j + 1)) + (if (r.action j).any chosen then 1 else 0) ≤ measure (r.state j) := by
      intro j later
      cases action : r.action j with
      | none =>
        rw [r.stays j action]
        exact Nat.le_refl _
      | some a => exact spent j a later action (restless j later)
    have lower : ∀ j, i ≤ j → measure (r.state j) ≤ n := by
      intro j later
      induction later with
      | refl => exact Nat.le_of_eq start
      | @step j later below =>
        exact Nat.le_trans (Nat.le_trans (Nat.le_add_right _ _) (here j later)) below
    -- The next chosen action lowers the measure, and the search begins again behind it.
    obtain ⟨j,later,takes⟩ := fair i (restless i (Nat.le_refl i))
    have next := here j later
    have below := lower j later
    rw [if_pos takes] at next
    have smaller : measure (r.state (j + 1)) < n := by omega
    obtain ⟨m,onward,rests⟩ := ih _ smaller (fun m a onward => spent m a (by omega)) rfl
    exact restless m (by omega) rests

/-- What holds of each of finitely many things from some point on holds of all of them from some point on. -/
theorem eventually_all {Holds : Nat → Nat → Prop} (count : Nat) (each : ∀ k, k < count → ∃ i, ∀ j, i ≤ j → Holds k j) :
    ∃ i, ∀ j, i ≤ j → ∀ k, k < count → Holds k j := by
  have limits : ∀ k ∈ Set.Iio count, ∀ᶠ j in Filter.atTop, Holds k j :=
    fun k inside => Filter.eventually_atTop.mpr (each k inside)
  exact Filter.eventually_atTop.mp ((Filter.eventually_all_finite (Set.finite_Iio count)).mpr limits)

/-! ### Runs after which nothing happens -/

/-- A run to a state, and no action from then on. -/
def halting {s t : State} {actions : List Action} (executed : run step s actions = some t) : Endless step where
  state i := (run step s (actions.take i)).getD t
  action i := actions[i]?
  taken i a action := by
    obtain ⟨inside,rfl⟩ := List.getElem?_eq_some_iff.mp action
    have split : actions = actions.take (i + 1) ++ actions.drop (i + 1) := (List.take_append_drop _ _).symm
    rw [split] at executed
    obtain ⟨u,before,-⟩ := run_append_some.mp executed
    rw [List.take_succ_eq_append_getElem inside] at before
    obtain ⟨v,earlier,taken⟩ := run_append_some.mp before
    rw [List.take_succ_eq_append_getElem inside,before,earlier]
    obtain ⟨w,first,last⟩ := run_cons_some.mp taken
    cases last
    exact first
  stays i action := by
    have beyond := List.getElem?_eq_none_iff.mp action
    rw [List.take_of_length_le beyond,List.take_of_length_le (Nat.le_succ_of_le beyond)]

theorem halting_beyond {s t : State} {actions : List Action} (executed : run step s actions = some t) {i : Nat}
    (beyond : actions.length ≤ i) : (halting executed).state i = t := by
  change (run step s (actions.take i)).getD t = t
  rw [List.take_of_length_le beyond,executed,Option.getD_some]

/-- A run is fair whose last chosen action leads to where it rests. -/
theorem fair_of_last (r : Endless step) (last : Nat) (takes : (r.action last).any chosen)
    (rests : ∀ i, last < i → Rests (r.state i)) : r.Fair chosen Rests := by
  intro i restless
  exact ⟨last,Nat.le_of_not_lt fun later => restless (rests i later),takes⟩

end Endless
end ZmqOut.Fairness
