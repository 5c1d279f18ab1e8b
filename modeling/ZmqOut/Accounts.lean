import Mathlib.Data.List.Forall2
import ZmqOut.Runs

/-!
What the steps of a run take in and give out. Where every step accounts for what
it gives out by what it takes in and by what the state owes before and after it, so
does every run, whatever is taken for equal: the same entries in the same order,
in any order, or some of them left out.
-/
namespace ZmqOut.Accounts
open ZmqOut.Runs
universe u v w x
variable {State : Type u} {Action : Type v} {Entry : Type w} {Kept : Type x}

/-- A relation between lists that goes with appending. -/
structure Appends (rel : List Entry → List Entry → Prop) : Prop where
  refl : ∀ l, rel l l
  trans : ∀ {l m n}, rel l m → rel m n → rel l n
  append : ∀ {l l' m m'}, rel l l' → rel m m' → rel (l ++ m) (l' ++ m')

theorem appends_eq : Appends (Eq (α := List Entry)) :=
  ⟨fun _ => rfl,Eq.trans,fun first second => first ▸ second ▸ rfl⟩

theorem appends_sublist : Appends (List.Sublist (α := Entry)) :=
  ⟨List.Sublist.refl,List.Sublist.trans,List.Sublist.append⟩

/-- A preorder of numbers that goes with adding. -/
structure Adds (rel : Nat → Nat → Prop) : Prop where
  refl : ∀ n, rel n n
  trans : ∀ {l m n}, rel l m → rel m n → rel l n
  add : ∀ {m n} k, rel m n → rel (m + k) (n + k)

theorem adds_eq : Adds Eq := ⟨fun _ => rfl,Eq.trans,fun _ same => same ▸ rfl⟩

theorem adds_le : Adds LE.le := ⟨Nat.le_refl,Nat.le_trans,fun k small => Nat.add_le_add_right small k⟩

section
variable {step : State → Action → Option State} {ok : State → Action → Prop} {Inv : State → Prop}

/-- Where each permitted step gives out, in the sense of the relation, what was owed before it
    and what it takes in, less what is owed after it, a run of permitted steps does. -/
theorem run_balanced {rel : List Entry → List Entry → Prop} (appends : Appends rel) (owed : State → List Entry)
    {gained paid : State → Action → List Entry}
    (kept : ∀ s a t, Inv s → ok s a → step s a = some t → Inv t)
    (balanced : ∀ s a t, Inv s → ok s a → step s a = some t → rel (paid s a ++ owed t) (owed s ++ gained s a))
    {s t : State} {actions : List Action} (inv : Inv s) (meets : Meets step ok s actions)
    (executed : run step s actions = some t) :
    rel (trace step paid s actions ++ owed t) (owed s ++ trace step gained s actions) := by
  induction actions generalizing s with
  | nil =>
    cases executed
    simpa [trace] using appends.refl (owed t)
  | cons a rest ih =>
    obtain ⟨u,first,later⟩ := run_cons_some.mp executed
    have here := balanced s a u inv meets.1 first
    have onward := ih (kept s a u inv meets.1 first) (meets.2 u first) later
    simp only [trace,first,List.append_assoc]
    refine appends.trans (appends.append (appends.refl (paid s a)) onward) ?_
    simpa only [List.append_assoc] using appends.append here (appends.refl (trace step gained u rest))

/-- Where every permitted step takes as many off a measure as it shows things, in the sense of the
    relation, so does a run of permitted steps. -/
theorem run_spent {rel : Nat → Nat → Prop} (adds : Adds rel) (measure : State → Nat)
    {observe : State → Action → List Entry} (kept : ∀ s a t, Inv s → ok s a → step s a = some t → Inv t)
    (spent : ∀ s a t, Inv s → ok s a → step s a = some t → rel (measure t + (observe s a).length) (measure s))
    {s t : State} {actions : List Action} (inv : Inv s) (meets : Meets step ok s actions)
    (executed : run step s actions = some t) : rel (measure t + (trace step observe s actions).length) (measure s) := by
  induction actions generalizing s with
  | nil =>
    cases executed
    exact adds.refl (measure t)
  | cons a rest ih =>
    obtain ⟨u,first,later⟩ := run_cons_some.mp executed
    have here := spent s a u inv meets.1 first
    have onward := ih (kept s a u inv meets.1 first) (meets.2 u first) later
    have split : measure t + (trace step observe s (a :: rest)).length =
        measure t + (trace step observe u rest).length + (observe s a).length := by
      simp only [trace,first,List.length_append]
      omega
    rw [split]
    exact adds.trans (adds.add _ onward) here

theorem length_chosen (chosen : Action → Bool) (actions : List Action) :
    (actions.flatMap fun a => if chosen a then [a] else []).length = actions.countP chosen := by
  induction actions with
  | nil => rfl
  | cons a rest ih =>
    rw [List.flatMap_cons,List.length_append,ih,List.countP_cons,Nat.add_comm]
    by_cases taken : chosen a <;> simp [taken]

/-- The same rule where the actions tell which of them spends one. -/
theorem run_measured {rel : Nat → Nat → Prop} (adds : Adds rel) (measure : State → Nat) {spends : Action → Bool}
    (kept : ∀ s a t, Inv s → ok s a → step s a = some t → Inv t)
    (measured : ∀ s a t, Inv s → ok s a → step s a = some t → rel (measure t + if spends a then 1 else 0) (measure s))
    {s t : State} {actions : List Action} (inv : Inv s) (meets : Meets step ok s actions)
    (executed : run step s actions = some t) : rel (measure t + actions.countP spends) (measure s) := by
  have spent : ∀ s a t, Inv s → ok s a → step s a = some t →
      rel (measure t + (if spends a then [a] else []).length) (measure s) := by
    intro s a t inv permitted taken
    have here := measured s a t inv permitted taken
    rwa [apply_ite List.length]
  have total := run_spent adds measure kept spent inv meets executed
  rwa [trace_actions executed,length_chosen] at total

/-- What follows from the observations of a run follows from those of its steps. -/
theorem trace_flatMap {observe : State → Action → List Entry} (derive : Entry → List Kept) (s : State)
    (actions : List Action) : (trace step observe s actions).flatMap derive =
      trace step (fun s a => (observe s a).flatMap derive) s actions := by
  induction actions generalizing s with
  | nil => rfl
  | cons a rest ih =>
    rw [trace,trace,List.flatMap_append]
    cases step s a with
    | none => rfl
    | some t => rw [ih t]

/-- Two observations that every step makes in pairs a run makes in pairs. -/
theorem run_paired {rel : Entry → Kept → Prop} {first : State → Action → List Entry} {second : State → Action → List Kept}
    (paired : ∀ s a t, step s a = some t → List.Forall₂ rel (first s a) (second s a)) {s t : State}
    {actions : List Action} (executed : run step s actions = some t) :
    List.Forall₂ rel (trace step first s actions) (trace step second s actions) := by
  induction actions generalizing s with
  | nil => exact .nil
  | cons a rest ih =>
    obtain ⟨u,taken,later⟩ := run_cons_some.mp executed
    rw [trace,trace,taken]
    exact List.rel_append (paired s a u taken) (ih later)

theorem trace_filterMap {observe : State → Action → List Entry} (keep : Entry → Option Kept) (s : State)
    (actions : List Action) : (trace step observe s actions).filterMap keep =
      trace step (fun s a => (observe s a).filterMap keep) s actions := by
  simp only [List.filterMap_eq_flatMap_toList]
  exact trace_flatMap (fun entry => (keep entry).toList) s actions

theorem trace_map {observe : State → Action → List Entry} (f : Entry → Kept) (s : State) (actions : List Action) :
    (trace step observe s actions).map f = trace step (fun s a => (observe s a).map f) s actions := by
  simp only [List.map_eq_flatMap]
  exact trace_flatMap (fun entry => [f entry]) s actions

end
end ZmqOut.Accounts
