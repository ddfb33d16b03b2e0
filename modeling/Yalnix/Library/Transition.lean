import Mathlib.Logic.Basic
import Mathlib.Tactic.SplitIfs

/-! Labelled transition systems whose step may stop the machine. A run only
follows steps that return a state; what a stop means is left to the system. -/
namespace Transition

universe u v w

variable {State : Type u} {Label : Type v} {Stop : Type w}

/-- Taking apart a step that is written as a computation with early stops. -/
theorem bind_eq_ok {α β : Type u} {first : Except Stop α} {rest : α → Except Stop β} {b : β} :
    (first >>= rest) = .ok b ↔ ∃ a, first = .ok a ∧ rest a = .ok b := by
  cases first with
  | error stop => simp [bind, Except.bind]
  | ok a => simp [bind, Except.bind]

/-- The computation stops. -/
def Fails {α : Type u} (r : Except Stop α) : Prop := ∃ stop, r = .error stop

@[simp] theorem not_fails_ok {α : Type u} (a : α) : ¬Fails (.ok a : Except Stop α) := nofun

@[simp] theorem fails_error {α : Type u} (stop : Stop) : Fails (.error stop : Except Stop α) := ⟨stop, rfl⟩

theorem fails_iff_forall {α : Type u} {r : Except Stop α} : Fails r ↔ ∀ a, r ≠ .ok a := by
  cases r with
  | error stop => simp
  | ok a => simp

/-- A computation stops in its first part or in its second. -/
theorem fails_bind {α β : Type u} {first : Except Stop α} {rest : α → Except Stop β} :
    Fails (first >>= rest) ↔ Fails first ∨ ∃ a, first = .ok a ∧ Fails (rest a) := by
  cases first with
  | error stop => simp [Fails, bind, Except.bind]
  | ok a => simp [Fails, bind, Except.bind]

/-- If the computation stops, it is for one of some reasons. -/
def StopsOnly {α : Type u} (reasons : Stop → Prop) (r : Except Stop α) : Prop := ∀ stop, r = .error stop → reasons stop

theorem StopsOnly.bind {α β : Type u} {reasons : Stop → Prop} {first : Except Stop α} {rest : α → Except Stop β}
    (hFirst : StopsOnly reasons first) (hRest : ∀ a, StopsOnly reasons (rest a)) :
    StopsOnly reasons (first >>= rest) := by
  cases first with
  | error stop => exact fun other h => hFirst other (congrArg Except.error (Except.error.inj h))
  | ok a => exact hRest a

theorem StopsOnly.ok {α : Type u} {reasons : Stop → Prop} (a : α) : StopsOnly reasons (.ok a : Except Stop α) := nofun

/-- The state a step returns, as something that can be searched for. -/
theorem mem_toOption {α : Type u} {step : Except Stop α} {a : α} : a ∈ step.toOption ↔ step = .ok a := by
  cases step with
  | error stop => simp [Except.toOption]
  | ok b => simp [Except.toOption]

/-- An executable step function together with the states a run may start in. -/
structure System (State : Type u) (Label : Type v) (Stop : Type w) where
  initial : State → Prop
  step : State → Label → Except Stop State

/-- The states of all runs every step of which is `allowed` in the state it is
taken from. Nothing is required of the step that ends a run in a stop. -/
inductive System.Reach (sys : System State Label Stop) (allowed : State → Label → Prop) :
    State → Prop where
  | initial {s : State} (start : sys.initial s) : Reach sys allowed s
  | step {s t : State} {label : Label} (prior : Reach sys allowed s)
      (hAllowed : allowed s label) (last : sys.step s label = .ok t) : Reach sys allowed t

/-- The states of all runs, with no condition on their steps. -/
def System.Reachable (sys : System State Label Stop) : State → Prop :=
  sys.Reach fun _ _ => True

namespace System.Reach

variable {sys : System State Label Stop} {allowed weaker : State → Label → Prop}

/-- The invariant rule. The step may use that its source state is itself
reached, so invariants proved earlier are available when a later one is. -/
theorem invariant {I : State → Prop} (hInitial : ∀ s, sys.initial s → I s)
    (hStep : ∀ s label t, sys.Reach allowed s → I s → allowed s label →
      sys.step s label = .ok t → I t)
    {s : State} (run : sys.Reach allowed s) : I s := by
  induction run with
  | initial start => exact hInitial _ start
  | step prior hAllowed last ih => exact hStep _ _ _ prior ih hAllowed last

theorem mono (hWeaker : ∀ s label, allowed s label → weaker s label)
    {s : State} (run : sys.Reach allowed s) : sys.Reach weaker s := by
  induction run with
  | initial start => exact .initial start
  | step _ hAllowed last ih => exact .step ih (hWeaker _ _ hAllowed) last

theorem reachable {s : State} (run : sys.Reach allowed s) : sys.Reachable s :=
  run.mono fun _ _ _ => trivial

end System.Reach

/-- The runs from a given state every step of which is `allowed` in the state it
is taken from. -/
inductive System.Path (sys : System State Label Stop) (allowed : State → Label → Prop) (s : State) :
    State → Prop where
  | refl : Path sys allowed s s
  | step {t u : State} {label : Label} (prior : Path sys allowed s t) (hAllowed : allowed t label)
      (last : sys.step t label = .ok u) : Path sys allowed s u

namespace System.Path

variable {sys : System State Label Stop} {allowed : State → Label → Prop} {s t : State}

theorem reachable (path : sys.Path allowed s t) (run : sys.Reachable s) : sys.Reachable t := by
  induction path with
  | refl => exact run
  | step _ _ last ih => exact .step ih trivial last

theorem mono {weaker : State → Label → Prop} (hWeaker : ∀ u label, allowed u label → weaker u label)
    (path : sys.Path allowed s t) : sys.Path weaker s t := by
  induction path with
  | refl => exact .refl
  | step _ hAllowed last ih => exact .step ih (hWeaker _ _ hAllowed) last

/-- The invariant rule for the part of a run that follows a given state. -/
theorem invariant {I : State → Prop} (run : sys.Reachable s) (hFirst : I s)
    (hStep : ∀ t label u, sys.Reachable t → I t → allowed t label → sys.step t label = .ok u → I u)
    (path : sys.Path allowed s t) : I t := by
  induction path with
  | refl => exact hFirst
  | step prior hAllowed last ih => exact hStep _ _ _ (prior.reachable run) ih hAllowed last

end System.Path

section Observe

variable {Note : Type u} (sys : System State Label Stop) (first : Note)
  (next : State → Label → State → Note → Note)

/-- A system together with what an observer notes about its run. -/
def System.observe : System (State × Note) Label Stop where
  initial x := sys.initial x.1 ∧ x.2 = first
  step x label := (sys.step x.1 label).map fun t => (t, next x.1 label t x.2)

variable {sys first next}

theorem System.observe_step {x y : State × Note} {label : Label} :
    (sys.observe first next).step x label = .ok y ↔
      sys.step x.1 label = .ok y.1 ∧ y.2 = next x.1 label y.1 x.2 := by
  obtain ⟨t, note⟩ := y
  simp only [System.observe]
  cases hStep : sys.step x.1 label with
  | error stop => simp [Except.map]
  | ok u =>
      simp only [Except.map, Except.ok.injEq, Prod.mk.injEq]
      constructor
      · rintro ⟨rfl, rfl⟩
        exact ⟨rfl, rfl⟩
      · rintro ⟨rfl, rfl⟩
        exact ⟨rfl, rfl⟩

/-- The observer does not influence the run. -/
theorem System.observe_reachable {x : State × Note} (run : (sys.observe first next).Reachable x) :
    sys.Reachable x.1 := by
  induction run with
  | initial start => exact .initial start.1
  | step _ _ last ih => exact .step ih trivial (observe_step.mp last).1

end Observe

section Run

variable (sys : System State Label Stop) (allowed : State → Label → Prop)
  [∀ s label, Decidable (allowed s label)]

/-- The state after some labels, when every step is allowed and returns. -/
def System.run (s : State) : List Label → Option State
  | [] => some s
  | label :: rest =>
      if allowed s label then
        match sys.step s label with
        | .error _ => none
        | .ok t => System.run t rest
      else none

variable {sys allowed}

theorem System.Reach.run {s t : State} {labels : List Label} (prior : sys.Reach allowed s)
    (h : sys.run allowed s labels = some t) : sys.Reach allowed t := by
  induction labels generalizing s with
  | nil =>
      obtain rfl := Option.some.inj h
      exact prior
  | cons label rest ih =>
      unfold System.run at h
      split_ifs at h with hAllowed
      split at h
      · cases h
      · rename_i next hStep
        exact ih (.step prior hAllowed hStep) h

theorem System.Path.run {s t : State} {labels : List Label} (h : sys.run allowed s labels = some t) :
    sys.Path allowed s t := by
  suffices hPath : ∀ {u : State}, sys.Path allowed s u → sys.run allowed u labels = some t →
      sys.Path allowed s t from hPath .refl h
  clear h
  intro u prior h
  induction labels generalizing u with
  | nil =>
      obtain rfl := Option.some.inj h
      exact prior
  | cons label rest ih =>
      unfold System.run at h
      split_ifs at h with hAllowed
      split at h
      · cases h
      · rename_i next hStep
        exact ih (.step prior hAllowed hStep) h

/-- A run that can be computed ends in a state that is reached. -/
theorem System.exists_reach {s : State} (labels : List Label) {P : State → Prop} [DecidablePred P]
    (start : sys.initial s) (h : (sys.run allowed s labels).any (fun t => decide (P t)) = true) :
    ∃ t, sys.Reach allowed t ∧ P t := by
  obtain ⟨t, hRun, hHolds⟩ := (Option.any_eq_true _ _).mp h
  exact ⟨t, (System.Reach.initial start).run hRun, of_decide_eq_true hHolds⟩

end Run

/-- A run without a condition on its steps. -/
instance decidableAlways (s : State) (label : Label) :
    Decidable ((fun _ _ => True : State → Label → Prop) s label) := .isTrue trivial

theorem System.exists_reachable {sys : System State Label Stop} {s : State} (labels : List Label)
    {P : State → Prop} [DecidablePred P] (start : sys.initial s)
    (h : (sys.run (fun _ _ => True) s labels).any (fun t => decide (P t)) = true) :
    ∃ t, sys.Reachable t ∧ P t := System.exists_reach labels start h

/-- The labels of a run without a condition, if each of them is allowed everywhere. -/
theorem System.Reach.run_of_forall {sys : System State Label Stop} {allowed : State → Label → Prop} {s t : State}
    {labels : List Label} (prior : sys.Reach allowed s) (hAll : ∀ label ∈ labels, ∀ u, allowed u label)
    (h : sys.run (fun _ _ => True) s labels = some t) : sys.Reach allowed t := by
  induction labels generalizing s with
  | nil =>
      obtain rfl := Option.some.inj h
      exact prior
  | cons label rest ih =>
      unfold System.run at h
      rw [if_pos trivial] at h
      split at h
      · cases h
      · rename_i next hStep
        have hRest : ∀ later ∈ rest, ∀ u, allowed u later := fun later hIn => hAll later (List.mem_cons_of_mem _ hIn)
        exact ih (.step prior (hAll label List.mem_cons_self s) hStep) hRest h

end Transition
