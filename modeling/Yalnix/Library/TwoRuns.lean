import Yalnix.Library.Transition

/-! Runs with the labels they follow. Two runs that follow the same labels are
compared step by step: a relation that every pair of steps keeps holds at their
ends. -/
namespace Transition

universe u u' v w w'

variable {State : Type u} {State' : Type u'} {Label : Type v} {Stop : Type w} {Stop' : Type w'}

/-- From one state the labels lead to the other, and each of them is `allowed` in
the state it is taken from. -/
inductive System.Follows (sys : System State Label Stop) (allowed : State → Label → Prop) :
    State → List Label → State → Prop where
  | nil {s : State} : Follows sys allowed s [] s
  | cons {s t u : State} {label : Label} {labels : List Label} (hAllowed : allowed s label)
      (first : sys.step s label = .ok t) (rest : Follows sys allowed t labels u) :
      Follows sys allowed s (label :: labels) u

/-- The rule for pairs of runs: what holds at the beginning and is kept by each pair
of steps holds at the end. -/
theorem System.Follows.related {sys : System State Label Stop} {sys' : System State' Label Stop'}
    {allowed : State → Label → Prop} {allowed' : State' → Label → Prop} {R : State → State' → Prop} {s t : State}
    {s' t' : State'} {labels : List Label} (run : sys.Follows allowed s labels t)
    (run' : sys'.Follows allowed' s' labels t') (hStart : R s s')
    (hStep : ∀ {x y : State} {x' y' : State'} {label : Label}, R x x' → allowed x label → allowed' x' label →
      sys.step x label = .ok y → sys'.step x' label = .ok y' → R y y') : R t t' := by
  induction run generalizing s' with
  | nil =>
      cases run'
      exact hStart
  | cons hAllowed first rest ih =>
      cases run' with
      | cons hAllowed' first' rest' => exact ih rest' (hStep hStart hAllowed hAllowed' first first')

end Transition
