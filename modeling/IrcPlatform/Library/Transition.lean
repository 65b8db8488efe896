import Mathlib.Data.List.Induction
import Mathlib.Logic.Relation

/-!
# Transition systems

Labelled transition systems, the states that runs with permitted steps reach,
and the invariant rule. A run without restriction reaches the reachable states.

A machine is a transition system whose steps are computed, so that a list of
actions has one run from each state. A system each step of which is a list of
actions of a machine is refined by the machine.
-/

namespace IrcPlatform

universe u v

structure TransitionSystem (State : Type u) (Action : Type v) where
  initial : State → Prop
  step : State → Action → State → Prop

namespace TransitionSystem

variable {State : Type u} {Action : Type v} (system : TransitionSystem State Action)

/-- The states reached by runs all of whose steps are permitted. -/
inductive Reaches (permitted : State → Action → Prop) : State → Prop where
  | start {state : State} (initial : system.initial state) : Reaches permitted state
  | next {before after : State} {action : Action} (run : Reaches permitted before)
      (allowed : permitted before action) (step : system.step before action after) :
      Reaches permitted after

def Reachable (state : State) : Prop := system.Reaches (fun _ _ => True) state

variable {system}

theorem Reaches.mono {permitted weaker : State → Action → Prop} {state : State}
    (run : system.Reaches permitted state)
    (implies : ∀ before action, permitted before action → weaker before action) :
    system.Reaches weaker state := by
  induction run with
  | start initial => exact Reaches.start initial
  | next _ allowed step ih => exact Reaches.next ih (implies _ _ allowed) step

theorem Reaches.reachable {permitted : State → Action → Prop} {state : State}
    (run : system.Reaches permitted state) : system.Reachable state :=
  run.mono fun _ _ _ => trivial

theorem Reachable.next {before after : State} {action : Action} (run : system.Reachable before)
    (step : system.step before action after) : system.Reachable after :=
  Reaches.next run trivial step

/-- A property that holds initially and that every permitted step from a reachable state
preserves holds in every state such runs reach. -/
theorem Reaches.invariant {permitted : State → Action → Prop} (property : State → Prop)
    (initially : ∀ state, system.initial state → property state)
    (preserved : ∀ before action after, system.Reachable before → property before →
      permitted before action → system.step before action after → property after)
    {state : State} (run : system.Reaches permitted state) : property state := by
  induction run with
  | start initial => exact initially _ initial
  | next run allowed step ih => exact preserved _ _ _ run.reachable ih allowed step

theorem Reachable.invariant (property : State → Prop)
    (initially : ∀ state, system.initial state → property state)
    (preserved : ∀ before action after, system.Reachable before → property before →
      system.step before action after → property after)
    {state : State} (run : system.Reachable state) : property state :=
  Reaches.invariant property initially
    (fun before action after reached holds _ step =>
      preserved before action after reached holds step)
    run

end TransitionSystem

structure Machine (State : Type u) (Action : Type v) where
  initial : State → Prop
  enabled : State → Action → Bool
  perform : State → Action → State

namespace Machine

variable {State : Type u} {Action : Type v} (machine : Machine State Action)

def system : TransitionSystem State Action where
  initial := machine.initial
  step before action after :=
    machine.enabled before action = true ∧ after = machine.perform before action

/-- The state after a list of actions, each of which must be enabled. -/
def performAll : List Action → State → Option State
  | [], state => some state
  | action :: actions, state =>
      if machine.enabled state action then performAll actions (machine.perform state action)
      else none

/-- The state after a list of actions, or the starting state where one is not enabled. -/
def performOr (state : State) (actions : List Action) : State :=
  (machine.performAll actions state).getD state

/-- A condition on every step of a run, each in the state it starts from. -/
def EveryStep (condition : State → Action → Prop) : List Action → State → Prop
  | [], _ => True
  | action :: actions, state =>
      condition state action ∧ EveryStep condition actions (machine.perform state action)

instance decidableEveryStep (condition : State → Action → Prop)
    [decide : ∀ state action, Decidable (condition state action)] :
    ∀ actions state, Decidable (machine.EveryStep condition actions state)
  | [], _ => inferInstanceAs (Decidable True)
  | action :: actions, state =>
      have := decidableEveryStep condition actions (machine.perform state action)
      inferInstanceAs (Decidable (_ ∧ _))

variable {machine}

theorem performAll_append (first second : List Action) (state : State) :
    machine.performAll (first ++ second) state =
      (machine.performAll first state).bind (machine.performAll second) := by
  induction first generalizing state with
  | nil => rfl
  | cons action actions ih =>
      rw [List.cons_append, performAll, performAll]
      split
      · exact ih _
      · rfl

theorem reaches_performAll {permitted : State → Action → Prop} {state after : State}
    {actions : List Action} (reached : machine.system.Reaches permitted state)
    (performed : machine.performAll actions state = some after)
    (allowed : machine.EveryStep permitted actions state) :
    machine.system.Reaches permitted after := by
  induction actions generalizing state with
  | nil =>
      rw [performAll, Option.some.injEq] at performed
      exact performed ▸ reached
  | cons action actions ih =>
      rcases allowed with ⟨here, later⟩
      rw [performAll] at performed
      split at performed
      next ready => exact ih (.next reached here ⟨ready, rfl⟩) performed later
      · simp at performed

theorem everyStep_true (actions : List Action) (state : State) :
    machine.EveryStep (fun _ _ => True) actions state := by
  induction actions generalizing state with
  | nil => trivial
  | cons action actions ih => exact ⟨trivial, ih _⟩

theorem everyStep_of_forall {condition : Action → Prop} {actions : List Action}
    (all : ∀ action ∈ actions, condition action) (state : State) :
    machine.EveryStep (fun _ action => condition action) actions state := by
  induction actions generalizing state with
  | nil => trivial
  | cons action actions ih =>
      rw [List.forall_mem_cons] at all
      exact ⟨all.1, ih all.2 _⟩

theorem everyStep_congr {condition other : State → Action → Prop}
    (same : ∀ state action, condition state action ↔ other state action)
    (actions : List Action) (state : State) :
    machine.EveryStep condition actions state ↔ machine.EveryStep other actions state := by
  induction actions generalizing state with
  | nil => exact Iff.rfl
  | cons action actions ih => exact and_congr (same state action) (ih _)

theorem reachable_performOr {state : State} (reached : machine.system.Reachable state)
    (actions : List Action) : machine.system.Reachable (machine.performOr state actions) := by
  unfold performOr
  cases performed : machine.performAll actions state with
  | none => exact reached
  | some after => exact reaches_performAll reached performed (everyStep_true actions state)

/-- A list of actions that are all enabled leads to the state that `performOr` names. -/
theorem performAll_eq_performOr {state : State} {actions : List Action}
    (performed : (machine.performAll actions state).isSome) :
    machine.performAll actions state = some (machine.performOr state actions) := by
  rcases Option.isSome_iff_exists.mp performed with ⟨after, result⟩
  rw [performOr, result, Option.getD_some]

/-! ## Sequences of steps -/

/-- Some list of actions, each of which is enabled, leads from one state to another. -/
def Leads (machine : Machine State Action) (before after : State) : Prop :=
  ∃ actions, machine.performAll actions before = some after

theorem Leads.refl (state : State) : machine.Leads state state := ⟨[], rfl⟩

theorem Leads.single {state : State} {action : Action}
    (ready : machine.enabled state action = true) :
    machine.Leads state (machine.perform state action) :=
  ⟨[action], by simp [performAll, ready]⟩

theorem Leads.trans {before between after : State} (first : machine.Leads before between)
    (second : machine.Leads between after) : machine.Leads before after := by
  rcases first with ⟨early, performedEarly⟩
  rcases second with ⟨late, performedLate⟩
  refine ⟨early ++ late, ?_⟩
  rw [performAll_append, performedEarly]
  exact performedLate

theorem Leads.next {before between : State} {action : Action}
    (first : machine.Leads before between) (ready : machine.enabled between action = true) :
    machine.Leads before (machine.perform between action) :=
  first.trans (Leads.single ready)

theorem Leads.reachable {before after : State} (leads : machine.Leads before after)
    (reached : machine.system.Reachable before) : machine.system.Reachable after := by
  rcases leads with ⟨actions, performed⟩
  exact reaches_performAll reached performed (everyStep_true actions before)

/-- The same with actions that are all of some kind. -/
def LeadsBy (machine : Machine State Action) (kind : Action → Prop) (before after : State) :
    Prop :=
  ∃ actions, machine.performAll actions before = some after ∧ ∀ action ∈ actions, kind action

theorem LeadsBy.refl (kind : Action → Prop) (state : State) : machine.LeadsBy kind state state :=
  ⟨[], rfl, by simp⟩

theorem LeadsBy.trans {kind : Action → Prop} {before between after : State}
    (first : machine.LeadsBy kind before between) (second : machine.LeadsBy kind between after) :
    machine.LeadsBy kind before after := by
  rcases first with ⟨early, performedEarly, ofKindEarly⟩
  rcases second with ⟨late, performedLate, ofKindLate⟩
  refine ⟨early ++ late, ?_, ?_⟩
  · rw [performAll_append, performedEarly]
    exact performedLate
  · intro action listed
    rcases List.mem_append.mp listed with inEarly | inLate
    · exact ofKindEarly action inEarly
    · exact ofKindLate action inLate

theorem LeadsBy.next {kind : Action → Prop} {before between : State} {action : Action}
    (first : machine.LeadsBy kind before between) (ready : machine.enabled between action = true)
    (ofKind : kind action) : machine.LeadsBy kind before (machine.perform between action) := by
  refine first.trans ⟨[action], by simp [performAll, ready], ?_⟩
  intro other listed
  rwa [List.mem_singleton.mp listed]

theorem LeadsBy.leads {kind : Action → Prop} {before after : State}
    (leads : machine.LeadsBy kind before after) : machine.Leads before after := by
  rcases leads with ⟨actions, performed, _⟩
  exact ⟨actions, performed⟩

/-- A system each permitted step of which the machine can make by a list of actions
reaches only states that the machine reaches. -/
theorem reachable_of_leads {Label : Type v} {system : TransitionSystem State Label}
    {permitted : State → Label → Prop}
    (initially : ∀ state, system.initial state → machine.initial state)
    (simulated : ∀ before label after, permitted before label → system.step before label after →
      machine.Leads before after)
    {state : State} (run : system.Reaches permitted state) : machine.system.Reachable state := by
  induction run with
  | start initial => exact TransitionSystem.Reaches.start (initially _ initial)
  | next _ allowed step ih => exact (simulated _ _ _ allowed step).reachable ih

theorem performAll_concat (actions : List Action) (action : Action) (state : State) :
    machine.performAll (actions ++ [action]) state =
      (machine.performAll actions state).bind fun between =>
        if machine.enabled between action then some (machine.perform between action)
        else none := by
  rw [performAll_append]
  rfl

/-- Induction along a run, with the actions performed so far. -/
theorem performAll_induction {start : State} (property : List Action → State → Prop)
    (initially : property [] start)
    (preserved : ∀ actions action between, machine.performAll actions start = some between →
      property actions between → machine.enabled between action = true →
      property (actions ++ [action]) (machine.perform between action))
    {actions : List Action} {final : State}
    (performed : machine.performAll actions start = some final) : property actions final := by
  induction actions using List.reverseRecOn generalizing final with
  | nil =>
      rw [performAll, Option.some.injEq] at performed
      exact performed ▸ initially
  | append_singleton actions action ih =>
      rw [performAll_concat] at performed
      rcases Option.bind_eq_some_iff.mp performed with ⟨between, early, late⟩
      split at late
      next ready =>
        rw [Option.some.injEq] at late
        exact late ▸ preserved actions action between early (ih early) ready
      · simp at late

theorem everyStep_concat {condition : State → Action → Prop} {actions : List Action}
    {action : Action} {state between : State}
    (performed : machine.performAll actions state = some between)
    (all : machine.EveryStep condition (actions ++ [action]) state) :
    machine.EveryStep condition actions state ∧ condition between action := by
  induction actions generalizing state with
  | nil =>
      rw [performAll, Option.some.injEq] at performed
      exact ⟨trivial, performed ▸ all.1⟩
  | cons first actions ih =>
      rw [performAll] at performed
      split at performed
      · rcases ih performed all.2 with ⟨earlier, last⟩
        exact ⟨⟨all.1, earlier⟩, last⟩
      · simp at performed

theorem performAll_split {early late : List Action} {action : Action} {state final : State}
    (performed : machine.performAll (early ++ action :: late) state = some final) :
    ∃ before, machine.performAll early state = some before ∧
      machine.enabled before action = true ∧
      machine.performAll late (machine.perform before action) = some final := by
  rw [performAll_append] at performed
  rcases Option.bind_eq_some_iff.mp performed with ⟨before, first, second⟩
  rw [performAll] at second
  split at second
  next ready => exact ⟨before, first, ready, second⟩
  · simp at second

theorem everyStep_append {condition : State → Action → Prop} {first second : List Action}
    {state between : State} (performed : machine.performAll first state = some between) :
    machine.EveryStep condition (first ++ second) state ↔
      machine.EveryStep condition first state ∧ machine.EveryStep condition second between := by
  induction first generalizing state with
  | nil =>
      rw [performAll, Option.some.injEq] at performed
      rw [performed]
      exact (iff_of_eq (true_and _)).symm
  | cons action actions ih =>
      rw [performAll] at performed
      split at performed
      · rw [List.cons_append, EveryStep, EveryStep, ih performed, and_assoc]
      · cases performed

/-! ## Points of a run -/

/-- A step of a run. -/
structure Turn (machine : Machine State Action) (actions : List Action) (start : State)
    (early : List Action) (action : Action) (late : List Action) (before : State) : Prop where
  split : actions = early ++ action :: late
  reached : machine.performAll early start = some before
  ready : machine.enabled before action = true

namespace Turn

variable {actions early late : List Action} {action : Action} {start before final : State}

theorem rest (turn : machine.Turn actions start early action late before)
    (performed : machine.performAll actions start = some final) :
    machine.performAll late (machine.perform before action) = some final := by
  rw [turn.split] at performed
  rcases performAll_split performed with ⟨other, reached, _, rest⟩
  rw [turn.reached, Option.some.injEq] at reached
  rwa [reached]

theorem concat (turn : machine.Turn actions start early action late before) (next : Action) :
    machine.Turn (actions ++ [next]) start early action (late ++ [next]) before where
  split := by rw [turn.split, List.append_assoc, List.cons_append]
  reached := turn.reached
  ready := turn.ready

end Turn

/-- No step of a run is of a kind, or one is and none after it. -/
theorem everyStep_or_last (kind : State → Action → Prop) {actions : List Action}
    {start final : State} (performed : machine.performAll actions start = some final) :
    machine.EveryStep (fun state action => ¬kind state action) actions start ∨
      ∃ early action late before, machine.Turn actions start early action late before ∧
        kind before action ∧
        machine.EveryStep (fun state action => ¬kind state action) late
          (machine.perform before action) := by
  classical
  refine performAll_induction (fun actions _ =>
    machine.EveryStep (fun state action => ¬kind state action) actions start ∨
      ∃ early action late before, machine.Turn actions start early action late before ∧
        kind before action ∧
        machine.EveryStep (fun state action => ¬kind state action) late
          (machine.perform before action)) (.inl trivial) ?_ performed
  intro actions action between reached earlier ready
  by_cases here : kind between action
  · exact .inr ⟨actions, action, [], between, ⟨rfl, reached, ready⟩, here, trivial⟩
  · rcases earlier with none | ⟨early, last, late, before, turn, there, none⟩
    · exact .inl ((everyStep_append reached).mpr ⟨none, here, trivial⟩)
    · refine .inr ⟨early, last, late ++ [action], before, turn.concat action, there, ?_⟩
      exact (everyStep_append (turn.rest reached)).mpr ⟨none, here, trivial⟩

/-- What the steps that are not of a kind keep is the same behind a run of such steps. -/
theorem observe_eq {Value : Type*} {kind : State → Action → Prop} (observe : State → Value)
    (frame : ∀ state action, machine.enabled state action = true → ¬kind state action →
      observe (machine.perform state action) = observe state)
    {actions : List Action} {start final : State}
    (performed : machine.performAll actions start = some final)
    (none : machine.EveryStep (fun state action => ¬kind state action) actions start) :
    observe final = observe start := by
  induction actions generalizing start with
  | nil =>
      rw [performAll, Option.some.injEq] at performed
      rw [performed]
  | cons action actions ih =>
      rw [performAll] at performed
      split at performed
      next ready => rw [ih performed none.2, frame start action ready none.1]
      · cases performed

end Machine

end IrcPlatform
