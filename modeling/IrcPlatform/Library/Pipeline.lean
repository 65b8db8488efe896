import Mathlib.Tactic.Common

/-!
# Items waiting in a queue

A receiver takes the items of a queue in order, and each item makes a demand on
the state in which it is taken. A queue is assured in a state when the demands of
all its items will be met if nothing else happens meanwhile.
-/

namespace IrcPlatform.Pipeline

universe u v

variable {State : Type u} {Item : Type v} (process : State → Item → State)
  (demand : State → Item → Prop)

/-- The state after the items of a queue were taken in order. -/
def feed (state : State) (queue : List Item) : State := queue.foldl process state

def Assured : List Item → State → Prop
  | [], _ => True
  | item :: rest, state => demand state item ∧ Assured rest (process state item)

instance decidableAssured [met : ∀ state item, Decidable (demand state item)] :
    ∀ queue state, Decidable (Assured process demand queue state)
  | [], _ => inferInstanceAs (Decidable True)
  | item :: rest, state =>
      have := decidableAssured rest (process state item)
      inferInstanceAs (Decidable (_ ∧ _))

variable {process demand}

theorem assured_append {first second : List Item} {state : State} :
    Assured process demand (first ++ second) state ↔
      Assured process demand first state ∧
        Assured process demand second (feed process state first) := by
  induction first generalizing state with
  | nil => simp [Assured, feed]
  | cons item rest ih => simp [Assured, feed, ih, and_assoc]

/-- A new item at the end is assured by what the items before it lead to. -/
theorem assured_concat {queue : List Item} {item : Item} {state : State} :
    Assured process demand (queue ++ [item]) state ↔
      Assured process demand queue state ∧ demand (feed process state queue) item := by
  simp [assured_append, Assured]

theorem assured_of_forall {queue : List Item} {state : State}
    (met : ∀ item ∈ queue, ∀ later, demand later item) : Assured process demand queue state := by
  induction queue generalizing state with
  | nil => trivial
  | cons item rest ih =>
      exact ⟨met item List.mem_cons_self state,
        ih fun later listed => met later (List.mem_cons_of_mem item listed)⟩

theorem Assured.head {item : Item} {rest : List Item} {state : State}
    (assured : Assured process demand (item :: rest) state) : demand state item := assured.1

theorem Assured.tail {item : Item} {rest : List Item} {state : State}
    (assured : Assured process demand (item :: rest) state) :
    Assured process demand rest (process state item) := assured.2

/-- A demand that follows from another in every state the queue leads through. -/
theorem Assured.imp {weaker : State → Item → Prop} {kept : State → Prop}
    (preserved : ∀ state item, kept state → kept (process state item))
    (implies : ∀ state item, kept state → demand state item → weaker state item)
    {queue : List Item} {state : State} (assured : Assured process demand queue state)
    (holds : kept state) : Assured process weaker queue state := by
  induction queue generalizing state with
  | nil => trivial
  | cons item rest ih =>
      exact ⟨implies state item holds assured.1, ih assured.2 (preserved state item holds)⟩

end IrcPlatform.Pipeline
