import Naruto.Theory.Simulation

/-!
# A mailbox with a bell

A producer puts items in a queue and rings a bell after each; rings that are not
yet heard are one ring. A consumer that hears the bell takes items until it finds
the queue empty and then rests. The two proceed in any interleaving. Nothing is
lost, taken twice or out of turn, and an item never waits for a bell that nobody
is going to ring: while the queue is not empty the bell is rung, or is about to
be, or the consumer is not at rest.
-/

namespace Naruto.Theory

/-- The queue, the bell, and where the two parties are: the producer between
putting an item and ringing, the consumer between hearing and resting. -/
structure Mailbox (Item : Type*) where
  queue : List Item
  bell : Bool
  announcing : Bool
  awake : Bool
  taken : List Item

namespace Mailbox

variable {Item : Type*}

/-- What the two parties do. -/
inductive Action (Item : Type*) where
  | put (item : Item)
  | ring
  | hear
  | take
  | rest

/-- An empty mailbox with both parties at rest. -/
def empty : Mailbox Item := ⟨[], false, false, false, []⟩

/-- One action of one party, when it is its turn. The producer puts an item and rings; the
consumer hears the bell, looks into the queue, takes items while there are some, and rests when
it finds none. -/
def step (m : Mailbox Item) : Action Item → Option (Mailbox Item)
  | .put item => if m.announcing then none else some { m with queue := m.queue ++ [item], announcing := true }
  | .ring => if m.announcing then some { m with bell := true, announcing := false } else none
  | .hear => if m.bell && !m.awake then some { m with bell := false, awake := true } else none
  | .take =>
    match m.awake, m.queue with
    | true, item :: queue => some { m with queue := queue, taken := m.taken ++ [item] }
    | _, _ => none
  | .rest =>
    match m.awake, m.queue with
    | true, [] => some { m with awake := false }
    | _, _ => none

/-- Everything that was put, in its order: what is taken and what waits. -/
def items (m : Mailbox Item) : List Item := m.taken ++ m.queue

/-- What an action adds. -/
def Action.puts : Action Item → List Item
  | .put item => [item]
  | _ => []

/-- Somebody is going to look into a queue that is not empty. -/
def Heard (m : Mailbox Item) : Prop :=
  m.queue ≠ [] → m.bell = true ∨ m.announcing = true ∨ m.awake = true

/-- Nothing waits in an empty mailbox. -/
theorem heard_empty : Heard (empty : Mailbox Item) := fun filled => absurd rfl filled

/-- An action adds to the items what it puts and nothing else. Taking moves an item from the
queue to those taken. -/
theorem step_items {m m' : Mailbox Item} {action : Action Item} (stepped : step m action = some m') :
    m'.items = m.items ++ action.puts := by
  cases action with
  | put item =>
    simp only [step, Option.ite_none_left_eq_some, Option.some.injEq] at stepped
    obtain ⟨_, rfl⟩ := stepped
    exact (List.append_assoc _ _ _).symm
  | ring =>
    simp only [step, Option.ite_none_right_eq_some, Option.some.injEq] at stepped
    obtain ⟨_, rfl⟩ := stepped
    exact (List.append_nil _).symm
  | hear =>
    simp only [step, Option.ite_none_right_eq_some, Option.some.injEq] at stepped
    obtain ⟨_, rfl⟩ := stepped
    exact (List.append_nil _).symm
  | take =>
    simp only [step] at stepped
    split at stepped
    case h_1 _ _ item queue _ filled =>
      obtain rfl := Option.some.inj stepped
      simp [items, Action.puts, filled]
    case h_2 => cases stepped
  | rest =>
    simp only [step] at stepped
    split at stepped
    case h_1 =>
      obtain rfl := Option.some.inj stepped
      exact (List.append_nil _).symm
    case h_2 => cases stepped

/-- After every action the queue is heard: only resting gives up the look into it, and
the consumer rests when it has found it empty. -/
theorem step_heard {m m' : Mailbox Item} {action : Action Item} (stepped : step m action = some m') :
    Heard m' := by
  cases action with
  | put item =>
    simp only [step, Option.ite_none_left_eq_some, Option.some.injEq] at stepped
    obtain ⟨_, rfl⟩ := stepped
    exact fun _ => .inr (.inl rfl)
  | ring =>
    simp only [step, Option.ite_none_right_eq_some, Option.some.injEq] at stepped
    obtain ⟨_, rfl⟩ := stepped
    exact fun _ => .inl rfl
  | hear =>
    simp only [step, Option.ite_none_right_eq_some, Option.some.injEq] at stepped
    obtain ⟨_, rfl⟩ := stepped
    exact fun _ => .inr (.inr rfl)
  | take =>
    simp only [step] at stepped
    split at stepped
    case h_1 _ _ _ _ awake _ =>
      obtain rfl := Option.some.inj stepped
      exact fun _ => .inr (.inr awake)
    case h_2 => cases stepped
  | rest =>
    simp only [step] at stepped
    split at stepped
    case h_1 _ _ _ nothing =>
      obtain rfl := Option.some.inj stepped
      exact fun filled => absurd nothing filled
    case h_2 => cases stepped

/-- Over a run the items grow by what the run puts, in its order. -/
theorem run_items (m last : Mailbox Item) (actions : List (Action Item)) (ran : run step m actions = some last) :
    last.items = m.items ++ actions.flatMap Action.puts := by
  induction actions generalizing m with
  | nil =>
    obtain rfl := Option.some.inj ran
    exact (List.append_nil _).symm
  | cons action actions ih =>
    obtain ⟨m', stepped, rest⟩ := Option.bind_eq_some_iff.mp ran
    rw [ih m' rest, step_items stepped, List.flatMap_cons, List.append_assoc]

/-- In every state that a run reaches from an empty mailbox the queue is heard. -/
theorem run_heard (last : Mailbox Item) (actions : List (Action Item)) (ran : run step empty actions = some last) :
    Heard last :=
  run_preserves Heard (fun _ _ _ _ stepped => step_heard stepped) empty last actions heard_empty ran

end Mailbox

end Naruto.Theory
