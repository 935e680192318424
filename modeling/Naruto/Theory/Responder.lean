import Naruto.Theory.Simulation

/-!
# One end of a connection that answers

Requests arrive as a stream, are taken off its front one at a time, and are answered
into a buffer that is written out as a whole. The connection may break in the middle
of a write or of a request. As long as it has not, what was served is what has arrived
up to what is unread, and the answers are what was written up to what is buffered, in
the order of the requests. After a break what was written is the beginning of the
answers.
-/

namespace Naruto.Theory

variable {α β : Type*}

/-- What has come and is unread, what waits to be written, what has been written, and
whether the connection is broken. -/
structure Responder (α β : Type*) where
  input : List α
  buffer : List β
  output : List β
  broken : Bool
deriving DecidableEq, Repr

namespace Responder

/-- Input arrives; a request is served; the buffer is written; or the connection breaks
with some of the buffer written and some of the input lost. -/
inductive Action (α β : Type*)
  | arrive (more : List α)
  | serve (request : List α) (answer : List β)
  | write
  | breakOff (written lost : Nat)

/-- One action. A broken connection only receives. Requests come in, some are taken and
answered, and answers go out in any pieces; a connection may break at any time. -/
def step [DecidableEq α] (r : Responder α β) : Action α β → Option (Responder α β)
  | .arrive more => some { r with input := r.input ++ more }
  | .serve request answer =>
    if r.broken = false ∧ request <+: r.input then
      some { r with input := r.input.drop request.length, buffer := r.buffer ++ answer }
    else none
  | .write => if r.broken = false then some { r with buffer := [], output := r.output ++ r.buffer } else none
  | .breakOff written lost =>
    if r.broken = false then
      some { r with input := r.input.drop lost, output := r.output ++ r.buffer.take written, broken := true }
    else none

/-- Nothing has happened on the connection. -/
def fresh (α β : Type*) : Responder α β := ⟨[], [], [], false⟩

/-- What arrives with an action. -/
def arrives : Action α β → List α
  | .arrive more => more
  | _ => []

/-- What an action takes for a request. -/
def requests : Action α β → List α
  | .serve request _ => request
  | _ => []

/-- What an action answers. -/
def answers : Action α β → List β
  | .serve _ answer => answer
  | _ => []

/-- What the connection has behind it: what has arrived, what of it was taken for requests,
and what they were answered. -/
structure Accounts (arrived asked : List α) (answered : List β) (r : Responder α β) : Prop where
  input : r.broken = false → arrived = asked ++ r.input
  output : r.broken = false → answered = r.output ++ r.buffer
  asked : asked <+: arrived
  written : r.output <+: answered

/-- Both equations hold of a connection that is not broken, and give the rest. -/
theorem Accounts.of_open {arrived asked : List α} {answered : List β} {r : Responder α β}
    (input : arrived = asked ++ r.input) (output : answered = r.output ++ r.buffer) :
    Accounts arrived asked answered r where
  input := fun _ => input
  output := fun _ => output
  asked := ⟨r.input, input.symm⟩
  written := ⟨r.buffer, output.symm⟩

/-- The accounts of a connection that has just been opened are empty. -/
theorem accounts_fresh : Accounts [] [] [] (fresh α β) := .of_open rfl rfl

variable [DecidableEq α] {arrived asked : List α} {answered : List β} {r r' : Responder α β}

/-- One action adds to the accounts what it brings, takes and answers. A connection that is
broken off keeps a part of what was to be written. -/
theorem Accounts.step {action : Action α β} (accounts : Accounts arrived asked answered r)
    (stepped : Responder.step r action = some r') :
    Accounts (arrived ++ arrives action) (asked ++ requests action) (answered ++ answers action) r' := by
  cases action with
  | arrive more =>
    obtain rfl := Option.some.inj stepped
    simp only [arrives, requests, answers, List.append_nil]
    refine ⟨fun whole => ?_, accounts.output, accounts.asked.trans (List.prefix_append _ _), accounts.written⟩
    rw [accounts.input whole, List.append_assoc]
  | serve request answer =>
    simp only [Responder.step, Option.ite_none_right_eq_some, Option.some.injEq] at stepped
    obtain ⟨⟨whole, rest, split⟩, rfl⟩ := stepped
    simp only [arrives, requests, answers, List.append_nil]
    refine .of_open ?_ ?_
    · rw [accounts.input whole, ← split, List.drop_left, List.append_assoc]
    · rw [accounts.output whole, List.append_assoc]
  | write =>
    simp only [Responder.step, Option.ite_none_right_eq_some, Option.some.injEq] at stepped
    obtain ⟨whole, rfl⟩ := stepped
    simp only [arrives, requests, answers, List.append_nil]
    exact .of_open (accounts.input whole) (by rw [accounts.output whole, List.append_nil])
  | breakOff written lost =>
    simp only [Responder.step, Option.ite_none_right_eq_some, Option.some.injEq] at stepped
    obtain ⟨whole, rfl⟩ := stepped
    simp only [arrives, requests, answers, List.append_nil]
    refine ⟨nofun, nofun, accounts.asked, ?_⟩
    rw [accounts.output whole]
    exact List.prefix_append_right_inj _ |>.mpr (List.take_prefix _ _)

/-- Over a run the accounts grow by what the actions bring, take and answer, in their
order. -/
theorem Accounts.run {last : Responder α β} (accounts : Accounts arrived asked answered r)
    (actions : List (Action α β)) (ran : Theory.run Responder.step r actions = some last) :
    Accounts (arrived ++ actions.flatMap arrives) (asked ++ actions.flatMap requests)
      (answered ++ actions.flatMap answers) last := by
  induction actions generalizing r arrived asked answered with
  | nil =>
    obtain rfl := Option.some.inj ran
    simpa using accounts
  | cons action actions ih =>
    obtain ⟨r', stepped, rest⟩ := Option.bind_eq_some_iff.mp ran
    simpa only [List.flatMap_cons, List.append_assoc] using ih (accounts.step stepped) rest

/-- What has been written stays written. By induction on the actions. -/
theorem run_output {last : Responder α β} (actions : List (Action α β))
    (ran : Theory.run Responder.step r actions = some last) : r.output <+: last.output := by
  induction actions generalizing r with
  | nil =>
    obtain rfl := Option.some.inj ran
    exact List.prefix_refl _
  | cons action actions ih =>
    obtain ⟨r', stepped, rest⟩ := Option.bind_eq_some_iff.mp ran
    refine List.IsPrefix.trans ?_ (ih rest)
    cases action with
    | arrive more =>
      obtain rfl := Option.some.inj stepped
      exact List.prefix_refl _
    | serve request answer =>
      obtain ⟨_, rest⟩ := Option.ite_none_right_eq_some.mp stepped
      obtain rfl := Option.some.inj rest
      exact List.prefix_refl _
    | write =>
      obtain ⟨_, rest⟩ := Option.ite_none_right_eq_some.mp stepped
      obtain rfl := Option.some.inj rest
      exact List.prefix_append _ _
    | breakOff written lost =>
      obtain ⟨_, rest⟩ := Option.ite_none_right_eq_some.mp stepped
      obtain rfl := Option.some.inj rest
      exact List.prefix_append _ _

end Responder

end Naruto.Theory
