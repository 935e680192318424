import Naruto.Command.WorkersStore

/-!
# The order of the workers' commands

An `hset` takes its place in the order when it sets the element, or when it finds
another kind; an `hget` with its last answer. Then the replies are those of the
order. Where a command comes in between, there need not be an order.
-/

namespace Naruto.Command.Workers

open Naruto.Theory Naruto.Utils Naruto.Database

variable {m : Nat}

/-- What a worker tells its client. -/
def Pc.status : Pc → Status Request Reply
  | .idle => .idle
  | .getting cell value => .working (.hset cell value)
  | .putting cell value _ => .working (.hset cell value)
  | .setting cell value _ _ => .working (.hset cell value)
  | .looking hget _ => .working (.hget hget)
  | .reading hget _ _ => .working (.hget hget)
  | .replying request reply => .replying request reply

/-- The invariant: the order explains the history, and leads to a map that the store
holds. -/
structure Inv (s : State m) (order : List (Call (Fin m) Request Reply)) (map : Cell → Option Number) : Prop where
  booked : Booked (fun w => (s.pc w).status) s.calls s.history order
  legal : Legal apply (fun _ => none) order map
  sound : Sound s map

/-- The clients see only the state of the workers. -/
theorem status_goto {s s' : State m} {w : Fin m} {pc : Pc} (moved : s'.pc = Function.update s.pc w pc) :
    (fun w' => (s'.pc w').status) = Function.update (fun w' => (s.pc w').status) w pc.status := by
  rw [moved]
  exact Function.comp_update Pc.status s.pc w pc

/-- A step inside a command is not seen. -/
theorem booked_goto {s s' : State m} {order : List (Call (Fin m) Request Reply)} {w : Fin m} {pc : Pc}
    (booked : Booked (fun w => (s.pc w).status) s.calls s.history order)
    (moved : s'.pc = Function.update s.pc w pc) (calls : s'.calls = s.calls) (history : s'.history = s.history)
    (status : pc.status = (s.pc w).status) : Booked (fun w => (s'.pc w).status) s'.calls s'.history order := by
  rw [status_goto moved, calls, history, status]
  exact (Function.update_eq_self w fun w' => (s.pc w').status).symm ▸ booked

/-- The set, and the reply of the `hset`: the command takes its place in the order. It is legal
there because the map of the order is what the store has, and nobody who has read the cell is
still to answer. -/
theorem Inv.set {s s' : State m} {order : List (Call (Fin m) Request Reply)} {map : Cell → Option Number}
    (inv : Inv s order map) {w : Fin m} {cell : Cell} {value number : Number} {data : Nat} {created : Bool}
    (setting : s.pc w = .setting cell value data created) (stored : s.heap[data]? = some number)
    (unanswered : value.type = number.type → ∀ w', cell ∉ (s.pc w').answered)
    (moved : s'.pc = Function.update s.pc w (.replying (.hset cell value) (.hset (setReply value number))))
    (table : s'.table = s.table)
    (heap : s'.heap = if value.type = number.type then s.heap.set data value else s.heap)
    (calls : s'.calls = s.calls) (history : s'.history = s.history) :
    ∃ order' map', Inv s' order' map' := by
  have about := inv.sound.about setting stored
  have reply : Reply.hset (setReply value number) = (apply map (.hset cell value)).2 := by
    rcases about with ⟨_, zero, held⟩ | held
    · rw [apply, held, setReply, if_pos (zero ▸ zero_type value)]
      rfl
    · rw [apply, held]
      rfl
  have working : (s.pc w).status = .working (.hset cell value) := by
    rw [setting]
    rfl
  refine ⟨_, _, ?_, inv.legal.snoc ⟨(w, s.calls w), .hset cell value, _⟩ reply, ?_⟩
  · rw [status_goto moved, calls, history]
    exact Booked.commit inv.booked working _
  · by_cases same : value.type = number.type
    · have accepted : (apply map (.hset cell value)).1 = Function.update map cell (some value) := by
        have accepts : Accepts Number.type (map cell) value := by
          rcases about with ⟨_, _, held⟩ | held
          · rw [held]
            trivial
          · rw [held]
            exact same
        exact congrArg (Function.update map cell) (assignCell_accepts accepts)
      rw [accepted]
      rw [if_pos same] at heap
      exact inv.sound.set setting (unanswered same) moved table heap
    · have held : map cell = some number := by
        rcases about with ⟨_, zero, _⟩ | held
        · exact absurd (zero ▸ zero_type value) same
        · exact held
      have refused : (apply map (.hset cell value)).1 = map := by
        rw [apply]
        apply assign_refused
        rw [held]
        exact same
      rw [refused]
      rw [if_neg same] at heap
      have found : created = false := by
        cases created with
        | false => rfl
        | true =>
          rcases about with ⟨_, _, unset⟩ | _
          · cases held.symm.trans unset
          · have mine := inv.sound.knows w
            rw [setting] at mine
            exact absurd (Option.some.inj (stored.symm.trans mine.2) ▸ zero_type value) same
      subst found
      exact inv.sound.goto moved table heap (by rw [setting]; rfl) (by rw [setting]; rfl) trivial

/-- The loop of an `hget` goes on, or the command takes its place in the order. Before its last
field it only gathers features, which are those of the map; with the last one the call is made
in the order. -/
theorem Inv.answer {s s' : State m} {order : List (Call (Fin m) Request Reply)} {map : Cell → Option Number}
    (sound : Sound s map) (legal : Legal apply (fun _ => none) order map) {w : Fin m} {hget : CommandHget}
    {features : List Feature}
    (booked : Booked (Function.update (fun w' => (s.pc w').status) w (.working (.hget hget))) s'.calls s'.history
      order)
    (moved : s'.pc = Function.update s.pc w (Workers.answer hget features)) (table : s'.table = s.table)
    (heap : s'.heap = s.heap) (owns : (s.pc w).owns = none)
    (sofar : features = answers map hget features.length) (bound : features.length ≤ hget.fields.length) :
    ∃ order' map', Inv s' order' map' := by
  have fills : (s.pc w).fills = none := by
    cases fills : (s.pc w).fills with
    | none => rfl
    | some data => cases owns.symm.trans (Pc.owns_of_fills fills)
  by_cases more : features.length < hget.fields.length
  · rw [Workers.answer, if_pos more] at moved
    refine ⟨order, map, ?_, legal, sound.goto moved table heap fills.symm owns.symm ⟨more, sofar⟩⟩
    rw [status_goto moved]
    exact booked
  · rw [Workers.answer, if_neg more] at moved
    have all : features.length = hget.fields.length := Nat.le_antisymm bound (Nat.le_of_not_lt more)
    have reply : Reply.hget ⟨⟨0, "success"⟩, features⟩ = (apply map (.hget hget)).2 := by
      rw [apply]
      congr 2
      rw [sofar, answers, all, List.take_length]
    have working : Function.update (fun w' => (s.pc w').status) w (.working (.hget hget)) w =
        .working (.hget hget) := Function.update_self w _ _
    refine ⟨_, map, ?_, legal.snoc ⟨(w, s'.calls w), .hget hget, _⟩ reply,
      sound.goto moved table heap fills.symm owns.symm trivial⟩
    have committed := booked.commit working (.hget ⟨⟨0, "success"⟩, features⟩)
    rw [Function.update_idem] at committed
    rw [status_goto moved]
    exact committed

/-- A worker takes a command. The call is booked as working. An `hset` waits for its write, an
`hget` without fields is answered at once. -/
theorem Inv.invoke {s : State m} {order : List (Call (Fin m) Request Reply)} {map : Cell → Option Number}
    (inv : Inv s order map) {w : Fin m} (idle : s.pc w = .idle) (request : Request) :
    ∃ order' map', Inv
      { s with
        pc := Function.update s.pc w request.begin
        history := s.history ++ [.invoked (w, s.calls w) request] } order' map' := by
  have waiting : (s.pc w).status = .idle := by
    rw [idle]
    rfl
  have booked := Booked.invoke inv.booked waiting request
  cases request with
  | hset cell value =>
    refine ⟨order, map, ?_, inv.legal, ?_⟩
    · rw [status_goto rfl]
      exact booked
    · exact inv.sound.goto rfl rfl rfl (by rw [idle]; rfl) (by rw [idle]; rfl) trivial
  | hget hget =>
    exact Inv.answer inv.sound inv.legal booked rfl rfl rfl (by rw [idle]; rfl) rfl (Nat.zero_le _)

/-- A worker sends its reply. The call is in the order already, so order and map stay. -/
theorem Inv.reply {s : State m} {order : List (Call (Fin m) Request Reply)} {map : Cell → Option Number}
    (inv : Inv s order map) {w : Fin m} {request : Request} {reply : Reply}
    (replying : s.pc w = .replying request reply) :
    Inv
      { s with
        pc := Function.update s.pc w .idle
        calls := Function.update s.calls w (s.calls w + 1)
        history := s.history ++ [.replied (w, s.calls w) request reply] } order map where
  booked := by
    rw [status_goto rfl]
    apply Booked.reply inv.booked
    rw [replying]
    rfl
  legal := inv.legal
  sound := inv.sound.goto rfl rfl rfl (by rw [replying]; rfl) (by rw [replying]; rfl) trivial

/-- One more answer of an `hget`. -/
theorem answers_succ {map : Cell → Option Number} {hget : CommandHget} {features : List Feature} {field : Str}
    (sofar : features = answers map hget features.length) (next : hget.fields[features.length]? = some field) :
    features ++ [((map (hget.key, field)).map Number.feature).getD Feature.empty] =
      answers map hget (features.length + 1) := by
  rw [answers, List.take_add_one, next, List.map_append]
  exact congrArg (· ++ _) sofar

/-- An `hget` with one more answer. The answer is what the map holds now, and nothing has
changed in the map behind the earlier ones. -/
theorem Inv.extend {s : State m} {order : List (Call (Fin m) Request Reply)} {map : Cell → Option Number}
    (inv : Inv s order map) {w : Fin m} {hget : CommandHget} {features : List Feature} {field : Str}
    (working : (s.pc w).status = .working (.hget hget)) (owns : (s.pc w).owns = none)
    (sofar : features = answers map hget features.length) (next : hget.fields[features.length]? = some field)
    {feature : Feature} (held : feature = ((map (hget.key, field)).map Number.feature).getD Feature.empty) :
    ∃ order' map', Inv { s with pc := Function.update s.pc w (Workers.answer hget (features ++ [feature])) } order'
      map' := by
  have booked : Booked (Function.update (fun w' => (s.pc w').status) w (.working (.hget hget))) s.calls s.history
      order := by
    rw [← working]
    exact (Function.update_eq_self w fun w' => (s.pc w').status).symm ▸ inv.booked
  obtain ⟨bound, _⟩ := List.getElem?_eq_some_iff.mp next
  refine Inv.answer inv.sound inv.legal booked rfl rfl rfl owns ?_ ?_
  · rw [held, List.length_append, List.length_singleton]
    exact answers_succ sofar next
  · rw [List.length_append, List.length_singleton]
    exact bound

/-- A worker that goes on to another stage of its call without a change to the store. -/
theorem Inv.goto {s : State m} {order : List (Call (Fin m) Request Reply)} {map : Cell → Option Number}
    (inv : Inv s order map) {w : Fin m} {pc : Pc} (status : pc.status = (s.pc w).status)
    (fills : pc.fills = (s.pc w).fills) (owns : pc.owns = (s.pc w).owns) (knows : Knows s map pc) :
    Inv { s with pc := Function.update s.pc w pc } order map :=
  ⟨booked_goto inv.booked rfl rfl rfl status, inv.legal, inv.sound.goto rfl rfl rfl fills owns knows⟩

/-- A worker reads an element that it has found: it is set, so its number is that of the map.
That goes to the answers. -/
theorem Inv.read {s : State m} {order : List (Call (Fin m) Request Reply)} {map : Cell → Option Number}
    (inv : Inv s order map) {w : Fin m} {hget : CommandHget} {features : List Feature} {data : Nat} {number : Number}
    (reading : s.pc w = .reading hget features data) (stored : s.heap[data]? = some number) :
    ∃ order' map', Inv { s with pc := Function.update s.pc w (Workers.answer hget (features ++ [number.feature])) }
      order' map' := by
  have knows := inv.sound.knows w
  rw [reading] at knows
  obtain ⟨bound, sofar, points⟩ := knows
  have next : hget.fields[features.length]? = some hget.fields[features.length] := List.getElem?_eq_getElem bound
  obtain ⟨found, still⟩ := points _ next
  obtain ⟨number', stored', held⟩ := inv.sound.filled _ data found
  apply inv.extend (by rw [reading]; rfl) (by rw [reading]; rfl) sofar next
  rw [held, if_neg still, ← stored', stored]
  rfl

/-- An undisturbed step of a worker. One case for each stage of a worker; the store changes in
three of them, and the map in the setting alone. -/
theorem Inv.advance {s s' : State m} {order : List (Call (Fin m) Request Reply)} {map : Cell → Option Number}
    (inv : Inv s order map) {w : Fin m} (clear : s.Clear (s.pc w)) (advanced : advance s w = some s') :
    ∃ order' map', Inv s' order' map' := by
  have knows := inv.sound.knows w
  unfold Workers.advance at advanced
  cases at_ : s.pc w with
  | idle =>
    rw [at_] at advanced
    cases advanced
  | replying request reply =>
    rw [at_] at advanced
    cases advanced
  | getting cell value =>
    rw [at_] at advanced clear
    cases found : s.table cell with
    | some data =>
      simp only [found, Option.some.injEq] at advanced
      subst advanced
      refine ⟨order, map, inv.goto (by rw [at_]; rfl) (by rw [at_]; rfl) (by rw [at_]; rfl) ?_⟩
      exact ⟨found, clear data found⟩
    | none =>
      simp only [found, Option.some.injEq] at advanced
      subst advanced
      refine ⟨order, map, booked_goto inv.booked rfl rfl rfl (by rw [at_]; rfl), inv.legal, ?_⟩
      exact inv.sound.create at_ rfl rfl rfl
  | putting cell value data =>
    rw [at_] at advanced clear
    obtain rfl := Option.some.inj advanced
    refine ⟨order, map, booked_goto inv.booked rfl rfl rfl (by rw [at_]; rfl), inv.legal, ?_⟩
    exact inv.sound.insert at_ clear rfl rfl rfl
  | setting cell value data created =>
    rw [at_] at advanced clear
    obtain ⟨number, stored, rfl⟩ := Option.map_eq_some_iff.mp advanced
    refine inv.set at_ stored ?_ rfl rfl rfl rfl rfl
    intro same
    apply clear
    intro number' stored'
    rwa [Option.some.inj (stored'.symm.trans stored)]
  | looking hget features =>
    rw [at_] at advanced clear knows
    obtain ⟨field, next, rfl⟩ := Option.map_eq_some_iff.mp advanced
    cases found : s.table (hget.key, field) with
    | some data =>
      dsimp only
      refine ⟨order, map, inv.goto (by rw [at_]; rfl) (by rw [at_]; rfl) (by rw [at_]; rfl) ?_⟩
      refine ⟨knows.1, knows.2, fun field' member => ?_⟩
      obtain rfl : field' = field := Option.some.inj (member.symm.trans next)
      exact ⟨found, clear field' next data found⟩
    | none =>
      apply inv.extend (by rw [at_]; rfl) (by rw [at_]; rfl) knows.2 next
      rw [inv.sound.empty _ found]
      rfl
  | reading hget features data =>
    rw [at_] at advanced
    obtain ⟨number, stored, rfl⟩ := Option.map_eq_some_iff.mp advanced
    exact inv.read at_ stored

/-- An undisturbed step keeps the invariant, with an order that may be one call longer. A call
enters the order with its write, or with its last answer. -/
theorem Inv.step {s s' : State m} {event : Event m} (inv : ∃ order map, Inv s order map)
    (clear : Undisturbed s event) (stepped : step s event = some s') : ∃ order map, Inv s' order map := by
  obtain ⟨order, map, inv⟩ := inv
  cases event with
  | invoke w request =>
    unfold Workers.step at stepped
    dsimp only at stepped
    split at stepped
    · rename_i idle
      obtain rfl := Option.some.inj stepped
      exact inv.invoke idle request
    · cases stepped
  | advance w => exact inv.advance clear stepped
  | reply w =>
    unfold Workers.step at stepped
    dsimp only at stepped
    split at stepped
    · rename_i request reply replying
      obtain rfl := Option.some.inj stepped
      exact ⟨order, map, inv.reply replying⟩
    · cases stepped

/-- Nothing has happened. -/
theorem Inv.start : Inv (initial : State m) [] fun _ => none where
  booked := Booked.start
  legal := rfl
  sound :=
    { knows := fun _ => trivial
      alone := fun _ _ _ impossible => by cases impossible
      apart := fun _ _ _ impossible => by cases impossible
      empty := fun _ _ => rfl
      filled := fun _ _ impossible => by cases impossible }

/-- With idle workers the store is the map. Nobody owns an element, so every element of the
store is set. -/
theorem Inv.cells {s : State m} {order : List (Call (Fin m) Request Reply)} {map : Cell → Option Number}
    (inv : Inv s order map) (idle : ∀ w, s.pc w = .idle) : s.cells = map := by
  have settled : ∀ data, ¬ s.Unset data := by
    rintro data ⟨w, fills⟩
    rw [idle w] at fills
    cases fills
  funext cell
  cases found : s.table cell with
  | none =>
    rw [State.cells, found, inv.sound.empty cell found]
    rfl
  | some data =>
    obtain ⟨number, stored, held⟩ := inv.sound.filled cell data found
    rw [State.cells, found, held, if_neg (settled data)]
    exact stored

/-- Undisturbed runs are linearizable. -/
theorem linearizable_of_undisturbed {s : State m} {events : List (Event m)}
    (ran : run step initial events = some s) (undisturbed : Along step Undisturbed initial events) :
    Linearizable s := by
  have kept : ∃ order map, Inv s order map :=
    run_invariant (fun s => ∃ order map, Inv s order map)
      (fun _ _ _ inv clear stepped => Inv.step inv clear stepped) initial s events
      ⟨[], _, Inv.start⟩ undisturbed ran
  obtain ⟨order, map, inv⟩ := kept
  exact ⟨order, map, inv.booked.explains, inv.legal, inv.cells⟩

/-- A number of the map was the value of an `hset` in the order. By induction on the order,
from behind: the last call has set the cell, or the map before it has the number. -/
theorem Legal.written {order : List (Call (Fin m) Request Reply)} {map : Cell → Option Number}
    (legal : Legal apply (fun _ => none) order map) (cell : Cell) (value : Number) (held : map cell = some value) :
    ∃ call ∈ order, call.op = .hset cell value := by
  have invariant := legal.invariant
    (fun map => ∀ cell value, map cell = some value → ∃ call ∈ order, call.op = .hset cell value)
  apply invariant _ (fun _ _ impossible => by cases impossible) cell value held
  intro call member map before cell value held
  cases request : call.op with
  | hget hget =>
    rw [request] at held
    exact before cell value held
  | hset cell' value' =>
    rw [request] at held
    have held' : assign Number.type map (cell', value') cell = some value := held
    by_cases here : cell = cell'
    · subst here
      rw [assign, Function.update_self] at held'
      cases old : map cell with
      | none =>
        rw [old] at held'
        obtain rfl := Option.some.inj held'
        exact ⟨call, member, request⟩
      | some number =>
        rw [old, assignCell] at held'
        split at held'
        · obtain rfl := Option.some.inj held'
          exact ⟨call, member, request⟩
        · obtain rfl := Option.some.inj held'
          exact before cell number old
    · rw [assign, Function.update_of_ne here] at held'
      exact before cell value held'

/-- A list zipped with its image. -/
theorem mem_zip_map {α β : Type} {f : α → β} {l : List α} {entry : α × β} (member : entry ∈ l.zip (l.map f)) :
    entry.2 = f entry.1 := by
  induction l with
  | nil => exact absurd member List.not_mem_nil
  | cons a l ih =>
    rw [List.map_cons, List.zip_cons_cons] at member
    rcases List.mem_cons.mp member with rfl | later
    · rfl
    · exact ih later

/-- In a linearizable run an `hget` returns only what was written. Its answers are those of the
map at its place in the order, and the map holds only what a call before that has written. -/
theorem Linearizable.onlyWritten {s : State m} (linearizable : Linearizable s) : OnlyWritten s := by
  obtain ⟨order, map, explains, legal, _⟩ := linearizable
  intro id hget reply member entry asked
  obtain ⟨front, back, rfl⟩ := List.append_of_mem (explains.replied _ _ _ member)
  obtain ⟨middle, before, here, _⟩ := legal.split
  obtain rfl : reply = _ := Reply.hget.inj here
  have feature := mem_zip_map asked
  cases held : middle (hget.key, entry.1) with
  | none =>
    rw [held] at feature
    exact Or.inl feature
  | some value =>
    obtain ⟨call, listed, request⟩ := Legal.written before _ value held
    rw [held] at feature
    refine Or.inr ⟨call.id, value, ?_, feature⟩
    rw [← request]
    exact explains.made call (List.mem_append_left _ listed)

/-- An acknowledged `hset` fixes the kind of its cell. By induction on the order: a later
`hset` of the cell is acknowledged only with this kind. -/
theorem Legal.kind {order : List (Call (Fin m) Request Reply)} {map : Cell → Option Number}
    (legal : Legal apply (fun _ => none) order map) {id : CallId (Fin m)} {cell : Cell} {value : Number}
    {text : String} (member : ⟨id, .hset cell value, .hset ⟨0, text⟩⟩ ∈ order) :
    ∃ number, map cell = some number ∧ number.type = value.type := by
  obtain ⟨front, back, rfl⟩ := List.append_of_mem member
  obtain ⟨middle, _, here, behind⟩ := legal.split
  have stored : (apply middle (.hset cell value)).1 cell = some value := by
    have accepts : Accepts Number.type (middle cell) value := by
      cases old : middle cell with
      | none => trivial
      | some number =>
        have code : (⟨0, text⟩ : CommandReply) = setReply value number := by
          simpa [apply, old] using here
        by_contra refused
        have different : value.type ≠ number.type := refused
        rw [setReply, if_neg different] at code
        cases congrArg CommandReply.errcode code
    have here' : assign Number.type middle (cell, value) cell = some value := by
      rw [assign, Function.update_self, assignCell_accepts accepts]
    exact here'
  have invariant := behind.invariant fun map => ∃ number, map cell = some number ∧ number.type = value.type
  apply invariant _ ⟨value, stored, rfl⟩
  rintro call _ map ⟨number, held, same⟩
  cases request : call.op with
  | hget hget => exact ⟨number, held, same⟩
  | hset cell' value' =>
    obtain ⟨number', held', same'⟩ : ∃ u, replay Number.type map [(cell', value')] cell = some u ∧
        u.type = number.type := replay_kind held [(cell', value')]
    exact ⟨number', held', same'.trans same⟩

/-- In a linearizable run the acknowledged `hset`s of a cell are of one kind. -/
theorem Linearizable.oneKind {s : State m} (linearizable : Linearizable s) : OneKind s := by
  obtain ⟨order, map, explains, legal, _⟩ := linearizable
  intro cell id value id' value' text text' first second
  obtain ⟨number, held, same⟩ := Legal.kind legal (explains.replied _ _ _ first)
  obtain ⟨number', held', same'⟩ := Legal.kind legal (explains.replied _ _ _ second)
  rw [held] at held'
  obtain rfl := Option.some.inj held'
  exact same.symm.trans same'

/-- Runs in which no command comes in between two steps of another: their replies and the
store are those of a sequential order, no `hget` returns what was not written, and the
acknowledged `hset`s of a cell are of one kind.

Proof: a command takes effect at one of its steps, the read of the cell or the setting of its
object. The order of these steps is the sequential order; the invariant books each command
that has taken effect but has not replied, and an undisturbed step finds the store that the
order predicts. The other two parts hold of every sequential history. -/
theorem undisturbed_linearizable (events : List (Event m)) (s : State m) (ran : run step initial events = some s)
    (undisturbed : Along step Undisturbed initial events) : Linearizable s ∧ OnlyWritten s ∧ OneKind s := by
  have linearizable := linearizable_of_undisturbed ran undisturbed
  exact ⟨linearizable, linearizable.onlyWritten, linearizable.oneKind⟩

/-- One worker sets a cell, another then gets it. -/
def setThenGet : List (Event 2) :=
  [.invoke 0 (.hset ([1], [2]) (.int64 7)), .advance 0, .advance 0, .advance 0, .reply 0,
    .invoke 1 (.hget ⟨[1], [[2]]⟩), .advance 1, .advance 1, .reply 1]

/-- They are linearizable. -/
theorem undisturbed_setThenGet :
    ∃ s, run step initial setThenGet = some s ∧ Linearizable s ∧ OnlyWritten s ∧ OneKind s ∧
      .replied (1, 0) (.hget ⟨[1], [[2]]⟩) (.hget ⟨⟨0, "success"⟩, [Number.feature (.int64 7)]⟩) ∈ s.history := by
  have seen : (run step initial setThenGet).map State.history = some
      [.invoked (0, 0) (.hset ([1], [2]) (.int64 7)), .replied (0, 0) (.hset ([1], [2]) (.int64 7)) (.hset ⟨0, ""⟩),
        .invoked (1, 0) (.hget ⟨[1], [[2]]⟩), .replied (1, 0) (.hget ⟨[1], [[2]]⟩)
          (.hget ⟨⟨0, "success"⟩, [Number.feature (.int64 7)]⟩)] := by decide +kernel
  obtain ⟨s, ran, history⟩ := Option.map_eq_some_iff.mp seen
  obtain ⟨linearizable, written, kind⟩ := undisturbed_linearizable setThenGet s ran (by decide +kernel)
  refine ⟨s, ran, linearizable, written, kind, ?_⟩
  rw [history]
  simp

/-- Two workers set one new cell to numbers of different kinds, step by step in turn. -/
def bothCreate : List (Event 2) :=
  [.invoke 0 (.hset ([1], [2]) (.int64 7)), .invoke 1 (.hset ([1], [2]) (.float 5)), .advance 0, .advance 1,
    .advance 0, .advance 1, .advance 0, .advance 1, .reply 0, .reply 1]

/-- A worker gets a cell between its insertion and its first set. -/
def getInBetween : List (Event 2) :=
  [.invoke 0 (.hset ([1], [2]) (.int64 7)), .advance 0, .advance 0,
    .invoke 1 (.hget ⟨[1], [[2]]⟩), .advance 1, .advance 1, .reply 1]

/-- Both kinds are acknowledged; and a get returns 0, which nobody has set. Neither run has a
sequential order. In the first run both workers find the cell empty, in the second a get comes
between insertion and setting. -/
theorem workers_disturbed :
    (∃ s, run step initial bothCreate = some s ∧ ¬ OneKind s ∧ ¬ Linearizable s) ∧
    ∃ s, run step initial getInBetween = some s ∧ ¬ OnlyWritten s ∧ ¬ Linearizable s := by
  constructor
  · have seen : (run step initial bothCreate).map State.history = some
        [.invoked (0, 0) (.hset ([1], [2]) (.int64 7)), .invoked (1, 0) (.hset ([1], [2]) (.float 5)),
          .replied (0, 0) (.hset ([1], [2]) (.int64 7)) (.hset ⟨0, ""⟩),
          .replied (1, 0) (.hset ([1], [2]) (.float 5)) (.hset ⟨0, ""⟩)] := by decide +kernel
    obtain ⟨s, ran, history⟩ := Option.map_eq_some_iff.mp seen
    have mixed : ¬ OneKind s := by
      intro one
      have same := one ([1], [2]) (0, 0) (.int64 7) (1, 0) (.float 5) "" "" (by rw [history]; simp)
        (by rw [history]; simp)
      cases same
    exact ⟨s, ran, mixed, fun linearizable => mixed linearizable.oneKind⟩
  · have seen : (run step initial getInBetween).map State.history = some
        [.invoked (0, 0) (.hset ([1], [2]) (.int64 7)), .invoked (1, 0) (.hget ⟨[1], [[2]]⟩),
          .replied (1, 0) (.hget ⟨[1], [[2]]⟩) (.hget ⟨⟨0, "success"⟩, [Number.feature (.int64 0)]⟩)] := by
      decide +kernel
    obtain ⟨s, ran, history⟩ := Option.map_eq_some_iff.mp seen
    have unwritten : ¬ OnlyWritten s := by
      intro written
      rcases written (1, 0) ⟨[1], [[2]]⟩ ⟨⟨0, "success"⟩, [Number.feature (.int64 0)]⟩ (by rw [history]; simp)
        ([2], Number.feature (.int64 0)) (by simp) with nothing | ⟨id, value, made, same⟩
      · exact absurd nothing (by decide)
      · rw [history] at made
        have only : id = (0, 0) ∧ value = .int64 7 := by simpa using made
        rw [only.2] at same
        exact absurd same (by decide)
    exact ⟨s, ran, unwritten, fun linearizable => unwritten linearizable.onlyWritten⟩

end Naruto.Command.Workers
