import Naruto.Command.Workers

/-!
# The store between the steps of workers

What holds of the store when no command comes in between two steps of another: it is
a map from cells to numbers, but for the elements that are inserted and not set
yet, whose cells the map does not have. Every kind of step has its lemma.
-/

namespace Naruto.Command.Workers

open Naruto.Theory Naruto.Utils Naruto.Database

variable {m : Nat}

/-- The first answers of an `hget` on the map. -/
def answers (map : Cell → Option Number) (hget : CommandHget) (n : Nat) : List Feature :=
  (hget.fields.take n).map fun field => ((map (hget.key, field)).map Number.feature).getD Feature.empty

/-- What a worker knows between two steps: its own element is not set by anyone, an
element it has found is set, and its answers are still those of the map. -/
def Knows (s : State m) (map : Cell → Option Number) : Pc → Prop
  | .putting _ value data => s.heap[data]? = some value.zero ∧ ∀ cell, s.table cell ≠ some data
  | .setting cell value data true => s.table cell = some data ∧ s.heap[data]? = some value.zero
  | .setting cell _ data false => s.table cell = some data ∧ ¬ s.Unset data
  | .looking hget features => features.length < hget.fields.length ∧ features = answers map hget features.length
  | .reading hget features data =>
    features.length < hget.fields.length ∧ features = answers map hget features.length ∧
      ∀ field ∈ hget.fields[features.length]?, s.table (hget.key, field) = some data ∧ ¬ s.Unset data
  | _ => True

/-- The store is the map, but for the elements that are still unset. An element is unset from
its insertion to its first setting; a worker owns the one it is about to insert or to set
first. -/
structure Sound (s : State m) (map : Cell → Option Number) : Prop where
  knows : ∀ w, Knows s map (s.pc w)
  alone : ∀ w w' data, (s.pc w).owns = some data → (s.pc w').owns = some data → w = w'
  apart : ∀ cell cell' data, s.table cell = some data → s.table cell' = some data → cell = cell'
  empty : ∀ cell, s.table cell = none → map cell = none
  filled : ∀ cell data, s.table cell = some data →
    ∃ number, s.heap[data]? = some number ∧ map cell = if s.Unset data then none else some number

/-- Who fills an element owns it. -/
theorem Pc.owns_of_fills {pc : Pc} {data : Nat} (fills : pc.fills = some data) : pc.owns = some data := by
  cases pc with
  | setting cell value data' created =>
    cases created with
    | true => exact fills
    | false => cases fills
  | _ => cases fills

/-- Where a worker is after one of them has gone on. -/
theorem pc_moved {s s' : State m} {w : Fin m} {pc : Pc} (moved : s'.pc = Function.update s.pc w pc) (w' : Fin m) :
    w' = w ∧ s'.pc w' = pc ∨ w' ≠ w ∧ s'.pc w' = s.pc w' := by
  by_cases here : w' = w
  · exact Or.inl ⟨here, by rw [moved, here, Function.update_self]⟩
  · exact Or.inr ⟨here, by rw [moved, Function.update_of_ne here]⟩

/-- The unset elements after one worker has gone on. -/
theorem unset_goto {s s' : State m} {w : Fin m} {pc : Pc} (moved : s'.pc = Function.update s.pc w pc)
    (fills : pc.fills = (s.pc w).fills) (data : Nat) : s'.Unset data ↔ s.Unset data := by
  have same : ∀ w', (s'.pc w').fills = (s.pc w').fills := by
    intro w'
    rcases pc_moved moved w' with ⟨rfl, went⟩ | ⟨_, stayed⟩
    · rw [went, fills]
    · rw [stayed]
  simp only [State.Unset, same]

/-- The owned elements after one worker has gone on. -/
theorem owns_goto {s s' : State m} {w : Fin m} {pc : Pc} (moved : s'.pc = Function.update s.pc w pc)
    (owns : pc.owns = (s.pc w).owns) (w' : Fin m) : (s'.pc w').owns = (s.pc w').owns := by
  rcases pc_moved moved w' with ⟨rfl, went⟩ | ⟨_, stayed⟩
  · rw [went, owns]
  · rw [stayed]

/-- Answers depend on the cells that are among them alone. -/
theorem answers_congr {map map' : Cell → Option Number} {hget : CommandHget} {n : Nat}
    (same : ∀ cell ∈ (hget.fields.take n).map fun field => (hget.key, field), map' cell = map cell) :
    answers map' hget n = answers map hget n := by
  apply List.map_congr_left
  intro field member
  rw [same _ (List.mem_map.mpr ⟨field, member, rfl⟩)]

/-- What a worker knows outlives a change to the store that keeps the elements where
they are, does not touch the worker's own and unsets none, and a change to the map that
leaves the cells it has answered. -/
theorem Knows.transfer {s s' : State m} {map map' : Cell → Option Number} {pc : Pc} (knows : Knows s map pc)
    (table : ∀ cell data, s.table cell = some data → s'.table cell = some data)
    (still : ∀ cell data, s.table cell = some data → ¬ s.Unset data → ¬ s'.Unset data)
    (outside : ∀ data, pc.owns = some data → ∀ cell, s.table cell = none → s'.table cell ≠ some data)
    (heap : ∀ data number, pc.owns = some data → s.heap[data]? = some number → s'.heap[data]? = some number)
    (answered : ∀ cell ∈ pc.answered, map' cell = map cell) : Knows s' map' pc := by
  cases pc with
  | putting cell value data =>
    refine ⟨heap data _ rfl knows.1, fun other inside => ?_⟩
    cases before : s.table other with
    | none => exact outside data rfl other before inside
    | some found =>
      obtain rfl := Option.some.inj ((table other found before).symm.trans inside)
      exact knows.2 other before
  | setting cell value data created =>
    cases created with
    | true => exact ⟨table cell data knows.1, heap data _ rfl knows.2⟩
    | false => exact ⟨table cell data knows.1, still cell data knows.1 knows.2⟩
  | looking hget features => exact ⟨knows.1, knows.2.trans (answers_congr answered).symm⟩
  | reading hget features data =>
    refine ⟨knows.1, knows.2.1.trans (answers_congr answered).symm, fun field member => ?_⟩
    obtain ⟨inside, before⟩ := knows.2.2 field member
    exact ⟨table _ data inside, still _ data inside before⟩
  | _ => trivial

/-- What a worker knows depends on the store and the unset elements alone; new elements
do not matter. -/
theorem Knows.congr {s s' : State m} {map : Cell → Option Number} {pc : Pc} (knows : Knows s map pc)
    (table : s'.table = s.table)
    (heap : ∀ (data : Nat) (number : Number), s.heap[data]? = some number → s'.heap[data]? = some number)
    (unset : ∀ data, s'.Unset data ↔ s.Unset data) : Knows s' map pc := by
  apply knows.transfer
  · intro cell data inside
    rw [table, inside]
  · intro cell data _ still
    rwa [unset]
  · intro data _ cell absent
    rw [table, absent]
    exact (Option.some_ne_none data).symm
  · intro data number _ there
    exact heap data number there
  · intro cell _
    rfl

/-- A worker that goes on without a change to the store. What it owns and fills is as before,
so the others and the cells know what they knew. -/
theorem Sound.goto {s s' : State m} {map : Cell → Option Number} (sound : Sound s map) {w : Fin m} {pc : Pc}
    (moved : s'.pc = Function.update s.pc w pc) (table : s'.table = s.table) (heap : s'.heap = s.heap)
    (fills : pc.fills = (s.pc w).fills) (owns : pc.owns = (s.pc w).owns) (knows : Knows s map pc) :
    Sound s' map := by
  have unset := unset_goto moved fills
  have same := owns_goto moved owns
  constructor
  · intro w'
    apply Knows.congr _ table (fun data number there => by rw [heap]; exact there) unset
    rcases pc_moved moved w' with ⟨_, went⟩ | ⟨_, stayed⟩
    · rw [went]
      exact knows
    · rw [stayed]
      exact sound.knows w'
  · intro w₁ w₂ data first second
    exact sound.alone w₁ w₂ data ((same w₁).symm.trans first) ((same w₂).symm.trans second)
  · rw [table]
    exact sound.apart
  · rw [table]
    exact sound.empty
  · intro cell data inside
    rw [table] at inside
    obtain ⟨number, there, held⟩ := sound.filled cell data inside
    refine ⟨number, by rw [heap]; exact there, ?_⟩
    simp only [unset, held]

/-- An element that is owned or in the store exists. By cases on where the worker is: it owns
one only between making it and setting it. -/
theorem Sound.bound {s : State m} {map : Cell → Option Number} (sound : Sound s map) {w : Fin m} {data : Nat}
    (owns : (s.pc w).owns = some data) : ∃ number, s.heap[data]? = some number := by
  have knows := sound.knows w
  cases at_ : s.pc w with
  | putting cell value data' =>
    rw [at_] at knows owns
    obtain rfl := Option.some.inj owns
    exact ⟨_, knows.1⟩
  | setting cell value data' created =>
    rw [at_] at knows owns
    cases created with
    | true =>
      obtain rfl := Option.some.inj owns
      exact ⟨_, knows.2⟩
    | false => cases owns
  | _ =>
    rw [at_] at owns
    cases owns

/-- An element that is owned and in the store is still unset. Its owner has inserted it and is
about to set it. -/
theorem Sound.owned_unset {s : State m} {map : Cell → Option Number} (sound : Sound s map) {w : Fin m} {cell : Cell}
    {data : Nat} (owns : (s.pc w).owns = some data) (inside : s.table cell = some data) : s.Unset data := by
  have knows := sound.knows w
  cases at_ : s.pc w with
  | putting cell' value data' =>
    rw [at_] at knows owns
    obtain rfl := Option.some.inj owns
    exact absurd inside (knows.2 cell)
  | setting cell' value data' created =>
    rw [at_] at owns
    cases created with
    | true => exact ⟨w, by rw [at_]; exact owns⟩
    | false => cases owns
  | _ =>
    rw [at_] at owns
    cases owns

/-- A worker makes an element of its own. The element lies behind all others on the heap, so no
cell and no other worker has it. -/
theorem Sound.create {s s' : State m} {map : Cell → Option Number} (sound : Sound s map) {w : Fin m} {cell : Cell}
    {value : Number} (getting : s.pc w = .getting cell value)
    (moved : s'.pc = Function.update s.pc w (.putting cell value s.heap.length)) (table : s'.table = s.table)
    (heap : s'.heap = s.heap ++ [value.zero]) : Sound s' map := by
  have unset := unset_goto moved (by rw [getting]; rfl)
  have kept : ∀ (data : Nat) (number : Number), s.heap[data]? = some number → s'.heap[data]? = some number := by
    intro data number there
    obtain ⟨bound, _⟩ := List.getElem?_eq_some_iff.mp there
    rw [heap, List.getElem?_append_left bound, there]
  have fresh : ∀ number, s.heap[s.heap.length]? ≠ some number := by
    intro number
    rw [List.getElem?_eq_none le_rfl]
    exact (Option.some_ne_none number).symm
  have owned : ∀ w' data, (s'.pc w').owns = some data →
      w' = w ∧ data = s.heap.length ∨ w' ≠ w ∧ (s.pc w').owns = some data := by
    intro w' data owns
    rcases pc_moved moved w' with ⟨here, went⟩ | ⟨other, stayed⟩
    · rw [went] at owns
      exact Or.inl ⟨here, (Option.some.inj owns).symm⟩
    · rw [stayed] at owns
      exact Or.inr ⟨other, owns⟩
  constructor
  · intro w'
    rcases pc_moved moved w' with ⟨_, went⟩ | ⟨_, stayed⟩
    · rw [went]
      constructor
      · rw [heap, List.getElem?_append_right le_rfl, Nat.sub_self]
        rfl
      · intro c inside
        rw [table] at inside
        obtain ⟨number, there, _⟩ := sound.filled c _ inside
        exact fresh number there
    · rw [stayed]
      exact (sound.knows w').congr table kept unset
  · intro w₁ w₂ data first second
    rcases owned w₁ data first with ⟨rfl, rfl⟩ | ⟨_, old₁⟩
    · rcases owned w₂ _ second with ⟨rfl, _⟩ | ⟨_, old₂⟩
      · rfl
      · obtain ⟨number, there⟩ := sound.bound old₂
        exact absurd there (fresh number)
    · rcases owned w₂ data second with ⟨rfl, rfl⟩ | ⟨_, old₂⟩
      · obtain ⟨number, there⟩ := sound.bound old₁
        exact absurd there (fresh number)
      · exact sound.alone w₁ w₂ data old₁ old₂
  · rw [table]
    exact sound.apart
  · rw [table]
    exact sound.empty
  · intro c data inside
    rw [table] at inside
    obtain ⟨number, there, held⟩ := sound.filled c data inside
    refine ⟨number, kept data number there, ?_⟩
    simp only [unset, held]

/-- The unset elements after a worker has inserted its own. Nobody but that worker has moved, so
its element is the only new one. -/
theorem unset_insert {s s' : State m} {w : Fin m} {cell : Cell} {value : Number} {data : Nat}
    (putting : s.pc w = .putting cell value data)
    (moved : s'.pc = Function.update s.pc w (.setting cell value data true)) (other : Nat) :
    s'.Unset other ↔ s.Unset other ∨ other = data := by
  constructor
  · rintro ⟨w', fills⟩
    rcases pc_moved moved w' with ⟨_, went⟩ | ⟨_, stayed⟩
    · rw [went] at fills
      exact Or.inr (Option.some.inj fills).symm
    · rw [stayed] at fills
      exact Or.inl ⟨w', fills⟩
  · rintro (⟨w', fills⟩ | rfl)
    · rcases pc_moved moved w' with ⟨rfl, _⟩ | ⟨_, stayed⟩
      · rw [putting] at fills
        cases fills
      · exact ⟨w', by rw [stayed]; exact fills⟩
    · exact ⟨w, by rw [moved, Function.update_self]; rfl⟩

/-- No cell shares its element with another after an element that no cell has is
inserted. -/
theorem apart_update {table : Cell → Option Nat} {cell : Cell} {data : Nat}
    (apart : ∀ cell cell' data, table cell = some data → table cell' = some data → cell = cell')
    (outside : ∀ cell, table cell ≠ some data) (first second : Cell) (d : Nat)
    (at_first : Function.update table cell (some data) first = some d)
    (at_second : Function.update table cell (some data) second = some d) : first = second := by
  rw [Function.update_apply] at at_first at_second
  split at at_first
  · split at at_second
    · exact (‹first = cell›).trans (‹second = cell›).symm
    · exact absurd (at_second.trans at_first.symm) (outside second)
  · split at at_second
    · exact absurd (at_first.trans at_second.symm) (outside first)
    · exact apart first second d at_first at_second

/-- The elements of the cells after an insertion. The cell that was empty holds an unset one, so
the map need not have it; the others are as they were. -/
theorem Sound.filled_insert {s s' : State m} {map : Cell → Option Number} (sound : Sound s map) {cell : Cell}
    {value : Number} {data : Nat} (zero : s.heap[data]? = some value.zero) (absent : s.table cell = none)
    (outside : ∀ c, s.table c ≠ some data) (table : s'.table = Function.update s.table cell (some data))
    (heap : s'.heap = s.heap) (unset : ∀ other, s'.Unset other ↔ s.Unset other ∨ other = data)
    (c : Cell) (d : Nat) (inside : s'.table c = some d) :
    ∃ number, s'.heap[d]? = some number ∧ map c = if s'.Unset d then none else some number := by
  rw [table] at inside
  rw [heap]
  by_cases here : c = cell
  · rw [here, Function.update_self] at inside
    obtain rfl := Option.some.inj inside
    refine ⟨value.zero, zero, ?_⟩
    rw [if_pos ((unset data).mpr (Or.inr rfl)), here]
    exact sound.empty cell absent
  · rw [Function.update_of_ne here] at inside
    obtain ⟨number, there, held⟩ := sound.filled c d inside
    have other : d ≠ data := fun same => outside c (same ▸ inside)
    refine ⟨number, there, ?_⟩
    simp only [unset, other, or_false, held]

/-- A worker inserts its element into an empty cell. Nobody else owns it, so what the others
know of their own elements stays true; the cell counts as empty until the element is set. -/
theorem Sound.insert {s s' : State m} {map : Cell → Option Number} (sound : Sound s map) {w : Fin m} {cell : Cell}
    {value : Number} {data : Nat} (putting : s.pc w = .putting cell value data) (absent : s.table cell = none)
    (moved : s'.pc = Function.update s.pc w (.setting cell value data true))
    (table : s'.table = emplace s.table cell data) (heap : s'.heap = s.heap) : Sound s' map := by
  have mine := sound.knows w
  rw [putting] at mine
  obtain ⟨zero, outside⟩ := mine
  have filled : s'.table = Function.update s.table cell (some data) := by
    rw [table, emplace, absent]
    rfl
  have elsewhere : ∀ c d, s.table c = some d → s'.table c = some d ∧ d ≠ data := by
    intro c d inside
    have other : c ≠ cell := by
      rintro rfl
      cases absent.symm.trans inside
    rw [filled, Function.update_of_ne other]
    exact ⟨inside, fun same => outside c (same ▸ inside)⟩
  have unset := unset_insert putting moved
  have owned := owns_goto moved (by rw [putting]; rfl)
  constructor
  · intro w'
    rcases pc_moved moved w' with ⟨_, went⟩ | ⟨other, stayed⟩
    · rw [went]
      exact ⟨by rw [filled, Function.update_self], by rw [heap]; exact zero⟩
    · rw [stayed]
      apply (sound.knows w').transfer
      · intro c d inside
        exact (elsewhere c d inside).1
      · intro c d inside still
        rw [unset]
        rintro (before | same)
        · exact still before
        · exact (elsewhere c d inside).2 same
      · intro d owns c before inside
        -- The only cell that is filled gets the element of this worker.
        rw [filled, Function.update_apply, before] at inside
        split at inside
        · obtain rfl := Option.some.inj inside
          exact other (sound.alone w' w data owns (by rw [putting]; rfl))
        · cases inside
      · intro d number _ there
        rw [heap, there]
      · intro c _
        rfl
  · intro w₁ w₂ d first second
    exact sound.alone w₁ w₂ d ((owned w₁).symm.trans first) ((owned w₂).symm.trans second)
  · rw [filled]
    exact apart_update sound.apart outside
  · intro c unfilled
    rw [filled, Function.update_apply] at unfilled
    split at unfilled
    · cases unfilled
    · exact sound.empty c unfilled
  · exact sound.filled_insert zero absent outside filled heap unset

/-- Nobody else owns an element that a worker is about to set. -/
theorem Sound.single {s : State m} {map : Cell → Option Number} (sound : Sound s map) {w w' : Fin m} {cell : Cell}
    {value : Number} {data : Nat} {created : Bool} (setting : s.pc w = .setting cell value data created)
    (other : w' ≠ w) : (s.pc w').owns ≠ some data := by
  intro owns
  have mine := sound.knows w
  rw [setting] at mine
  cases created with
  | true =>
    apply other
    apply sound.alone w' w data owns
    rw [setting]
    rfl
  | false => exact mine.2 (sound.owned_unset owns mine.1)

/-- The unset elements after a worker has set one. Nobody else was to set it: an element has one
owner. -/
theorem Sound.unset_set {s s' : State m} {map : Cell → Option Number} (sound : Sound s map) {w : Fin m}
    {cell : Cell} {value : Number} {data : Nat} {created : Bool} {request : Request} {reply : Reply}
    (setting : s.pc w = .setting cell value data created)
    (moved : s'.pc = Function.update s.pc w (.replying request reply)) (other : Nat) :
    s'.Unset other ↔ s.Unset other ∧ other ≠ data := by
  constructor
  · rintro ⟨w', fills⟩
    rcases pc_moved moved w' with ⟨_, went⟩ | ⟨elsewhere, stayed⟩
    · rw [went] at fills
      cases fills
    · rw [stayed] at fills
      refine ⟨⟨w', fills⟩, ?_⟩
      rintro rfl
      exact sound.single setting elsewhere (Pc.owns_of_fills fills)
  · rintro ⟨⟨w', fills⟩, differs⟩
    rcases pc_moved moved w' with ⟨rfl, _⟩ | ⟨_, stayed⟩
    · rw [setting] at fills
      cases created with
      | true => exact absurd (Option.some.inj fills).symm differs
      | false => cases fills
    · exact ⟨w', by rw [stayed]; exact fills⟩

/-- The elements of the cells after one has been set. No other cell has this element, so each of
them keeps its number, and the map gets the new number for the cell. -/
theorem Sound.filled_set {s s' : State m} {map : Cell → Option Number} (sound : Sound s map) {cell : Cell}
    {value : Number} {data : Nat} (inside : s.table cell = some data) (table : s'.table = s.table)
    (heap : s'.heap = s.heap.set data value) (unset : ∀ other, s'.Unset other ↔ s.Unset other ∧ other ≠ data)
    (c : Cell) (d : Nat) (there : s'.table c = some d) :
    ∃ number, s'.heap[d]? = some number ∧
      Function.update map cell (some value) c = if s'.Unset d then none else some number := by
  rw [table] at there
  obtain ⟨number, stored, held⟩ := sound.filled c d there
  by_cases here : c = cell
  · obtain rfl : d = data := by
      rw [here] at there
      exact Option.some.inj (there.symm.trans inside)
    refine ⟨value, ?_, ?_⟩
    · obtain ⟨bound, _⟩ := List.getElem?_eq_some_iff.mp stored
      rw [heap, List.getElem?_set_self bound]
    · rw [if_neg fun before => ((unset d).mp before).2 rfl, here, Function.update_self]
  · have other : d ≠ data := by
      rintro rfl
      exact here (sound.apart c cell d there inside)
    refine ⟨number, ?_, ?_⟩
    · rw [heap, List.getElem?_set_ne (Ne.symm other), stored]
    · rw [Function.update_of_ne here, held]
      simp only [unset, other, ne_eq, not_false_eq_true, and_true]

/-- A worker sets an element to a number of its kind. If it is the creator, the element belongs
to the others from here on. Others own other elements, so the heap changes for the cell alone,
and the map gets the number there. -/
theorem Sound.set {s s' : State m} {map : Cell → Option Number} (sound : Sound s map) {w : Fin m} {cell : Cell}
    {value : Number} {data : Nat} {created : Bool} {request : Request} {reply : Reply}
    (setting : s.pc w = .setting cell value data created) (unanswered : ∀ w', cell ∉ (s.pc w').answered)
    (moved : s'.pc = Function.update s.pc w (.replying request reply)) (table : s'.table = s.table)
    (heap : s'.heap = s.heap.set data value) : Sound s' (Function.update map cell (some value)) := by
  have mine := sound.knows w
  rw [setting] at mine
  have inside : s.table cell = some data := by
    cases created with
    | true => exact mine.1
    | false => exact mine.1
  have unset := sound.unset_set setting moved
  have owned : ∀ w' d, (s'.pc w').owns = some d → (s.pc w').owns = some d := by
    intro w' d owns
    rcases pc_moved moved w' with ⟨_, went⟩ | ⟨_, stayed⟩
    · rw [went] at owns
      cases owns
    · rwa [stayed] at owns
  constructor
  · intro w'
    rcases pc_moved moved w' with ⟨_, went⟩ | ⟨other, stayed⟩
    · rw [went]
      trivial
    · rw [stayed]
      apply (sound.knows w').transfer
      · intro c d there
        rw [table, there]
      · intro c d _ still
        rw [unset]
        exact fun before => still before.1
      · intro d _ c before
        rw [table, before]
        exact (Option.some_ne_none d).symm
      · intro d number owns there
        have differs : d ≠ data := by
          rintro rfl
          exact sound.single setting other owns
        rw [heap, List.getElem?_set_ne (Ne.symm differs), there]
      · intro c answered
        rw [Function.update_of_ne]
        rintro rfl
        exact unanswered w' answered
  · intro w₁ w₂ d first second
    exact sound.alone w₁ w₂ d (owned w₁ d first) (owned w₂ d second)
  · rw [table]
    exact sound.apart
  · intro c unfilled
    rw [table] at unfilled
    have other : c ≠ cell := by
      rintro rfl
      cases unfilled.symm.trans inside
    rw [Function.update_of_ne other]
    exact sound.empty c unfilled
  · exact sound.filled_set inside table heap unset

/-- The map on the cell of a worker that is about to set. An element of its own is zero and
unset, so the map holds nothing there; one that it has found is set. -/
theorem Sound.about {s : State m} {map : Cell → Option Number} (sound : Sound s map) {w : Fin m} {cell : Cell}
    {value number : Number} {data : Nat} {created : Bool} (setting : s.pc w = .setting cell value data created)
    (stored : s.heap[data]? = some number) :
    created = true ∧ number = value.zero ∧ map cell = none ∨ map cell = some number := by
  have mine := sound.knows w
  rw [setting] at mine
  cases created with
  | true =>
    obtain ⟨inside, zero⟩ := mine
    obtain ⟨number', _, held⟩ := sound.filled cell data inside
    refine Or.inl ⟨rfl, Option.some.inj (stored.symm.trans zero), ?_⟩
    rw [held, if_pos]
    exact ⟨w, by rw [setting]; rfl⟩
  | false =>
    obtain ⟨inside, still⟩ := mine
    obtain ⟨number', stored', held⟩ := sound.filled cell data inside
    rw [if_neg still] at held
    exact Or.inr (held.trans (stored'.symm.trans stored))

/-- The class of the number an `hset` makes is that of its value. -/
theorem zero_type (value : Number) : value.type = value.zero.type := by
  cases value <;> rfl

end Naruto.Command.Workers
