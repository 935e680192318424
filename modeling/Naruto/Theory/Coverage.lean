import Naruto.Theory.CommandLog

/-!
# Stores that cover a place in a history

A store covers a place in a history when every cell is as after a prefix of the
history that goes at least up to the place: the store has the effects of all
commands before the place, and in some cells those of later ones. The commands
behind the place lead to a later place, also when the store had their effects
already, and all of them lead to the store of the whole history.
-/

namespace Naruto.Theory

variable {C V K P : Type*} [DecidableEq C] [DecidableEq K] {kind : V → K}

omit [DecidableEq C] in
/-- A value written again after others changes the cell to what it was before the others, or
not at all. The kind of the cell is fixed by then, so the value counts again exactly when it
counted. -/
theorem replayCell_revisit (kind : V → K) (cell : Option V) (front both back : List V) :
    replayCell kind (replayCell kind cell (front ++ both ++ back)) both =
        replayCell kind cell (front ++ both ++ back) ∨
      replayCell kind (replayCell kind cell (front ++ both ++ back)) both = replayCell kind cell (front ++ both) := by
  have settled : ∀ (y : V) (both : List V),
      replayCell kind (replayCell kind (some y) (both ++ back)) both = replayCell kind (some y) (both ++ back) ∨
        replayCell kind (replayCell kind (some y) (both ++ back)) both = replayCell kind (some y) both := by
    intro y both
    obtain ⟨x, last, same⟩ : ∃ x, replayCell kind (some y) (both ++ back) = some x ∧ kind x = kind y :=
      replayCell_kind y (both ++ back)
    rw [last, replayCell_some, replayCell_some, same]
    cases (both.filter fun v => kind v = kind y).getLast? with
    | none => exact Or.inl rfl
    | some l => exact Or.inr rfl
  rw [List.append_assoc, replayCell_append, replayCell_append cell front both]
  cases replayCell kind cell front with
  | some y => exact settled y both
  | none =>
    cases both with
    | nil => exact Or.inl rfl
    | cons b both =>
      have first : ∀ more, replayCell kind none (b :: both ++ more) = replayCell kind (some b) (b :: both ++ more) := by
        intro more
        rw [List.cons_append, replayCell_cons, replayCell_cons, assignCell, assignCell, if_pos rfl]
      have alone := first []
      rw [List.append_nil] at alone
      rw [first, alone]
      exact settled b (b :: both)

/-- Every cell is as after a prefix that goes at least up to the place. -/
def Covers (kind : V → K) (entry : P → Option (Entry C V)) (history : List P) (n : Nat) (s : C → Option V) : Prop :=
  ∀ c, ∃ j, n ≤ j ∧ ∃ t, performAll kind entry (fun _ => none) (history.take j) = some t ∧ s c = t c

variable {entry : P → Option (Entry C V)} {history : List P} {n : Nat} {s s' w : C → Option V}

/-- A prefix of a history that can be performed. -/
theorem performAll_take (whole : performAll kind entry s history = some w) (j : Nat) :
    ∃ t, performAll kind entry s (history.take j) = some t := by
  rw [← List.take_append_drop j history] at whole
  obtain ⟨t, performed, _⟩ := performAll_split whole
  exact ⟨t, performed⟩

/-- The store after a prefix covers every place in it. -/
theorem Covers.of_take {j : Nat} (performed : performAll kind entry (fun _ => none) (history.take j) = some s)
    (order : n ≤ j) : Covers kind entry history n s :=
  fun _ => ⟨j, order, s, performed, rfl⟩

/-- The empty store covers the beginning. -/
theorem Covers.empty : Covers kind entry history 0 (fun _ => none) :=
  Covers.of_take (j := 0) rfl (Nat.le_refl 0)

/-- What covers a place covers those before it. -/
theorem Covers.mono {n' : Nat} (covers : Covers kind entry history n s) (order : n' ≤ n) :
    Covers kind entry history n' s := by
  intro c
  obtain ⟨j, later, rest⟩ := covers c
  exact ⟨j, Nat.le_trans order later, rest⟩

/-- The commands behind the place lead to a later one. Cell by cell: the state is ahead of
the place by writes of the log, and what the log writes between overtakes them or leaves the
cell. -/
theorem Covers.advance {k : Nat} (covers : Covers kind entry history n s)
    (whole : performAll kind entry (fun _ => none) history = some w)
    (performed : performAll kind entry s ((history.drop n).take k) = some s') :
    Covers kind entry history (n + k) s' := by
  intro c
  obtain ⟨j, later, t, before, cell⟩ := covers c
  obtain ⟨u, reached⟩ := performAll_take whole (n + k)
  have written : ∀ {r r' : C → Option V}, performAll kind entry r ((history.drop n).take k) = some r' →
      r' c = replayCell kind (r c) (writesTo c (writesOf entry ((history.drop n).take k))) := by
    intro r r' performed
    rw [(performAll_eq performed).1, replay_cell]
  by_cases order : n + k ≤ j
  · -- the cell has the effect of these commands already, and perhaps of later ones
    have split : history.take j =
        history.take n ++ (history.drop n).take k ++ (history.drop (n + k)).take (j - (n + k)) := by
      rw [← List.take_add, ← List.take_add, Nat.add_sub_of_le order]
    have cell' : t c = replayCell kind none (writesTo c (writesOf entry (history.take n)) ++
        writesTo c (writesOf entry ((history.drop n).take k)) ++
        writesTo c (writesOf entry ((history.drop (n + k)).take (j - (n + k))))) := by
      rw [(performAll_eq before).1, replay_cell, split, writesOf_append, writesOf_append, writesTo_append,
        writesTo_append]
    have reached' : u c = replayCell kind none (writesTo c (writesOf entry (history.take n)) ++
        writesTo c (writesOf entry ((history.drop n).take k))) := by
      rw [(performAll_eq reached).1, replay_cell, List.take_add, writesOf_append, writesTo_append]
    rw [written performed, cell, cell']
    rcases replayCell_revisit kind none (writesTo c (writesOf entry (history.take n)))
        (writesTo c (writesOf entry ((history.drop n).take k)))
        (writesTo c (writesOf entry ((history.drop (n + k)).take (j - (n + k))))) with same | same
    · exact ⟨j, order, t, before, same.trans cell'.symm⟩
    · exact ⟨n + k, Nat.le_refl _, u, reached, same.trans reached'.symm⟩
  · -- the commands from the place on lead from the prefix up to `j` to the later place
    have behind : (history.take (n + k)).drop n = (history.drop n).take k := by
      rw [List.drop_take, Nat.add_sub_cancel_left]
    have inside : (history.take (n + k)).take j = history.take j := by
      rw [List.take_take, Nat.min_eq_left (Nat.le_of_not_le order)]
    have again := performAll_drop later (inside.symm ▸ before) reached
    rw [behind] at again
    refine ⟨n + k, Nat.le_refl _, u, reached, ?_⟩
    rw [written performed, cell, ← written again]

/-- All commands behind the place lead to the store of the whole history. Each cell is that of a
later moment of the history, from which the commands behind the place lead it to the end; those
that it has seen already write nothing new. -/
theorem Covers.resume (covers : Covers kind entry history n s)
    (whole : performAll kind entry (fun _ => none) history = some w) :
    performAll kind entry s (history.drop n) = some w := by
  obtain ⟨t, before⟩ := performAll_take whole n
  have rest := performAll_drop (Nat.le_refl n) before whole
  have wider : ∀ c, (t c).isSome → (s c).isSome := by
    intro c present
    obtain ⟨j, later, u, reached, cell⟩ := covers c
    rw [cell, (performAll_eq reached).1]
    rw [(performAll_eq before).1] at present
    have split : history.take j = history.take n ++ (history.drop n).take (j - n) := by
      rw [← List.take_add, Nat.add_sub_of_le later]
    rw [split, writesOf_append, replay_append]
    exact replay_present _ _ c present
  rw [performAll_wider wider rest]
  refine congrArg some (funext fun c => ?_)
  obtain ⟨j, later, u, reached, cell⟩ := covers c
  have again := (performAll_eq (performAll_drop later reached whole)).1
  rw [again, replay_cell, replay_cell, cell]

/-- A history that goes on leaves what is covered as it is. -/
theorem Covers.extend {more : List P} (covers : Covers kind entry history n s) (inside : n ≤ history.length) :
    Covers kind entry (history ++ more) n s := by
  intro c
  obtain ⟨j, later, t, before, cell⟩ := covers c
  refine ⟨min j history.length, Nat.le_min.mpr ⟨later, inside⟩, t, ?_, cell⟩
  rw [List.take_append_of_le_length (Nat.min_le_right _ _)]
  by_cases short : j ≤ history.length
  · rw [Nat.min_eq_left short]
    exact before
  · rw [Nat.min_eq_right (Nat.le_of_not_le short), List.take_length]
    rw [List.take_of_length_le (Nat.le_of_not_le short)] at before
    exact before

end Naruto.Theory
