import Mathlib.Data.List.FinRange
import Mathlib.Data.List.Induction
import Mathlib.Data.List.Sort

/-!
# Merging several lists by key

A list of heads names, for each list that is not exhausted, the list and the key
of its first entry. The merge sorts the heads, takes the first entry of the list
with the least key and replaces its head by the next one of the same list.

The sort is any that orders by key, stable or not. The merge is a permutation of
all entries, and sorted when every list is; entries dealt from one sequence with
increasing keys come out as that sequence.
-/

namespace Naruto.Theory

variable {α : Type*} {m : Nat}

/-- The head of a list: which list, and the key of its first entry. -/
structure Head (m : Nat) where
  slot : Fin m
  key : Nat
deriving DecidableEq, Repr

/-- A sort of heads by key. Nothing is known about heads of equal key. -/
structure Sorting (m : Nat) where
  sort : List (Head m) → List (Head m)
  perm : ∀ heads, (sort heads).Perm heads
  sorted : ∀ heads, (sort heads).Pairwise fun l r => l.key ≤ r.key

/-- Insertion sort, one of these sorts. -/
def Sorting.insertion (m : Nat) : Sorting m where
  sort heads := heads.insertionSort fun l r => l.key ≤ r.key
  perm heads := List.perm_insertionSort _ heads
  sorted heads := by
    have total : Std.Total fun l r : Head m => l.key ≤ r.key := ⟨fun l r => Nat.le_total l.key r.key⟩
    have transitive : IsTrans (Head m) fun l r => l.key ≤ r.key := ⟨fun _ _ _ => Nat.le_trans⟩
    exact List.pairwise_insertionSort _ heads

/-- The head of one list, when it has an entry. -/
def headOf (key : α → Nat) (slot : Fin m) (entries : List α) : Option (Head m) :=
  entries.head?.map fun entry => ⟨slot, key entry⟩

/-- The heads of all lists. -/
def headsOf (key : α → Nat) (rest : Fin m → List α) : List (Head m) :=
  (List.finRange m).filterMap fun slot => headOf key slot (rest slot)

/-- All entries. -/
def entriesOf (rest : Fin m → List α) : List α := (List.finRange m).flatMap rest

/-- The merge loop. A head taken stands for the first entry of its list. The least head is
taken, its entry comes out, and the next one of its list becomes a head. It ends without heads,
or without fuel. -/
def mergeLoop (sorting : Sorting m) (key : α → Nat) : Nat → (Fin m → List α) → List (Head m) → List α
  | 0, _, _ => []
  | fuel + 1, rest, heads =>
    match sorting.sort heads with
    | [] => []
    | least :: others =>
      match rest least.slot with
      | [] => []
      | entry :: more =>
        entry :: mergeLoop sorting key fuel (Function.update rest least.slot more)
          (others ++ (headOf key least.slot more).toList)

/-- The merge of all lists. -/
def kWayMerge (sorting : Sorting m) (key : α → Nat) (rest : Fin m → List α) : List α :=
  mergeLoop sorting key (entriesOf rest).length rest (headsOf key rest)

/-- The lists before and behind one list. -/
theorem finRange_split (slot : Fin m) :
    ∃ front back, List.finRange m = front ++ slot :: back ∧ slot ∉ front ∧ slot ∉ back := by
  obtain ⟨front, back, split⟩ := List.append_of_mem (List.mem_finRange slot)
  have distinct := List.nodup_finRange m
  rw [split] at distinct
  have apart := List.nodup_middle.mp distinct
  have outside := (List.nodup_cons.mp apart).1
  refine ⟨front, back, split, ?_, ?_⟩
  · exact fun member => outside (List.mem_append_left _ member)
  · exact fun member => outside (List.mem_append_right _ member)

/-- A function that one list's change does not touch elsewhere. -/
theorem update_elsewhere (rest : Fin m → List α) (slot : Fin m) (entries : List α) (other : Fin m)
    (elsewhere : other ≠ slot) : Function.update rest slot entries other = rest other :=
  Function.update_of_ne elsewhere _ _

/-- Taking the first entry of a list takes it from all entries. -/
theorem entriesOf_take (rest : Fin m → List α) (slot : Fin m) (entry : α) (more : List α)
    (first : rest slot = entry :: more) :
    (entriesOf rest).Perm (entry :: entriesOf (Function.update rest slot more)) := by
  obtain ⟨front, back, split, before, behind⟩ := finRange_split slot
  have same : ∀ slots : List (Fin m), slot ∉ slots →
      slots.flatMap (Function.update rest slot more) = slots.flatMap rest := by
    intro slots outside
    refine List.flatMap_congr fun other member => ?_
    exact update_elsewhere rest slot more other fun equal => outside (equal ▸ member)
  rw [entriesOf, entriesOf, split, List.flatMap_append, List.flatMap_cons, List.flatMap_append,
    List.flatMap_cons, same front before, same back behind, first, Function.update_self]
  exact List.perm_middle

/-- Taking the first entry of a list replaces that list's head. The heads of the other lists
stay. -/
theorem headsOf_take (key : α → Nat) (rest : Fin m → List α) (slot : Fin m) (entry : α) (more : List α)
    (first : rest slot = entry :: more) (others : List (Head m))
    (heads : (⟨slot, key entry⟩ :: others).Perm (headsOf key rest)) :
    (others ++ (headOf key slot more).toList).Perm (headsOf key (Function.update rest slot more)) := by
  obtain ⟨front, back, split, before, behind⟩ := finRange_split slot
  have same : ∀ slots : List (Fin m), slot ∉ slots →
      slots.filterMap (fun other => headOf key other (Function.update rest slot more other)) =
        slots.filterMap fun other => headOf key other (rest other) := by
    intro slots outside
    refine List.filterMap_congr fun other member => ?_
    rw [update_elsewhere rest slot more other fun equal => outside (equal ▸ member)]
  have here : headOf key slot (entry :: more) = some ⟨slot, key entry⟩ := rfl
  rw [headsOf, split, List.filterMap_append, List.filterMap_cons, first, here] at heads
  have rest' := (heads.trans List.perm_middle).cons_inv
  rw [headsOf, split, List.filterMap_append, List.filterMap_cons, same front before, same back behind,
    Function.update_self]
  cases headOf key slot more with
  | none =>
    rw [Option.toList_none, List.append_nil]
    exact rest'
  | some next => exact (rest'.append_right [next]).trans (List.append_assoc _ _ _ ▸
      (List.perm_append_comm.append_left _))

/-- Every head stands for the first entry of its list. -/
theorem mem_headsOf {key : α → Nat} {rest : Fin m → List α} {head : Head m} (member : head ∈ headsOf key rest) :
    ∃ entry more, rest head.slot = entry :: more ∧ key entry = head.key := by
  obtain ⟨slot, _, found⟩ := List.mem_filterMap.mp member
  obtain ⟨entry, first, same⟩ := Option.map_eq_some_iff.mp found
  obtain ⟨more, entries⟩ := List.head?_eq_some_iff.mp first
  subst same
  exact ⟨entry, more, entries, rfl⟩

/-- Without heads there are no entries. -/
theorem entriesOf_nil {key : α → Nat} {rest : Fin m → List α} (empty : headsOf key rest = []) :
    entriesOf rest = [] := by
  refine List.flatMap_eq_nil_iff.mpr fun slot member => ?_
  have empty := List.filterMap_eq_nil_iff.mp empty slot member
  exact List.head?_eq_none_iff.mp (Option.map_eq_none_iff.mp empty)

/-- Without entries there are no heads. -/
theorem headsOf_nil {key : α → Nat} {rest : Fin m → List α} (empty : entriesOf rest = []) : headsOf key rest = [] := by
  refine List.filterMap_eq_nil_iff.mpr fun slot member => ?_
  rw [List.flatMap_eq_nil_iff.mp empty slot member]
  rfl

/-- The first of the sorted heads stands for an entry with the least key of all heads,
and the others together with the next of its list are the heads of what is left. -/
theorem sort_heads (sorting : Sorting m) (key : α → Nat) (rest : Fin m → List α)
    (heads : List (Head m)) (current : heads.Perm (headsOf key rest)) (nonempty : entriesOf rest ≠ []) :
    ∃ slot entry more others, sorting.sort heads = ⟨slot, key entry⟩ :: others ∧ rest slot = entry :: more ∧
      (∀ head ∈ headsOf key rest, key entry ≤ head.key) ∧
      (others ++ (headOf key slot more).toList).Perm (headsOf key (Function.update rest slot more)) := by
  have perm := (sorting.perm heads).trans current
  have sorted := sorting.sorted heads
  cases result : sorting.sort heads with
  | nil =>
    rw [result] at perm
    exact absurd (entriesOf_nil perm.symm.eq_nil) nonempty
  | cons least others =>
    rw [result] at perm sorted
    obtain ⟨entry, more, first, same⟩ := mem_headsOf (perm.subset List.mem_cons_self)
    refine ⟨least.slot, entry, more, others, by rw [same], first, fun head member => ?_, ?_⟩
    · rw [same]
      rcases List.mem_cons.mp (perm.symm.subset member) with rfl | behind
      · exact Nat.le_refl _
      · exact List.rel_of_pairwise_cons sorted behind
    · refine headsOf_take key rest least.slot entry more first others ?_
      rw [same]
      exact perm

/-- One round of the loop: it takes an entry with the least key of all heads. -/
theorem mergeLoop_round (sorting : Sorting m) (key : α → Nat) (fuel : Nat) (rest : Fin m → List α)
    (heads : List (Head m)) (current : heads.Perm (headsOf key rest)) (nonempty : entriesOf rest ≠ []) :
    ∃ slot entry more others, sorting.sort heads = ⟨slot, key entry⟩ :: others ∧ rest slot = entry :: more ∧
      (∀ head ∈ headsOf key rest, key entry ≤ head.key) ∧
      (others ++ (headOf key slot more).toList).Perm (headsOf key (Function.update rest slot more)) ∧
      mergeLoop sorting key (fuel + 1) rest heads = entry ::
        mergeLoop sorting key fuel (Function.update rest slot more) (others ++ (headOf key slot more).toList) := by
  obtain ⟨slot, entry, more, others, result, first, least, current'⟩ := sort_heads sorting key rest heads current nonempty
  refine ⟨slot, entry, more, others, result, first, least, current', ?_⟩
  rw [mergeLoop, result]
  simp only [first]

/-- One entry less is left when one is taken. -/
theorem length_take {rest : Fin m → List α} {slot : Fin m} {entry : α} {more : List α} {fuel : Nat}
    (first : rest slot = entry :: more) (enough : (entriesOf rest).length = fuel + 1) :
    (entriesOf (Function.update rest slot more)).length = fuel := by
  have total := (entriesOf_take rest slot entry more first).length_eq
  rw [enough, List.length_cons] at total
  exact (Nat.succ.inj total).symm

/-- The loop with enough fuel takes every entry once. By induction on the fuel: each round takes
one. -/
theorem mergeLoop_perm (sorting : Sorting m) (key : α → Nat) (fuel : Nat) (rest : Fin m → List α)
    (heads : List (Head m)) (current : heads.Perm (headsOf key rest)) (enough : (entriesOf rest).length = fuel) :
    (mergeLoop sorting key fuel rest heads).Perm (entriesOf rest) := by
  induction fuel generalizing rest heads with
  | zero =>
    rw [List.length_eq_zero_iff.mp enough]
    exact List.Perm.refl _
  | succ fuel ih =>
    have nonempty : entriesOf rest ≠ [] := List.ne_nil_of_length_eq_add_one enough
    obtain ⟨slot, entry, more, others, _, first, _, current', round⟩ :=
      mergeLoop_round sorting key fuel rest heads current nonempty
    have taken := entriesOf_take rest slot entry more first
    have length := length_take first enough
    rw [round]
    exact ((ih _ _ current' length).cons entry).trans taken.symm

/-- In sorted lists no entry has a key below all heads. It is not below the head of its own
list. -/
theorem heads_least {key : α → Nat} {rest : Fin m → List α} {bound : Nat}
    (sorted : ∀ slot, (rest slot).Pairwise fun l r => key l ≤ key r)
    (least : ∀ head ∈ headsOf key rest, bound ≤ head.key) (entry : α) (member : entry ∈ entriesOf rest) :
    bound ≤ key entry := by
  obtain ⟨slot, range, inside⟩ := List.mem_flatMap.mp member
  cases entries : rest slot with
  | nil =>
    rw [entries] at inside
    exact absurd inside List.not_mem_nil
  | cons first more =>
    have head : (⟨slot, key first⟩ : Head m) ∈ headsOf key rest := by
      refine List.mem_filterMap.mpr ⟨slot, range, ?_⟩
      rw [entries]
      rfl
    have order := sorted slot
    rw [entries] at inside order
    refine Nat.le_trans (least _ head) ?_
    rcases List.mem_cons.mp inside with rfl | behind
    · exact Nat.le_refl _
    · exact List.rel_of_pairwise_cons order behind

/-- Of sorted lists the loop makes a sorted list: what it takes is the least of
what is left. -/
theorem mergeLoop_sorted (sorting : Sorting m) (key : α → Nat) (fuel : Nat) (rest : Fin m → List α)
    (heads : List (Head m)) (current : heads.Perm (headsOf key rest)) (enough : (entriesOf rest).length = fuel)
    (sorted : ∀ slot, (rest slot).Pairwise fun l r => key l ≤ key r) :
    (mergeLoop sorting key fuel rest heads).Pairwise fun l r => key l ≤ key r := by
  induction fuel generalizing rest heads with
  | zero => exact List.Pairwise.nil
  | succ fuel ih =>
    have nonempty : entriesOf rest ≠ [] := List.ne_nil_of_length_eq_add_one enough
    obtain ⟨slot, entry, more, others, _, first, least, current', round⟩ :=
      mergeLoop_round sorting key fuel rest heads current nonempty
    have taken := entriesOf_take rest slot entry more first
    have length := length_take first enough
    have sorted' : ∀ other, (Function.update rest slot more other).Pairwise fun l r => key l ≤ key r := by
      intro other
      by_cases here : other = slot
      · subst here
        have order := sorted other
        rw [first] at order
        rw [Function.update_self]
        exact order.of_cons
      · rw [Function.update_of_ne here]
        exact sorted other
    rw [round]
    refine List.pairwise_cons.mpr ⟨fun later member => ?_, ih _ _ current' length sorted'⟩
    have left := (mergeLoop_perm sorting key fuel _ _ current' length).subset member
    exact heads_least sorted least later (taken.symm.subset (List.mem_cons_of_mem _ left))

/-- The merge is a permutation of all entries. -/
theorem kWayMerge_perm (sorting : Sorting m) (key : α → Nat) (rest : Fin m → List α) :
    (kWayMerge sorting key rest).Perm (entriesOf rest) :=
  mergeLoop_perm sorting key _ rest _ (List.Perm.refl _) rfl

/-- The merge of sorted lists is sorted. -/
theorem kWayMerge_sorted (sorting : Sorting m) (key : α → Nat) (rest : Fin m → List α)
    (sorted : ∀ slot, (rest slot).Pairwise fun l r => key l ≤ key r) :
    (kWayMerge sorting key rest).Pairwise fun l r => key l ≤ key r :=
  mergeLoop_sorted sorting key _ rest _ (List.Perm.refl _) rfl sorted

/-- A sequence of entries, each for one list, dealt to the lists. -/
def deal (sequence : List (Fin m × α)) (slot : Fin m) : List α :=
  (sequence.filter fun entry => entry.1 = slot).map Prod.snd

/-- One more entry is dealt to the end of its list. -/
theorem deal_snoc (sequence : List (Fin m × α)) (slot : Fin m) (entry : α) :
    deal (sequence ++ [(slot, entry)]) = Function.update (deal sequence) slot (deal sequence slot ++ [entry]) := by
  funext other
  rw [deal, List.filter_append, List.map_append]
  by_cases here : other = slot
  · subst here
    rw [Function.update_self, List.filter_cons_of_pos (by simp)]
    rfl
  · rw [Function.update_of_ne here, List.filter_cons_of_neg (by simpa using Ne.symm here), List.filter_nil,
      List.map_nil, List.append_nil]
    rfl

/-- One more entry at the end of a list is one more of all entries. -/
theorem entriesOf_snoc (rest : Fin m → List α) (slot : Fin m) (entry : α) :
    (entriesOf (Function.update rest slot (rest slot ++ [entry]))).Perm (entriesOf rest ++ [entry]) := by
  obtain ⟨front, back, split, before, behind⟩ := finRange_split slot
  have same : ∀ slots : List (Fin m), slot ∉ slots →
      slots.flatMap (Function.update rest slot (rest slot ++ [entry])) = slots.flatMap rest := by
    intro slots outside
    refine List.flatMap_congr fun other member => ?_
    exact update_elsewhere rest slot _ other fun equal => outside (equal ▸ member)
  rw [entriesOf, entriesOf, split, List.flatMap_append, List.flatMap_cons, List.flatMap_append,
    List.flatMap_cons, same front before, same back behind, Function.update_self, List.append_assoc,
    List.append_assoc, List.append_assoc]
  exact (List.perm_append_comm.append_left _).append_left _

/-- All dealt entries are those of the sequence. -/
theorem entriesOf_deal (sequence : List (Fin m × α)) :
    (entriesOf (deal sequence)).Perm (sequence.map Prod.snd) := by
  induction sequence using List.reverseRecOn with
  | nil => simp [entriesOf, deal]
  | append_singleton sequence entry ih =>
    obtain ⟨slot, entry⟩ := entry
    rw [deal_snoc, List.map_append]
    exact (entriesOf_snoc _ slot entry).trans (ih.append_right [entry])

/-- A sorted permutation of a sequence with increasing keys is that sequence. -/
theorem eq_of_perm_increasing (key : α → Nat) {entries sequence : List α} (perm : entries.Perm sequence)
    (sorted : entries.Pairwise fun l r => key l ≤ key r)
    (increasing : sequence.Pairwise fun l r => key l < key r) : entries = sequence := by
  have distinct : (sequence.map key).Nodup := List.pairwise_map.mpr (increasing.imp fun less => Nat.ne_of_lt less)
  refine List.Perm.eq_of_pairwise ?_ sorted (increasing.imp fun less => Nat.le_of_lt less) perm
  intro l r left right below above
  exact List.inj_on_of_nodup_map distinct (perm.subset left) right (Nat.le_antisymm below above)

/-- Entries dealt from a sequence with increasing keys come out as that sequence. -/
theorem kWayMerge_deal (sorting : Sorting m) (key : α → Nat) (sequence : List (Fin m × α))
    (increasing : sequence.Pairwise fun l r => key l.2 < key r.2) :
    kWayMerge sorting key (deal sequence) = sequence.map Prod.snd := by
  have sorted : ∀ slot, (deal sequence slot).Pairwise fun l r => key l ≤ key r := by
    intro slot
    apply List.pairwise_map.mpr
    apply List.Pairwise.sublist List.filter_sublist
    exact increasing.imp fun less => Nat.le_of_lt less
  have perm := (kWayMerge_perm sorting key (deal sequence)).trans (entriesOf_deal sequence)
  exact eq_of_perm_increasing key perm (kWayMerge_sorted sorting key _ sorted) (List.pairwise_map.mpr increasing)

end Naruto.Theory
