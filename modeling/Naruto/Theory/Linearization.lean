import Mathlib.Data.List.Sublists
import Mathlib.Logic.Function.Basic

/-!
# Linearization

Clients call an object and get replies. The history is what they see: when each
call is made and when its reply arrives. A sequential order explains a history
when it gives every reply and keeps calls in order of which the first had its
reply before the second was made.

A call that is put into the order at one moment between its start and its reply
keeps that order. The bookkeeping below needs nothing else about the object.
-/

namespace Naruto.Theory

variable {Client Op Reply M : Type*}

/-- A call is known by its client and its number there. -/
abbrev CallId (Client : Type*) := Client × Nat

/-- What is seen of a call. -/
inductive CallEvent (Client Op Reply : Type*)
  | invoked (id : CallId Client) (op : Op)
  | replied (id : CallId Client) (op : Op) (reply : Reply)
deriving DecidableEq

/-- A call in the sequential order. -/
structure Call (Client Op Reply : Type*) where
  id : CallId Client
  op : Op
  reply : Reply

/-- The calls, one after another on the sequential object, give their replies and
lead from one state to another. -/
def Legal (apply : M → Op → M × Reply) : M → List (Call Client Op Reply) → M → Prop
  | m, [], last => m = last
  | m, call :: calls, last => call.reply = (apply m call.op).2 ∧ Legal apply (apply m call.op).1 calls last

/-- The sequential order agrees with the history: it holds calls that were made, each
once, and all that have their reply; and a call that was made after the reply of
another stands behind it. -/
structure Explains (history : List (CallEvent Client Op Reply)) (order : List (Call Client Op Reply)) : Prop where
  distinct : (order.map Call.id).Nodup
  made : ∀ call ∈ order, .invoked call.id call.op ∈ history
  replied : ∀ id op reply, .replied id op reply ∈ history → ⟨id, op, reply⟩ ∈ order
  timed : ∀ front id op back, history = front ++ .invoked id op :: back → id ∈ order.map Call.id →
    ∀ earlier op' reply, .replied earlier op' reply ∈ front → [earlier, id].Sublist (order.map Call.id)

/-- What a client is doing. -/
inductive Status (Op Reply : Type*)
  | idle
  | working (op : Op)
  | replying (op : Op) (reply : Reply)

/-- The state of the clients fits the history and the order: a call is in the order
when its reply has arrived or is on its way. -/
structure Booked (status : Client → Status Op Reply) (calls : Client → Nat)
    (history : List (CallEvent Client Op Reply)) (order : List (Call Client Op Reply)) : Prop where
  explains : Explains history order
  numbered : ∀ call ∈ order, call.id.2 < calls call.id.1 ∨
    call.id.2 = calls call.id.1 ∧ status call.id.1 = .replying call.op call.reply
  working : ∀ client op, status client = .working op → .invoked (client, calls client) op ∈ history
  replying : ∀ client op reply, status client = .replying op reply → ⟨(client, calls client), op, reply⟩ ∈ order

/-- One more call at the end of a legal order. -/
theorem Legal.snoc {apply : M → Op → M × Reply} {m last : M} {calls : List (Call Client Op Reply)}
    (legal : Legal apply m calls last) (call : Call Client Op Reply) (reply : call.reply = (apply last call.op).2) :
    Legal apply m (calls ++ [call]) (apply last call.op).1 := by
  induction calls generalizing m with
  | nil =>
    obtain rfl : m = last := legal
    exact ⟨reply, rfl⟩
  | cons first calls ih => exact ⟨legal.1, ih legal.2⟩

/-- A legal order, cut in front of one of its calls. -/
theorem Legal.split {apply : M → Op → M × Reply} {m last : M} {front back : List (Call Client Op Reply)}
    {call : Call Client Op Reply} (legal : Legal apply m (front ++ call :: back) last) :
    ∃ middle, Legal apply m front middle ∧ call.reply = (apply middle call.op).2 ∧
      Legal apply (apply middle call.op).1 back last := by
  induction front generalizing m with
  | nil => exact ⟨m, rfl, legal.1, legal.2⟩
  | cons first front ih =>
    obtain ⟨middle, before, here, behind⟩ := ih legal.2
    exact ⟨middle, ⟨legal.1, before⟩, here, behind⟩

/-- What every call of a legal order preserves holds at its end. -/
theorem Legal.invariant {apply : M → Op → M × Reply} (Invariant : M → Prop) {m last : M}
    {calls : List (Call Client Op Reply)} (legal : Legal apply m calls last)
    (preserved : ∀ call ∈ calls, ∀ m, Invariant m → Invariant (apply m call.op).1) (holds : Invariant m) :
    Invariant last := by
  induction calls generalizing m with
  | nil =>
    obtain rfl : m = last := legal
    exact holds
  | cons first calls ih =>
    apply ih legal.2
    · exact fun call member => preserved call (List.mem_cons_of_mem _ member)
    · exact preserved first List.mem_cons_self m holds

variable {history : List (CallEvent Client Op Reply)} {order : List (Call Client Op Reply)}

/-- A new call, made by an idle client. It is in no order yet, so nothing is asked of it. -/
theorem Explains.invoke {id : CallId Client} (explains : Explains history order) (op : Op)
    (unordered : id ∉ order.map Call.id) : Explains (history ++ [.invoked id op]) order where
  distinct := explains.distinct
  made := fun call member => List.mem_append_left _ (explains.made call member)
  replied := by
    intro earlier op' reply member
    rcases List.mem_append.mp member with old | new
    · exact explains.replied earlier op' reply old
    · exact absurd (List.mem_singleton.mp new) (by simp)
  timed := by
    intro front later op' back cut ordered earlier op'' reply member
    rcases List.eq_nil_or_concat back with rfl | ⟨back', event, rfl⟩
    · obtain ⟨_, same⟩ := List.append_inj' cut rfl
      obtain ⟨rfl, _⟩ := CallEvent.invoked.inj (List.cons.inj same).1
      exact absurd ordered unordered
    · rw [List.concat_eq_append, ← List.cons_append, ← List.append_assoc] at cut
      exact explains.timed front later op' back' (List.append_inj' cut rfl).1 ordered earlier op'' reply member

/-- A call that has been made takes its place at the end of the order. It was made before, and
no reply that has arrived is behind it. -/
theorem Explains.commit {call : Call Client Op Reply} (explains : Explains history order)
    (made : .invoked call.id call.op ∈ history)
    (unordered : call.id ∉ order.map Call.id) : Explains history (order ++ [call]) where
  distinct := by
    rw [List.map_append, List.nodup_append]
    refine ⟨explains.distinct, List.nodup_singleton _, ?_⟩
    rintro id member _ last rfl
    rw [List.map_singleton, List.mem_singleton] at last
    exact unordered (last ▸ member)
  made := by
    intro call' member
    rcases List.mem_append.mp member with old | new
    · exact explains.made call' old
    · obtain rfl := List.mem_singleton.mp new
      exact made
  replied := fun id op reply member => List.mem_append_left _ (explains.replied id op reply member)
  timed := by
    intro front later op back cut ordered earlier op' reply member
    have inside : earlier ∈ order.map Call.id := by
      apply List.mem_map.mpr
      refine ⟨_, explains.replied earlier op' reply ?_, rfl⟩
      rw [cut]
      exact List.mem_append_left _ member
    rw [List.map_append] at ordered ⊢
    rcases List.mem_append.mp ordered with old | new
    · exact (explains.timed front later op back cut old earlier op' reply member).trans (List.sublist_append_left _ _)
    · obtain rfl := List.mem_singleton.mp new
      exact (List.singleton_sublist.mpr inside).append (List.Sublist.refl [call.id])

/-- The reply of a call in the order arrives. What is behind it in time is behind it in the
order, since no call begins here. -/
theorem Explains.reply {call : Call Client Op Reply} (explains : Explains history order)
    (ordered : call ∈ order) :
    Explains (history ++ [.replied call.id call.op call.reply]) order where
  distinct := explains.distinct
  made := fun call' member => List.mem_append_left _ (explains.made call' member)
  replied := by
    intro id op reply member
    rcases List.mem_append.mp member with old | new
    · exact explains.replied id op reply old
    · obtain ⟨rfl, rfl, rfl⟩ := CallEvent.replied.inj (List.mem_singleton.mp new)
      exact ordered
  timed := by
    intro front later op back cut inside earlier op' reply member
    rcases List.eq_nil_or_concat back with rfl | ⟨back', event, rfl⟩
    · obtain ⟨_, same⟩ := List.append_inj' cut rfl
      exact absurd (List.cons.inj same).1 (by simp)
    · rw [List.concat_eq_append, ← List.cons_append, ← List.append_assoc] at cut
      exact explains.timed front later op back' (List.append_inj' cut rfl).1 inside earlier op' reply member

variable {status : Client → Status Op Reply} {calls : Client → Nat}

/-- A call under way is not in the order yet. -/
theorem Booked.unordered (booked : Booked status calls history order) {client : Client}
    (under : ∀ op reply, status client ≠ .replying op reply) : (client, calls client) ∉ order.map Call.id := by
  intro member
  obtain ⟨call, listed, same⟩ := List.mem_map.mp member
  rcases booked.numbered call listed with less | ⟨_, done⟩
  · rw [same] at less
    exact Nat.lt_irrefl _ less
  · rw [same] at done
    exact under _ _ done

/-- Nobody has called anything. -/
theorem Booked.start : Booked (fun _ => .idle) (fun _ => 0) [] ([] : List (Call Client Op Reply)) where
  explains :=
    { distinct := List.nodup_nil
      made := fun _ impossible => absurd impossible List.not_mem_nil
      replied := fun _ _ _ impossible => absurd impossible List.not_mem_nil
      timed := fun _ _ _ _ _ impossible => absurd impossible List.not_mem_nil }
  numbered := fun _ impossible => absurd impossible List.not_mem_nil
  working := fun _ _ impossible => absurd impossible (by simp)
  replying := fun _ _ _ impossible => absurd impossible (by simp)

variable [DecidableEq Client]

/-- An idle client makes a call. Its number is new, so nothing in the order has it. The other
clients are where they were. -/
theorem Booked.invoke (booked : Booked status calls history order) {client : Client}
    (idle : status client = .idle) (op : Op) :
    Booked (Function.update status client (.working op)) calls (history ++ [.invoked (client, calls client) op])
      order where
  explains := by
    apply booked.explains.invoke op
    apply booked.unordered
    rw [idle]
    intro _ _ impossible
    cases impossible
  numbered := by
    intro call member
    rcases booked.numbered call member with less | ⟨same, done⟩
    · exact Or.inl less
    · have other : call.id.1 ≠ client := by
        rintro here
        rw [here, idle] at done
        cases done
      rw [Function.update_of_ne other]
      exact Or.inr ⟨same, done⟩
  working := by
    intro client' op' under
    by_cases here : client' = client
    · subst here
      rw [Function.update_self] at under
      obtain rfl := Status.working.inj under
      exact List.mem_append_right _ (List.mem_singleton.mpr rfl)
    · rw [Function.update_of_ne here] at under
      exact List.mem_append_left _ (booked.working client' op' under)
  replying := by
    intro client' op' reply done
    have other : client' ≠ client := by
      rintro rfl
      rw [Function.update_self] at done
      cases done
    rw [Function.update_of_ne other] at done
    exact booked.replying client' op' reply done

/-- A client's call takes its place in the order. The client is not in the order with this call
yet, and no other client changes. -/
theorem Booked.commit (booked : Booked status calls history order) {client : Client} {op : Op}
    (under : status client = .working op) (reply : Reply) :
    Booked (Function.update status client (.replying op reply)) calls history
      (order ++ [⟨(client, calls client), op, reply⟩]) where
  explains := by
    apply booked.explains.commit (booked.working client op under)
    apply booked.unordered
    rw [under]
    intro _ _ impossible
    cases impossible
  numbered := by
    intro call member
    rcases List.mem_append.mp member with old | new
    · rcases booked.numbered call old with less | ⟨same, done⟩
      · exact Or.inl less
      · have other : call.id.1 ≠ client := by
          rintro here
          rw [here, under] at done
          cases done
        rw [Function.update_of_ne other]
        exact Or.inr ⟨same, done⟩
    · obtain rfl := List.mem_singleton.mp new
      exact Or.inr ⟨rfl, Function.update_self client _ status⟩
  working := by
    intro client' op' working
    have other : client' ≠ client := by
      rintro rfl
      rw [Function.update_self] at working
      cases working
    rw [Function.update_of_ne other] at working
    exact booked.working client' op' working
  replying := by
    intro client' op' reply' done
    by_cases here : client' = client
    · subst here
      rw [Function.update_self] at done
      obtain ⟨rfl, rfl⟩ := Status.replying.inj done
      exact List.mem_append_right _ (List.mem_singleton.mpr rfl)
    · rw [Function.update_of_ne here] at done
      exact List.mem_append_left _ (booked.replying client' op' reply' done)

/-- A client gets its reply. The call is in the order already, with this reply. The client is
idle then, with the next number. -/
theorem Booked.reply (booked : Booked status calls history order) {client : Client} {op : Op}
    {reply : Reply} (done : status client = .replying op reply) :
    Booked (Function.update status client .idle) (Function.update calls client (calls client + 1))
      (history ++ [.replied (client, calls client) op reply]) order where
  explains := booked.explains.reply (booked.replying client op reply done)
  numbered := by
    intro call member
    by_cases here : call.id.1 = client
    · rw [here, Function.update_self, ← here]
      rcases booked.numbered call member with less | ⟨same, _⟩
      · exact Or.inl (Nat.lt_succ_of_lt less)
      · exact Or.inl (Nat.lt_succ_of_le same.le)
    · rw [Function.update_of_ne here, Function.update_of_ne here]
      exact booked.numbered call member
  working := by
    intro client' op' working
    have other : client' ≠ client := by
      rintro rfl
      rw [Function.update_self] at working
      cases working
    rw [Function.update_of_ne other] at working ⊢
    exact List.mem_append_left _ (booked.working client' op' working)
  replying := by
    intro client' op' reply' done'
    have other : client' ≠ client := by
      rintro rfl
      rw [Function.update_self] at done'
      cases done'
    rw [Function.update_of_ne other] at done' ⊢
    exact booked.replying client' op' reply' done'

end Naruto.Theory
