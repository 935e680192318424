import Naruto.Replication.PairCoverage

/-!
# A slave that catches up

When the master has merged and its clients pause, ticks and deliveries in any order
bring the slave to the store of the master. Every tick sends packets, or goes on to the
next file, as long as the cursor is not at the end of the AOF, so the packets and files
behind it bound the ticks it takes; and every message in flight can be executed.
-/

namespace Naruto.Replication.Pair

open Naruto.Theory Naruto.Utils Naruto.Utils.File Naruto.Sink Naruto.Database Naruto.Command SlavePosition

variable {k m : Nat} {parse : ParseHset}

/-! ### What a tick gets done -/

/-- A tick whose file has something behind the cursor sends a message. The window is then not
empty, so a packet fits in it, and the buffer has something. -/
theorem tick_sends {files : List (List Pack)} {place : Place} {cursor cursor' : ReplicaLink} {file : List Pack}
    (boundary : OnBoundary 0 files place cursor) (found : files[place.segment]? = some file)
    (fits : WindowFits files place) (more : file.drop place.offset ≠ []) :
    onSendIncrToSlave (aofDir 0 files) cursor ≠ some (cursor', none) := by
  intro silent
  obtain ⟨front, back, rest, ends, fit⟩ := fits file found
  have contents := aofDir_gen 0 files place.segment
  rw [found, Option.map_some, ← boundary.name] at contents
  have named : cursor.replAofFileName ≠ "" := by
    rw [boundary.name]
    exact genAofFilename_ne_empty _
  have behind := (boundary.unread found).1
  have unread : (Pack.encodeAll file).drop cursor.replAofOff ≠ [] := by
    rw [behind]
    exact fun nothing => more (encodeAll_eq_nil nothing)
  have filled : Pack.encodeAll file ≠ [] := by
    intro nothing
    rw [nothing, List.drop_nil] at unread
    exact unread rfl
  obtain ⟨buffer, sent, length⟩ := sendLoop_window front back ends fit
  have positive := window_positive (rest ▸ more) ends
  have size : buffer.size ≠ 0 := by
    intro zero
    have below : transferLen < 2 ^ 32 := by decide
    have limit : min transferLen (Pack.encodeAll (front ++ back)).length ≤ transferLen := Nat.min_le_left _ _
    have counted : buffer.size.toNat = buffer.buf.length := word_toNat _ (by omega)
    rw [zero, length] at counted
    exact absurd counted (Nat.ne_of_lt positive)
  have read : readWindow ((Pack.encodeAll file).drop cursor.replAofOff) = some
      ⟨decide ((Pack.encodeAll (front ++ back)).length < transferLen), (Pack.encodeAll front).length, buffer,
        front.map Pack.call⟩ := by
    rw [readWindow, if_neg unread, behind, rest]
    exact sent
  rw [onSendIncrToSlave, if_neg named, contents] at silent
  simp only [filled, ↓reduceIte, read, Option.bind_eq_bind, Option.bind_some, finishSending, size] at silent
  obtain ⟨_, _, impossible⟩ := Option.bind_eq_some_iff.mp silent
  cases impossible

/-- A valid place in an earlier segment has no more entries before it. -/
theorem index_le_of_segment_lt {files : List (List Pack)} {place place' : Place} (valid : place'.Valid files)
    (earlier : place'.segment < place.segment) : place'.index files ≤ place.index files := by
  obtain ⟨segment, found, inside⟩ := valid
  have upTo : (files.take (place'.segment + 1)).flatten.length =
      (files.take place'.segment).flatten.length + segment.length := by
    rw [List.take_add_one, found, Option.toList_some, List.flatten_append, List.length_append, List.flatten_cons,
      List.flatten_nil, List.append_nil]
  have further : (files.take (place'.segment + 1)).flatten.length ≤ (files.take place.segment).flatten.length := by
    have split : files.take place.segment = files.take (place'.segment + 1) ++
        (files.drop (place'.segment + 1)).take (place.segment - (place'.segment + 1)) := by
      rw [← List.take_add, Nat.add_sub_of_le earlier]
    rw [split, List.flatten_append, List.length_append]
    exact Nat.le_add_right _ _
  simp only [Place.index]
  omega

/-- The packets and the files behind a place. -/
def behind (files : List (List Pack)) (place : Place) : Nat :=
  (files.flatten.length - place.index files) + (files.length - 1 - place.segment)

/-- A tick at the end of a file goes to the beginning of the next. The file may be empty, or
have nothing behind the cursor; either way the next one is there. -/
theorem tick_next {files : List (List Pack)} {place : Place} {cursor : ReplicaLink} {file : List Pack}
    (boundary : OnBoundary 0 files place cursor) (found : files[place.segment]? = some file)
    (numbered : files.length < 2 ^ 31) (nothing : file.drop place.offset = [])
    (next : place.segment + 1 < files.length) :
    onSendIncrToSlave (aofDir 0 files) cursor = some (⟨genAofFilename (place.segment + 1), 0⟩, none) := by
  have named : cursor.replAofFileName ≠ "" := by
    rw [boundary.name]
    exact genAofFilename_ne_empty _
  have contents := aofDir_gen 0 files place.segment
  have following := aofDir_gen 0 files (place.segment + 1)
  rw [found, Option.map_some, ← boundary.name] at contents
  rw [List.getElem?_eq_getElem next, Option.map_some, Nat.zero_add] at following
  have hasNext : hasNextAof (aofDir 0 files) cursor.replAofFileName =
      some (some (genAofFilename (place.segment + 1))) := by
    rw [boundary.name, Nat.zero_add, hasNextAof_gen _ _ (by omega), following]
    rfl
  have behind := (boundary.unread found).1
  rw [nothing] at behind
  by_cases empty : Pack.encodeAll file = []
  · exact tick_empty named (empty ▸ contents) hasNext
  · exact tick_end named contents empty behind hasNext

/-- A tick leaves less behind the cursor, until the cursor is at the end of the AOF. It sends a
packet of its file, or finds the file at its end and goes to the next one. -/
theorem tick_moves {files : List (List Pack)} {place : Place} {cursor : ReplicaLink}
    (boundary : OnBoundary 0 files place cursor) (numbered : files.length < 2 ^ 31) (fits : WindowFits files place) :
    ∃ cursor' message place', onSendIncrToSlave (aofDir 0 files) cursor = some (cursor', message) ∧
      OnBoundary 0 files place' cursor' ∧ place.index files ≤ place'.index files ∧
      (place'.index files = files.flatten.length ∨ behind files place' < behind files place) := by
  obtain ⟨file, found, inside⟩ := boundary.valid
  have bound : place.segment < files.length := (List.getElem?_eq_some_iff.mp found).1
  by_cases more : file.drop place.offset = []
  · have named : cursor.replAofFileName ≠ "" := by
      rw [boundary.name]
      exact genAofFilename_ne_empty _
    have contents := aofDir_gen 0 files place.segment
    rw [found, Option.map_some, ← boundary.name] at contents
    obtain ⟨cursor', place', ticked, boundary', index⟩ :=
      tick_nothing boundary found (by omega) more named contents
    refine ⟨cursor', none, place', ticked, boundary', Nat.le_of_eq index.symm, ?_⟩
    have through : place.index files = Place.index files ⟨place.segment, file.length⟩ := by
      have length := congrArg List.length more
      rw [List.length_drop, List.length_nil] at length
      simp only [Place.index]
      omega
    by_cases last : place.segment + 1 < files.length
    · -- The cursor goes to the beginning of the next file.
      right
      have moved := tick_next boundary found numbered more last
      have next : place'.segment = place.segment + 1 := by
        have name := boundary'.name
        rw [(Prod.mk.inj (Option.some.inj (moved.symm.trans ticked))).1.symm, Nat.zero_add] at name
        exact (genAofFilename_injective _ _ name).symm
      simp only [behind]
      omega
    · left
      have whole := Place.last_valid files (List.ne_nil_of_length_pos (by omega))
      have here : Place.last files = ⟨place.segment, file.length⟩ := by
        have final : place.segment = files.length - 1 := by omega
        rw [Place.last, List.getLast?_eq_getElem?, ← final, found]
        rfl
      rw [index, through, ← here, whole.2]
  · obtain ⟨cursor', place', packs, ticked, boundary', index, _⟩ := tick_spec boundary (by omega) fits
    refine ⟨cursor', _, place', ticked, boundary', by omega, .inr ?_⟩
    have nonempty : packs ≠ [] := by
      intro nothing
      rw [if_pos nothing] at ticked
      exact tick_sends boundary found fits more ticked
    have grown := List.length_pos_iff.mpr nonempty
    have forward : place.segment ≤ place'.segment := by
      by_contra back
      have less := index_le_of_segment_lt boundary'.valid (Nat.lt_of_not_le back)
      omega
    have within := boundary'.valid.index_le
    simp only [behind]
    omega

/-! ### Ticks and deliveries -/

/-- An event of the connection alone. -/
def Quiet : Event k m → Prop
  | .tick | .deliver _ _ => True
  | _ => False

/-- A tick counts. -/
def ticks : Event k m → Nat
  | .tick => 1
  | _ => 0

/-- The slave reads its link, and the cursor of the master is at the end of the AOF or has
at most `b` packets and files behind it. -/
structure Following (parse : ParseHset) (b : Nat) (s : Pair k m) : Prop where
  inv : ∃ pending, Inv parse s pending
  reads : s.slave.replRio = true
  cursor : ∃ cursor place, s.replica = some ⟨.connected, cursor⟩ ∧
    OnBoundary 0 s.master.aofFiles place cursor ∧
    (place.index s.master.aofFiles = s.master.aofFiles.flatten.length ∨ behind s.master.aofFiles place ≤ b)

/-- Every window of the AOF fits. -/
def AllFit (s : Pair k m) : Prop :=
  ∀ place : Place, place.Valid s.master.aofFiles → WindowFits s.master.aofFiles place

section Quiet

variable {fileSize : List Features → Nat} {sorting : Sorting k} {sorting' : Sorting m} {s s' : Pair k m} {b : Nat}

/-- Ticks and deliveries on such an AOF are in order. -/
theorem AllFit.orderly (fits : AllFit s) {event : Event k m} (quiet : Quiet event) :
    Orderly parse sorting sorting' s event := by
  cases event with
  | tick => exact fun _ place _ boundary => fits place boundary.valid
  | deliver tid clock => trivial
  | master event => exact quiet.elim
  | slave event => exact quiet.elim
  | handshake writable sockerr pong reached => exact quiet.elim
  | bulkSent => exact quiet.elim

/-- A tick is defined, and brings the cursor one packet or file further. Every window fits, so
the tick takes whole packets; what is left to the cursor goes down by one at least. -/
theorem Following.tick (fileSize : List Features → Nat) (sorting : Sorting k)
    (sorting' : Sorting m) (following : Following parse b s) (fits : AllFit s) :
    ∃ s', step fileSize parse sorting sorting' s .tick = some s' ∧ s'.master = s.master ∧
      s'.slave = s.slave ∧ Following parse (b - 1) s' := by
  obtain ⟨pending, inv⟩ := following.inv
  obtain ⟨cursor, place, connected, boundary, left⟩ := following.cursor
  obtain ⟨cursor', message, place', ticked, boundary', forward, moved⟩ :=
    tick_moves boundary inv.plain.numbered (fits place boundary.valid)
  have stepped : step fileSize parse sorting sorting' s .tick =
      some { s with replica := some ⟨.connected, cursor'⟩, wire := s.wire ++ message.toList } := by
    simp only [step, connected, ticked, Option.map_some]
  have inOrder : Orderly parse sorting sorting' s .tick := fits.orderly (show Quiet .tick from trivial)
  have left' : place'.index s.master.aofFiles = s.master.aofFiles.flatten.length ∨
      behind s.master.aofFiles place' ≤ b - 1 := by
    have within := boundary'.valid.index_le
    rcases left with ended | few
    · exact .inl (by omega)
    · exact moved.imp id fun less => by omega
  exact ⟨_, stepped, rfl, rfl, inv.step inOrder stepped, following.reads, cursor', place', rfl, boundary', left'⟩

/-- A delivery leaves the cursor where it is. It takes the first message off the wire and gives
it to the slave. -/
theorem Following.deliver (following : Following parse b s) {tid : Fin m} {clock : Clock}
    (stepped : step fileSize parse sorting sorting' s (.deliver tid clock) = some s') :
    s'.master = s.master ∧ s'.wire = s.wire.tail ∧ s'.slave.control = s.slave.control ∧ Following parse b s' := by
  obtain ⟨pending, inv⟩ := following.inv
  have inOrder : Orderly parse sorting sorting' s (.deliver tid clock) := trivial
  have kept := inv.step inOrder stepped
  simp only [step] at stepped
  split at stepped
  case h_1 => cases stepped
  case h_2 message wire inFlight =>
    obtain ⟨multi, _, ran⟩ := Option.bind_eq_some_iff.mp stepped
    obtain ⟨slave, moved, rfl⟩ := Option.map_eq_some_iff.mp ran
    obtain ⟨_, _, handled⟩ := Slave.step_handle moved
    obtain ⟨server, _, rfl⟩ := Option.map_eq_some_iff.mp handled
    exact ⟨rfl, by rw [inFlight]; rfl, rfl, kept, following.reads, following.cursor⟩

/-- Over a run of ticks and deliveries every tick counts. By induction on the events: a
delivery leaves what is behind the cursor, a tick makes it less. -/
theorem Following.run (following : Following parse b s) (fits : AllFit s) (later : List (Event k m))
    (quiet : ∀ event ∈ later, Quiet event)
    (ran : Theory.run (step fileSize parse sorting sorting') s later = some s') :
    s'.master = s.master ∧ Following parse (b - (later.map ticks).sum) s' := by
  induction later generalizing s b with
  | nil =>
    obtain rfl := Option.some.inj ran
    exact ⟨rfl, following⟩
  | cons event later ih =>
    obtain ⟨s1, stepped, rest⟩ := Option.bind_eq_some_iff.mp ran
    have others : ∀ event ∈ later, Quiet event := fun other among => quiet other (List.mem_cons_of_mem _ among)
    have next : s1.master = s.master ∧ Following parse (b - ticks event) s1 := by
      cases event with
      | tick =>
        obtain ⟨s2, stepped', master, _, moved⟩ := following.tick fileSize sorting sorting' fits
        obtain rfl := Option.some.inj (stepped'.symm.trans stepped)
        exact ⟨master, moved⟩
      | deliver tid clock =>
        obtain ⟨master, _, _, moved⟩ := following.deliver stepped
        exact ⟨master, moved⟩
      | master event => exact (quiet _ (List.mem_cons_self ..)).elim
      | slave event => exact (quiet _ (List.mem_cons_self ..)).elim
      | handshake writable sockerr pong reached => exact (quiet _ (List.mem_cons_self ..)).elim
      | bulkSent => exact (quiet _ (List.mem_cons_self ..)).elim
    obtain ⟨same, moved⟩ := next
    have fits' : AllFit s1 := by
      rw [AllFit, same]
      exact fits
    obtain ⟨same', last⟩ := ih moved fits' others rest
    rw [List.map_cons, List.sum_cons, ← Nat.sub_sub]
    exact ⟨same'.trans same, last⟩

/-- A slave that follows a master with nothing behind the cursor and nothing in flight, where
nothing waits, has the store of the master. -/
theorem Following.agrees (following : Following parse 0 s) (nothing : s.wire = [])
    (merged : s.master.unmerged sorting = []) : s.slave.server.buckets.cells = s.master.buckets.cells := by
  obtain ⟨pending, inv⟩ := following.inv
  obtain ⟨n, sent, wired, lacks⟩ := inv.lacks sorting following.reads
  obtain ⟨cursor, place, connected, boundary, left⟩ := following.cursor
  have ended : place.index s.master.aofFiles = s.master.aofFiles.flatten.length := by
    have within := boundary.valid.index_le
    rcases left with ended | few
    · exact ended
    · simp only [behind] at few
      omega
  obtain ⟨place', boundary', index⟩ := wired.replica _ connected
  have same : sent = s.master.aofFiles.flatten.length := by
    rw [← index, ← ended]
    exact (boundary'.located inv.plain.numbered).unique (boundary.located inv.plain.numbered)
  have follows := wired.wire
  rw [nothing] at follows
  obtain rfl : n = sent := follows
  rw [s.master.unmerged_eq inv.master.waiting] at merged
  rw [merged, List.append_nil, same, List.drop_length] at lacks
  exact Option.some.inj lacks

/-- The first message in flight can be executed. Its commands are the next ones behind the
position of the slave, and these lead its store on. -/
theorem Following.delivers (fileSize : List Features → Nat) (sorting : Sorting k)
    (sorting' : Sorting m) (following : Following parse b s) (alive : s.slave.control.asserted = false)
    {message : CommandAof} {wire : List CommandAof} (inFlight : s.wire = message :: wire) (tid : Fin m)
    (clock : Clock) : ∃ s', step fileSize parse sorting sorting' s (.deliver tid clock) = some s' := by
  obtain ⟨pending, inv⟩ := following.inv
  obtain ⟨n, sent, wired, lacks⟩ := inv.lacks sorting following.reads
  obtain ⟨n', aof, content, later, reached, _, _⟩ := wired.first parse inv.plain.numbered inFlight
  -- The commands behind the position can be performed, and these are the first of them.
  rw [drop_slice (Nat.le_of_lt later) reached.le] at lacks
  obtain ⟨t, performed, _⟩ := performAll_split lacks
  have uncut : ∀ p ∈ slice s.master.aofFiles n n', 0 ∉ p.body := fun p among =>
    inv.plain.uncut p (List.mem_append_left _ (List.mem_of_mem_drop (List.mem_of_mem_take among)))
  have carried : performPacks parse s.slave.server.buckets.cells ((slice s.master.aofFiles n n').map reframe) =
      some t := by
    rw [reframe_uncut uncut, FirstSync.performPacks_carried]
    exact performed
  obtain ⟨server, executed⟩ := FirstSync.execFeed_all clock tid carried
  have enabled : s.slave.control.asserted = false ∧
      s.slave.Enabled (.multi tid clock ⟨(slice s.master.aofFiles n n').map reframe, aof⟩) :=
    ⟨alive, following.reads⟩
  apply Option.isSome_iff_exists.mp
  simp only [step, inFlight, content, Option.bind_some, Slave.step, if_pos enabled, Slave.handle, Server.commandAof,
    executed, Option.map_some, Option.isSome_some]

/-- All messages in flight can be executed, one after another. By induction on the wire. -/
theorem Following.drains (fileSize : List Features → Nat) (sorting : Sorting k)
    (sorting' : Sorting m) (following : Following parse b s) (alive : s.slave.control.asserted = false) (tid : Fin m)
    (clock : Clock) : ∃ s', Theory.run (step fileSize parse sorting sorting') s
      (List.replicate s.wire.length (.deliver tid clock)) = some s' ∧ s'.wire = [] := by
  generalize inFlight : s.wire = wire
  induction wire generalizing s with
  | nil => exact ⟨s, rfl, inFlight⟩
  | cons message wire ih =>
    obtain ⟨s1, stepped⟩ := following.delivers fileSize sorting sorting' alive inFlight tid clock
    obtain ⟨_, tail, control, moved⟩ := following.deliver stepped
    rw [inFlight, List.tail_cons] at tail
    obtain ⟨s', ran, empty⟩ := ih moved (by rw [control]; exact alive) tail
    refine ⟨s', ?_, empty⟩
    rw [List.length_cons, List.replicate_succ, run_cons, stepped]
    exact ran

/-- Any number of ticks is defined. By induction on the number: the master stays, so every
window still fits. -/
theorem Following.many (fileSize : List Features → Nat) (sorting : Sorting k)
    (sorting' : Sorting m) (following : Following parse b s) (fits : AllFit s) (n : Nat) :
    ∃ s', Theory.run (step fileSize parse sorting sorting') s (List.replicate n .tick) = some s' ∧
      s'.master = s.master ∧ s'.slave = s.slave ∧ Following parse (b - n) s' := by
  induction n generalizing s b with
  | zero => exact ⟨s, rfl, rfl, rfl, following⟩
  | succ n ih =>
    obtain ⟨s1, stepped, master, slave, moved⟩ :=
      following.tick fileSize sorting sorting' fits
    have fits' : AllFit s1 := by
      rw [AllFit, master]
      exact fits
    obtain ⟨s', ran, master', slave', last⟩ := ih moved fits'
    refine ⟨s', ?_, master'.trans master, slave'.trans slave, ?_⟩
    · rw [List.replicate_succ, run_cons, stepped]
      exact ran
    · rw [Nat.add_comm, ← Nat.sub_sub]
      exact last

end Quiet

end Naruto.Replication.Pair
