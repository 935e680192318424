import Mathlib.Data.List.Basic

/-!
# The command table

Commands are found by the type of their packet. A type without an entry goes to
the handler for unknown commands. The lookup logs the name of the type first,
through a descriptor that is null for a number outside the enumeration.
-/

namespace Naruto.Command

/-- The values of `cmdtype::Type` that the table and its users name. -/
def nf : UInt16 := 0

/-- The message types of the protocol: a key's object in a database file, -/
def replObject : UInt16 := 1

/-- commands that a master relays to its slaves, -/
def replMulti : UInt16 := 2

/-- the ping of the replication, -/
def replPing : UInt16 := 3

/-- and the pong that answers it, -/
def replPong : UInt16 := 4

/-- a slave's request to go on from a position, -/
def replPsync : UInt16 := 6

/-- the order to become a slave, -/
def replSlaveof : UInt16 := 7

/-- a client's write of a field, -/
def clientHset : UInt16 := 2000

/-- and a client's read of one. -/
def clientHget : UInt16 := 2001

/-- `cmdtype::Type_descriptor()->FindValueByNumber(type)` is not null. -/
def describes (type : UInt16) : Bool :=
  type ≤ 7 ∨ (1001 ≤ type ∧ type ≤ 1021) ∨ (2000 ≤ type ∧ type ≤ 2002)

/-- The registered commands, and `CommandNF`. `CommandNF` answers whatever is not
registered. -/
inductive Handler
  | commandNF
  | commandHset
  | commandHget
  | commandAof
  | commandPsync
  | commandSlaveof
  | commandPing
  | commandPong
deriving DecidableEq, Repr

/-- `Commands::fetch`; nothing when the name of the type is read through null. The source logs
the name of the type before it looks into the table, so a type without a descriptor is read
through a null pointer. -/
def fetch (type : UInt16) : Option Handler :=
  if ¬ describes type then none
  else some <|
    if type = clientHset then .commandHset
    else if type = clientHget then .commandHget
    else if type = replMulti then .commandAof
    else if type = replPsync then .commandPsync
    else if type = replSlaveof then .commandSlaveof
    else if type = replPing then .commandPing
    else if type = replPong then .commandPong
    else .commandNF

end Naruto.Command
