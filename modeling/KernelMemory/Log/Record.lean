/-!
# Log records and the debug console

A record has a level, the part of the kernel it comes from, and a text.  A `Console` lets records
up to its level through and writes each on a line of its own.
-/

namespace KernelMemory.Log

/-- How important a record is. -/
inductive Level where
  | error
  | warn
  | info
  | debug
  | trace
deriving DecidableEq, Repr

namespace Level

/-- Every level, most important first. -/
def all : List Level :=
  [error, warn, info, debug, trace]

/-- The number of levels up to and including this one. -/
def rank : Level → Nat
  | error => 1
  | warn => 2
  | info => 3
  | debug => 4
  | trace => 5

/-- The name of the level. -/
def text : Level → String
  | error => "ERROR"
  | warn => "WARN"
  | info => "INFO"
  | debug => "DEBUG"
  | trace => "TRACE"

end Level

/-- One message. -/
structure Record where
  level : Level
  target : String
  text : String
deriving DecidableEq, Repr

/-- The levels that are let through: those up to a given one, or none at all. -/
inductive Filter where
  | off
  | upTo (level : Level)
deriving DecidableEq, Repr

namespace Filter

/-- Every filter, strictest first. -/
def all : List Filter :=
  off :: Level.all.map upTo

/-- The name of the filter. -/
def text : Filter → String
  | off => "OFF"
  | upTo level => level.text

/-- The filter with the given name, in upper or lower case. -/
def ofText? (name : String) : Option Filter :=
  all.find? fun filter => filter.text == name.toUpper

/-- Whether records of the level are let through. -/
def allows : Filter → Level → Bool
  | off, _ => false
  | upTo max, level => level.rank ≤ max.rank

end Filter

/-- The emulator's debug console as the place where records go. -/
structure Console where
  filter : Filter
  /-- What has been written so far. -/
  output : String := ""
deriving DecidableEq, Repr

namespace Console

/-- The line that is written for a record: `[LEVEL] target: message`. -/
def line (r : Record) : String :=
  "[" ++ r.level.text ++ "] " ++ r.target ++ ": " ++ r.text ++ "\n"

/-- Writes a record, if its level is let through. -/
def write (console : Console) (r : Record) : Console :=
  if console.filter.allows r.level then
    { console with output := console.output ++ line r }
  else console

end Console

/-- The message of a second attempt to choose where records go. -/
def alreadySetMessage : String :=
  "attempted to set a logger after the logging system was already initialized"

end KernelMemory.Log
