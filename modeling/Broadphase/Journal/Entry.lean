/-!
The journal: what the indices report about themselves. An entry carries its
severity, the part that wrote it and the message. A journal forwards reports at
or above its threshold; an entry written directly is forwarded whatever its
severity.
-/

namespace Broadphase

/-- How much an entry matters, from structural detail to errors. -/
inductive Severity where
  | trace
  | debug
  | info
  | warn
  | error
  deriving DecidableEq, Repr

namespace Severity

def rank : Severity → Nat
  | .trace => 0
  | .debug => 1
  | .info => 2
  | .warn => 3
  | .error => 4

instance : Ord Severity := ⟨compareOn rank⟩

end Severity

/-- One entry of the journal. An error also tells where it was raised. -/
structure Entry where
  severity : Severity
  source : String
  message : String
  file : Option String := none
  line : Option Nat := none
  deriving DecidableEq

namespace Entry

/-- Whether the entry tells both the file and the line it comes from. -/
def isLocated (e : Entry) : Bool := e.file.isSome && e.line.isSome

/-- The report of an entry raised at a place in a program. Only an error tells
the place. -/
def raisedAt (e : Entry) (file : String) (line : Nat) : Entry :=
  if e.severity = .error then { e with file := some file, line := some line } else e

end Entry

/-- Who takes the entries: a reader that keeps them or the console. -/
inductive Receiver where
  | memory
  | console
  deriving DecidableEq

structure Journal where
  threshold : Severity := .info
  receiver : Receiver := .console
  deriving DecidableEq

namespace Journal

def accepts (j : Journal) (severity : Severity) : Bool := j.threshold.rank ≤ severity.rank

def admitted (j : Journal) (reports : List Entry) : List Entry :=
  reports.filter fun e => j.accepts e.severity

/-- The forwarded entries that are kept for a reader. -/
def kept (j : Journal) (entries : List Entry) : List Entry :=
  match j.receiver with
  | .memory => entries
  | .console => []

/-- The forwarded entries that go to the console. -/
def shown (j : Journal) (entries : List Entry) : List Entry :=
  match j.receiver with
  | .memory => []
  | .console => entries

end Journal

end Broadphase
