import PBoot.Conf.Parse

/-!
# Trimming a line where it is stored (`parse_conf`)

The two loops at the head of `parse_conf`'s round, on the memory that `line` is in: `trimEnd` goes
down from the end of the line, `skipBlanks` goes up from its start. Both also yield the bytes that
they touch, in order.
-/

namespace PBoot

open Bytes Text

/-- A byte that is read or written. -/
inductive Access where
  | read (a : Nat)
  | write (a : Nat)
  deriving DecidableEq, Repr

def Access.addr : Access → Nat
  | .read a => a
  | .write a => a

/-- `while (--end >= line && *end == ' ' || *end == '\t' || *end == '\n') *end = 0;`: only the test
for a blank asks whether `end` is still in the line. None when `end` gets below all of memory. -/
def trimEnd (line : Nat) : Nat → Mem → Option (Mem × List Access)
  | 0, _ => none
  | e + 1, m =>
    if line ≤ e && m e == 32 || m e == 9 || m e == newline then
      (trimEnd line e (write m e [0])).map fun r => (r.1, .read e :: .write e :: r.2)
    else some (m, [.read e])

/-- `while (*name == ' ' || *name == '\t') name++;`; none when it takes more rounds than allowed. -/
def skipBlanks (m : Mem) : Nat → Nat → Option (Nat × List Access)
  | 0, _ => none
  | n + 1, name =>
    if isBlank (m name) then
      (skipBlanks m n (name + 1)).map fun r => (r.1, .read name :: r.2)
    else some (name, [.read name])

/-- What the two loops leave. -/
structure Trimmed where
  mem : Mem
  name : Nat
  touched : List Access

/-- Both loops, for the string in the `lineSize` bytes at `line`. -/
def trimLine (m : Mem) (line : Nat) : Option Trimmed := do
  let len := (cstr (read m line lineSize)).length
  let (m, back) ← trimEnd line (line + len) m
  let (name, front) ← skipBlanks m lineSize line
  some { mem := m, name, touched := back ++ front }

end PBoot
