import MsgBroker.Lib.CString

/-!
# Addresses with a host and a port

`mb_net_parse_addr` of `src/utils/net.c`, by which the tcp, tls, ws and wss transports read their
addresses.
-/

set_option autoImplicit false

namespace MsgBroker.Model

open Lib

/-- `"://"`. -/
def schemeSep : List UInt8 := [58, 47, 47]

/-- `':'`. -/
abbrev colon : UInt8 := 58

/-- `'['`. -/
abbrev leftBracket : UInt8 := 91

/-- `']'`. -/
abbrev rightBracket : UInt8 := 93

/-- Where the host starts and ends and where the port's colon is, as rests of the string.
SRC: net.c:32-45 -/
def addrParts (sep : List UInt8) : Option (List UInt8 × List UInt8 × List UInt8) :=
  match sep with
  | 91 :: hostStart => do
    let hostEnd ← strchr rightBracket hostStart
    let portstr ← strrchr colon hostEnd
    return (hostStart, hostEnd, portstr)
  | hostStart => do
    let portstr ← strrchr colon sep
    return (hostStart, portstr, portstr)

/-- `mb_net_parse_addr` with a host buffer of `hostlen` bytes: the host and the port.
SRC: net.c:18-64 -/
def netParseAddr (addr : CString) (hostlen : ℕ) : Option (List UInt8 × ℕ) := do
  let sep ← strstr schemeSep addr.bytes
  let (hostStart, hostEnd, portstr) ← addrParts (sep.drop 3)
  let n := hostStart.length - hostEnd.length
  if hostlen ≤ n then none
  else
    let (p, rest) ← strtoul (portstr.drop 1)
    if rest ≠ [] ∨ 65535 < p then none else some (hostStart.take n, p)

/-! ## The documented form -/

/-- The port: decimal digits, at least one, for a number of at most 16 bits. -/
structure IsPort (text : List UInt8) (port : ℕ) : Prop where
  nonempty : text ≠ []
  digits : ∀ b ∈ text, isDigit b = true
  value : digitsValue text = port
  range : port ≤ 65535

/-- The text behind the first `://` is `host:port` or, if it starts with a bracket,
`[host]:port`. -/
inductive HostPort (host port : List UInt8) : List UInt8 → Prop where
  | plain (h : (host ++ colon :: port).head? ≠ some leftBracket) :
      HostPort host port (host ++ colon :: port)
  | bracketed (h : rightBracket ∉ host) :
      HostPort host port (leftBracket :: (host ++ rightBracket :: colon :: port))

/-- The address has the documented form, with this host and port, and the host fits the buffer. -/
def DocumentedAddr (addr : CString) (hostlen : ℕ) (host : List UInt8) (port : ℕ) : Prop :=
  ∃ scheme text digits, FirstAt schemeSep addr.bytes scheme (schemeSep ++ text) ∧
    HostPort host digits text ∧ IsPort digits port ∧ host.length < hostlen

end MsgBroker.Model
