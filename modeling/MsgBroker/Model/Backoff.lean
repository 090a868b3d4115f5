import MsgBroker.Lib.CheckedInt

/-!
# The intervals between reconnects

The arithmetic of `src/pal/sleep.c`: the interval is doubled up to a maximum after every failed
attempt, with or without a random share of a quarter added to it or taken away.
-/

set_option autoImplicit false

namespace MsgBroker.Model

open Lib.CheckedInt

/-- `mb_reconnect_cap_ivl`.  SRC: sleep.c:55-60 -/
def reconnectCapIvl (ivl ivlMax : Int32) : Int32 :=
  if 0 < ivlMax ∧ ivlMax < ivl then ivlMax else ivl

/-- `mb_reconnect_next_ivl`.  SRC: sleep.c:62-72 -/
def reconnectNextIvl (currentIvl ivlMax : Int32) : Option Int32 :=
  if ivlMax ≤ 0 then some currentIvl
  else if ivlMax ≤ currentIvl then some ivlMax
  else do
    let half ← div? ivlMax 2
    if half < currentIvl then return ivlMax else mul? currentIvl 2

/-- The state that is not zero: the one of the thread, or one mixed from the reading `us` of the
clock.  SRC: sleep.c:88-97 -/
def jitterSeed (state : UInt32) (us : UInt64) : UInt32 :=
  if state = 0 then
    let x := (us ^^^ (us >>> 32) ^^^ 0x9E3779B9).toUInt32
    if x = 0 then 0x9E3779B9 else x
  else state

/-- `mb_jitter_next`, which returns its new state.  SRC: sleep.c:85-103 -/
def jitterNext (state : UInt32) (us : UInt64) : UInt32 :=
  let x := jitterSeed state us
  let x := x ^^^ (x <<< 13)
  let x := x ^^^ (x >>> 17)
  x ^^^ (x <<< 5)

/-- `mb_reconnect_next_ivl_jittered` for a base that is positive, with the random number `x`.
SRC: sleep.c:116-131 -/
def jittered (base ivlMax : Int32) (x : UInt32) : Option Int32 := do
  let band ← div? (← mul? base 25) 100
  let band := if band < 1 then 1 else band
  let width ← add? (← mul? band 2) 1
  let jitter ← sub? (x % width.toUInt32).toInt32 band
  let result ← add? base jitter
  let result := if result < 0 then 0 else result
  return if 0 < ivlMax ∧ ivlMax < result then ivlMax else result

/-- `mb_reconnect_next_ivl_jittered`, with the state of the thread afterwards.
SRC: sleep.c:105-131 -/
def reconnectNextIvlJittered (currentIvl ivlMax : Int32) (state : UInt32) (us : UInt64) :
    Option (Int32 × UInt32) := do
  let base ← reconnectNextIvl currentIvl ivlMax
  if base ≤ 0 then return (base, state)
  else
    let x := jitterNext state us
    let result ← jittered base ivlMax x
    return (result, x)

/-- The interval of a reconnect loop after `n` attempts that failed.
SRC: transport/tcp/ctcp.c:44-46, 59-64 -/
def reconnectIvl (ivl ivlMax : Int32) : ℕ → Option Int32
  | 0 => some (reconnectCapIvl ivl ivlMax)
  | n + 1 => do reconnectNextIvl (← reconnectIvl ivl ivlMax n) ivlMax

end MsgBroker.Model
