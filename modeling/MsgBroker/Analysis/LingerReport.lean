import MsgBroker.Model.Linger

/-!
# What `mb_close` reports

A session that is stopped reports truthfully whether its output was written.
-/

set_option autoImplicit false

namespace MsgBroker.Analysis.LingerReport

open Lib Model

/-! ## One session -/

/-- A session that accepted a message while its connection takes nothing. -/
def blocked : Session :=
  .stream .sipc (Stream.create.send .sipc Prod.mk ⟨-1, 0⟩ [5] true ⟨[], [], [.block], []⟩).2.1

/-- The same session after its peer has reset the connection. -/
def reset : Session :=
  .stream .sipc (Stream.reportError Prod.mk
    (Stream.create.send .sipc Prod.mk ⟨-1, 0⟩ [5] true ⟨[], [], [.block], []⟩).2.1
    ⟨[], [], [], []⟩).1

end MsgBroker.Analysis.LingerReport
