/-
# A closed window and how it opens

A sender whose peer reports no room writes nothing new; its flushes arm a timer,
and once that has run down they ask for the window. The question makes the next
flush of the receiver tell it, and the answer opens the window if there is room.
-/

import OmniSocket.Ikcp.Due

set_option autoImplicit false

namespace OmniSocket

open Lib

variable {kcp : Ikcpcb}

/-! ## The sender -/

/-- A mask distributes over an alternative. -/
theorem or_and_mask (a b mask : UInt32) : (a ||| b) &&& mask = a &&& mask ||| b &&& mask :=
  UInt32.toBitVec_inj.mp BitVec.and_or_distrib_right

/-- The next flush tells the window. -/
def Ikcpcb.Asked (kcp : Ikcpcb) : Prop := kcp.probe &&& ikcpAskTell ≠ 0

/-- Nothing but a flush forgets what it was asked for. -/
theorem Ikcpcb.Asked.more {other : Ikcpcb} (asked : kcp.Asked) (more : UInt32)
    (same : other.probe = kcp.probe ∨ other.probe = kcp.probe ||| more) : other.Asked := by
  rw [Asked] at asked ⊢
  rcases same with same | same
  · rw [same]
    exact asked
  · rw [same, or_and_mask, ne_eq, UInt32.or_eq_zero_iff]
    exact fun none => asked none.1

/-- What `ikcp_input` learns of the windows. -/
def Ikcpcb.windows (kcp : Ikcpcb) : UInt32 × UInt32 := (kcp.rmtWnd, kcp.probe)

end OmniSocket
