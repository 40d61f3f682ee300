/-
# KCP segments

`ikcp.c` numbers its segments with 32-bit counters that wrap around and
compares them by the sign of their difference. On the wire a segment is a
24-byte little-endian header followed by its data, and a datagram is a sequence
of segments. `ikcp_input` decodes a datagram segment by segment and gives up at
the first segment that is not well formed.
-/

import OmniSocket.Lib.Bytes
import OmniSocket.Lib.Serial

set_option autoImplicit false

namespace OmniSocket

open Lib

/-! ## Constants and arithmetic -/

/-- `IKCP_CMD_PUSH`. -/
def ikcpCmdPush : UInt32 := 81

/-- `IKCP_CMD_ACK`. -/
def ikcpCmdAck : UInt32 := 82

/-- `IKCP_CMD_WASK`. -/
def ikcpCmdWask : UInt32 := 83

/-- `IKCP_CMD_WINS`. -/
def ikcpCmdWins : UInt32 := 84

/-- `IKCP_OVERHEAD`. -/
def ikcpOverhead : ℕ := 24

/-- `_imin_`. -/
def imin (a b : UInt32) : UInt32 := if a ≤ b then a else b

/-- `_imax_`. -/
def imax (a b : UInt32) : UInt32 := if a ≥ b then a else b

/-- `_ibound_`. -/
def ibound (lower middle upper : UInt32) : UInt32 := imin (imax lower middle) upper

/-- `_itimediff`. -/
def itimediff (later earlier : UInt32) : ℤ := (later - earlier).toInt32.toInt

/-- Numbers less than half the range apart are compared exactly. -/
theorem itimediff_ofNat {a b : ℕ} (above : a < b + 2 ^ 31) (below : b ≤ a + 2 ^ 31) :
    itimediff (UInt32.ofNat a) (UInt32.ofNat b) = (a : ℤ) - b :=
  serialDiff_ofNat above below

/-! ## Segments -/

/-- `IKCPSEG`. The length field is the length of `data`. -/
structure IkcpSeg where
  conv : UInt32
  cmd : UInt32
  frg : UInt32
  wnd : UInt32
  ts : UInt32
  sn : UInt32
  una : UInt32
  resendts : UInt32
  rto : UInt32
  fastack : UInt32
  xmit : UInt32
  data : List UInt8
  deriving DecidableEq, Repr

/-- A segment as `ikcp_segment_new` makes it, with the data copied in. Every
field is written before it is read. -/
def ikcpSegmentNew (data : List UInt8) : IkcpSeg where
  conv := 0
  cmd := 0
  frg := 0
  wnd := 0
  ts := 0
  sn := 0
  una := 0
  resendts := 0
  rto := 0
  fastack := 0
  xmit := 0
  data := data

/-- `ikcp_encode_seg`. -/
def ikcpEncodeSeg (seg : IkcpSeg) : List UInt8 :=
  leBytes 4 seg.conv.toNat ++ leBytes 1 seg.cmd.toNat ++ leBytes 1 seg.frg.toNat ++
    leBytes 2 seg.wnd.toNat ++ leBytes 4 seg.ts.toNat ++ leBytes 4 seg.sn.toNat ++
    leBytes 4 seg.una.toNat ++ leBytes 4 seg.data.length

/-- A segment on the wire. -/
def ikcpSegBytes (seg : IkcpSeg) : List UInt8 := ikcpEncodeSeg seg ++ seg.data

@[simp] theorem length_ikcpEncodeSeg (seg : IkcpSeg) :
    (ikcpEncodeSeg seg).length = ikcpOverhead := by
  simp [ikcpEncodeSeg, ikcpOverhead]

@[simp] theorem length_ikcpSegBytes (seg : IkcpSeg) :
    (ikcpSegBytes seg).length = ikcpOverhead + seg.data.length := by
  simp [ikcpSegBytes]

/-- `ikcp_decode8u`, `ikcp_decode16u` and `ikcp_decode32u`: the value of the
first `w` bytes and the bytes after them. -/
def ikcpDecode (w : ℕ) (p : List UInt8) : UInt32 × List UInt8 :=
  (UInt32.ofNat (leNat (p.take w)), p.drop w)

/-- The commands `ikcp_input` knows. -/
def IkcpKnownCmd (cmd : UInt32) : Prop :=
  cmd = ikcpCmdPush ∨ cmd = ikcpCmdAck ∨ cmd = ikcpCmdWask ∨ cmd = ikcpCmdWins

instance (cmd : UInt32) : Decidable (IkcpKnownCmd cmd) :=
  inferInstanceAs (Decidable (_ ∨ _ ∨ _ ∨ _))

/-- One pass of the loop of `ikcp_input`, up to the checks: the first segment of
a datagram and the bytes behind it, or an error code. -/
def ikcpDecodeSeg (conv : UInt32) (data : List UInt8) : Except ℤ (IkcpSeg × List UInt8) :=
  let (conv', data) := ikcpDecode 4 data
  if conv' ≠ conv then .error (-1)
  else
    let (cmd, data) := ikcpDecode 1 data
    let (frg, data) := ikcpDecode 1 data
    let (wnd, data) := ikcpDecode 2 data
    let (ts, data) := ikcpDecode 4 data
    let (sn, data) := ikcpDecode 4 data
    let (una, data) := ikcpDecode 4 data
    let (len, data) := ikcpDecode 4 data
    if data.length < len.toNat ∨ len.toInt32.toInt < 0 then .error (-2)
    else if ¬ IkcpKnownCmd cmd then .error (-3)
    else
      .ok ({ ikcpSegmentNew (data.take len.toNat) with
        conv := conv', cmd := cmd, frg := frg, wnd := wnd, ts := ts, sn := sn, una := una },
        data.drop len.toNat)

/-- The loop of `ikcp_input` without its effects: the segments it accepts, in
order, and the error code it stops with, or 0. Every pass takes a header off
the datagram, so `data.length` passes are enough. -/
def ikcpDecodeAll (conv : UInt32) : ℕ → List UInt8 → List IkcpSeg × ℤ
  | 0, _ => ([], 0)
  | fuel + 1, data =>
    if data.length < ikcpOverhead then ([], 0)
    else
      match ikcpDecodeSeg conv data with
      | .error rc => ([], rc)
      | .ok (seg, rest) =>
        let (segs, rc) := ikcpDecodeAll conv fuel rest
        (seg :: segs, rc)

/-! ## Reading back what was written -/

@[simp] theorem ikcpDecode_leBytes (w n : ℕ) (rest : List UInt8) :
    ikcpDecode w (leBytes w n ++ rest) = (UInt32.ofNat (n % 256 ^ w), rest) := by
  have head : (leBytes w n ++ rest).take w = leBytes w n :=
    List.take_left' (length_leBytes w n)
  have tail : (leBytes w n ++ rest).drop w = rest := List.drop_left' (length_leBytes w n)
  rw [ikcpDecode, head, tail, leNat_leBytes]

/-- What a receiver sees of a segment: fields the wire has no room for are cut,
the sender's own bookkeeping is not sent. -/
def IkcpSeg.onWire (seg : IkcpSeg) : IkcpSeg :=
  { ikcpSegmentNew seg.data with
    conv := seg.conv
    cmd := UInt32.ofNat (seg.cmd.toNat % 256)
    frg := UInt32.ofNat (seg.frg.toNat % 256)
    wnd := UInt32.ofNat (seg.wnd.toNat % 65536)
    ts := seg.ts
    sn := seg.sn
    una := seg.una }

/-- A known command arrives as it was sent. -/
theorem IkcpSeg.cmd_onWire {seg : IkcpSeg} (known : IkcpKnownCmd seg.cmd) :
    seg.onWire.cmd = seg.cmd := by
  rcases known with same | same | same | same <;> (simp only [IkcpSeg.onWire, same]; decide)

private theorem ofNat_mod_four (n : UInt32) : UInt32.ofNat (n.toNat % 256 ^ 4) = n := by
  have small : n.toNat < 256 ^ 4 := n.toNat_lt
  rw [Nat.mod_eq_of_lt small, UInt32.ofNat_toNat]

/-- A segment with a known command and admissible data is read back whole. -/
theorem ikcpDecodeSeg_segBytes (seg : IkcpSeg) (rest : List UInt8)
    (known : IkcpKnownCmd seg.cmd) (small : seg.data.length < 2 ^ 31) :
    ikcpDecodeSeg seg.conv (ikcpSegBytes seg ++ rest) = .ok (seg.onWire, rest) := by
  have len : (UInt32.ofNat (seg.data.length % 256 ^ 4)).toNat = seg.data.length := by
    rw [Nat.mod_eq_of_lt (by omega), UInt32.toNat_ofNat']
    omega
  have nonneg : ¬ (UInt32.ofNat (seg.data.length % 256 ^ 4)).toInt32.toInt < 0 := by
    rw [Nat.mod_eq_of_lt (by omega), toInt_toInt32_ofNat small]
    omega
  have cmd : IkcpKnownCmd (UInt32.ofNat (seg.cmd.toNat % 256 ^ 1)) := by
    rcases known with h | h | h | h <;> rw [h] <;> decide
  simp only [ikcpDecodeSeg, ikcpSegBytes, ikcpEncodeSeg, List.append_assoc, ikcpDecode_leBytes,
    ofNat_mod_four, len, nonneg, cmd]
  simp [IkcpSeg.onWire]

/-- The bytes of a datagram. -/
def ikcpDatagram (segs : List IkcpSeg) : List UInt8 := segs.flatMap ikcpSegBytes

@[simp] theorem ikcpDatagram_nil : ikcpDatagram [] = [] := rfl

@[simp] theorem ikcpDatagram_append (first second : List IkcpSeg) :
    ikcpDatagram (first ++ second) = ikcpDatagram first ++ ikcpDatagram second :=
  List.flatMap_append

theorem ikcpDatagram_cons (seg : IkcpSeg) (rest : List IkcpSeg) :
    ikcpDatagram (seg :: rest) = ikcpSegBytes seg ++ ikcpDatagram rest :=
  List.flatMap_cons

@[simp] theorem ikcpDatagram_singleton (seg : IkcpSeg) :
    ikcpDatagram [seg] = ikcpSegBytes seg := by
  rw [ikcpDatagram_cons, ikcpDatagram_nil, List.append_nil]

/-- A segment that `ikcp_input` of an endpoint with this `conv` accepts. -/
def IkcpSeg.WellFormed (conv : UInt32) (seg : IkcpSeg) : Prop :=
  seg.conv = conv ∧ IkcpKnownCmd seg.cmd ∧ seg.data.length < 2 ^ 31

/-- A datagram of well-formed segments is decoded to its last byte. -/
theorem ikcpDecodeAll_datagram {conv : UInt32} {segs : List IkcpSeg} {fuel : ℕ}
    (wellFormed : ∀ seg ∈ segs, seg.WellFormed conv) (enough : segs.length ≤ fuel) :
    ikcpDecodeAll conv fuel (ikcpDatagram segs) = (segs.map IkcpSeg.onWire, 0) := by
  induction segs generalizing fuel with
  | nil => cases fuel <;> rfl
  | cons seg rest ih =>
    cases fuel with
    | zero => simp at enough
    | succ fuel =>
      obtain ⟨rfl, known, small⟩ := wellFormed seg List.mem_cons_self
      have header : ¬ (ikcpDatagram (seg :: rest)).length < ikcpOverhead := by
        rw [ikcpDatagram_cons, List.length_append, length_ikcpSegBytes]
        omega
      have later := ih (fun other member => wellFormed other (List.mem_cons_of_mem _ member))
        (Nat.le_of_succ_le_succ enough)
      rw [ikcpDecodeAll, if_neg header, ikcpDatagram_cons,
        ikcpDecodeSeg_segBytes seg _ known small]
      simp only [later, List.map_cons]

/-- Nothing is decoded from less than a header. -/
theorem ikcpDecodeAll_of_short (conv : UInt32) (fuel : ℕ) {data : List UInt8}
    (short : data.length < ikcpOverhead) : ikcpDecodeAll conv fuel data = ([], 0) := by
  cases fuel with
  | zero => rfl
  | succ fuel => rw [ikcpDecodeAll, if_pos short]

/-- A datagram has room for no more segments than bytes. -/
theorem length_le_length_ikcpDatagram (segs : List IkcpSeg) :
    segs.length ≤ (ikcpDatagram segs).length := by
  induction segs with
  | nil => exact Nat.le_refl 0
  | cons seg rest ih =>
    rw [ikcpDatagram_cons, List.length_append, length_ikcpSegBytes, List.length_cons, ikcpOverhead]
    omega

end OmniSocket
