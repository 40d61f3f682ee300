/-
# Application messages

Client and server exchange messages of one header and one payload. Both
programs hold the same two functions: `send_app_message` builds the frame it
hands to `omni_send`, and `decode_app_message` checks what `omni_recv` returned.
-/

import OmniSocket.Common

set_option autoImplicit false

namespace OmniSocket

/-- The width of `size_t`: the ARM build and the native build differ. -/
inductive SizeT
  | bits32
  | bits64
  deriving DecidableEq, Repr

/-- How many values a `size_t` has. -/
def SizeT.modulus : SizeT → ℕ
  | bits32 => 2 ^ 32
  | bits64 => 2 ^ 64

/-- `CLIENT_FRAME_BUF_SIZE`, `SERVER_FRAME_BUF_SIZE` and `RELAY_BUF_SIZE`. -/
def frameBufSize : ℕ := msgHeaderSize + 65536

/-- The frame `send_app_message` hands to `omni_send`, built at time `now`. -/
def appFrame (host : Endian) (type : UInt32) (payload : List UInt8) (now : UInt64) : List UInt8 :=
  headerBytes host type (UInt32.ofNat payload.length) now ++ payload

/-- `decode_app_message`: the header and the payload pointer, or an error code. -/
def decodeAppMessage (host : Endian) (size : SizeT) (frame : List UInt8) :
    Except ℤ (MsgHeader × List UInt8) :=
  if frame.length < msgHeaderSize then .error omniErrParam
  else
    let hdr := headerOfBytes host (frame.take msgHeaderSize)
    if (hdr.len.toNat + msgHeaderSize) % size.modulus ≠ frame.length then .error omniErrIo
    else .ok (hdr, frame.drop msgHeaderSize)

@[simp] theorem length_appFrame (host : Endian) (type : UInt32) (payload : List UInt8)
    (now : UInt64) :
    (appFrame host type payload now).length = msgHeaderSize + payload.length := by
  simp [appFrame]

/-- A frame built for a payload the applications send decodes to its type and
its payload on every receiving host. -/
theorem decodeAppMessage_appFrame (sender receiver : Endian) (size : SizeT) (type : UInt32)
    (payload : List UInt8) (now : UInt64) (small : payload.length ≤ 65536) :
    ∃ hdr, decodeAppMessage receiver size (appFrame sender type payload now) = .ok (hdr, payload) ∧
      hdr.type = type ∧ hdr.len.toNat = payload.length := by
  have header : (appFrame sender type payload now).take msgHeaderSize =
      headerBytes sender type (UInt32.ofNat payload.length) now :=
    List.take_left' (length_headerBytes ..)
  have body : (appFrame sender type payload now).drop msgHeaderSize = payload :=
    List.drop_left' (length_headerBytes ..)
  have len : (UInt32.ofNat payload.length).toNat = payload.length := by
    rw [UInt32.toNat_ofNat']
    omega
  refine ⟨headerOfBytes receiver (headerBytes sender type (UInt32.ofNat payload.length) now), ?_,
    type_headerOfBytes .., ?_⟩
  · have fits : (payload.length + msgHeaderSize) % size.modulus =
        msgHeaderSize + payload.length := by
      cases size <;> simp only [SizeT.modulus, msgHeaderSize] <;> omega
    rw [decodeAppMessage, if_neg (by simp), header, body]
    simp only [len_headerOfBytes, len, fits, length_appFrame, ne_eq, not_true_eq_false, if_false]
  · rw [len_headerOfBytes, len]

end OmniSocket
