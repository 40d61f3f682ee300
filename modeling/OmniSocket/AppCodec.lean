/-
# The codec of application messages

`send_app_message` and `decode_app_message` of both programs, on machines of either
byte order and with a `size_t` of either width. The codec accepts exactly the strings
whose header says how long they are, so a receiver that trusts `hdr.len` stays inside
what it has received.
-/

import OmniSocket.App.Message
import OmniSocket.Lib.ByteMask

set_option autoImplicit false

namespace OmniSocket

open Lib

/-! ## The timestamp -/

/-- The masks and shifts reverse the eight bytes. -/
theorem toNat_omniBswap64 (x : UInt64) : (omniBswap64 x).toNat = beNat (leBytes 8 x.toNat) := by
  have b0 := toNat_byte_shiftLeft x 0x00000000000000FF 56 (k := 0) (j := 56) rfl rfl (by decide)
  have b1 := toNat_byte_shiftLeft x 0x000000000000FF00 40 (k := 8) (j := 48) rfl rfl (by decide)
  have b2 := toNat_byte_shiftLeft x 0x0000000000FF0000 24 (k := 16) (j := 40) rfl rfl (by decide)
  have b3 := toNat_byte_shiftLeft x 0x00000000FF000000 8 (k := 24) (j := 32) rfl rfl (by decide)
  have b4 := toNat_byte_shiftRight x 0x000000FF00000000 8 (k := 32) (j := 24) rfl rfl (by decide)
  have b5 := toNat_byte_shiftRight x 0x0000FF0000000000 24 (k := 40) (j := 16) rfl rfl (by decide)
  have b6 := toNat_byte_shiftRight x 0x00FF000000000000 40 (k := 48) (j := 8) rfl rfl (by decide)
  have b7 := toNat_byte_shiftRight x 0xFF00000000000000 56 (k := 56) (j := 0) rfl rfl (by decide)
  have digit : ∀ n : ℕ, n % 256 < 256 := fun n => Nat.mod_lt n (by decide)
  unfold omniBswap64
  simp only [UInt64.toNat_or, b0, b1, b2, b3, b4, b5, b6, b7, Nat.or_assoc]
  rw [beNat_leBytes_eight]
  exact or_digits (digit _) (digit _) (digit _) (digit _) (digit _) (digit _) (digit _)

/-- A timestamp in network order is stored most significant byte first. -/
theorem store_omniHtonll (host : Endian) (x : UInt64) :
    host.store 8 (omniHtonll host x).toNat = (leBytes 8 x.toNat).reverse := by
  cases host with
  | little =>
    have restore := leBytes_leNat (leBytes 8 x.toNat).reverse
    rw [List.length_reverse, length_leBytes] at restore
    rw [Endian.store, omniHtonll, toNat_omniBswap64, beNat, restore]
  | big => rfl

/-- A timestamp read off the wire is its big-endian value. -/
theorem omniHtonll_load (host : Endian) (bytes : List UInt8) (eight : bytes.length = 8) :
    omniHtonll host (UInt64.ofNat (host.load bytes)) = UInt64.ofNat (beNat bytes) := by
  cases host with
  | little =>
    have bound := leNat_lt bytes
    rw [eight, show 256 ^ 8 = 2 ^ 64 by norm_num] at bound
    have restore := leBytes_leNat bytes
    rw [eight] at restore
    apply UInt64.toNat_inj.mp
    rw [omniHtonll, toNat_omniBswap64, Endian.load, UInt64.toNat_ofNat', Nat.mod_eq_of_lt bound,
      restore, UInt64.toNat_ofNat', Nat.mod_eq_of_lt]
    have top := beNat_lt bytes
    rwa [eight, show 256 ^ 8 = 2 ^ 64 by norm_num] at top
  | big => rfl

/-- The timestamp survives the wire between any two hosts. -/
theorem timestamp_headerOfBytes (sender receiver : Endian) (type len : UInt32)
    (timestampMs : UInt64) :
    (headerOfBytes receiver (headerBytes sender type len timestampMs)).timestamp = timestampMs := by
  have field : ((headerBytes sender type len timestampMs).drop 8).take 8 =
      (leBytes 8 timestampMs.toNat).reverse := by
    rw [headerBytes_eq, List.drop_left' (by simp), store_omniHtonll,
      List.take_of_length_le (by simp)]
  simp only [headerOfBytes, omniMsgHeaderDecode, MsgHeader.ofBytes, field]
  rw [omniHtonll_load _ _ (by simp), beNat_reverse_leBytes, show 256 ^ 8 = 2 ^ 64 by norm_num,
    Nat.mod_eq_of_lt timestampMs.toNat_lt, UInt64.ofNat_toNat]

/-- The whole header survives it. -/
theorem headerOfBytes_headerBytes (sender receiver : Endian) (type len : UInt32)
    (timestampMs : UInt64) :
    headerOfBytes receiver (headerBytes sender type len timestampMs) =
      ⟨type, len, timestampMs⟩ := by
  rw [MsgHeader.mk.injEq]
  exact ⟨type_headerOfBytes .., len_headerOfBytes .., timestamp_headerOfBytes ..⟩

/-! ## Accepting a frame -/

/-- `decode_app_message` of `server_main.c`. -/
def serverDecodeAppMessage (host : Endian) (size : SizeT) (frame : List UInt8) :
    Except ℤ (MsgHeader × List UInt8) :=
  decodeAppMessage host size frame

/-- `decode_app_message` of `client_main.c`. -/
def clientDecodeAppMessage (host : Endian) (size : SizeT) (frame : List UInt8) :
    Except ℤ (MsgHeader × List UInt8) :=
  decodeAppMessage host size frame

/-- How much of a command the client copies into its buffer of 2048 bytes. -/
def clientCommandLen (hdr : MsgHeader) : ℕ := if hdr.len < 2047 then hdr.len.toNat else 2047

/-- The header says how long the frame is. -/
def WellFormed (frame : List UInt8) : Prop :=
  msgHeaderSize ≤ frame.length ∧ beNat ((frame.drop 4).take 4) = frame.length - msgHeaderSize

instance (frame : List UInt8) : Decidable (WellFormed frame) :=
  inferInstanceAs (Decidable (_ ∧ _))

/-- The length field of a received header, on any host. -/
theorem len_take (host : Endian) {frame : List UInt8} (long : msgHeaderSize ≤ frame.length) :
    (headerOfBytes host (frame.take msgHeaderSize)).len.toNat = beNat ((frame.drop 4).take 4) := by
  have header : 8 ≤ (frame.take msgHeaderSize).length := by
    rw [List.length_take, msgHeaderSize] at *
    omega
  rw [(fields_headerOfBytes host _ header).2, List.drop_take, List.take_take]
  rfl

/-- The sum `len + 16` is taken in a `size_t`. It may wrap when that has 32 bits, but
then it is smaller than any frame the test is made for. -/
theorem wrapped_eq_iff {size : SizeT} {len n : ℕ} (len_lt : len < 2 ^ 32)
    (long : msgHeaderSize ≤ n) (holds : n < size.modulus) :
    (len + msgHeaderSize) % size.modulus = n ↔ len = n - msgHeaderSize := by
  rw [msgHeaderSize] at *
  cases size with
  | bits32 =>
    rw [SizeT.modulus] at *
    rcases lt_or_ge (len + 16) (2 ^ 32) with below | wraps
    · rw [Nat.mod_eq_of_lt below]
      omega
    · omega
  | bits64 =>
    rw [SizeT.modulus] at *
    rw [Nat.mod_eq_of_lt (by omega)]
    omega

/-- What is accepted is a well-formed frame; it is cut after the header. -/
theorem decodeAppMessage_eq_ok_iff {host : Endian} {size : SizeT} {frame payload : List UInt8}
    {hdr : MsgHeader} (holds : frame.length < size.modulus) :
    decodeAppMessage host size frame = .ok (hdr, payload) ↔
      WellFormed frame ∧ hdr = headerOfBytes host (frame.take msgHeaderSize) ∧
        payload = frame.drop msgHeaderSize := by
  unfold decodeAppMessage WellFormed
  rcases lt_or_ge frame.length msgHeaderSize with short | long
  · rw [if_pos short]
    simp [not_le.mpr short]
  · have len := len_take host long
    have exact_len := wrapped_eq_iff
      (headerOfBytes host (frame.take msgHeaderSize)).len.toNat_lt long holds
    rw [if_neg (not_lt.mpr long)]
    simp only
    rw [← len, ← exact_len, ite_not]
    split_ifs with same
    · simp only [Except.ok.injEq, Prod.mk.injEq, long, same, true_and]
      exact and_congr eq_comm eq_comm
    · simp [same]

/-- A frame of a sender comes back whole. -/
theorem decodeAppMessage_appFrame_eq (sender receiver : Endian) (size : SizeT) (type : UInt32)
    {payload : List UInt8} (now : UInt64) (small : payload.length ≤ 65536) :
    decodeAppMessage receiver size (appFrame sender type payload now) =
      .ok (⟨type, UInt32.ofNat payload.length, now⟩, payload) := by
  have header : (appFrame sender type payload now).take msgHeaderSize =
      headerBytes sender type (UInt32.ofNat payload.length) now :=
    List.take_left' (length_headerBytes ..)
  have body : (appFrame sender type payload now).drop msgHeaderSize = payload :=
    List.drop_left' (length_headerBytes ..)
  have length := length_appFrame sender type payload now
  have holds : (appFrame sender type payload now).length < size.modulus := by
    rw [length, msgHeaderSize]
    cases size <;> rw [SizeT.modulus] <;> omega
  have long : msgHeaderSize ≤ (appFrame sender type payload now).length := by omega
  have same := headerOfBytes_headerBytes sender receiver type (UInt32.ofNat payload.length) now
  have len := len_take receiver long
  rw [header, same, UInt32.toNat_ofNat', Nat.mod_eq_of_lt (by omega)] at len
  rw [decodeAppMessage_eq_ok_iff holds, header, body, same]
  exact ⟨⟨long, by omega⟩, rfl, rfl⟩

/-- Frames of the senders are accepted, and everything in them comes back. Of all
strings those are accepted whose header says how long they are. What the receive loops
then read is inside the string. The two programs accept the same strings, whatever
machines they are on. -/
theorem app_codec_exact :
    (∀ (sender receiver : Endian) (size : SizeT) (type : UInt32) (payload : List UInt8)
      (now : UInt64), payload.length ≤ 65536 →
      decodeAppMessage receiver size (appFrame sender type payload now) =
        .ok (⟨type, UInt32.ofNat payload.length, now⟩, payload) ∧
      (UInt32.ofNat payload.length).toNat = payload.length) ∧
    (∀ (host : Endian) (size : SizeT) (frame : List UInt8), frame.length < size.modulus →
      ((∃ result, decodeAppMessage host size frame = .ok result) ↔ WellFormed frame)) ∧
    (∀ (host : Endian) (size : SizeT) (frame payload : List UInt8) (hdr : MsgHeader),
      frame.length < size.modulus → decodeAppMessage host size frame = .ok (hdr, payload) →
      payload = frame.drop msgHeaderSize ∧ msgHeaderSize + hdr.len.toNat = frame.length ∧
        msgHeaderSize + clientCommandLen hdr ≤ frame.length) ∧
    (∀ (host host' : Endian) (size size' : SizeT) (frame : List UInt8),
      frame.length < size.modulus → frame.length < size'.modulus →
      ((∃ result, clientDecodeAppMessage host size frame = .ok result) ↔
        ∃ result, serverDecodeAppMessage host' size' frame = .ok result)) := by
  -- what is accepted does not depend on the machine
  have accepts : ∀ (host : Endian) (size : SizeT) (frame : List UInt8),
      frame.length < size.modulus →
      ((∃ result, decodeAppMessage host size frame = .ok result) ↔ WellFormed frame) := by
    intro host size frame holds
    constructor
    · rintro ⟨⟨hdr, payload⟩, decoded⟩
      exact ((decodeAppMessage_eq_ok_iff holds).mp decoded).1
    · exact fun formed => ⟨_, (decodeAppMessage_eq_ok_iff holds).mpr ⟨formed, rfl, rfl⟩⟩
  refine ⟨?_, accepts, ?_, ?_⟩
  · intro sender receiver size type payload now small
    have len : (UInt32.ofNat payload.length).toNat = payload.length := by
      rw [UInt32.toNat_ofNat']
      omega
    exact ⟨decodeAppMessage_appFrame_eq sender receiver size type now small, len⟩
  · intro host size frame payload hdr holds decoded
    obtain ⟨⟨long, len⟩, rfl, rfl⟩ := (decodeAppMessage_eq_ok_iff holds).mp decoded
    rw [← len_take host long] at len
    -- the loop of the client reads no more of a command than is announced
    have inside : clientCommandLen (headerOfBytes host (frame.take msgHeaderSize)) ≤
        (headerOfBytes host (frame.take msgHeaderSize)).len.toNat := by
      unfold clientCommandLen
      split
      case isTrue => exact le_rfl
      case isFalse more => exact not_lt.mp more
    exact ⟨rfl, by omega, by omega⟩
  · intro host host' size size' frame holds holds'
    exact (accepts host size frame holds).trans (accepts host' size' frame holds').symm

/-- Two 16-byte headers on a build with a 32-bit `size_t`: the empty frame is accepted,
and a length that wraps to the length of the string is not. -/
theorem app_codec_exact_wrapping :
    (∃ result, decodeAppMessage .little .bits32
      [0, 0, 0, 1, 0, 0, 0, 0, 0, 0, 0, 0, 0, 0, 0, 0] = .ok result) ∧
    ¬ ∃ result, decodeAppMessage .little .bits32
      [0, 0, 0, 1, 0xff, 0xff, 0xff, 0xff, 0, 0, 0, 0, 0, 0, 0, 0] = .ok result :=
  ⟨(app_codec_exact.2.1 .little .bits32 _ (by decide)).mpr (by decide),
    fun accepted => absurd ((app_codec_exact.2.1 .little .bits32 _ (by decide)).mp accepted)
      (by decide)⟩

end OmniSocket
