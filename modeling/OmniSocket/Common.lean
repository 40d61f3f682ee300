/-
# Message headers, message types and error codes

The 16-byte header of `common.h` is used twice: as the frame header of the TCP
transport and as the header of every application message. Its fields are put in
network byte order and the structure is then copied as the host lays it out, so
the byte order of the host is a parameter here and the encoded bytes are shown
not to depend on it.
-/

import OmniSocket.Lib.Bytes

set_option autoImplicit false

namespace OmniSocket

open Lib

/-! ## Constants -/

/-- `MSG_HEADER_SIZE`: two 32-bit fields and one 64-bit field. -/
def msgHeaderSize : ℕ := 16

/-- `MSG_TYPE_FILE_CHUNK`. -/
def msgTypeFileChunk : UInt32 := 1

/-- `MSG_TYPE_FILE_END`. -/
def msgTypeFileEnd : UInt32 := 2

/-- `MSG_TYPE_COMMAND`. -/
def msgTypeCommand : UInt32 := 3

/-- `MSG_TYPE_RAW`. -/
def msgTypeRaw : UInt32 := 100

/-- `OMNI_OK`. -/
def omniOk : ℤ := 0

/-- `OMNI_ERR_GENERIC`. -/
def omniErrGeneric : ℤ := -1

/-- `OMNI_ERR_PARAM`. -/
def omniErrParam : ℤ := -2

/-- `OMNI_ERR_IO`. -/
def omniErrIo : ℤ := -3

/-- The conversion of a `size_t` to `ssize_t`, both 64 bits wide. -/
def ssize (n : ℕ) : ℤ := (UInt64.ofNat n).toInt64.toInt

theorem ssize_of_lt {n : ℕ} (small : n < 2 ^ 63) : ssize n = n := by
  rw [ssize, UInt64.toInt64, Int64.toInt, BitVec.toInt_eq_toNat_of_lt]
  · simp only [Int64.toBitVec, UInt64.toNat_toBitVec, UInt64.toNat_ofNat', Nat.cast_inj]
    omega
  · simp only [Int64.toBitVec, UInt64.toNat_toBitVec, UInt64.toNat_ofNat']
    omega

/-! ## Host byte order -/

/-- The order in which a host stores the bytes of a word. -/
inductive Endian
  | little
  | big
  deriving DecidableEq, Repr

namespace Endian

/-- The memory image of a `w`-byte word. -/
def store : Endian → ℕ → ℕ → List UInt8
  | little, w, n => leBytes w n
  | big, w, n => (leBytes w n).reverse

/-- The word held by a memory image. -/
def load : Endian → List UInt8 → ℕ
  | little, bytes => leNat bytes
  | big, bytes => leNat bytes.reverse

@[simp] theorem length_store (host : Endian) (w n : ℕ) : (host.store w n).length = w := by
  cases host <;> simp [store]

end Endian

/-- Reverse the four bytes of a 32-bit word. -/
def bswap32 (x : UInt32) : UInt32 :=
  UInt32.ofNat (leNat (leBytes 4 x.toNat).reverse)

/-- `htonl`, which is also `ntohl`: a byte swap on a little-endian host. -/
def htonl : Endian → UInt32 → UInt32
  | .little, x => bswap32 x
  | .big, x => x

/-- `omni_bswap64`, one masked and shifted byte at a time. -/
def omniBswap64 (x : UInt64) : UInt64 :=
  ((x &&& 0x00000000000000FF) <<< 56) |||
  ((x &&& 0x000000000000FF00) <<< 40) |||
  ((x &&& 0x0000000000FF0000) <<< 24) |||
  ((x &&& 0x00000000FF000000) <<< 8) |||
  ((x &&& 0x000000FF00000000) >>> 8) |||
  ((x &&& 0x0000FF0000000000) >>> 24) |||
  ((x &&& 0x00FF000000000000) >>> 40) |||
  ((x &&& 0xFF00000000000000) >>> 56)

/-- `omni_htonll`, which is also `omni_ntohll`. -/
def omniHtonll : Endian → UInt64 → UInt64
  | .little, x => omniBswap64 x
  | .big, x => x

/-! ## The header -/

/-- `MsgHeader`. -/
structure MsgHeader where
  /-- What the payload is. -/
  type : UInt32
  /-- Bytes of payload after the header. -/
  len : UInt32
  /-- Sending time in milliseconds. -/
  timestamp : UInt64
  deriving DecidableEq, Repr

/-- `omni_msg_header_encode`: every field in network order. -/
def omniMsgHeaderEncode (host : Endian) (type len : UInt32) (timestampMs : UInt64) : MsgHeader where
  type := htonl host type
  len := htonl host len
  timestamp := omniHtonll host timestampMs

/-- `omni_msg_header_decode`: every field back in host order. -/
def omniMsgHeaderDecode (host : Endian) (net : MsgHeader) : MsgHeader where
  type := htonl host net.type
  len := htonl host net.len
  timestamp := omniHtonll host net.timestamp

/-- The bytes `memcpy` takes from a header in memory. -/
def MsgHeader.bytes (host : Endian) (hdr : MsgHeader) : List UInt8 :=
  host.store 4 hdr.type.toNat ++ host.store 4 hdr.len.toNat ++
    host.store 8 hdr.timestamp.toNat

/-- The header `memcpy` makes of sixteen bytes. -/
def MsgHeader.ofBytes (host : Endian) (bytes : List UInt8) : MsgHeader where
  type := UInt32.ofNat (host.load (bytes.take 4))
  len := UInt32.ofNat (host.load ((bytes.drop 4).take 4))
  timestamp := UInt64.ofNat (host.load ((bytes.drop 8).take 8))

/-- The sixteen bytes put on the wire for a header. -/
def headerBytes (host : Endian) (type len : UInt32) (timestampMs : UInt64) : List UInt8 :=
  (omniMsgHeaderEncode host type len timestampMs).bytes host

/-- What a receiver makes of sixteen bytes off the wire. -/
def headerOfBytes (host : Endian) (bytes : List UInt8) : MsgHeader :=
  omniMsgHeaderDecode host (MsgHeader.ofBytes host bytes)

@[simp] theorem length_headerBytes (host : Endian) (type len : UInt32) (timestampMs : UInt64) :
    (headerBytes host type len timestampMs).length = msgHeaderSize := by
  simp [headerBytes, MsgHeader.bytes, msgHeaderSize]

/-! ## The wire form does not depend on the host -/

theorem toNat_bswap32 (x : UInt32) :
    (bswap32 x).toNat = leNat (leBytes 4 x.toNat).reverse := by
  have bound := leNat_lt (leBytes 4 x.toNat).reverse
  rw [List.length_reverse, length_leBytes] at bound
  rw [bswap32, UInt32.toNat_ofNat']
  exact Nat.mod_eq_of_lt bound

/-- A field in network order is stored most significant byte first. -/
theorem store_htonl (host : Endian) (x : UInt32) :
    host.store 4 (htonl host x).toNat = (leBytes 4 x.toNat).reverse := by
  cases host with
  | little =>
    have restore := leBytes_leNat (leBytes 4 x.toNat).reverse
    rw [List.length_reverse, length_leBytes] at restore
    rw [Endian.store, htonl, toNat_bswap32, restore]
  | big => rfl

/-- A field read off the wire is its big-endian value. -/
theorem htonl_load (host : Endian) (bytes : List UInt8) (four : bytes.length = 4) :
    htonl host (UInt32.ofNat (host.load bytes)) = UInt32.ofNat (leNat bytes.reverse) := by
  cases host with
  | little =>
    have bound : leNat bytes < 2 ^ 32 := by
      have low := leNat_lt bytes
      rwa [four, show 256 ^ 4 = 2 ^ 32 by norm_num] at low
    have restore := leBytes_leNat bytes
    rw [four] at restore
    rw [htonl, Endian.load, bswap32, UInt32.toNat_ofNat', Nat.mod_eq_of_lt bound, restore]
  | big => rfl

/-- On any host a header has the type that its first four bytes write, the most
significant one first, and the length that the next four write. -/
theorem fields_headerOfBytes (host : Endian) (bytes : List UInt8) (header : 8 ≤ bytes.length) :
    (headerOfBytes host bytes).type.toNat = beNat (bytes.take 4) ∧
      (headerOfBytes host bytes).len.toNat = beNat ((bytes.drop 4).take 4) := by
  have field : ∀ four : List UInt8, four.length = 4 →
      (htonl host (UInt32.ofNat (host.load four))).toNat = beNat four := by
    intro four length
    have bound := beNat_lt four
    rw [length, show 256 ^ 4 = 2 ^ 32 by norm_num] at bound
    rw [htonl_load host four length, UInt32.toNat_ofNat']
    exact Nat.mod_eq_of_lt bound
  constructor
  · exact field _ (by rw [List.length_take]; omega)
  · exact field _ (by rw [List.length_take, List.length_drop]; omega)

theorem headerBytes_eq (host : Endian) (type len : UInt32) (timestampMs : UInt64) :
    headerBytes host type len timestampMs =
      (leBytes 4 type.toNat).reverse ++ (leBytes 4 len.toNat).reverse ++
        host.store 8 (omniHtonll host timestampMs).toNat := by
  rw [headerBytes, MsgHeader.bytes, omniMsgHeaderEncode, store_htonl, store_htonl]

/-- A field that is stored in network order is read back in the order of any host. -/
private theorem htonl_load_store (host : Endian) (x : UInt32) :
    htonl host (UInt32.ofNat (host.load (leBytes 4 x.toNat).reverse)) = x := by
  rw [htonl_load _ _ (by simp), List.reverse_reverse, leNat_leBytes,
    show 256 ^ 4 = 2 ^ 32 by norm_num, Nat.mod_eq_of_lt x.toNat_lt, UInt32.ofNat_toNat]

/-- The length field survives the wire between any two hosts. -/
theorem len_headerOfBytes (sender receiver : Endian) (type len : UInt32) (timestampMs : UInt64) :
    (headerOfBytes receiver (headerBytes sender type len timestampMs)).len = len := by
  have field : ((headerBytes sender type len timestampMs).drop 4).take 4 =
      (leBytes 4 len.toNat).reverse := by
    rw [headerBytes_eq, List.append_assoc, List.drop_left' (by simp), List.take_left' (by simp)]
  simp only [headerOfBytes, omniMsgHeaderDecode, MsgHeader.ofBytes, field]
  exact htonl_load_store receiver len

/-- The type field survives the wire between any two hosts. -/
theorem type_headerOfBytes (sender receiver : Endian) (type len : UInt32) (timestampMs : UInt64) :
    (headerOfBytes receiver (headerBytes sender type len timestampMs)).type = type := by
  have field : (headerBytes sender type len timestampMs).take 4 =
      (leBytes 4 type.toNat).reverse := by
    rw [headerBytes_eq, List.append_assoc, List.take_left' (by simp)]
  simp only [headerOfBytes, omniMsgHeaderDecode, MsgHeader.ofBytes, field]
  exact htonl_load_store receiver type

end OmniSocket
