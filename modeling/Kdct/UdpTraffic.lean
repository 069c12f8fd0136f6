/-
Datagrams on a UDP data channel (`UdpHeader` and `UdpTraffic` in
`crates/tunnel/src/protocol.rs`).

One length byte stands in front of the header, and the header gives the length of the
payload.  The sockets' addresses go through `serde`, which writes the octets and the
port of an address and drops the flow information and the scope of a V6 address.
-/
import Kdct.Lib.Codec

namespace Kdct

open Codec

structure SocketAddrV4 where
  ip : { octets : Bytes // octets.length = 4 }
  port : UInt16
  deriving DecidableEq

structure SocketAddrV6 where
  ip : { octets : Bytes // octets.length = 16 }
  port : UInt16
  flowinfo : UInt32
  scopeId : UInt32
  deriving DecidableEq

inductive SocketAddr
  | v4 (addr : SocketAddrV4)
  | v6 (addr : SocketAddrV6)
  deriving DecidableEq

namespace SocketAddr

/-- What is written of an address. -/
abbrev Wire :=
  ({ octets : Bytes // octets.length = 4 } × UInt16) ⊕
    ({ octets : Bytes // octets.length = 16 } × UInt16)

def toWire : SocketAddr → Wire
  | v4 addr => .inl (addr.ip, addr.port)
  | v6 addr => .inr (addr.ip, addr.port)

def ofWire : Wire → SocketAddr
  | .inl (ip, port) => v4 ⟨ip, port⟩
  | .inr (ip, port) => v6 ⟨ip, port, 0, 0⟩

def cases : Cases Wire := .cons (prod (raw 4) u16) (.last (prod (raw 16) u16))

def codec : Codec Wire := cases.codec (by decide)

/-- An address without flow information and scope. -/
def Plain : SocketAddr → Prop
  | v4 _ => True
  | v6 addr => addr.flowinfo = 0 ∧ addr.scopeId = 0

instance decidablePlain : ∀ addr, Decidable (Plain addr)
  | v4 _ => isTrue trivial
  | v6 addr => inferInstanceAs (Decidable (addr.flowinfo = 0 ∧ addr.scopeId = 0))

theorem ofWire_toWire {addr : SocketAddr} (h : Plain addr) : ofWire (toWire addr) = addr := by
  cases addr with
  | v4 addr => rfl
  | v6 addr =>
      obtain ⟨ip, port, flowinfo, scopeId⟩ := addr
      obtain ⟨rfl, rfl⟩ := h
      rfl

theorem codec_enc_length (wire : Wire) : (codec.enc wire).length ≤ 22 := by
  unfold codec
  rw [Cases.codec_enc_length]
  cases wire with
  | inl p =>
      have hlen : ((prod (raw 4) u16).enc p).length = 4 + 2 := by
        rw [prod_enc_length, u16_enc_length]
        exact congrArg (· + 2) p.1.2
      show 4 + ((prod (raw 4) u16).enc p).length ≤ 22
      omega
  | inr p =>
      have hlen : ((prod (raw 16) u16).enc p).length = 16 + 2 := by
        rw [prod_enc_length, u16_enc_length]
        exact congrArg (· + 2) p.1.2
      show 4 + ((prod (raw 16) u16).enc p).length ≤ 22
      omega

end SocketAddr

structure UdpHeader where
  source : SocketAddr
  len : UInt16
  deriving DecidableEq

namespace UdpHeader

def codec : Codec (SocketAddr.Wire × UInt16) := prod SocketAddr.codec u16

/-- `bincode::serialize`. -/
def serialize (hdr : UdpHeader) : Bytes := codec.enc (hdr.source.toWire, hdr.len)

/-- `bincode::deserialize`, which ignores bytes behind the value. -/
def deserialize (buf : Bytes) : Option UdpHeader :=
  (codec.dec buf).map fun p => ⟨.ofWire p.1.1, p.1.2⟩

theorem serialize_length (hdr : UdpHeader) : (serialize hdr).length ≤ 24 := by
  have haddr := SocketAddr.codec_enc_length hdr.source.toWire
  rw [serialize, codec, prod_enc_length, u16_enc_length]
  exact Nat.add_le_add_right haddr 2

theorem deserialize_serialize (hdr : UdpHeader) :
    deserialize (serialize hdr) = some ⟨.ofWire hdr.source.toWire, hdr.len⟩ := by
  have hlen : (serialize hdr).length < 2 ^ 64 :=
    Nat.lt_of_le_of_lt (serialize_length hdr) (by decide)
  have hdec := codec.dec_enc (hdr.source.toWire, hdr.len) [] hlen
  rw [List.append_nil] at hdec
  rw [deserialize, serialize, hdec, Option.map_some]

end UdpHeader

structure UdpTraffic where
  source : SocketAddr
  data : Bytes
  deriving DecidableEq

namespace UdpTraffic

/-! ## Writers and reader -/

/-- The bytes of `UdpTraffic::write`. -/
def write (t : UdpTraffic) : Bytes :=
  let hdr : UdpHeader := ⟨t.source, UInt16.ofNat t.data.length⟩
  let v := hdr.serialize
  UInt8.ofNat v.length :: (v ++ t.data)

/-- The bytes of `UdpTraffic::write_slice`. -/
def writeSlice (source : SocketAddr) (data : Bytes) : Bytes :=
  let hdr : UdpHeader := ⟨source, UInt16.ofNat data.length⟩
  let v := hdr.serialize
  UInt8.ofNat v.length :: (v ++ data)

def read (hdrLen : UInt8) (reader : Bytes) : Option (UdpTraffic × Bytes) := do
  let (buf, reader) ← takeExact hdrLen.toNat reader
  let hdr ← UdpHeader.deserialize buf
  let (data, reader) ← takeExact hdr.len.toNat reader
  some (⟨hdr.source, data⟩, reader)

/-- One turn of the loop that reads a channel: `read_u8`, then a datagram. -/
def next : Bytes → Option (UdpTraffic × Bytes)
  | [] => none
  | hdrLen :: reader => read hdrLen reader

theorem length_lt_of_next {stream rest : Bytes} {t : UdpTraffic}
    (h : next stream = some (t, rest)) : rest.length < stream.length := by
  cases stream with
  | nil => cases h
  | cons hdrLen reader =>
      obtain ⟨⟨buf, mid⟩, hbuf, h⟩ := Option.bind_eq_some_iff.mp h
      obtain ⟨hdr, hhdr, h⟩ := Option.bind_eq_some_iff.mp h
      obtain ⟨⟨data, back⟩, hdata, h⟩ := Option.bind_eq_some_iff.mp h
      cases h
      have hreader := congrArg List.length (takeExact_eq_some hbuf).2
      have hmid := congrArg List.length (takeExact_eq_some hdata).2
      simp only [List.length_append] at hreader hmid
      rw [List.length_cons]
      omega

/-- What the loop reads before its first failure, and the bytes from there on. -/
def readLoop (stream : Bytes) : List UdpTraffic × Bytes :=
  match _h : next stream with
  | none => ([], stream)
  | some (t, rest) => (t :: (readLoop rest).1, (readLoop rest).2)
  termination_by stream.length
  decreasing_by all_goals exact length_lt_of_next _h

/-! ## The round trip -/

/-- Which of the two functions writes a datagram. -/
inductive Writer
  | write
  | writeSlice
  deriving DecidableEq

def Writer.emit (t : UdpTraffic) : Writer → Bytes
  | .write => t.write
  | .writeSlice => UdpTraffic.writeSlice t.source t.data

theorem Writer.emit_eq (writer : Writer) (t : UdpTraffic) : writer.emit t = t.write := by
  cases writer <;> rfl

/-- What a reader gets: the payload, and the address as far as it is written. -/
def delivered (t : UdpTraffic) : UdpTraffic := ⟨.ofWire t.source.toWire, t.data⟩

theorem delivered_of_plain {t : UdpTraffic} (h : t.source.Plain) : t.delivered = t := by
  rw [delivered, SocketAddr.ofWire_toWire h]

theorem next_write {t : UdpTraffic} (hlen : t.data.length ≤ 65535) (rest : Bytes) :
    next (t.write ++ rest) = some (t.delivered, rest) := by
  have hhdr : ∀ hdr : UdpHeader, (UInt8.ofNat hdr.serialize.length).toNat =
      hdr.serialize.length := by
    intro hdr
    have hle := hdr.serialize_length
    rw [UInt8.toNat_ofNat']
    omega
  have hcount : (UInt16.ofNat t.data.length).toNat = t.data.length := by
    rw [UInt16.toNat_ofNat']
    omega
  simp only [write, next, List.cons_append, List.append_assoc, read, hhdr,
    takeExact_append rfl, UdpHeader.deserialize_serialize, hcount, Option.bind_eq_bind,
    Option.bind_some]
  rfl

theorem readLoop_write {t : UdpTraffic} (hlen : t.data.length ≤ 65535) (rest : Bytes) :
    readLoop (t.write ++ rest) = (t.delivered :: (readLoop rest).1, (readLoop rest).2) := by
  rw [readLoop]
  split
  · rename_i hnext
    rw [next_write hlen] at hnext
    cases hnext
  · rename_i hnext
    rw [next_write hlen] at hnext
    cases hnext
    rfl

/-- Datagrams are delivered in order, and the next read starts at the byte behind them. -/
theorem readLoop_flatMap_emit (sent : List (Writer × UdpTraffic))
    (hlen : ∀ p ∈ sent, p.2.data.length ≤ 65535) (rest : Bytes) :
    readLoop ((sent.flatMap fun p => p.1.emit p.2) ++ rest) =
      ((sent.map fun p => p.2.delivered) ++ (readLoop rest).1, (readLoop rest).2) := by
  induction sent with
  | nil => rfl
  | cons p sent ih =>
      rw [List.flatMap_cons, Writer.emit_eq, List.append_assoc,
        readLoop_write (hlen p List.mem_cons_self),
        ih fun q hq => hlen q (List.mem_cons_of_mem p hq)]
      rfl

theorem readLoop_nil : readLoop [] = ([], []) := by
  rw [readLoop]
  rfl

/-- A sequence of datagrams is read back as it was written, whichever functions wrote
it, to its last byte. -/
theorem readLoop_emit (sent : List (Writer × UdpTraffic))
    (haddr : ∀ p ∈ sent, p.2.source.Plain) (hlen : ∀ p ∈ sent, p.2.data.length ≤ 65535) :
    readLoop (sent.flatMap fun p => p.1.emit p.2) = (sent.map Prod.snd, []) ∧
      (∀ hdr : UdpHeader, hdr.serialize.length ≤ 255) ∧
      ∀ t : UdpTraffic, t.write = writeSlice t.source t.data := by
  refine ⟨?_, fun hdr => Nat.le_trans hdr.serialize_length (by decide), fun t => rfl⟩
  have hread := readLoop_flatMap_emit sent hlen []
  have hsent : (sent.map fun p => p.2.delivered) = sent.map Prod.snd :=
    List.map_congr_left fun p hp => delivered_of_plain (haddr p hp)
  rw [List.append_nil, readLoop_nil, List.append_nil, hsent] at hread
  exact hread

/-- A query from a V4 address, and an empty datagram from a V6 address. -/
def twoPeers : List (Writer × UdpTraffic) :=
  [(.write, ⟨.v4 ⟨⟨[127, 0, 0, 1], rfl⟩, 5353⟩, [1, 2, 3]⟩),
   (.writeSlice, ⟨.v6 ⟨⟨List.replicate 16 0, rfl⟩, 53, 0, 0⟩, []⟩)]

theorem readLoop_emit_twoPeers :
    readLoop (twoPeers.flatMap fun p => p.1.emit p.2) = (twoPeers.map Prod.snd, []) ∧
      (∀ hdr : UdpHeader, hdr.serialize.length ≤ 255) ∧
      ∀ t : UdpTraffic, t.write = writeSlice t.source t.data :=
  readLoop_emit twoPeers (by decide) (by decide)

end UdpTraffic

end Kdct
