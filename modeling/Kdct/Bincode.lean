/-
The layout of the messages under `bincode::serialize`.

The default options of `bincode` write little-endian words of fixed width, a
64-bit count in front of a list or a string, a presence byte in front of an
optional value and a 32-bit number in front of the fields of a variant.  A fixed
array is written without a count, and the fields of a struct in order.
-/
import Kdct.Protocol

namespace Kdct

open Codec

/-! ## Structs -/

def digestCodec : Codec Digest := raw hashWidthInBytes

@[simp] theorem digestCodec_enc_length (d : Digest) : (digestCodec.enc d).length = 32 := d.2

def portsCodec : Codec (List UInt16) := list u16 fun a => by simp

def portPairsCodec : Codec (List (UInt16 × UInt16)) := list (prod u16 u16) fun a => by simp

def envCodec : Codec (List (String × String)) :=
  list (prod string string) fun a => by
    simp only [prod_enc_length, string_enc_length]
    omega

def ContainerInfo.fields : String × String × List UInt16 × String ≃ ContainerInfo where
  toFun p := ⟨p.1, p.2.1, p.2.2.1, p.2.2.2⟩
  invFun c := (c.containerName, c.image, c.ports, c.status)
  left_inv _ := rfl
  right_inv _ := rfl

def ContainerInfo.codec : Codec ContainerInfo :=
  (prod string (prod string (prod portsCodec string))).map fields

theorem ContainerInfo.codec_pos (c : ContainerInfo) : 1 ≤ (codec.enc c).length := by
  simp only [codec, map_enc, prod_enc_length, string_enc_length]
  omega

def NodeStatus.fields :
    Option String × String × String × String × String × UInt16 × UInt16 × UInt32 × UInt64 ×
      List ContainerInfo ≃ NodeStatus where
  toFun p := ⟨p.1, p.2.1, p.2.2.1, p.2.2.2.1, p.2.2.2.2.1, p.2.2.2.2.2.1, p.2.2.2.2.2.2.1,
    p.2.2.2.2.2.2.2.1, p.2.2.2.2.2.2.2.2.1, p.2.2.2.2.2.2.2.2.2⟩
  invFun s := (s.nodeUuid, s.hostname, s.os, s.arch, s.dockerVersion, s.portRangeStart,
    s.portRangeEnd, s.cpuCores, s.memoryMb, s.runningContainers)
  left_inv _ := rfl
  right_inv _ := rfl

def NodeStatus.codec : Codec NodeStatus :=
  (prod (option string) (prod string (prod string (prod string (prod string (prod u16 (prod u16
    (prod u32 (prod u64 (list ContainerInfo.codec ContainerInfo.codec_pos)))))))))).map fields

def ImageStart.fields :
    String × String × String × String × List (UInt16 × UInt16) × List (String × String) ≃
      ImageStart where
  toFun p := ⟨p.1, p.2.1, p.2.2.1, p.2.2.2.1, p.2.2.2.2.1, p.2.2.2.2.2⟩
  invFun s := (s.imageTag, s.source, s.sourceType, s.containerName, s.portMap, s.env)
  left_inv _ := rfl
  right_inv _ := rfl

def ImageStart.codec : Codec ImageStart :=
  (prod string (prod string (prod string (prod string (prod portPairsCodec envCodec))))).map
    fields

def Auth.codec : Codec Auth := digestCodec.map ⟨Auth.mk, Auth.digest, fun _ => rfl, fun _ => rfl⟩

/-! ## Enumerations -/

def Hello.variants : (UInt8 × Digest) ⊕ (UInt8 × Digest) ≃ Hello where
  toFun
    | .inl p => .controlChannelHello p.1 p.2
    | .inr p => .dataChannelHello p.1 p.2
  invFun
    | .controlChannelHello v d => .inl (v, d)
    | .dataChannelHello v d => .inr (v, d)
  left_inv x := by cases x <;> rfl
  right_inv x := by cases x <;> rfl

def Hello.cases : Cases ((UInt8 × Digest) ⊕ (UInt8 × Digest)) :=
  .cons (prod u8 digestCodec) (.last (prod u8 digestCodec))

def Hello.codec : Codec Hello := (cases.codec (by decide)).map variants

def Ack.variants : Unit ⊕ Unit ⊕ Unit ≃ Ack where
  toFun
    | .inl _ => .ok
    | .inr (.inl _) => .serviceNotExist
    | .inr (.inr _) => .authFailed
  invFun
    | .ok => .inl ()
    | .serviceNotExist => .inr (.inl ())
    | .authFailed => .inr (.inr ())
  left_inv x := by rcases x with x | x | x <;> rfl
  right_inv x := by cases x <;> rfl

def Ack.cases : Cases (Unit ⊕ Unit ⊕ Unit) := .cons unit (.cons unit (.last unit))

def Ack.codec : Codec Ack := (cases.codec (by decide)).map variants

def DataChannelCmd.variants : Option UInt16 ⊕ Unit ≃ DataChannelCmd where
  toFun
    | .inl p => .startForwardTcp p
    | .inr _ => .startForwardUdp
  invFun
    | .startForwardTcp p => .inl p
    | .startForwardUdp => .inr ()
  left_inv x := by cases x <;> rfl
  right_inv x := by cases x <;> rfl

def DataChannelCmd.cases : Cases (Option UInt16 ⊕ Unit) := .cons (option u16) (.last unit)

def DataChannelCmd.codec : Codec DataChannelCmd := (cases.codec (by decide)).map variants

abbrev ControlChannelCmd.Variants :=
  Unit ⊕ Unit ⊕ List (UInt16 × UInt16) ⊕ NodeStatus ⊕ String ⊕ ImageStart ⊕ String ⊕
    (String × List UInt16) ⊕ String ⊕ (String × String)

def ControlChannelCmd.variants : Variants ≃ ControlChannelCmd where
  toFun
    | .inl _ => .createDataChannel
    | .inr (.inl _) => .heartBeat
    | .inr (.inr (.inl m)) => .portsAssigned m
    | .inr (.inr (.inr (.inl s))) => .reportNodeStatus s
    | .inr (.inr (.inr (.inr (.inl u)))) => .assignNodeUuid u
    | .inr (.inr (.inr (.inr (.inr (.inl s))))) => .imageStart s
    | .inr (.inr (.inr (.inr (.inr (.inr (.inl n)))))) => .imageStop n
    | .inr (.inr (.inr (.inr (.inr (.inr (.inr (.inl p))))))) => .containerStarted p.1 p.2
    | .inr (.inr (.inr (.inr (.inr (.inr (.inr (.inr (.inl n)))))))) => .containerStopped n
    | .inr (.inr (.inr (.inr (.inr (.inr (.inr (.inr (.inr p)))))))) => .containerError p.1 p.2
  invFun
    | .createDataChannel => .inl ()
    | .heartBeat => .inr (.inl ())
    | .portsAssigned m => .inr (.inr (.inl m))
    | .reportNodeStatus s => .inr (.inr (.inr (.inl s)))
    | .assignNodeUuid u => .inr (.inr (.inr (.inr (.inl u))))
    | .imageStart s => .inr (.inr (.inr (.inr (.inr (.inl s)))))
    | .imageStop n => .inr (.inr (.inr (.inr (.inr (.inr (.inl n))))))
    | .containerStarted n p => .inr (.inr (.inr (.inr (.inr (.inr (.inr (.inl (n, p))))))))
    | .containerStopped n => .inr (.inr (.inr (.inr (.inr (.inr (.inr (.inr (.inl n))))))))
    | .containerError n e => .inr (.inr (.inr (.inr (.inr (.inr (.inr (.inr (.inr (n, e)))))))))
  left_inv x := by rcases x with _ | _ | _ | _ | _ | _ | _ | _ | _ | _ <;> rfl
  right_inv x := by cases x <;> rfl

def ControlChannelCmd.cases : Cases Variants :=
  .cons unit (.cons unit (.cons portPairsCodec (.cons NodeStatus.codec (.cons string
    (.cons ImageStart.codec (.cons string (.cons (prod string portsCodec) (.cons string
      (.last (prod string string))))))))))

def ControlChannelCmd.codec : Codec ControlChannelCmd := (cases.codec (by decide)).map variants

/-! ## Sizes -/

theorem Hello.codec_length (hello : Hello) : (codec.enc hello).length = 37 := by
  rw [codec, map_enc, Cases.codec_enc_length]
  cases hello with
  | controlChannelHello v d =>
      show 4 + ((prod u8 digestCodec).enc (v, d)).length = 37
      simp
  | dataChannelHello v d =>
      show 4 + ((prod u8 digestCodec).enc (v, d)).length = 37
      simp

theorem Auth.codec_length (auth : Auth) : (codec.enc auth).length = 32 :=
  digestCodec_enc_length auth.digest

theorem Ack.codec_length (ack : Ack) : (codec.enc ack).length = 4 := by
  rw [codec, map_enc, Cases.codec_enc_length]
  cases ack <;> rfl

theorem DataChannelCmd.codec_length_le (cmd : DataChannelCmd) : (codec.enc cmd).length ≤ 7 := by
  rw [codec, map_enc, Cases.codec_enc_length]
  cases cmd with
  | startForwardTcp port =>
      cases port with
      | none =>
          show 4 + ((option u16).enc none).length ≤ 7
          exact Nat.le_of_ble_eq_true rfl
      | some p =>
          show 4 + (1 :: u16.enc p).length ≤ 7
          simp
  | startForwardUdp => exact Nat.le_of_ble_eq_true rfl

theorem ControlChannelCmd.codec_containerError_length (containerName error : String) :
    (codec.enc (.containerError containerName error)).length =
      20 + containerName.toByteArray.data.toList.length +
        error.toByteArray.data.toList.length := by
  rw [codec, map_enc, Cases.codec_enc_length]
  show 4 + ((prod string string).enc (containerName, error)).length = _
  rw [prod_enc_length, string_enc_length, string_enc_length]
  dsimp only
  omega

def bincode : Bincode where
  hello := Hello.codec.serde
  auth := Auth.codec.serde
  ack := Ack.codec.serde
  controlCmd := ControlChannelCmd.codec.serde
  dataCmd := DataChannelCmd.codec.serde
  hello_length := Hello.codec_length
  auth_length := Auth.codec_length
  ack_length := Ack.codec_length
  dataCmd_length_le := DataChannelCmd.codec_length_le

end Kdct
