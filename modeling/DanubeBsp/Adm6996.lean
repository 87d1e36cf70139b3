import Mathlib.Logic.Function.Basic
import DanubeBsp.WordBits

namespace DanubeBsp

def admSwSysctl1 : Nat := 0xb

def admSwIgmpctl : Nat := 0xc

def admSwVlanMode : Nat := 0x11

def admSwQueueConf1 : Nat := 0x25

def admSwBndwthCtlEna : Nat := 0x33

def admSwVlanFilter0Low : Nat := 0x40

def admSwTcpudpFilter0 : Nat := 0x8c

def admSwTcpudpAct0 : Nat := 0x96

def admSwTcpudpAct1 : Nat := 0x97

def admSwTcpudpAct2 : Nat := 0x98

def admSwMaxPortNum : Int := 5

def admSwMaxVlanNum : Int := 15

/-- `ifx_sw_conf`, the configuration registers of the ports. -/
def ifxSwConf (port : Nat) : Nat := [0x1, 0x3, 0x5, 0x7, 0x8, 0x9].getD port 0

/-- A use of `BIT_n` as it stands. -/
def bitN (n : Nat) : Word := 1#32 <<< n

/-- `~BIT_n`. The macros have no parentheses, so this is `(~1) << n`. -/
def notBitN (n : Nat) : Word := (~~~1#32) <<< n

/-- The shift of the processor takes its amount modulo 32. -/
def shiftInt (x : Word) (n : Int) : Word := x <<< (n % 32).toNat

/-- The 16-bit registers of the switch. -/
abbrev SwRegs := Nat → BitVec 16

/-- The register that an MDIO access word selects. -/
def mdioReg (acc : Word) : Nat := ((acc >>> 16) &&& 0x3ff#32).toNat

/-- `ifx_sw_read`, in its MDIO build. -/
def ifxSwRead (r : SwRegs) (addr : Nat) : Word :=
  let acc := 0xc0000000#32 ||| ((BitVec.ofNat 32 addr <<< 16) &&& 0x3ff0000#32)
  (r (mdioReg acc)).setWidth 32 &&& 0xffff#32

/-- `ifx_sw_write`, in its MDIO build. The data are not masked; an access word with bit 30 is a read. -/
def ifxSwWrite (r : SwRegs) (addr : Nat) (dat : Word) : SwRegs :=
  let acc := ((BitVec.ofNat 32 addr <<< 16) &&& 0x3ff0000#32) ||| dat ||| 0x80000000#32
  if acc.getLsbD 30 then r else Function.update r (mdioReg acc) (acc.setWidth 16)

section Settings

variable (r : SwRegs)

def ifxSwSetIgmp (bit : Nat) : SwRegs :=
  if bit ≠ 0 then ifxSwWrite r admSwIgmpctl (ifxSwRead r admSwIgmpctl ||| bitN 1)
  else ifxSwWrite r admSwIgmpctl (ifxSwRead r admSwIgmpctl &&& notBitN 1)

def ifxSwGetIgmp : Nat := if ifxSwRead r admSwIgmpctl &&& bitN 1 ≠ 0 then 1 else 0

def ifxSwSetVlanmode (bit : Nat) : SwRegs :=
  if bit ≠ 0 then ifxSwWrite r admSwVlanMode (ifxSwRead r admSwVlanMode ||| bitN 5)
  else ifxSwWrite r admSwVlanMode (ifxSwRead r admSwVlanMode &&& notBitN 5)

def ifxSwGetVlanmode : Nat := if ifxSwRead r admSwVlanMode &&& bitN 5 ≠ 0 then 1 else 0

def ifxSwSetIgmpProxy (bit : Nat) : SwRegs :=
  if bit ≠ 0 then ifxSwWrite r admSwIgmpctl (ifxSwRead r admSwIgmpctl ||| bitN 0)
  else ifxSwWrite r admSwIgmpctl (ifxSwRead r admSwIgmpctl &&& notBitN 0)

def ifxSwGetIgmpProxy : Nat := if ifxSwRead r admSwIgmpctl &&& bitN 0 ≠ 0 then 1 else 0

def ifxSwGetAdditionalSnoopCtr : Nat :=
  ((ifxSwRead r admSwSysctl1 &&& 0x3000#32) >>> 12).toNat

def ifxSwSetAdditionalSnoopCtr (bit : Nat) : SwRegs :=
  if bit ≠ 0 then
    ifxSwWrite r admSwSysctl1 ((ifxSwRead r admSwSysctl1 &&& 0xcfff#32) ||| 0x1000#32)
  else ifxSwWrite r admSwSysctl1 (ifxSwRead r admSwSysctl1 &&& 0xc000#32)

/-- The bit of a port in the bandwidth control register, for RX and TX. -/
def bndctlBit (port : Nat) (tx : Bool) : Nat :=
  if port < 3 then port * 2 + tx.toNat else if tx then 9 + (port - 3) else 6 + (port - 3)

def ifxSwEnaBndctl (port : Nat) (tx : Bool) : SwRegs :=
  ifxSwWrite r admSwBndwthCtlEna
    (ifxSwRead r admSwBndwthCtlEna ||| 1#32 <<< bndctlBit port tx ||| bitN 12)

def ifxSwDisBndctl (port : Nat) (tx : Bool) : SwRegs :=
  ifxSwWrite r admSwBndwthCtlEna
    (ifxSwRead r admSwBndwthCtlEna &&& ~~~(1#32 <<< bndctlBit port tx))

/-- What `ifx_sw_get_tcpudp_filter` stores and returns. -/
structure TcpudpFilter where
  port : Nat
  queueno : Nat
  isset : Nat

def ifxSwGetTcpudpFilter (filterno : Nat) : TcpudpFilter where
  port := (ifxSwRead r (admSwTcpudpFilter0 + filterno)).toNat
  queueno :=
    if filterno < 4 then
      ((ifxSwRead r admSwTcpudpAct0 >>> (filterno * 4)) &&& 0x3#32).toNat
    else ((ifxSwRead r admSwTcpudpAct1 >>> ((filterno - 4) * 4)) &&& 0x3#32).toNat
  isset := ((ifxSwRead r admSwTcpudpAct2 >>> filterno) &&& 0x1#32).toNat

/-- The priority queue of a filter. Filter 3 takes the branch of the upper four. -/
def setTcpudpQueue (filterno queueno : Nat) : SwRegs :=
  if filterno < 3 then
    ifxSwWrite r admSwTcpudpAct0
      ((ifxSwRead r admSwTcpudpAct0 &&& ~~~(0x3#32 <<< (filterno * 4))) |||
        (BitVec.ofNat 32 queueno <<< (filterno * 4)))
  else
    ifxSwWrite r admSwTcpudpAct1
      ((ifxSwRead r admSwTcpudpAct1 &&& ~~~(shiftInt 0x3#32 (((filterno : Int) - 4) * 4))) |||
        shiftInt (BitVec.ofNat 32 queueno) (((filterno : Int) - 4) * 4))

def ifxSwSetTcpudpFilter (filterno port queueno : Nat) : SwRegs :=
  if port = 0 then
    ifxSwWrite r admSwTcpudpAct2 (ifxSwRead r admSwTcpudpAct2 &&& ~~~(1#32 <<< filterno))
  else
    let r := ifxSwWrite r (admSwTcpudpFilter0 + filterno) (BitVec.ofNat 32 port)
    let r := setTcpudpQueue r filterno queueno
    ifxSwWrite r admSwTcpudpAct2 (ifxSwRead r admSwTcpudpAct2 ||| 1#32 <<< filterno)

def ifxSwSetQosControl (qos : Nat) : SwRegs :=
  ifxSwWrite r admSwBndwthCtlEna
    ((ifxSwRead r admSwBndwthCtlEna &&& notBitN 12) ||| (BitVec.ofNat 32 qos <<< 12))

def ifxSwGetQosControl : Nat := if ifxSwRead r admSwBndwthCtlEna &&& bitN 12 ≠ 0 then 1 else 0

def ifxSwSetq (port qno : Nat) : SwRegs :=
  ifxSwWrite r (ifxSwConf port)
    ((ifxSwRead r (ifxSwConf port) &&& ~~~(0x3#32 <<< 8)) ||| (BitVec.ofNat 32 qno <<< 8))

def ifxSwGetq (port : Nat) : Nat := ((ifxSwRead r (ifxSwConf port) >>> 8) &&& 0x3#32).toNat

/-- Queue 0 has no weight. -/
def ifxSwSetQueueWeight (qno weight : Nat) : SwRegs :=
  if qno = 0 then r
  else
    ifxSwWrite r (admSwQueueConf1 + qno - 1)
      ((ifxSwRead r (admSwQueueConf1 + qno - 1) &&& ~~~(0xf#32 <<< 12)) |||
        (BitVec.ofNat 32 weight <<< 12))

def ifxSwGetQueueWeight (qno : Nat) : Nat :=
  if qno = 0 then 0
  else ((ifxSwRead r (admSwQueueConf1 + qno - 1) >>> 12) &&& 0xf#32).toNat

def ifxSwEnaFc (port : Nat) : SwRegs :=
  ifxSwWrite r (ifxSwConf port) (ifxSwRead r (ifxSwConf port) ||| bitN 0)

def ifxSwDisFc (port : Nat) : SwRegs :=
  ifxSwWrite r (ifxSwConf port) (ifxSwRead r (ifxSwConf port) &&& notBitN 0)

/-- The check that both VLAN filter calls make. -/
def vlanRefused (port filterId : Int) : Bool :=
  port < 0 || port > admSwMaxPortNum || filterId < 0 || filterId > admSwMaxVlanNum

def ifxSwVlanAdd (port filterId : Int) (fid : Nat) : SwRegs × Int :=
  if vlanRefused port filterId then (r, -1)
  else
    let reg := admSwVlanFilter0Low + filterId.toNat * 2
    (ifxSwWrite r reg
      (ifxSwRead r reg ||| 1#32 <<< port.toNat ||| BitVec.ofNat 32 fid <<< 12), 0)

def ifxSwVlanDel (port filterId : Int) : SwRegs × Int :=
  if vlanRefused port filterId then (r, -1)
  else
    let reg := admSwVlanFilter0Low + filterId.toNat * 2
    (ifxSwWrite r reg (ifxSwRead r reg &&& ~~~(1#32 <<< port.toNat)), 0)

def ifxSwGetCpuPort : Nat := ((ifxSwRead r admSwVlanMode &&& 0xe000#32) >>> 13).toNat

def ifxSwSetCpuPort (port : Int) : SwRegs × Int :=
  if port < 0 ∨ port > admSwMaxPortNum + 1 then (r, -1)
  else (ifxSwWrite r admSwVlanMode (BitVec.ofNat 32 port.toNat <<< 13), 0)

def ifxSwDisableCpuPort : SwRegs × Int := (ifxSwWrite r admSwVlanMode (0x7#32 <<< 13), 0)

inductive FilterCmd where
  | add
  | del
  | get
  deriving DecidableEq

structure ProtocolFilter where
  protocolFilterNum : Nat
  ipP : Nat
  action : BitVec 2

/-- The request with its filter as it is left. -/
def admProcessProtocolFilterRequest (cmd : FilterCmd) (f : ProtocolFilter) :
    SwRegs × ProtocolFilter :=
  let f := if cmd = .del then { f with ipP := 0, action := 0 } else f
  let num := f.protocolFilterNum
  let val := ifxSwRead r (num / 2 + 0x68)
  if cmd = .get then
    let act := ifxSwRead r 0x95
    (r, { f with
      ipP := if num % 2 = 0 then (val &&& 0x00ff#32).toNat else (val >>> 8).toNat
      action := ((act >>> (num * 2)) &&& 0x3#32).setWidth 2 })
  else
    let val :=
      if num % 2 = 0 then (val &&& 0xff00#32) ||| BitVec.ofNat 32 f.ipP
      else (val &&& 0x00ff#32) ||| BitVec.ofNat 32 f.ipP <<< 8
    let r := ifxSwWrite r (num / 2 + 0x68) val
    let act := ifxSwRead r 0x95
    (ifxSwWrite r 0x95 ((act &&& ~~~(0x03#32 <<< (num * 2))) |||
      (f.action.signExtend 32 &&& 0x03#32) <<< (num * 2)), f)

end Settings

/-- The settings, each with the numbers of what it is for. -/
inductive SwSetting where
  | igmp
  | igmpProxy
  | snoop
  | vlanMode
  | cpuPort
  | member (filterId port : Nat)
  | qos
  | bndctl (port : Nat) (tx : Bool)
  | queue (port : Nat)
  | flowControl (port : Nat)
  | weight (qno : Nat)
  | filterPort (filterno : Nat)
  | filterQueue (filterno : Nat)
  | filterOn (filterno : Nat)
  | protocolIp (num : Nat)
  | protocolAction (num : Nat)
  deriving DecidableEq

/-- The settings that there are. -/
def SwSetting.Valid : SwSetting → Prop
  | .member filterId port => filterId ≤ 15 ∧ port ≤ 5
  | .bndctl port _ => port ≤ 5
  | .queue port => port ≤ 5
  | .flowControl port => port ≤ 5
  | .weight qno => 1 ≤ qno ∧ qno ≤ 3
  | .filterPort filterno => filterno ≤ 7
  | .filterQueue filterno => filterno ≤ 7
  | .filterOn filterno => filterno ≤ 7
  | .protocolIp num => num ≤ 7
  | .protocolAction num => num ≤ 7
  | _ => True

/-- The filter that a request to get one leaves. -/
def getProtocolFilter (r : SwRegs) (num : Nat) : ProtocolFilter :=
  (admProcessProtocolFilterRequest r .get ⟨num, 0, 0⟩).2

/-- A setting by its getter, or by its bit where it has none. -/
def SwSetting.read (r : SwRegs) : SwSetting → Nat
  | .igmp => ifxSwGetIgmp r
  | .igmpProxy => ifxSwGetIgmpProxy r
  | .snoop => ifxSwGetAdditionalSnoopCtr r
  | .vlanMode => ifxSwGetVlanmode r
  | .cpuPort => ifxSwGetCpuPort r
  | .member filterId port => ((r (admSwVlanFilter0Low + filterId * 2)).getLsbD port).toNat
  | .qos => ifxSwGetQosControl r
  | .bndctl port tx => ((r admSwBndwthCtlEna).getLsbD (bndctlBit port tx)).toNat
  | .queue port => ifxSwGetq r port
  | .flowControl port => ((r (ifxSwConf port)).getLsbD 0).toNat
  | .weight qno => ifxSwGetQueueWeight r qno
  | .filterPort filterno => (ifxSwGetTcpudpFilter r filterno).port
  | .filterQueue filterno => (ifxSwGetTcpudpFilter r filterno).queueno
  | .filterOn filterno => (ifxSwGetTcpudpFilter r filterno).isset
  | .protocolIp num => (getProtocolFilter r num).ipP
  | .protocolAction num => (getProtocolFilter r num).action.toNat

/-- The calls that set something. -/
inductive SwCall where
  | setIgmp (bit : Nat)
  | setIgmpProxy (bit : Nat)
  | setAdditionalSnoopCtr (bit : Nat)
  | setVlanmode (bit : Nat)
  | setCpuPort (port : Int)
  | disableCpuPort
  | vlanAdd (port filterId : Int) (fid : Nat)
  | vlanDel (port filterId : Int)
  | setQosControl (qos : Nat)
  | setq (port qno : Nat)
  | enaFc (port : Nat)
  | disFc (port : Nat)
  | setQueueWeight (qno weight : Nat)
  | setTcpudpFilter (filterno port queueno : Nat)
  | protocolFilter (cmd : FilterCmd) (f : ProtocolFilter)

/-- The arguments are in their ranges; the calls that check a number themselves take any. -/
def SwCall.InRange : SwCall → Prop
  | .setIgmp bit => bit ≤ 1
  | .setIgmpProxy bit => bit ≤ 1
  | .setAdditionalSnoopCtr bit => bit ≤ 1
  | .setVlanmode bit => bit ≤ 1
  | .setCpuPort _ => True
  | .disableCpuPort => True
  | .vlanAdd _ _ fid => fid ≤ 15
  | .vlanDel _ _ => True
  | .setQosControl qos => qos ≤ 1
  | .setq port qno => port ≤ 5 ∧ qno ≤ 3
  | .enaFc port => port ≤ 5
  | .disFc port => port ≤ 5
  | .setQueueWeight qno weight => qno ≤ 3 ∧ weight ≤ 15
  | .setTcpudpFilter filterno port queueno => filterno ≤ 7 ∧ port ≤ 65535 ∧ queueno ≤ 3
  | .protocolFilter _ f => f.protocolFilterNum ≤ 7 ∧ f.ipP ≤ 255

def SwCall.exec (r : SwRegs) : SwCall → SwRegs
  | .setIgmp bit => ifxSwSetIgmp r bit
  | .setIgmpProxy bit => ifxSwSetIgmpProxy r bit
  | .setAdditionalSnoopCtr bit => ifxSwSetAdditionalSnoopCtr r bit
  | .setVlanmode bit => ifxSwSetVlanmode r bit
  | .setCpuPort port => (ifxSwSetCpuPort r port).1
  | .disableCpuPort => (ifxSwDisableCpuPort r).1
  | .vlanAdd port filterId fid => (ifxSwVlanAdd r port filterId fid).1
  | .vlanDel port filterId => (ifxSwVlanDel r port filterId).1
  | .setQosControl qos => ifxSwSetQosControl r qos
  | .setq port qno => ifxSwSetq r port qno
  | .enaFc port => ifxSwEnaFc r port
  | .disFc port => ifxSwDisFc r port
  | .setQueueWeight qno weight => ifxSwSetQueueWeight r qno weight
  | .setTcpudpFilter filterno port queueno => ifxSwSetTcpudpFilter r filterno port queueno
  | .protocolFilter cmd f => (admProcessProtocolFilterRequest r cmd f).1

/-- What a call is to set. A call that refuses its numbers sets nothing, and port 0 only switches a
filter off. -/
def SwCall.effects : SwCall → List (SwSetting × Nat)
  | .setIgmp bit => [(.igmp, bit)]
  | .setIgmpProxy bit => [(.igmpProxy, bit)]
  | .setAdditionalSnoopCtr bit => [(.snoop, bit)]
  | .setVlanmode bit => [(.vlanMode, bit)]
  | .setCpuPort port =>
    if port < 0 ∨ port > admSwMaxPortNum + 1 then [] else [(.cpuPort, port.toNat)]
  | .disableCpuPort => [(.cpuPort, 7)]
  | .vlanAdd port filterId _ =>
    if vlanRefused port filterId then [] else [(.member filterId.toNat port.toNat, 1)]
  | .vlanDel port filterId =>
    if vlanRefused port filterId then [] else [(.member filterId.toNat port.toNat, 0)]
  | .setQosControl qos => [(.qos, qos)]
  | .setq port qno => [(.queue port, qno)]
  | .enaFc port => [(.flowControl port, 1)]
  | .disFc port => [(.flowControl port, 0)]
  | .setQueueWeight qno weight => if qno = 0 then [] else [(.weight qno, weight)]
  | .setTcpudpFilter filterno port queueno =>
    if port = 0 then [(.filterOn filterno, 0)]
    else [(.filterPort filterno, port), (.filterQueue filterno, queueno), (.filterOn filterno, 1)]
  | .protocolFilter .get _ => []
  | .protocolFilter .add f =>
    [(.protocolIp f.protocolFilterNum, f.ipP), (.protocolAction f.protocolFilterNum, f.action.toNat)]
  | .protocolFilter .del f =>
    [(.protocolIp f.protocolFilterNum, 0), (.protocolAction f.protocolFilterNum, 0)]

/-- The values of the settings after a call. -/
def SwCall.want (m : SwSetting → Nat) (c : SwCall) : SwSetting → Nat :=
  c.effects.foldl (fun m e => Function.update m e.1 e.2) m

/-- The call finds the neighbours that it clears at 0, and filter 3 at its queue already. -/
def SwCall.Harmless (r : SwRegs) : SwCall → Prop
  | .setIgmp bit => bit = 0 → SwSetting.igmpProxy.read r = 0
  | .setCpuPort port =>
    ¬(port < 0 ∨ port > admSwMaxPortNum + 1) → SwSetting.vlanMode.read r = 0
  | .disableCpuPort => SwSetting.vlanMode.read r = 0
  | .setQosControl _ => ∀ port tx, port ≤ 5 → (SwSetting.bndctl port tx).read r = 0
  | .setTcpudpFilter filterno port queueno =>
    filterno = 3 → port ≠ 0 → (SwSetting.filterQueue 3).read r = queueno
  | _ => True

end DanubeBsp
