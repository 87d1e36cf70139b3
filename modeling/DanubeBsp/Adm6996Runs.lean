import DanubeBsp.Adm6996Calls
import DanubeBsp.Runs

namespace DanubeBsp

section Step

variable {m : SwSetting → Nat} {r : SwRegs}

theorem protocolFilter_follows {f : ProtocolFilter} (hnum : f.protocolFilterNum ≤ 7)
    (hip : f.ipP ≤ 255) (hm : Follows m r) :
    Follows (Function.update (Function.update m (.protocolIp f.protocolFilterNum) f.ipP)
      (.protocolAction f.protocolFilterNum) f.action.toNat)
      (admProcessProtocolFilterRequest r .add f).1 :=
  (writeProtocolAction_sets _ hnum f.action).follows
    ((writeProtocolIp_sets r hnum hip).follows hm)

theorem vlanRefused_bounds {port filterId : Int} (h : vlanRefused port filterId = false) :
    port.toNat ≤ 5 ∧ filterId.toNat ≤ 15 := by
  simp only [vlanRefused, Bool.or_eq_false_iff, decide_eq_false_iff_not] at h
  simp only [admSwMaxPortNum, admSwMaxVlanNum] at h
  omega

/-- Both calls on the members of a VLAN filter: a refused one leaves everything as it is. -/
theorem vlan_follows {port filterId : Int} {v : Nat} {r' : SwRegs}
    (hset : vlanRefused port filterId = false →
      SwSets (.member filterId.toNat port.toNat) v r r') (hm : Follows m r) :
    Follows ((if vlanRefused port filterId then []
      else [(SwSetting.member filterId.toNat port.toNat, v)]).foldl
        (fun m e => Function.update m e.1 e.2) m)
      (if vlanRefused port filterId then (r, (-1 : Int)) else (r', 0)).1 := by
  cases hrefused : vlanRefused port filterId with
  | true => exact hm
  | false => exact (hset hrefused).follows hm

/-- Filter 3 keeps the queue that it had. -/
theorem setTcpudpFilter_follows_iff {filterno port queueno : Nat} (hno : filterno ≤ 7)
    (hport : port ≤ 65535) (hq : queueno ≤ 3) (hon : port ≠ 0) (hm : Follows m r) :
    Follows (Function.update (Function.update (Function.update m (.filterPort filterno) port)
      (.filterQueue filterno) queueno) (.filterOn filterno) 1)
      (ifxSwSetTcpudpFilter r filterno port queueno) ↔
      (filterno = 3 → (SwSetting.filterQueue 3).read r = queueno) := by
  have hfirst := (writeFilterPort_sets r hno hport).follows hm
  have hexec : ifxSwSetTcpudpFilter r filterno port queueno =
      ifxSwWrite (setTcpudpQueue (ifxSwWrite r (admSwTcpudpFilter0 + filterno)
        (BitVec.ofNat 32 port)) filterno queueno) admSwTcpudpAct2
        (ifxSwRead (setTcpudpQueue (ifxSwWrite r (admSwTcpudpFilter0 + filterno)
          (BitVec.ofNat 32 port)) filterno queueno) admSwTcpudpAct2 ||| 1#32 <<< filterno) :=
    if_neg hon
  rw [hexec]
  by_cases hthree : filterno = 3
  · subst hthree
    rw [setTcpudpQueue_three _ hq]
    have hlast := (writeFilterOn_sets _ hno).follows hfirst
    have hvalid : (SwSetting.filterQueue 3).Valid := hno.trans' (by decide)
    have hon' : SwSetting.filterQueue 3 ≠ .filterOn 3 := by simp
    have hport' : SwSetting.filterQueue 3 ≠ .filterPort 3 := by simp
    have hsame := hlast _ hvalid
    rw [Function.update_of_ne hon', Function.update_of_ne hport', ← hm _ hvalid] at hsame
    constructor
    · intro h _
      have hset := h _ hvalid
      rw [Function.update_of_ne hon', Function.update_self] at hset
      rw [← hsame, hset]
    · intro h
      have hkeep : Function.update (Function.update m (.filterPort 3) port) (.filterQueue 3)
          queueno = Function.update m (.filterPort 3) port := by
        rw [Function.update_eq_self_iff, Function.update_of_ne hport', ← hm _ hvalid, h rfl]
      rw [hkeep]
      exact hlast
  · have hqueue := (setTcpudpQueue_sets _ hno hthree hq).follows hfirst
    have hlast := (writeFilterOn_sets _ hno).follows hqueue
    exact iff_of_true hlast (fun heq => absurd heq hthree)

theorem igmpOff_follows_iff (hm : Follows m r) :
    Follows (Function.update m .igmp 0) (ifxSwSetIgmp r 0) ↔ SwSetting.igmpProxy.read r = 0 := by
  refine ((ifxSwSetIgmp_zero r).follows_iff (by simp) hm).trans ?_
  constructor
  · intro h
    exact h .igmpProxy trivial rfl
  · rintro h s - rfl
    exact h

theorem writeCpuPort_follows_iff {port : Nat} (hport : port ≤ 7) (hm : Follows m r) :
    Follows (Function.update m .cpuPort port)
      (ifxSwWrite r admSwVlanMode (BitVec.ofNat 32 port <<< 13)) ↔
      SwSetting.vlanMode.read r = 0 := by
  refine ((writeCpuPort_clears r hport).follows_iff (by simp) hm).trans ?_
  constructor
  · intro h
    exact h .vlanMode trivial rfl
  · rintro h s - rfl
    exact h

theorem qosControl_follows_iff {qos : Nat} (hqos : qos ≤ 1) (hm : Follows m r) :
    Follows (Function.update m .qos qos) (ifxSwSetQosControl r qos) ↔
      ∀ port tx, port ≤ 5 → (SwSetting.bndctl port tx).read r = 0 := by
  refine ((ifxSwSetQosControl_clears r hqos).follows_iff (by simp) hm).trans ?_
  constructor
  · intro h port tx hport
    exact h (.bndctl port tx) hport ⟨port, tx, rfl⟩
  · rintro h s hs ⟨port, tx, rfl⟩
    exact h port tx hs

/-- A call does what it is to do, and nothing else, exactly when it is harmless. -/
theorem call_follows_iff {c : SwCall} (hc : c.InRange) (hm : Follows m r) :
    Follows (c.want m) (c.exec r) ↔ c.Harmless r := by
  cases c with
  | setIgmp bit =>
    have hbit : bit ≤ 1 := hc
    interval_cases bit
    · exact (igmpOff_follows_iff hm).trans ⟨fun h _ => h, fun h => h rfl⟩
    · exact iff_of_true ((ifxSwSetIgmp_one r).follows hm) (fun h => absurd h (by decide))
  | setIgmpProxy bit => exact iff_of_true ((ifxSwSetIgmpProxy_sets r hc).follows hm) trivial
  | setAdditionalSnoopCtr bit =>
    exact iff_of_true ((ifxSwSetAdditionalSnoopCtr_sets r hc).follows hm) trivial
  | setVlanmode bit => exact iff_of_true ((ifxSwSetVlanmode_sets r hc).follows hm) trivial
  | setCpuPort port =>
    by_cases hrefused : port < 0 ∨ port > admSwMaxPortNum + 1
    · have heffects : (SwCall.setCpuPort port).effects = [] := if_pos hrefused
      have hexec : (SwCall.setCpuPort port).exec r = r := congrArg Prod.fst (if_pos hrefused)
      unfold SwCall.want
      rw [heffects, hexec]
      exact iff_of_true hm (fun h => absurd hrefused h)
    · have heffects : (SwCall.setCpuPort port).effects = [(.cpuPort, port.toNat)] :=
        if_neg hrefused
      have hexec : (SwCall.setCpuPort port).exec r =
          ifxSwWrite r admSwVlanMode (BitVec.ofNat 32 port.toNat <<< 13) :=
        congrArg Prod.fst (if_neg hrefused)
      have hport : port.toNat ≤ 7 := by
        simp only [admSwMaxPortNum] at hrefused
        omega
      unfold SwCall.want
      rw [heffects, hexec]
      exact (writeCpuPort_follows_iff hport hm).trans ⟨fun h _ => h, fun h => h hrefused⟩
  | disableCpuPort => exact @writeCpuPort_follows_iff m r 7 (by decide) hm
  | vlanAdd port filterId fid =>
    refine iff_of_true ?_ trivial
    exact vlan_follows (fun h => ifxSwVlanAdd_sets r (vlanRefused_bounds h).1
      (vlanRefused_bounds h).2 hc) hm
  | vlanDel port filterId =>
    refine iff_of_true ?_ trivial
    exact vlan_follows (fun h => ifxSwVlanDel_sets r (vlanRefused_bounds h).1
      (vlanRefused_bounds h).2) hm
  | setQosControl qos => exact qosControl_follows_iff hc hm
  | setq port qno => exact iff_of_true ((ifxSwSetq_sets r hc.1 hc.2).follows hm) trivial
  | enaFc port => exact iff_of_true ((ifxSwEnaFc_sets r hc).follows hm) trivial
  | disFc port => exact iff_of_true ((ifxSwDisFc_sets r hc).follows hm) trivial
  | setQueueWeight qno weight =>
    refine iff_of_true ?_ trivial
    by_cases hzero : qno = 0
    · subst hzero
      exact hm
    · have heffects : (SwCall.setQueueWeight qno weight).effects = [(.weight qno, weight)] :=
        if_neg hzero
      unfold SwCall.want
      rw [heffects]
      exact (ifxSwSetQueueWeight_sets r hzero hc.1 hc.2).follows hm
  | setTcpudpFilter filterno port queueno =>
    obtain ⟨hno, hport, hq⟩ := hc
    by_cases hoff : port = 0
    · subst hoff
      exact iff_of_true ((ifxSwSetTcpudpFilter_off r queueno hno).follows hm)
        (fun _ h => absurd rfl h)
    · have heffects : (SwCall.setTcpudpFilter filterno port queueno).effects =
          [(.filterPort filterno, port), (.filterQueue filterno, queueno),
            (.filterOn filterno, 1)] := if_neg hoff
      unfold SwCall.want
      rw [heffects]
      refine (setTcpudpFilter_follows_iff hno hport hq hoff hm).trans ?_
      exact ⟨fun h hthree _ => h hthree, fun h hthree => h hthree hoff⟩
  | protocolFilter cmd f =>
    refine iff_of_true ?_ trivial
    cases cmd with
    | get => exact hm
    | add => exact protocolFilter_follows hc.1 hc.2 hm
    | del =>
      exact protocolFilter_follows (f := ⟨f.protocolFilterNum, 0, 0⟩) hc.1 (Nat.zero_le _) hm

end Step

/-- The registers, with the value that each setting was last set to. -/
structure SwState where
  regs : SwRegs
  wanted : SwSetting → Nat

def swStart (r : SwRegs) : SwState := ⟨r, fun s => s.read r⟩

def swStep (s : SwState) (c : { c : SwCall // c.InRange }) : Option SwState :=
  some ⟨c.1.exec s.regs, c.1.want s.wanted⟩

/-- All settings read back as they were last set, after every call of a run, exactly when no call of it
clears a neighbour that is set and none changes the queue of filter 3. -/
theorem sw_settings_follow_iff (r : SwRegs) (calls : List { c : SwCall // c.InRange }) :
    RunMeets swStep (fun s c => c.1.Harmless s.regs) (swStart r) calls ↔
      ∀ pre t, pre <+: calls → run swStep (swStart r) pre = some t →
        ∀ s : SwSetting, s.Valid → s.read t.regs = t.wanted s := by
  have hstart : Follows (swStart r).wanted (swStart r).regs := fun s _ => rfl
  refine runMeets_iff_states (fun {s : SwState} (h : Follows s.wanted s.regs) => h) ?_ ?_ ?_ hstart
    calls
  · intro s t c hs hok h
    cases Option.some.inj h
    exact (call_follows_iff c.2 hs).mpr hok
  · intro s t c hs h hgood
    cases Option.some.inj h
    exact (call_follows_iff c.2 hs).mp hgood
  · intro s c hs h
    cases h

/-- The proxy bit goes with the snooping bit, the bandwidth enables with the QoS flag and the VLAN mode
with the CPU port, and the queue of filter 3 is not stored. -/
theorem sw_settings_lost :
    ifxSwGetIgmpProxy (ifxSwSetIgmp (ifxSwSetIgmpProxy (fun _ => 0) 1) 0) = 0 ∧
    (SwSetting.bndctl 2 true).read (ifxSwEnaBndctl (fun _ => 0) 2 true) = 1 ∧
    (SwSetting.bndctl 2 true).read
      (ifxSwSetQosControl (ifxSwEnaBndctl (fun _ => 0) 2 true) 1) = 0 ∧
    ifxSwGetVlanmode (ifxSwSetCpuPort (ifxSwSetVlanmode (fun _ => 0) 1) 5).1 = 0 ∧
    (ifxSwGetTcpudpFilter (ifxSwSetTcpudpFilter (fun _ => 0) 3 80 2) 3).queueno = 0 := by
  decide +kernel

end DanubeBsp
