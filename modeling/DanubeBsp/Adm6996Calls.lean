import DanubeBsp.Adm6996Fields

namespace DanubeBsp

/-- The settings have the values `m`. -/
def Follows (m : SwSetting → Nat) (r : SwRegs) : Prop := ∀ s : SwSetting, s.Valid → s.read r = m s

/-- `a` has got the value `v`, and of the others those in `C` have been cleared. -/
structure SwClears (C : SwSetting → Prop) (a : SwSetting) (v : Nat) (r r' : SwRegs) : Prop where
  value : a.read r' = v
  cleared : ∀ s : SwSetting, s.Valid → s ≠ a → C s → s.read r' = 0
  kept : ∀ s : SwSetting, s.Valid → s ≠ a → ¬C s → s.read r' = s.read r

section Follows

variable {m : SwSetting → Nat} {r r' : SwRegs} {a : SwSetting} {v : Nat} {C : SwSetting → Prop}

theorem SwSets.follows (h : SwSets a v r r') (hm : Follows m r) :
    Follows (Function.update m a v) r' := by
  intro s hs
  rw [h s hs]
  by_cases heq : s = a
  · subst heq
    rw [Function.update_self, Function.update_self]
  · rw [Function.update_of_ne heq, Function.update_of_ne heq, hm s hs]

theorem SwClears.follows_iff (h : SwClears C a v r r') (hC : ¬C a) (hm : Follows m r) :
    Follows (Function.update m a v) r' ↔ ∀ s : SwSetting, s.Valid → C s → s.read r = 0 := by
  constructor
  · intro hm' s hs hCs
    have hne : s ≠ a := by
      rintro rfl
      exact hC hCs
    have hread := hm' s hs
    rw [h.cleared s hs hne hCs, Function.update_of_ne hne] at hread
    rw [hm s hs, ← hread]
  · intro hzero s hs
    by_cases heq : s = a
    · subst heq
      rw [Function.update_self]
      exact h.value
    · rw [Function.update_of_ne heq, ← hm s hs]
      by_cases hCs : C s
      · rw [h.cleared s hs heq hCs, hzero s hs hCs]
      · exact h.kept s hs heq hCs

end Follows

section Wide

variable {F : RegField} {V : Nat} {r r' : SwRegs} {s : SwSetting}

theorem SwSetting.read_disjoint (h : F.Written V r r') (hs : s.Valid)
    (hd : F.reg < s.bank.1 ∨ s.bank.2 < F.reg ∨ F.Disjoint s.field) : s.read r' = s.read r := by
  have hbank := SwSetting.reg_bank hs
  rw [SwSetting.read_eq r' hs, SwSetting.read_eq r hs]
  apply h.get_of_disjoint
  rcases hd with hlt | hlt | hd
  · exact .inl (by omega)
  · exact .inl (by omega)
  · exact hd

theorem SwSetting.read_inside (h : F.Written V r r') (hs : s.Valid) (hin : s.field.Inside F) :
    s.read r' = V / 2 ^ (s.field.lo - F.lo) % 2 ^ s.field.width := by
  rw [SwSetting.read_eq r' hs]
  exact h.get_of_inside hin

end Wide

theorem SwSets.of_wide {F : RegField} {V v : Nat} {r r' : SwRegs} {a : SwSetting}
    (h : F.Written V r r') (ha : a.Valid) (hin : a.field.Inside F)
    (hv : V / 2 ^ (a.field.lo - F.lo) % 2 ^ a.field.width = v)
    (hout : ∀ s : SwSetting, s ≠ a →
      F.reg < s.bank.1 ∨ s.bank.2 < F.reg ∨ F.Disjoint s.field) : SwSets a v r r' := by
  intro s hs
  by_cases heq : s = a
  · subst heq
    rw [Function.update_self, SwSetting.read_inside h hs hin, hv]
  · rw [Function.update_of_ne heq]
    exact SwSetting.read_disjoint h hs (hout s heq)

theorem read_and_congr (r : SwRegs) {reg : Nat} (hreg : reg < 1024) {mask mask' : Word}
    (h : ∀ i, i < 16 → mask.getLsbD i = mask'.getLsbD i) :
    ifxSwRead r reg &&& mask = ifxSwRead r reg &&& mask' := by
  apply BitVec.eq_of_getLsbD_eq
  intro i _
  rw [BitVec.getLsbD_and, BitVec.getLsbD_and, getLsbD_ifxSwRead hreg]
  by_cases hi : i < 16
  · rw [h i hi]
  · rw [BitVec.getLsbD_of_ge (r reg) i (by omega), Bool.false_and, Bool.false_and]

section Setters

variable (r : SwRegs)

/-- `~BIT_1` takes the proxy bit along. -/
theorem ifxSwSetIgmp_zero : SwClears (· = .igmpProxy) .igmp 0 r (ifxSwSetIgmp r 0) := by
  have h := @written_below r admSwIgmpctl 1 0 (by decide) (by decide) (by decide)
  have heq : ifxSwSetIgmp r 0 = ifxSwWrite r admSwIgmpctl
      ((ifxSwRead r admSwIgmpctl &&& notBitN 1) ||| (BitVec.ofNat 32 0 <<< 1)) := by
    simp [ifxSwSetIgmp]
  rw [← heq] at h
  refine ⟨SwSetting.read_inside h trivial ⟨rfl, by decide, by decide⟩, ?_, ?_⟩
  · rintro s hs - rfl
    exact SwSetting.read_inside h trivial ⟨rfl, by decide, by decide⟩
  · intro s hs hne hC
    apply SwSetting.read_disjoint h hs
    cases s <;> simp_all [SwSetting.bank, admSwIgmpctl]

theorem ifxSwSetIgmp_one : SwSets .igmp 1 r (ifxSwSetIgmp r 1) :=
  .of_written trivial (written_or r (by decide) (by decide))

theorem ifxSwSetIgmpProxy_sets {bit : Nat} (hbit : bit ≤ 1) :
    SwSets .igmpProxy bit r (ifxSwSetIgmpProxy r bit) := by
  apply SwSets.of_written (a := .igmpProxy) trivial
  interval_cases bit
  · exact written_clear r (by decide) (by decide)
  · exact written_or r (by decide) (by decide)

theorem ifxSwSetAdditionalSnoopCtr_sets {bit : Nat} (hbit : bit ≤ 1) :
    SwSets .snoop bit r (ifxSwSetAdditionalSnoopCtr r bit) := by
  interval_cases bit
  · have h := @written_below r admSwSysctl1 13 0 (by decide) (by decide) (by decide)
    have hmask : ifxSwRead r admSwSysctl1 &&& 0xc000#32 =
        ifxSwRead r admSwSysctl1 &&& notBitN 13 := by
      apply read_and_congr r (by decide)
      intro i hi
      interval_cases i <;> rfl
    have heq : ifxSwSetAdditionalSnoopCtr r 0 = ifxSwWrite r admSwSysctl1
        ((ifxSwRead r admSwSysctl1 &&& notBitN 13) ||| (BitVec.ofNat 32 0 <<< 13)) := by
      simp [ifxSwSetAdditionalSnoopCtr, hmask]
    rw [← heq] at h
    apply SwSets.of_wide (a := .snoop) h trivial ⟨rfl, by decide, by decide⟩ rfl
    intro s hne
    cases s <;> simp_all [SwSetting.bank, admSwSysctl1]
  · have h := @written_replace r admSwSysctl1 12 2 1 (by decide) (by decide) (by decide)
    have hmask : ifxSwRead r admSwSysctl1 &&& 0xcfff#32 =
        ifxSwRead r admSwSysctl1 &&& ~~~(BitVec.ofNat 32 (2 ^ 2 - 1) <<< 12) := by
      apply read_and_congr r (by decide)
      intro i hi
      interval_cases i <;> rfl
    rw [← hmask] at h
    exact .of_written trivial h

theorem ifxSwSetVlanmode_sets {bit : Nat} (hbit : bit ≤ 1) :
    SwSets .vlanMode bit r (ifxSwSetVlanmode r bit) := by
  interval_cases bit
  · have h := @written_below r admSwVlanMode 5 0 (by decide) (by decide) (by decide)
    have heq : ifxSwSetVlanmode r 0 = ifxSwWrite r admSwVlanMode
        ((ifxSwRead r admSwVlanMode &&& notBitN 5) ||| (BitVec.ofNat 32 0 <<< 5)) := by
      simp [ifxSwSetVlanmode]
    rw [← heq] at h
    apply SwSets.of_wide (a := .vlanMode) h trivial ⟨rfl, by decide, by decide⟩ rfl
    intro s hne
    cases s <;> simp_all [SwSetting.bank, admSwVlanMode, RegField.Disjoint, SwSetting.field]
  · exact .of_written trivial (written_or r (by decide) (by decide))

/-- The whole register is written, and the VLAN mode with it. -/
theorem writeCpuPort_clears {port : Nat} (hport : port ≤ 7) : SwClears (· = .vlanMode) .cpuPort port r
    (ifxSwWrite r admSwVlanMode (BitVec.ofNat 32 port <<< 13)) := by
  have h := @written_whole r admSwVlanMode (port * 2 ^ 13) (by decide) (by omega)
  have heq : BitVec.ofNat 32 port <<< 13 = BitVec.ofNat 32 (port * 2 ^ 13) := by
    interval_cases port <;> rfl
  rw [← heq] at h
  refine ⟨?_, ?_, ?_⟩
  · rw [SwSetting.read_inside (s := .cpuPort) h trivial ⟨rfl, by decide, by decide⟩]
    show port * 2 ^ 13 / 2 ^ 13 % 2 ^ 3 = port
    omega
  · rintro s hs - rfl
    rw [SwSetting.read_inside (s := .vlanMode) h trivial ⟨rfl, by decide, by decide⟩]
    show port * 2 ^ 13 / 2 ^ 5 % 2 ^ 1 = 0
    omega
  · intro s hs hne hC
    apply SwSetting.read_disjoint h hs
    cases s <;> simp_all [SwSetting.bank, admSwVlanMode]

/-- `~BIT_12` takes all the bandwidth enables along. -/
theorem ifxSwSetQosControl_clears {qos : Nat} (hqos : qos ≤ 1) :
    SwClears (fun s => ∃ port tx, s = .bndctl port tx) .qos qos r (ifxSwSetQosControl r qos) := by
  have h := @written_below r admSwBndwthCtlEna 12 qos (by decide) (by decide) hqos
  refine ⟨?_, ?_, ?_⟩
  · have hread := SwSetting.read_inside (s := .qos) h trivial ⟨rfl, by decide, by decide⟩
    refine hread.trans ?_
    show qos * 2 ^ 12 / 2 ^ 12 % 2 ^ 1 = qos
    omega
  · rintro s hs - ⟨port, tx, rfl⟩
    have hbit := bndctlBit_le tx hs
    have hin : (SwSetting.bndctl port tx).field.Inside ⟨admSwBndwthCtlEna, 0, 12 + 1⟩ := by
      refine ⟨rfl, Nat.zero_le _, ?_⟩
      show bndctlBit port tx + 1 ≤ 0 + (12 + 1)
      omega
    refine (SwSetting.read_inside h hs hin).trans ?_
    show qos * 2 ^ 12 / 2 ^ bndctlBit port tx % 2 ^ 1 = 0
    generalize bndctlBit port tx = b at hbit
    interval_cases b <;> omega
  · intro s hs hne hC
    apply SwSetting.read_disjoint h hs
    cases s <;> simp_all [SwSetting.bank, admSwBndwthCtlEna]

theorem ifxSwSetq_sets {port qno : Nat} (hport : port ≤ 5) (hqno : qno ≤ 3) :
    SwSets (.queue port) qno r (ifxSwSetq r port qno) := by
  have hconf := ifxSwConf_bounds port
  exact .of_written (a := .queue port) hport
    (@written_replace r (ifxSwConf port) 8 2 qno (by omega) (by decide) (by omega))

theorem ifxSwEnaFc_sets {port : Nat} (hport : port ≤ 5) :
    SwSets (.flowControl port) 1 r (ifxSwEnaFc r port) := by
  have hconf := ifxSwConf_bounds port
  exact .of_written (a := .flowControl port) hport (written_or r (by omega) (by decide))

theorem ifxSwDisFc_sets {port : Nat} (hport : port ≤ 5) :
    SwSets (.flowControl port) 0 r (ifxSwDisFc r port) := by
  have hconf := ifxSwConf_bounds port
  exact .of_written (a := .flowControl port) hport (written_clear r (by omega) (by decide))

theorem ifxSwSetQueueWeight_sets {qno weight : Nat} (hpos : qno ≠ 0) (hqno : qno ≤ 3)
    (hweight : weight ≤ 15) : SwSets (.weight qno) weight r (ifxSwSetQueueWeight r qno weight) := by
  have hreg : admSwQueueConf1 + qno - 1 < 1024 := by
    simp only [admSwQueueConf1]
    omega
  have hvalid : (SwSetting.weight qno).Valid := ⟨by omega, hqno⟩
  unfold ifxSwSetQueueWeight
  rw [if_neg hpos]
  exact .of_written hvalid (@written_replace r _ 12 4 weight hreg (by decide) (by omega))

theorem ifxSwSetTcpudpFilter_off {filterno : Nat} (queueno : Nat) (hno : filterno ≤ 7) :
    SwSets (.filterOn filterno) 0 r (ifxSwSetTcpudpFilter r filterno 0 queueno) :=
  .of_written (a := .filterOn filterno) hno (written_clear r (by decide) (by omega))

theorem setTcpudpQueue_sets {filterno queueno : Nat} (hno : filterno ≤ 7) (hne : filterno ≠ 3)
    (hq : queueno ≤ 3) : SwSets (.filterQueue filterno) queueno r
      (setTcpudpQueue r filterno queueno) := by
  apply SwSets.of_written (a := .filterQueue filterno) hno
  show RegField.Written ⟨0x96 + filterno / 4, filterno % 4 * 4, 2⟩ queueno r _
  unfold setTcpudpQueue
  by_cases hlow : filterno < 3
  · have hreg : 0x96 + filterno / 4 = admSwTcpudpAct0 := by simp only [admSwTcpudpAct0]; omega
    have hpos : filterno % 4 = filterno := by omega
    rw [if_pos hlow, hreg, hpos]
    exact @written_replace r _ (filterno * 4) 2 queueno (by decide) (by omega) (by omega)
  · have hreg : 0x96 + filterno / 4 = admSwTcpudpAct1 := by simp only [admSwTcpudpAct1]; omega
    have hpos : filterno % 4 = filterno - 4 := by omega
    have hamount : ((((filterno : Int) - 4) * 4) % 32).toNat = (filterno - 4) * 4 := by omega
    unfold shiftInt
    rw [if_neg hlow, hreg, hpos, hamount]
    exact @written_replace r _ ((filterno - 4) * 4) 2 queueno (by decide) (by omega) (by omega)

/-- The queue of filter 3 goes nowhere: the shift takes it out of the register. -/
theorem setTcpudpQueue_three {queueno : Nat} (hq : queueno ≤ 3) : setTcpudpQueue r 3 queueno = r := by
  have hlt : queueno < 2 ^ 2 := by omega
  have hact : admSwTcpudpAct1 < 1024 := by decide
  have hbits : ∀ i, ((ifxSwRead r admSwTcpudpAct1 &&& ~~~(0x3#32 <<< 28)) |||
      (BitVec.ofNat 32 queueno <<< 28)).getLsbD i =
        ((r admSwTcpudpAct1).getLsbD i || (decide (28 ≤ i ∧ i < 28 + 2) && queueno.testBit (i - 28))) := by
    intro i
    have hmask := @getLsbD_mask_shift 2 28 (by decide) i
    have hmask : (0x3#32 <<< 28).getLsbD i = decide (28 ≤ i ∧ i < 28 + 2) := hmask
    rw [BitVec.getLsbD_or, getLsbD_and_not, getLsbD_ifxSwRead hact, hmask,
      getLsbD_value_shift hlt (by decide)]
    by_cases hi : i < 16
    · have hnot : ¬(28 ≤ i ∧ i < 28 + 2) := by omega
      simp [hnot]
    · rw [BitVec.getLsbD_of_ge (r admSwTcpudpAct1) i (by omega), Bool.false_and]
  show ifxSwWrite r admSwTcpudpAct1 ((ifxSwRead r admSwTcpudpAct1 &&& ~~~(0x3#32 <<< 28)) |||
      (BitVec.ofNat 32 queueno <<< 28)) = r
  rw [ifxSwWrite_eq hact]
  · have hsame : ((ifxSwRead r admSwTcpudpAct1 &&& ~~~(0x3#32 <<< 28)) |||
        (BitVec.ofNat 32 queueno <<< 28)).setWidth 16 = r admSwTcpudpAct1 := by
      apply BitVec.eq_of_getLsbD_eq
      intro i hi
      have hnot : ¬(28 ≤ i ∧ i < 28 + 2) := by omega
      rw [BitVec.getLsbD_setWidth, hbits, decide_eq_false hnot, decide_eq_true hi]
      simp
    rw [hsame, Function.update_eq_self]
  · intro i hlo hhi
    have hnot : ¬(28 ≤ i ∧ i < 28 + 2) := by omega
    rw [hbits, decide_eq_false hnot, BitVec.getLsbD_of_ge _ _ hlo]
    rfl
  · rw [hbits, BitVec.getLsbD_of_ge _ _ (by decide)]
    rfl

theorem writeFilterPort_sets {filterno port : Nat} (hno : filterno ≤ 7) (hport : port ≤ 65535) :
    SwSets (.filterPort filterno) port r
      (ifxSwWrite r (admSwTcpudpFilter0 + filterno) (BitVec.ofNat 32 port)) := by
  have hreg : admSwTcpudpFilter0 + filterno < 1024 := by
    simp only [admSwTcpudpFilter0]
    omega
  exact .of_written (a := .filterPort filterno) hno (written_whole r hreg (by omega))

theorem writeFilterOn_sets {filterno : Nat} (hno : filterno ≤ 7) :
    SwSets (.filterOn filterno) 1 r (ifxSwWrite r admSwTcpudpAct2
      (ifxSwRead r admSwTcpudpAct2 ||| 1#32 <<< filterno)) :=
  .of_written (a := .filterOn filterno) hno (written_or r (by decide) (by omega))

theorem written_bit_top {reg port fid : Nat} (hreg : reg < 1024) (hport : port < 12)
    (hfid : fid < 2 ^ 4) : ∃ r₁ v, RegField.Written ⟨reg, port, 1⟩ 1 r r₁ ∧
      RegField.Written ⟨reg, 12, 4⟩ v r₁ (ifxSwWrite r reg
        (ifxSwRead r reg ||| 1#32 <<< port ||| BitVec.ofNat 32 fid <<< 12)) := by
  have hmember := @written_or r reg port hreg (by omega)
  have hread : ∀ i, (ifxSwRead r reg ||| 1#32 <<< port).getLsbD i =
      ((r reg).getLsbD i || decide (i = port)) := by
    intro i
    rw [BitVec.getLsbD_or, getLsbD_ifxSwRead hreg, getLsbD_bit (by omega)]
  have hfilter : ∀ i, (BitVec.ofNat 32 fid <<< 12).getLsbD i =
      (decide (12 ≤ i ∧ i < 12 + 4) && fid.testBit (i - 12)) :=
    getLsbD_value_shift hfid (by decide)
  have hlow : ∀ i, 16 ≤ i → (ifxSwRead r reg ||| 1#32 <<< port).getLsbD i = false := by
    intro i hi
    have hne : i ≠ port := by omega
    rw [hread, BitVec.getLsbD_of_ge _ _ hi, decide_eq_false hne, Bool.or_false]
  have hhigh : ∀ i, 16 ≤ i →
      (ifxSwRead r reg ||| 1#32 <<< port ||| BitVec.ofNat 32 fid <<< 12).getLsbD i = false := by
    intro i hi
    have hnot : ¬(12 ≤ i ∧ i < 12 + 4) := by omega
    rw [BitVec.getLsbD_or, hlow i hi, hfilter, decide_eq_false hnot, Bool.false_and, Bool.or_false]
  rw [ifxSwWrite_eq hreg (fun i hi _ => hlow i hi) (hlow 30 (by decide))] at hmember
  rw [ifxSwWrite_eq hreg (fun i hi _ => hhigh i hi) (hhigh 30 (by decide))]
  refine ⟨_, _, hmember, rfl, ?_⟩
  intro reg' i hout
  by_cases hne : reg' = reg
  · subst hne
    have hnot : ¬(12 ≤ i ∧ i < 12 + 4) := fun hc => hout ⟨rfl, hc⟩
    rw [Function.update_self, Function.update_self, BitVec.getLsbD_setWidth,
      BitVec.getLsbD_setWidth, BitVec.getLsbD_or, hfilter, decide_eq_false hnot, Bool.false_and,
      Bool.or_false]
  · rw [Function.update_of_ne hne, Function.update_of_ne hne]

/-- The filter id goes to the upper bits, where no setting is. -/
theorem ifxSwVlanAdd_sets {port filterId fid : Nat} (hport : port ≤ 5) (hid : filterId ≤ 15)
    (hfid : fid ≤ 15) : SwSets (.member filterId port) 1 r
      (ifxSwWrite r (admSwVlanFilter0Low + filterId * 2)
        (ifxSwRead r (admSwVlanFilter0Low + filterId * 2) ||| 1#32 <<< port |||
          BitVec.ofNat 32 fid <<< 12)) := by
  have hreg : admSwVlanFilter0Low + filterId * 2 < 1024 := by
    simp only [admSwVlanFilter0Low]
    omega
  obtain ⟨r₁, v, hmember, hfilter⟩ := written_bit_top r hreg (by omega : port < 12)
    (by omega : fid < 2 ^ 4)
  have hsets := SwSets.of_written (a := .member filterId port) ⟨hid, hport⟩ hmember
  intro s hs
  rw [← hsets s hs]
  apply SwSetting.read_disjoint hfilter hs
  cases s with
  | member filterId' port' =>
    refine .inr (.inr (.inr (.inr ?_)))
    show port' + 1 ≤ 12
    have hle : port' ≤ 5 := hs.2
    omega
  | _ => simp only [SwSetting.bank, admSwVlanFilter0Low]; omega

theorem ifxSwVlanDel_sets {port filterId : Nat} (hport : port ≤ 5) (hid : filterId ≤ 15) :
    SwSets (.member filterId port) 0 r
      (ifxSwWrite r (admSwVlanFilter0Low + filterId * 2)
        (ifxSwRead r (admSwVlanFilter0Low + filterId * 2) &&& ~~~(1#32 <<< port))) := by
  have hreg : admSwVlanFilter0Low + filterId * 2 < 1024 := by
    simp only [admSwVlanFilter0Low]
    omega
  exact .of_written (a := .member filterId port) ⟨hid, hport⟩ (written_clear r hreg (by omega))

theorem writeProtocolIp_sets {num ip : Nat} (hnum : num ≤ 7) (hip : ip ≤ 255) :
    SwSets (.protocolIp num) ip r (ifxSwWrite r (num / 2 + 0x68)
      (if num % 2 = 0 then (ifxSwRead r (num / 2 + 0x68) &&& 0xff00#32) ||| BitVec.ofNat 32 ip
        else (ifxSwRead r (num / 2 + 0x68) &&& 0x00ff#32) ||| BitVec.ofNat 32 ip <<< 8)) := by
  apply SwSets.of_written (a := .protocolIp num) hnum
  show RegField.Written ⟨num / 2 + 0x68, num % 2 * 8, 8⟩ ip r _
  have hreg : num / 2 + 0x68 < 1024 := by omega
  by_cases heven : num % 2 = 0
  · have h := @written_replace r (num / 2 + 0x68) 0 8 ip hreg (by decide) (by omega)
    have hmask : ifxSwRead r (num / 2 + 0x68) &&& 0xff00#32 =
        ifxSwRead r (num / 2 + 0x68) &&& ~~~(BitVec.ofNat 32 (2 ^ 8 - 1) <<< 0) := by
      apply read_and_congr r hreg
      intro i hi
      interval_cases i <;> rfl
    rw [← hmask, BitVec.shiftLeft_zero] at h
    rw [if_pos heven, heven]
    exact h
  · have hodd : num % 2 = 1 := by omega
    have h := @written_replace r (num / 2 + 0x68) 8 8 ip hreg (by decide) (by omega)
    have hmask : ifxSwRead r (num / 2 + 0x68) &&& 0x00ff#32 =
        ifxSwRead r (num / 2 + 0x68) &&& ~~~(BitVec.ofNat 32 (2 ^ 8 - 1) <<< 8) := by
      apply read_and_congr r hreg
      intro i hi
      interval_cases i <;> rfl
    rw [← hmask] at h
    rw [if_neg heven, hodd]
    exact h

theorem signExtend_action (action : BitVec 2) :
    action.signExtend 32 &&& 0x03#32 = BitVec.ofNat 32 action.toNat := by
  revert action
  decide

theorem writeProtocolAction_sets {num : Nat} (hnum : num ≤ 7) (action : BitVec 2) :
    SwSets (.protocolAction num) action.toNat r (ifxSwWrite r 0x95
      ((ifxSwRead r 0x95 &&& ~~~(0x03#32 <<< (num * 2))) |||
        (action.signExtend 32 &&& 0x03#32) <<< (num * 2))) := by
  rw [signExtend_action]
  exact .of_written (a := .protocolAction num) hnum
    (@written_replace r 0x95 (num * 2) 2 action.toNat (by decide) (by omega) action.isLt)

/-- The bandwidth enables are bits of their own; to enable one sets the flag of bit 12 as well. -/
theorem ifxSwEnaBndctl_sets {port : Nat} (hport : port ≤ 5) (tx : Bool) (s : SwSetting)
    (hs : s.Valid) (hqos : s ≠ .qos) : s.read (ifxSwEnaBndctl r port tx) =
      Function.update (fun s => s.read r) (.bndctl port tx) 1 s := by
  have hbit := bndctlBit_le tx hport
  obtain ⟨r₁, v, hfirst, hflag⟩ := @written_bit_top r admSwBndwthCtlEna (bndctlBit port tx) 1
    (by decide) (by omega) (by decide)
  have hsets := SwSets.of_written (a := .bndctl port tx) hport hfirst
  rw [← hsets s hs]
  apply SwSetting.read_disjoint hflag hs
  cases s with
  | bndctl port' tx' =>
    refine .inr (.inr (.inr (.inr ?_)))
    have hle := bndctlBit_le tx' hs
    show bndctlBit port' tx' + 1 ≤ 12
    omega
  | qos => exact absurd rfl hqos
  | _ => simp only [SwSetting.bank, admSwBndwthCtlEna]; omega

theorem ifxSwDisBndctl_sets {port : Nat} (hport : port ≤ 5) (tx : Bool) :
    SwSets (.bndctl port tx) 0 r (ifxSwDisBndctl r port tx) := by
  have hbit := bndctlBit_le tx hport
  exact .of_written (a := .bndctl port tx) hport (written_clear r (by decide) (by omega))

end Setters

end DanubeBsp
