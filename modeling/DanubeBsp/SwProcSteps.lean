import DanubeBsp.SwProcWrite

namespace DanubeBsp

open Logged

section Steps

variable {u : ProcWrite}

theorem scanUser_atMost (stop : Byte → Bool) (i m : Nat) : AtMost m (scanUser u stop i m) := by
  induction m generalizing i with
  | zero => exact atMost_pure 0 0
  | succ m ih =>
    unfold scanUser
    rw [Nat.add_comm]
    apply atMost_bind (atMost_touch _)
    intro _ _
    cases u.user i with
    | none => exact atMost_halt m _
    | some c =>
      dsimp only
      split_ifs
      · exact atMost_pure m 0
      · exact atMost_bind (n := 0) (ih (i + 1)) fun n _ => atMost_pure 0 (n + 1)

theorem scanUser_le (stop : Byte → Bool) (i m : Nat) :
    Within (fun _ => True) (scanUser u stop i m) fun n => n ≤ m := by
  induction m generalizing i with
  | zero => exact (within_pure 0).mpr (le_refl 0)
  | succ m ih =>
    unfold scanUser
    rw [within_bind, within_touch]
    refine ⟨trivial, ?_⟩
    cases u.user i with
    | none => exact within_halt _
    | some c =>
      dsimp only
      split_ifs
      · exact (within_pure 0).mpr (Nat.zero_le _)
      · rw [within_bind]
        refine ⟨(ih (i + 1)).1, ?_⟩
        intro n hn
        exact (within_pure _).mpr (Nat.succ_le_succ ((ih (i + 1)).2 n hn))

theorem copyWord_atMost (i k len : Nat) : AtMost (2 * len) (copyWord u i k len) := by
  induction len generalizing i k with
  | zero => exact atMost_pure 0 []
  | succ len ih =>
    have hlen : 2 * (len + 1) = 1 + (1 + (2 * len + 0)) := by omega
    unfold copyWord
    rw [hlen]
    apply atMost_bind (atMost_touch _)
    intro _ _
    cases u.user i with
    | none => exact atMost_halt _ _
    | some c =>
      apply atMost_bind (atMost_touch _)
      intro _ _
      exact atMost_bind (ih (i + 1) (k + 1)) fun rest _ => atMost_pure 0 (c :: rest)

theorem copyWord_length (i k len : Nat) :
    Within (fun _ => True) (copyWord u i k len) fun w => w.length = len := by
  induction len generalizing i k with
  | zero => exact (within_pure []).mpr rfl
  | succ len ih =>
    unfold copyWord
    rw [within_bind, within_touch]
    refine ⟨trivial, ?_⟩
    cases u.user i with
    | none => exact within_halt _
    | some c =>
      rw [within_bind, within_touch]
      refine ⟨trivial, ?_⟩
      rw [within_bind]
      refine ⟨(ih (i + 1) (k + 1)).1, ?_⟩
      intro rest hrest
      exact (within_pure _).mpr (congrArg Nat.succ ((ih (i + 1) (k + 1)).2 rest hrest))

theorem readWord_atMost (i : Nat) : AtMost 241 (readWord u i) := by
  apply atMost_bind (n := 161) (scanUser_atMost wordStop i bufSize)
  intro len hlen
  have hle : len ≤ 80 := (scanUser_le wordStop i bufSize).2 len hlen
  have hcopy : AtMost 160 (copyWord u i 0 len) := (copyWord_atMost i 0 len).mono (by omega)
  apply atMost_bind (n := 1) hcopy
  intro w _
  exact atMost_bind (n := 0) (atMost_touch _) fun _ _ => atMost_pure 0 (w, i + len)

theorem readWord_length (i : Nat) :
    Within (fun _ => True) (readWord u i) fun r => r.1.length ≤ bufSize := by
  unfold readWord
  rw [within_bind]
  refine ⟨fun _ _ => trivial, ?_⟩
  intro len hlen
  have hle := (scanUser_le wordStop i bufSize).2 len hlen
  rw [within_bind]
  refine ⟨fun _ _ => trivial, ?_⟩
  intro w hw
  have hlength : w.length = len := (copyWord_length i 0 len).2 w hw
  rw [within_bind, within_touch, within_pure]
  exact ⟨trivial, hlength ▸ hle⟩

theorem skipTrail_atMost (i : Nat) : AtMost 80 (skipTrail u i) :=
  atMost_bind (n := 0) (scanUser_atMost trailStop i bufSize) fun _ _ => atMost_pure 0 _

theorem lastDigit_atMost (w : List Byte) : AtMost 1 (lastDigit u w) :=
  atMost_bind (n := 0) (atMost_touch _) fun _ _ => atMost_pure 0 _

/-- A call and the end of the handler. -/
theorem call_atMost (c : SwRegCall) (count : Int) :
    AtMost 1 (do touch (.call c); pure count : SwParse Int) :=
  atMost_bind (n := 0) (atMost_touch _) fun _ _ => atMost_pure 0 count

theorem bdhctlPorts_atMost (txrx : Bool) (ports : List Nat) (i : Nat) :
    AtMost (322 * ports.length) (bdhctlPorts u txrx ports i) := by
  induction ports generalizing i with
  | nil => exact atMost_pure 0 ()
  | cons port ports ih =>
    have hlen : 322 * (port :: ports).length = 241 + (80 + (1 + 322 * ports.length)) := by
      rw [List.length_cons]
      omega
    unfold bdhctlPorts
    rw [hlen]
    apply atMost_bind (readWord_atMost i)
    intro r _
    apply atMost_bind (skipTrail_atMost r.2)
    intro i _
    exact atMost_bind (atMost_touch _) fun _ _ => ih i

theorem setNumbers_atMost (call : Nat → Int → SwRegCall) (ns : List Nat) (i : Nat) :
    AtMost (322 * ns.length) (setNumbers u call ns i) := by
  induction ns generalizing i with
  | nil => exact atMost_pure 0 ()
  | cons n ns ih =>
    have hlen : 322 * (n :: ns).length = 241 + (1 + (80 + 322 * ns.length)) := by
      rw [List.length_cons]
      omega
    unfold setNumbers
    rw [hlen]
    apply atMost_bind (readWord_atMost i)
    intro r _
    apply atMost_bind (atMost_touch _)
    intro _ _
    exact atMost_bind (skipTrail_atMost r.2) fun i _ => ih i

theorem derefUser_atMost (a : Nat) : AtMost 1 (derefUser u a) := by
  apply atMost_bind (n := 0) (atMost_touch _)
  intro _ _
  cases u.user a with
  | none => exact atMost_halt 0 _
  | some c => exact atMost_pure 0 c

theorem vlanMembers_atMost (n i : Nat) : AtMost (323 * n) (vlanMembers u n i) := by
  induction n generalizing i with
  | zero => exact atMost_pure 0 ()
  | succ n ih =>
    have hlen : 323 * (n + 1) = 80 + (1 + (1 + (241 + 323 * n))) := by omega
    unfold vlanMembers
    rw [hlen]
    apply atMost_bind (skipTrail_atMost i)
    intro next _
    apply atMost_bind (derefUser_atMost i)
    intro a _
    split_ifs
    · exact atMost_pure _ ()
    · apply atMost_bind (derefUser_atMost (i + 1))
      intro b _
      split_ifs
      · exact atMost_pure _ ()
      · exact atMost_bind (readWord_atMost next) fun r _ => ih r.2

theorem vlanSet_atMost (w : List Byte) (i : Nat) (setting : Option VlanSetting) :
    AtMost (1 + 323 * 6) (vlanSet u w i setting) := by
  have hcall : ∀ call : Int → SwRegCall, AtMost (1 + 323 * 6) (do
      let bit ← lastDigit u w
      touch (.call (call bit))) := by
    intro call
    exact atMost_bind (lastDigit_atMost w) fun _ _ => (atMost_touch _).mono (by decide)
  have hmembers : AtMost (1 + 323 * 6) (do
      let _ ← lastDigit u w
      vlanMembers u 6 i) :=
    atMost_bind (lastDigit_atMost w) fun _ _ => vlanMembers_atMost 6 i
  match setting with
  | none => exact atMost_pure _ ()
  | some .mode => exact hcall .setVlanmode
  | some .cpuPort =>
    unfold vlanSet
    split_ifs
    · exact (atMost_touch _).mono (by decide)
    · exact hcall .setCpuPort
  | some .filterAdd => exact hmembers
  | some .filterDel => exact hmembers

theorem setPortsBy_atMost (w : List Byte) (i : Nat) : AtMost (80 + 322 * 6) (setPortsBy u w i) := by
  have hset : ∀ call, AtMost (80 + 322 * 6) (do
      let i ← skipTrail u i
      setNumbers u call swPorts i
      pure (u.count : Int)) := by
    intro call
    apply atMost_bind (skipTrail_atMost i)
    intro i _
    exact atMost_bind (n := 0) (setNumbers_atMost call swPorts i) fun _ _ => atMost_pure 0 _
  unfold setPortsBy
  split_ifs
  · exact hset .setq
  · exact hset setFc
  · exact atMost_pure _ _

theorem storeMac_atMost (k len : Nat) : AtMost len (storeMac k len) := by
  induction len generalizing k with
  | zero => exact atMost_pure 0 ()
  | succ len ih =>
    unfold storeMac
    rw [Nat.add_comm]
    exact atMost_bind (atMost_touch _) fun _ _ => ih (k + 1)

theorem bdhctl_atMost : AtMost (241 + (80 + 322 * 6)) (ifxSwBdhctlWriteProc u) := by
  apply atMost_bind (readWord_atMost 0)
  intro r _
  dsimp only
  split_ifs
  · apply atMost_bind (skipTrail_atMost r.2)
    intro i _
    exact atMost_bind (n := 0) (bdhctlPorts_atMost _ swPorts i) fun _ _ => atMost_pure 0 _
  · exact atMost_pure _ _

theorem tcpudpctl_atMost :
    AtMost (241 + (1 + (80 + (241 + (80 + (241 + (80 + 1))))))) (ifxSwTcpudpctlWriteProc u) := by
  apply atMost_bind (readWord_atMost 0)
  intro f _
  apply atMost_bind (lastDigit_atMost f.1)
  intro fn _
  apply atMost_bind (skipTrail_atMost f.2)
  intro i _
  apply atMost_bind (readWord_atMost i)
  intro p _
  apply atMost_bind (skipTrail_atMost p.2)
  intro i _
  apply atMost_bind (readWord_atMost i)
  intro q _
  apply atMost_bind (skipTrail_atMost q.2)
  intro _ _
  exact call_atMost _ _

theorem qosctl_atMost : AtMost (241 + 1) (ifxSwQosctlWriteProc u) :=
  atMost_bind (readWord_atMost 0) fun _ _ => call_atMost _ _

theorem qctl_atMost : AtMost (322 * 4) (ifxSwQctlWriteProc u) :=
  atMost_bind (n := 0) (setNumbers_atMost .setQueueWeight [0, 1, 2, 3] 0) fun _ _ => atMost_pure 0 _

theorem pctl_atMost : AtMost (241 + (80 + 322 * 6)) (ifxSwPctlWriteProc u) :=
  atMost_bind (readWord_atMost 0) fun r _ => setPortsBy_atMost r.1 r.2

theorem igmpctl_atMost : AtMost (241 + (80 + (241 + (1 + 1)))) (ifxSwIgmpctlWriteProc u) := by
  have hbit : ∀ (call : Int → SwRegCall) (w : List Byte), AtMost (1 + 1) (do
      let bit ← lastDigit u w
      touch (.call (call bit))
      pure (u.count : Int)) := by
    intro call w
    exact atMost_bind (lastDigit_atMost w) fun _ _ => call_atMost _ _
  have harg : ∀ (call : Int → SwRegCall) (i : Nat), AtMost (80 + (241 + (1 + 1))) (do
      let i ← skipTrail u i
      let w ← readWord u i
      let bit ← lastDigit u w.1
      touch (.call (call bit))
      pure (u.count : Int)) := by
    intro call i
    apply atMost_bind (skipTrail_atMost i)
    intro i _
    exact atMost_bind (readWord_atMost i) fun r _ => hbit call r.1
  apply atMost_bind (readWord_atMost 0)
  intro r _
  dsimp only
  split_ifs
  · exact harg .setIgmpProxy r.2
  · exact harg .setAdditionalSnoopCtr r.2
  · exact (hbit .setIgmp r.1).mono (by decide)

theorem vlanctl_atMost :
    AtMost (241 + (80 + (241 + (1 + 323 * 6)))) (ifxSwVlanctlWriteProc u) := by
  apply atMost_bind (readWord_atMost 0)
  intro r _
  apply atMost_bind (skipTrail_atMost r.2)
  intro i _
  apply atMost_bind (readWord_atMost i)
  intro arg _
  exact atMost_bind (n := 0) (vlanSet_atMost arg.1 arg.2 _) fun _ _ => atMost_pure 0 _

theorem devctl_atMost : AtMost (241 + (80 + 322 * 6)) (ifxSwDevctlWriteProc u) := by
  apply atMost_bind (readWord_atMost 0)
  intro r _
  dsimp only
  split_ifs
  · have hmac : AtMost (80 + (241 + (80 + (80 + (241 + 1))))) (do
        let i ← skipTrail u r.2
        let mac ← readWord u i
        storeMac 0 mac.1.length
        let i ← skipTrail u mac.2
        let v ← readWord u i
        touch (.call (.setMacPriority mac.1 (strstr r.1 (ascii "ADD")) (simpleStrtoul v.1)))
        pure (u.count : Int)) := by
      apply atMost_bind (skipTrail_atMost r.2)
      intro i _
      apply atMost_bind (readWord_atMost i)
      intro mac hword
      have hlength : mac.1.length ≤ 80 := (readWord_length i).2 mac hword
      apply atMost_bind ((storeMac_atMost 0 mac.1.length).mono hlength)
      intro _ _
      apply atMost_bind (skipTrail_atMost mac.2)
      intro i _
      exact atMost_bind (readWord_atMost i) fun _ _ => call_atMost _ _
    exact hmac.mono (by decide)
  · exact setPortsBy_atMost r.1 r.2

/-- Every handler ends, after so many steps at most. -/
theorem write_atMost (p : SwProc) (u : ProcWrite) : AtMost 4096 (p.write u) := by
  cases p with
  | bdhctl => exact bdhctl_atMost.mono (by decide)
  | tcpudpctl => exact tcpudpctl_atMost.mono (by decide)
  | qosctl => exact qosctl_atMost.mono (by decide)
  | qctl => exact qctl_atMost.mono (by decide)
  | pctl => exact pctl_atMost.mono (by decide)
  | igmpctl => exact igmpctl_atMost.mono (by decide)
  | vlanctl => exact vlanctl_atMost.mono (by decide)
  | devctl => exact devctl_atMost.mono (by decide)

end Steps

/-- A write ends, and everything that it touches is inside. -/
structure ProcSafe (p : SwProc) (u : ProcWrite) : Prop where
  inside : ∀ t ∈ (p.write u).log, u.Ok t
  ends : (p.write u).log.length ≤ 4096

/-- A write is safe for the commands that fit and for no others. -/
theorem sw_proc_safe_iff (p : SwProc) (u : ProcWrite) : ProcSafe p u ↔ p.Fits u := by
  rw [← write_within p u]
  constructor
  · intro h
    exact h.inside
  · intro h
    exact ⟨h, write_atMost p u⟩

/-- A newline alone, with more of them behind it. -/
def emptyCommand : ProcWrite := ⟨fun _ => some 0x0a#8, 1, 0⟩

/-- The word of the IGMP control is empty, and the byte in front of `buf` is taken for its last. -/
theorem empty_igmp_unsafe : ¬ProcSafe .igmpctl emptyCommand := by
  intro h
  have hload : ProcTouch.load (-1) ∈ (SwProc.igmpctl.write emptyCommand).log := by
    have hlog : (SwProc.igmpctl.write emptyCommand).log =
        [.user 0, .store 0, .load (-1), .call (.setIgmp (-48))] := by rfl
    rw [hlog]
    exact List.mem_cons_of_mem _ (List.mem_cons_of_mem _ List.mem_cons_self)
  exact absurd (h.inside _ hload) (by decide : ¬(0 : Int) ≤ -1)

end DanubeBsp
