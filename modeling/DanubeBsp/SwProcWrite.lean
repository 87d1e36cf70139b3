import DanubeBsp.SwProcWords

namespace DanubeBsp

open Logged

/-- From port 0 to `ADM_SW_MAX_PORT_NUM`. -/
def swPorts : List Nat := [0, 1, 2, 3, 4, 5]

section Handlers

variable (u : ProcWrite)

def bdhctlPorts (txrx : Bool) : List Nat → Nat → SwParse Unit
  | [], _ => pure ()
  | port :: ports, i => do
    let (w, i) ← readWord u i
    let i ← skipTrail u i
    touch (.call (.setBndwth port txrx (simpleStrtoul w)))
    bdhctlPorts txrx ports i

def ifxSwBdhctlWriteProc : SwParse Int := do
  let (w, i) ← readWord u 0
  if strstr w (ascii "TX") ∨ strstr w (ascii "RX") then do
    let i ← skipTrail u i
    bdhctlPorts u (strstr w (ascii "TX")) swPorts i
    pure u.count
  else pure w.length

def ifxSwTcpudpctlWriteProc : SwParse Int := do
  let (w, i) ← readWord u 0
  let fn ← lastDigit u w
  let i ← skipTrail u i
  let (w, i) ← readWord u i
  let port := simpleStrtoul w
  let i ← skipTrail u i
  let (w, i) ← readWord u i
  let qno := simpleStrtoul w
  let _ ← skipTrail u i
  touch (.call (.setTcpudpFilter fn port qno))
  pure u.count

def ifxSwQosctlWriteProc : SwParse Int := do
  let (w, _) ← readWord u 0
  touch (.call (.setQosControl (strchr w 0x31#8)))
  pure u.count

/-- The loops over queues and ports that set one number after the other. -/
def setNumbers (call : Nat → Int → SwRegCall) : List Nat → Nat → SwParse Unit
  | [], _ => pure ()
  | n :: ns, i => do
    let (w, i) ← readWord u i
    touch (.call (call n (simpleStrtoul w)))
    let i ← skipTrail u i
    setNumbers call ns i

def ifxSwQctlWriteProc : SwParse Int := do
  setNumbers u .setQueueWeight [0, 1, 2, 3] 0
  pure u.count

def setFc (port : Nat) (value : Int) : SwRegCall :=
  if value ≠ 0 then .enaFc port else .disFc port

/-- What `pctl` and `devctl` do with the word `PP` or `FC`. -/
def setPortsBy (w : List Byte) (i : Nat) : SwParse Int :=
  if strstr w (ascii "PP") then do
    let i ← skipTrail u i
    setNumbers u .setq swPorts i
    pure u.count
  else if strstr w (ascii "FC") then do
    let i ← skipTrail u i
    setNumbers u setFc swPorts i
    pure u.count
  else pure w.length

def ifxSwPctlWriteProc : SwParse Int := do
  let (w, i) ← readWord u 0
  setPortsBy u w i

def ifxSwIgmpctlWriteProc : SwParse Int := do
  let (w, i) ← readWord u 0
  if strstr w (ascii "PROXY") then do
    let i ← skipTrail u i
    let (w, _) ← readWord u i
    let bit ← lastDigit u w
    touch (.call (.setIgmpProxy bit))
    pure u.count
  else if strstr w (ascii "AD_SNOOP") then do
    let i ← skipTrail u i
    let (w, _) ← readWord u i
    let bit ← lastDigit u w
    touch (.call (.setAdditionalSnoopCtr bit))
    pure u.count
  else do
    let bit ← lastDigit u w
    touch (.call (.setIgmp bit))
    pure u.count

inductive VlanSetting where
  | mode
  | cpuPort
  | filterAdd
  | filterDel

def vlanSettingType (w : List Byte) : Option VlanSetting :=
  if strstr w (ascii "mode") then some .mode
  else if strstr w (ascii "cpu") then some .cpuPort
  else if strstr w (ascii "filter_add") then some .filterAdd
  else if strstr w (ascii "filter_del") then some .filterDel
  else none

/-- `buffer[a]`. A byte that cannot be read is an oops. -/
def derefUser (a : Nat) : SwParse Byte := do
  touch (.deref a)
  match u.user a with
  | none => halt eFault
  | some c => pure c

/-- The members of a filter are read and, for now, not used. -/
def vlanMembers : Nat → Nat → SwParse Unit
  | 0, _ => pure ()
  | n + 1, i => do
    let next ← skipTrail u i
    let a ← derefUser u i
    if a = 0 then pure ()
    else do
      let b ← derefUser u (i + 1)
      if b = 0 then pure ()
      else do
        let (_, i) ← readWord u next
        vlanMembers n i

def vlanSet (w : List Byte) (i : Nat) : Option VlanSetting → SwParse Unit
  | some .mode => do
    let bit ← lastDigit u w
    touch (.call (.setVlanmode bit))
  | some .cpuPort =>
    if strstr w (ascii "disable") then touch (.call .disableCpuPort)
    else do
      let port ← lastDigit u w
      touch (.call (.setCpuPort port))
  | some .filterAdd => do
    let _ ← lastDigit u w
    vlanMembers u 6 i
  | some .filterDel => do
    let _ ← lastDigit u w
    vlanMembers u 6 i
  | none => pure ()

def ifxSwVlanctlWriteProc : SwParse Int := do
  let (w, i) ← readWord u 0
  let setting := vlanSettingType w
  let i ← skipTrail u i
  let (w, i) ← readWord u i
  vlanSet u w i setting
  pure u.count

/-- `memcpy(mac + k, buf, len)`. -/
def storeMac (k : Nat) : Nat → SwParse Unit
  | 0 => pure ()
  | len + 1 => do
    touch (.mac k)
    storeMac (k + 1) len

def ifxSwDevctlWriteProc : SwParse Int := do
  let (w, i) ← readWord u 0
  if strstr w (ascii "ADD") ∨ strstr w (ascii "DEL") then do
    let i ← skipTrail u i
    let (mac, i) ← readWord u i
    storeMac 0 mac.length
    let i ← skipTrail u i
    let (v, _) ← readWord u i
    touch (.call (.setMacPriority mac (strstr w (ascii "ADD")) (simpleStrtoul v)))
    pure u.count
  else setPortsBy u w i

end Handlers

inductive SwProc where
  | bdhctl
  | tcpudpctl
  | qosctl
  | qctl
  | pctl
  | igmpctl
  | vlanctl
  | devctl

def SwProc.write (u : ProcWrite) : SwProc → SwParse Int
  | bdhctl => ifxSwBdhctlWriteProc u
  | tcpudpctl => ifxSwTcpudpctlWriteProc u
  | qosctl => ifxSwQosctlWriteProc u
  | qctl => ifxSwQctlWriteProc u
  | pctl => ifxSwPctlWriteProc u
  | igmpctl => ifxSwIgmpctlWriteProc u
  | vlanctl => ifxSwVlanctlWriteProc u
  | devctl => ifxSwDevctlWriteProc u

section Commands

variable (u : ProcWrite)

/-- A number below `n`. -/
def NumberBelow (n : Int) (w : List Byte) : Prop := 0 ≤ simpleStrtoul w ∧ simpleStrtoul w < n

/-- The last character is a digit below `n`. -/
def DigitBelow (n : Nat) (w : List Byte) : Prop :=
  ∃ c, w.getLast? = some c ∧ 48 ≤ c.toNat ∧ c.toNat < 48 + n

/-- So many words, each with a gap behind it and in `ok`. -/
def FieldsThen (ok : List Byte → Prop) : Nat → Nat → Prop
  | 0, _ => True
  | n + 1, i => WordThen u i fun w i => ok w ∧ GapThen u i fun i => FieldsThen ok n i

/-- The ports of `PP` have queue numbers. -/
def PortsFit (w : List Byte) (i : Nat) : Prop :=
  if strstr w (ascii "PP") then GapThen u i fun i => FieldsThen u (NumberBelow 4) 6 i
  else if strstr w (ascii "FC") then GapThen u i fun i => FieldsThen u (fun _ => True) 6 i
  else True

def BandwidthFits : Prop :=
  WordThen u 0 fun w i =>
    if strstr w (ascii "TX") ∨ strstr w (ascii "RX") then
      GapThen u i fun i => FieldsThen u (fun _ => True) 6 i
    else True

def QosFits : Prop := WordThen u 0 fun _ _ => True

def QueueFits : Prop := FieldsThen u (fun _ => True) 4 0

def PortFits : Prop := WordThen u 0 fun w i => PortsFit u w i

/-- A filter name that ends, a service port and a queue number. -/
def TcpudpFits : Prop :=
  WordThen u 0 fun f i => f ≠ [] ∧
    GapThen u i fun i => WordThen u i fun p i =>
      GapThen u i fun i => WordThen u i fun q i =>
        GapThen u i fun _ => DigitBelow 8 f ∧ NumberBelow 65536 p ∧ NumberBelow 4 q

def IgmpFits : Prop :=
  WordThen u 0 fun w i =>
    if strstr w (ascii "PROXY") ∨ strstr w (ascii "AD_SNOOP") then
      GapThen u i fun i => WordThen u i fun w _ => w ≠ []
    else w ≠ []

/-- A member has two characters in front of it that are not zero, or there is none any more. -/
def MembersThen : Nat → Nat → Prop
  | 0, _ => True
  | n + 1, i => GapThen u i fun next => ∃ a, (i < u.count ∧ u.user i = some a) ∧ (a ≠ 0 →
      ∃ b, (i + 1 < u.count ∧ u.user (i + 1) = some b) ∧ (b ≠ 0 →
        WordThen u next fun _ i => MembersThen n i))

def VlanFits : Prop :=
  WordThen u 0 fun w i => GapThen u i fun i => WordThen u i fun arg i =>
    match vlanSettingType w with
    | some .mode => arg ≠ []
    | some .cpuPort => strstr arg (ascii "disable") ∨ DigitBelow 6 arg
    | some .filterAdd => arg ≠ [] ∧ MembersThen u 6 i
    | some .filterDel => arg ≠ [] ∧ MembersThen u 6 i
    | none => True

def DevFits : Prop :=
  WordThen u 0 fun w i =>
    if strstr w (ascii "ADD") ∨ strstr w (ascii "DEL") then
      GapThen u i fun i => WordThen u i fun mac i => mac.length ≤ macSize ∧
        GapThen u i fun i => WordThen u i fun _ _ => True
    else PortsFit u w i

/-- The commands that a handler parses inside its buffers. -/
def SwProc.Fits : SwProc → Prop
  | bdhctl => BandwidthFits u
  | tcpudpctl => TcpudpFits u
  | qosctl => QosFits u
  | qctl => QueueFits u
  | pctl => PortFits u
  | igmpctl => IgmpFits u
  | vlanctl => VlanFits u
  | devctl => DevFits u

end Commands

section Parses

variable {u : ProcWrite}

/-- A handler that goes on with a word. -/
theorem within_word {α : Type} {f : List Byte × Nat → SwParse α} {i : Nat} {R : α → Prop}
    {Q : List Byte → Nat → Prop} (h : ∀ w j, Within u.Ok (f (w, j)) R ↔ Q w j) :
    Within u.Ok (readWord u i >>= f) R ↔ WordThen u i Q := by
  have heq : (fun w j => Within u.Ok (f (w, j)) R) = Q :=
    funext fun w => funext fun j => propext (h w j)
  rw [within_bind, readWord_within, heq]

/-- A handler that goes on behind a gap. -/
theorem within_gap {α : Type} {f : Nat → SwParse α} {i : Nat} {R : α → Prop} {Q : Nat → Prop}
    (h : ∀ j, Within u.Ok (f j) R ↔ Q j) : Within u.Ok (skipTrail u i >>= f) R ↔ GapThen u i Q := by
  have heq : (fun j => Within u.Ok (f j) R) = Q := funext fun j => propext (h j)
  rw [within_bind, skipTrail_within, heq]

theorem call_within (c : SwRegCall) (Q : Unit → Prop) :
    Within u.Ok (touch (.call c) : SwParse Unit) Q ↔ c.Valid ∧ Q () :=
  within_touch _

theorem bdhctlPorts_within (txrx : Bool) {ports : List Nat} (hports : ∀ port ∈ ports, port ≤ 5)
    (i : Nat) : Within u.Ok (bdhctlPorts u txrx ports i) (fun _ => True) ↔
      FieldsThen u (fun _ => True) ports.length i := by
  induction ports generalizing i with
  | nil => exact within_pure ()
  | cons port ports ih =>
    have hvalid : (SwRegCall.setBndwth port txrx 0).Valid := hports port List.mem_cons_self
    unfold bdhctlPorts
    apply within_word
    intro w i
    rw [true_and]
    apply within_gap
    intro i
    rw [within_bind, call_within, ih fun port hport => hports port (List.mem_cons_of_mem _ hport)]
    exact and_iff_right hvalid

theorem setNumbers_within {call : Nat → Int → SwRegCall} {ok : List Byte → Prop} {ns : List Nat}
    (hcall : ∀ n ∈ ns, ∀ w, (call n (simpleStrtoul w)).Valid ↔ ok w) (i : Nat) :
    Within u.Ok (setNumbers u call ns i) (fun _ => True) ↔ FieldsThen u ok ns.length i := by
  induction ns generalizing i with
  | nil => exact within_pure ()
  | cons n ns ih =>
    unfold setNumbers
    apply within_word
    intro w i
    rw [within_bind, call_within, hcall n List.mem_cons_self w]
    apply and_congr_right
    intro _
    apply within_gap
    intro i
    exact ih (fun n hn => hcall n (List.mem_cons_of_mem _ hn)) i

/-- A handler ends with its count. -/
theorem within_count {c : SwParse Unit} (count : Int) :
    Within u.Ok (c >>= fun _ => pure count) (fun _ => True) ↔ Within u.Ok c fun _ => True := by
  rw [within_bind]
  apply within_congr
  intro a
  exact within_pure count

theorem swPorts_le : ∀ port ∈ swPorts, port ≤ 5 := by
  decide

theorem setPortsBy_within (w : List Byte) (i : Nat) :
    Within u.Ok (setPortsBy u w i) (fun _ => True) ↔ PortsFit u w i := by
  have hsetq : ∀ n ∈ swPorts, ∀ w, (SwRegCall.setq n (simpleStrtoul w)).Valid ↔ NumberBelow 4 w := by
    intro n hn w
    exact and_iff_right (swPorts_le n hn)
  have hfc : ∀ n ∈ swPorts, ∀ w, (setFc n (simpleStrtoul w)).Valid ↔ True := by
    intro n hn w
    unfold setFc
    split_ifs
    · exact iff_true_intro (swPorts_le n hn)
    · exact iff_true_intro (swPorts_le n hn)
  unfold setPortsBy PortsFit
  apply within_ite
  · apply within_gap
    intro i
    rw [within_count, setNumbers_within hsetq]
    rfl
  · apply within_ite
    · apply within_gap
      intro i
      rw [within_count, setNumbers_within hfc]
      rfl
    · exact within_pure _

/-- The last character minus `'0'`, as a number in a range. -/
theorem digit_valid {w : List Byte} (hw : w ≠ []) (b : Byte) {n : Nat} (hn : n ≤ 10) :
    (0 ≤ (w.getLast?.getD b).toInt - 48 ∧ (w.getLast?.getD b).toInt - 48 < n) ↔ DigitBelow n w := by
  have hlast : w.getLast? = some (w.getLast hw) := List.getLast?_eq_some_getLast hw
  have hlt := (w.getLast hw).isLt
  have hint := BitVec.toInt_eq_toNat_cond (w.getLast hw)
  unfold DigitBelow
  rw [hlast]
  simp only [Option.getD_some, Option.some.injEq, exists_eq_left']
  rw [hint]
  split_ifs <;> omega

theorem bdhctl_within : Within u.Ok (ifxSwBdhctlWriteProc u) (fun _ => True) ↔ BandwidthFits u := by
  unfold ifxSwBdhctlWriteProc
  apply within_word
  intro w i
  apply within_ite
  · apply within_gap
    intro i
    rw [within_count, bdhctlPorts_within _ swPorts_le]
    rfl
  · exact within_pure _

theorem tcpudpctl_within : Within u.Ok (ifxSwTcpudpctlWriteProc u) (fun _ => True) ↔ TcpudpFits u := by
  unfold ifxSwTcpudpctlWriteProc
  apply within_word
  intro f i
  rw [within_bind, lastDigit_within]
  apply and_congr_right
  intro hf
  apply within_gap
  intro i
  apply within_word
  intro p i
  apply within_gap
  intro i
  apply within_word
  intro q i
  apply within_gap
  intro i
  rw [within_count, call_within, and_true]
  exact and_congr (digit_valid hf u.before (by decide)) (Iff.rfl)

theorem qosctl_within : Within u.Ok (ifxSwQosctlWriteProc u) (fun _ => True) ↔ QosFits u := by
  unfold ifxSwQosctlWriteProc
  apply within_word
  intro w i
  rw [within_count, call_within]
  exact iff_of_true ⟨trivial, trivial⟩ trivial

theorem qctl_within : Within u.Ok (ifxSwQctlWriteProc u) (fun _ => True) ↔ QueueFits u := by
  have hcall : ∀ n ∈ [0, 1, 2, 3], ∀ w, (SwRegCall.setQueueWeight n (simpleStrtoul w)).Valid ↔ True := by
    intro n hn w
    have hlt : ∀ n ∈ [0, 1, 2, 3], n < 4 := by decide
    exact iff_true_intro (hlt n hn)
  unfold ifxSwQctlWriteProc
  rw [within_count, setNumbers_within hcall]
  rfl

theorem pctl_within : Within u.Ok (ifxSwPctlWriteProc u) (fun _ => True) ↔ PortFits u := by
  unfold ifxSwPctlWriteProc
  apply within_word
  intro w i
  exact setPortsBy_within w i

theorem igmpctl_within : Within u.Ok (ifxSwIgmpctlWriteProc u) (fun _ => True) ↔ IgmpFits u := by
  have hbit : ∀ (call : Int → SwRegCall), (∀ bit, (call bit).Valid) → ∀ w, Within u.Ok (do
      let bit ← lastDigit u w
      touch (.call (call bit))
      pure (u.count : Int)) (fun _ => True) ↔ w ≠ [] := by
    intro call hcall w
    rw [within_bind, lastDigit_within, within_count, call_within]
    exact and_iff_left ⟨hcall _, trivial⟩
  have harg : ∀ (call : Int → SwRegCall), (∀ bit, (call bit).Valid) → ∀ i, Within u.Ok (do
      let i ← skipTrail u i
      let (w, _) ← readWord u i
      let bit ← lastDigit u w
      touch (.call (call bit))
      pure (u.count : Int)) (fun _ => True) ↔ GapThen u i fun i => WordThen u i fun w _ => w ≠ [] := by
    intro call hcall i
    apply within_gap
    intro i
    apply within_word
    intro w i
    exact hbit call hcall w
  unfold ifxSwIgmpctlWriteProc IgmpFits
  apply within_word
  intro w i
  dsimp only
  by_cases hproxy : strstr w (ascii "PROXY") = true
  · rw [if_pos hproxy, if_pos (Or.inl hproxy)]
    exact harg .setIgmpProxy (fun _ => trivial) i
  · rw [if_neg hproxy]
    by_cases hsnoop : strstr w (ascii "AD_SNOOP") = true
    · rw [if_pos hsnoop, if_pos (Or.inr hsnoop)]
      exact harg .setAdditionalSnoopCtr (fun _ => trivial) i
    · rw [if_neg hsnoop, if_neg (not_or.mpr ⟨hproxy, hsnoop⟩)]
      exact hbit .setIgmp (fun _ => trivial) w

theorem derefUser_within (a : Nat) (Q : Byte → Prop) : Within u.Ok (derefUser u a) Q ↔
    ∃ c, (a < u.count ∧ u.user a = some c) ∧ Q c := by
  unfold derefUser
  rw [within_bind, within_touch]
  cases hc : u.user a with
  | none =>
    constructor
    · intro h
      obtain ⟨c, hsome⟩ := h.1.2
      rw [hc] at hsome
      cases hsome
    · intro h
      obtain ⟨c, ⟨_, hsome⟩, _⟩ := h
      cases hsome
  | some c =>
    constructor
    · intro h
      exact ⟨c, ⟨h.1.1, rfl⟩, (within_pure c).mp h.2⟩
    · intro h
      obtain ⟨c', ⟨hlt, hsome⟩, hq⟩ := h
      cases hsome
      exact ⟨⟨hlt, c, hc⟩, (within_pure c).mpr hq⟩

theorem vlanMembers_within (n i : Nat) :
    Within u.Ok (vlanMembers u n i) (fun _ => True) ↔ MembersThen u n i := by
  induction n generalizing i with
  | zero => exact within_pure ()
  | succ n ih =>
    unfold vlanMembers MembersThen
    apply within_gap
    intro next
    rw [within_bind, derefUser_within]
    apply exists_congr
    intro a
    apply and_congr_right
    intro _
    by_cases ha : a = 0
    · rw [if_pos ha]
      exact iff_of_true ((within_pure ()).mpr trivial) (fun hne => absurd ha hne)
    · rw [if_neg ha, within_bind, derefUser_within, imp_iff_right ha]
      apply exists_congr
      intro b
      apply and_congr_right
      intro _
      by_cases hb : b = 0
      · rw [if_pos hb]
        exact iff_of_true ((within_pure ()).mpr trivial) (fun hne => absurd hb hne)
      · rw [if_neg hb, imp_iff_right hb]
        apply within_word
        intro w i
        exact ih i

theorem vlanSet_within (w : List Byte) (i : Nat) (setting : Option VlanSetting) :
    Within u.Ok (vlanSet u w i setting) (fun _ => True) ↔
      match setting with
      | some .mode => w ≠ []
      | some .cpuPort => strstr w (ascii "disable") ∨ DigitBelow 6 w
      | some .filterAdd => w ≠ [] ∧ MembersThen u 6 i
      | some .filterDel => w ≠ [] ∧ MembersThen u 6 i
      | none => True := by
  have hmembers : Within u.Ok (do
      let _ ← lastDigit u w
      vlanMembers u 6 i) (fun _ => True) ↔ w ≠ [] ∧ MembersThen u 6 i := by
    rw [within_bind, lastDigit_within, vlanMembers_within]
  match setting with
  | none => exact within_pure ()
  | some .mode =>
    unfold vlanSet
    rw [within_bind, lastDigit_within, call_within]
    exact and_iff_left ⟨trivial, trivial⟩
  | some .cpuPort =>
    unfold vlanSet
    by_cases hdisable : strstr w (ascii "disable") = true
    · rw [if_pos hdisable, call_within]
      exact iff_of_true ⟨trivial, trivial⟩ (Or.inl hdisable)
    · rw [if_neg hdisable, within_bind, lastDigit_within, call_within, and_true]
      constructor
      · intro h
        have hdigit := digit_valid h.1 u.before (by decide : 6 ≤ 10)
        exact Or.inr (hdigit.mp ⟨h.2.1, Int.lt_add_one_of_le h.2.2⟩)
      · intro h
        have hdigit := h.resolve_left hdisable
        have hne : w ≠ [] := by
          obtain ⟨c, hc, _⟩ := hdigit
          intro hnil
          rw [hnil] at hc
          cases hc
        have hrange := (digit_valid hne u.before (by decide : 6 ≤ 10)).mpr hdigit
        exact ⟨hne, hrange.1, Int.le_of_lt_add_one hrange.2⟩
  | some .filterAdd => exact hmembers
  | some .filterDel => exact hmembers

theorem vlanctl_within : Within u.Ok (ifxSwVlanctlWriteProc u) (fun _ => True) ↔ VlanFits u := by
  unfold ifxSwVlanctlWriteProc
  apply within_word
  intro w i
  apply within_gap
  intro i
  apply within_word
  intro arg i
  rw [within_count, vlanSet_within]

theorem storeMac_within (k len : Nat) (Q : Unit → Prop) : Within u.Ok (storeMac k len) Q ↔
    (len = 0 ∨ k + len ≤ macSize) ∧ Q () := by
  induction len generalizing k with
  | zero =>
    unfold storeMac
    rw [within_pure]
    exact (and_iff_right (Or.inl rfl)).symm
  | succ len ih =>
    unfold storeMac
    rw [within_bind, within_touch, ih]
    show k < macSize ∧ _ ↔ _
    have hsize : macSize = 20 := rfl
    constructor
    · intro h
      refine ⟨Or.inr ?_, h.2.2⟩
      have hk := h.1
      have hrest := h.2.1
      omega
    · intro h
      have hroom := h.1
      refine ⟨?_, ?_, h.2⟩ <;> omega

theorem devctl_within : Within u.Ok (ifxSwDevctlWriteProc u) (fun _ => True) ↔ DevFits u := by
  unfold ifxSwDevctlWriteProc
  apply within_word
  intro w i
  apply within_ite
  · apply within_gap
    intro i
    apply within_word
    intro mac i
    have hroom : mac.length = 0 ∨ 0 + mac.length ≤ macSize ↔ mac.length ≤ macSize := by omega
    rw [within_bind, storeMac_within, hroom]
    apply and_congr_right
    intro _
    apply within_gap
    intro i
    apply within_word
    intro v i
    rw [within_count, call_within]
    exact iff_of_true ⟨trivial, trivial⟩ trivial
  · exact setPortsBy_within w i

end Parses

/-- A handler stays inside for exactly the commands that fit. -/
theorem write_within (p : SwProc) (u : ProcWrite) : (∀ t ∈ (p.write u).log, u.Ok t) ↔ p.Fits u := by
  rw [← within_true]
  cases p with
  | bdhctl => exact bdhctl_within
  | tcpudpctl => exact tcpudpctl_within
  | qosctl => exact qosctl_within
  | qctl => exact qctl_within
  | pctl => exact pctl_within
  | igmpctl => exact igmpctl_within
  | vlanctl => exact vlanctl_within
  | devctl => exact devctl_within

end DanubeBsp
