import DanubeBsp.DeuModes

namespace DanubeBsp

/-- The processor's interrupt enable and the two cipher units. -/
structure DeuCpu where
  irq : Bool
  aes : AesUnit
  des : CipherUnit

/-- A call that sets a key; for AES with the `KV` bit that the engine shows. -/
inductive SetKeyCall
  | aes (inKey : Nat → Byte) (keyLen : Nat) (flags : Word) (kv : Bool)
  | des (key : Nat → Byte) (keylen : Nat) (flags : Word)
  | des3 (key : Nat → Byte) (keylen : Nat) (flags : Word)

namespace DeuCpu

def localIrqSave (s : DeuCpu) : DeuCpu := { s with irq := false }

def localIrqRestore (s : DeuCpu) (flag : Bool) : DeuCpu := { s with irq := flag }

/-- Every error of `aes_set_key` returns between `local_irq_save` and `local_irq_restore`. -/
def aesSetKeyIrq (core : DeuCore) (s : DeuCpu) (inKey : Nat → Byte) (keyLen : Nat) (flags : Word) :
    DeuCpu × DeuOut :=
  let flag := s.irq
  let s := s.localIrqSave
  let r := aesSetKey core s.aes inKey keyLen flags
  let s := { s with aes := r.1 }
  if r.2.succeeded then (s.localIrqRestore flag, r.2) else (s, r.2)

/-- `setkey` of DES checks the key while the interrupts are restored. -/
def desSetkeyIrq (s : DeuCpu) (key : Nat → Byte) (keylen : Nat) (flags : Word) : DeuCpu × DeuOut :=
  let flag := s.irq
  let s := s.localIrqSave
  let r := desSetkey s.des key keylen flags
  (localIrqRestore { s with des := r.1 } flag, r.2)

/-- The `default` of the `switch` in `des3_ede_setkey` returns with the interrupts off. -/
def des3EdeSetkeyIrq (s : DeuCpu) (key : Nat → Byte) (keylen : Nat) (flags : Word) :
    DeuCpu × DeuOut :=
  let flag := s.irq
  let s := s.localIrqSave
  let r := des3EdeSetkey s.des key keylen flags
  let s := { s with des := r.1 }
  if r.2.succeeded then (s.localIrqRestore flag, r.2) else (s, r.2)

def setKey (core : DeuCore) (s : DeuCpu) : SetKeyCall → DeuCpu × DeuOut
  | .aes inKey keyLen flags kv =>
    s.aesSetKeyIrq { core with keyValid := fun _ => kv } inKey keyLen flags
  | .des key keylen flags => s.desSetkeyIrq key keylen flags
  | .des3 key keylen flags => s.des3EdeSetkeyIrq key keylen flags

end DeuCpu

structure KeyRegs where
  aesK : Nat
  aesKey : Nat → Word
  desM : Nat
  desKey : Nat → Word

def DeuCpu.keyRegs (s : DeuCpu) : KeyRegs := ⟨s.aes.sel, s.aes.key, s.des.sel, s.des.key⟩

/-- The units, together with what the last call that succeeded left in the key registers. -/
structure KeySys where
  cpu : DeuCpu
  left : KeyRegs

def keyStart (cpu : DeuCpu) : KeySys := ⟨cpu, cpu.keyRegs⟩

/-- Between the calls the rest of the system switches the interrupts on and off. -/
inductive KeyEvent
  | irq (on : Bool)
  | setKey (call : SetKeyCall)

def keyStep (core : DeuCore) (s : KeySys) : KeyEvent → Option KeySys
  | .irq on => some { s with cpu := { s.cpu with irq := on } }
  | .setKey call =>
    let r := s.cpu.setKey core call
    some ⟨r.1, if r.2.succeeded then r.1.keyRegs else s.left⟩

/-- The first two or the last two parts of a 24-byte key are equal. -/
def EqualParts (key : Nat → Byte) : Prop :=
  (∀ i < 8, key i = key (8 + i)) ∨ ∀ i < 8, key (8 + i) = key (16 + i)

/-- A 3DES key that has to be refused. -/
def SetKeyCall.Degenerate : SetKeyCall → Prop
  | .des3 key keylen _ => keylen = 24 ∧ EqualParts key
  | _ => False

/-- A call that fails leaves the interrupts as they were and the key registers as the last call that
succeeded left them, and it does fail for a degenerate key. -/
def RejectedKeeps (core : DeuCore) (s : KeySys) : KeyEvent → Prop
  | .irq _ => True
  | .setKey call =>
    ((s.cpu.setKey core call).2.succeeded = false →
      (s.cpu.setKey core call).1.irq = s.cpu.irq ∧
        (s.cpu.setKey core call).1.keyRegs = s.left) ∧
      (call.Degenerate → (s.cpu.setKey core call).2.succeeded = false)

def aesK (keyLen : Nat) : Nat := (BitVec.ofNat 2 (keyLen / 8) - 2#2).toNat

def AesKeyLen (keyLen : Nat) : Prop := keyLen = 16 ∨ keyLen = 24 ∨ keyLen = 32

/-- The calls of an error path that changes nothing: the AES call has to find the interrupts off, its
own value in `K` and, where it gets so far, its own key in the registers; DES has to find `M` at 0; 3DES
has to find the interrupts off. -/
def KeyUntouched (s : KeySys) : KeyEvent → Prop
  | .irq _ => True
  | .setKey (.aes inKey keyLen _ kv) =>
    AesKeyLen keyLen ∧ kv = true ∨
      s.cpu.irq = false ∧ s.cpu.aes.sel = aesK keyLen ∧
        (AesKeyLen keyLen →
          (aesWords (aesK keyLen)).map s.cpu.aes.key = wordsFrom inKey 0 (keyLen / 4))
  | .setKey (.des key keylen flags) =>
    keylen = 8 ∧ desWeak key flags = false ∨ s.cpu.des.sel = 0
  | .setKey (.des3 key keylen _) =>
    ((keylen = 24 ∨ keylen = 16 ∨ keylen = 8) ∨ s.cpu.irq = false) ∧
      ¬(keylen = 24 ∧ EqualParts key)

theorem loadKey_eq_self_iff {inKey : Nat → Byte} {rs : List Nat} (hnd : rs.Nodup) (i : Nat)
    (key : Nat → Word) :
    loadKey inKey i rs key = key ↔ rs.map key = wordsFrom inKey i rs.length := by
  constructor
  · intro h
    rw [← map_loadKey hnd i key, h]
  · intro h
    clear hnd
    induction rs generalizing i with
    | nil => rfl
    | cons r rs ih =>
      rw [wordsFrom, List.length_cons, List.range'_succ, List.map_cons, List.map_cons,
        List.cons.injEq] at h
      rw [loadKey, ← h.1, Function.update_eq_self]
      exact ih (i + 1) h.2

theorem aesWords_length {keyLen : Nat} (h : AesKeyLen keyLen) :
    (aesWords (aesK keyLen)).length = keyLen / 4 := by
  rcases h with rfl | rfl | rfl
  · decide
  · decide
  · decide

section

variable (core : DeuCore) (s : DeuCpu)

theorem aesSetKey_badLen (inKey : Nat → Byte) {keyLen : Nat} (flags : Word) (kv : Bool)
    (hlen : ¬AesKeyLen keyLen) :
    (s.setKey core (.aes inKey keyLen flags kv)).2.succeeded = false ∧
      (s.setKey core (.aes inKey keyLen flags kv)).1.irq = false ∧
      (s.setKey core (.aes inKey keyLen flags kv)).1.keyRegs =
        { s.keyRegs with aesK := aesK keyLen } := by
  have hbad : keyLen ≠ 16 ∧ keyLen ≠ 24 ∧ keyLen ≠ 32 := by
    unfold AesKeyLen at hlen
    omega
  simp only [DeuCpu.setKey, DeuCpu.aesSetKeyIrq, aesSetKey]
  rw [if_pos hbad]
  exact ⟨rfl, rfl, rfl⟩

theorem aesSetKey_goodLen (inKey : Nat → Byte) {keyLen : Nat} (flags : Word) (kv : Bool)
    (hlen : AesKeyLen keyLen) :
    (s.setKey core (.aes inKey keyLen flags kv)).2.succeeded = kv ∧
      (kv = false → (s.setKey core (.aes inKey keyLen flags kv)).1.irq = false ∧
        (s.setKey core (.aes inKey keyLen flags kv)).1.keyRegs =
          { s.keyRegs with
            aesK := aesK keyLen
            aesKey := loadKey inKey 0 (aesWords (aesK keyLen)) s.aes.key }) := by
  have hgood : ¬(keyLen ≠ 16 ∧ keyLen ≠ 24 ∧ keyLen ≠ 32) := by
    unfold AesKeyLen at hlen
    omega
  simp only [DeuCpu.setKey, DeuCpu.aesSetKeyIrq, aesSetKey]
  rw [if_neg hgood]
  cases kv with
  | true => exact ⟨rfl, fun h => absurd h (by decide)⟩
  | false => exact ⟨rfl, fun _ => ⟨rfl, rfl⟩⟩

theorem desSetkey_call (key : Nat → Byte) (keylen : Nat) (flags : Word) :
    ((s.setKey core (.des key keylen flags)).2.succeeded = true ↔
        keylen = 8 ∧ desWeak key flags = false) ∧
      (s.setKey core (.des key keylen flags)).1.irq = s.irq ∧
      ((s.setKey core (.des key keylen flags)).2.succeeded = false →
        (s.setKey core (.des key keylen flags)).1.keyRegs = { s.keyRegs with desM := 0 }) := by
  simp only [DeuCpu.setKey, DeuCpu.desSetkeyIrq, desSetkey]
  by_cases hlen : keylen ≠ 8
  · rw [if_pos hlen]
    exact ⟨iff_of_false Bool.false_ne_true fun h => hlen h.1, rfl, fun _ => rfl⟩
  · rw [if_neg hlen]
    cases hweak : desWeak key flags with
    | true => exact ⟨iff_of_false Bool.false_ne_true fun h => Bool.false_ne_true h.2.symm, rfl,
        fun _ => rfl⟩
    | false =>
      exact ⟨iff_of_true rfl ⟨not_not.mp hlen, rfl⟩, rfl, fun h => absurd h.symm Bool.false_ne_true⟩

theorem des3EdeSetkey_call (key : Nat → Byte) (keylen : Nat) (flags : Word) :
    ((s.setKey core (.des3 key keylen flags)).2.succeeded = true ↔
        keylen = 24 ∨ keylen = 16 ∨ keylen = 8) ∧
      ((s.setKey core (.des3 key keylen flags)).2.succeeded = false →
        (s.setKey core (.des3 key keylen flags)).1.irq = false ∧
          (s.setKey core (.des3 key keylen flags)).1.keyRegs = s.keyRegs) := by
  simp only [DeuCpu.setKey, DeuCpu.des3EdeSetkeyIrq, des3EdeSetkey]
  by_cases hlen : keylen = 24 ∨ keylen = 16 ∨ keylen = 8
  · rw [if_pos hlen]
    exact ⟨iff_of_true rfl hlen, fun h => absurd h.symm Bool.false_ne_true⟩
  · rw [if_neg hlen]
    exact ⟨iff_of_false Bool.false_ne_true hlen, fun _ => ⟨rfl, rfl⟩⟩

end

theorem rejectedKeeps_aes_iff (core : DeuCore) {s : KeySys} (hleft : s.left = s.cpu.keyRegs)
    (inKey : Nat → Byte) (keyLen : Nat) (flags : Word) (kv : Bool) :
    RejectedKeeps core s (.setKey (.aes inKey keyLen flags kv)) ↔
      KeyUntouched s (.setKey (.aes inKey keyLen flags kv)) := by
  unfold RejectedKeeps KeyUntouched
  dsimp only
  rw [hleft]
  by_cases hlen : AesKeyLen keyLen
  · obtain ⟨hout, hregs⟩ := aesSetKey_goodLen core s.cpu inKey flags kv hlen
    cases kv with
    | true =>
      exact iff_of_true ⟨fun h => absurd (hout.symm.trans h) (by decide), False.elim⟩
        (Or.inl ⟨hlen, rfl⟩)
    | false =>
      obtain ⟨hirq, hregs⟩ := hregs rfl
      rw [hirq, hregs]
      have hload := @loadKey_eq_self_iff inKey _ (aesWords_nodup (aesK keyLen)) 0 s.cpu.aes.key
      rw [aesWords_length hlen] at hload
      constructor
      · rintro ⟨hkeep, _⟩
        obtain ⟨hoff, hkept⟩ := hkeep hout
        have hK : aesK keyLen = s.cpu.aes.sel := congrArg KeyRegs.aesK hkept
        exact Or.inr ⟨hoff.symm, hK.symm, fun _ => hload.mp (congrArg KeyRegs.aesKey hkept)⟩
      · rintro (⟨_, hkv⟩ | ⟨hoff, hK, hkey⟩)
        · exact absurd hkv (by decide)
        · refine ⟨fun _ => ⟨hoff.symm, ?_⟩, False.elim⟩
          rw [hload.mpr (hkey hlen), ← hK]
          rfl
  · obtain ⟨hout, hirq, hregs⟩ := aesSetKey_badLen core s.cpu inKey flags kv hlen
    rw [hirq, hregs]
    constructor
    · rintro ⟨hkeep, _⟩
      obtain ⟨hoff, hkept⟩ := hkeep hout
      have hK : aesK keyLen = s.cpu.aes.sel := congrArg KeyRegs.aesK hkept
      exact Or.inr ⟨hoff.symm, hK.symm, fun h => absurd h hlen⟩
    · rintro (⟨h, _⟩ | ⟨hoff, hK, _⟩)
      · exact absurd h hlen
      · refine ⟨fun _ => ⟨hoff.symm, ?_⟩, False.elim⟩
        rw [← hK]
        rfl

theorem rejectedKeeps_des_iff (core : DeuCore) {s : KeySys} (hleft : s.left = s.cpu.keyRegs)
    (key : Nat → Byte) (keylen : Nat) (flags : Word) :
    RejectedKeeps core s (.setKey (.des key keylen flags)) ↔
      KeyUntouched s (.setKey (.des key keylen flags)) := by
  obtain ⟨hout, hirq, hregs⟩ := desSetkey_call core s.cpu key keylen flags
  unfold RejectedKeeps KeyUntouched
  dsimp only
  rw [hleft, ← hout, hirq]
  cases hok : (s.cpu.setKey core (.des key keylen flags)).2.succeeded with
  | true => exact iff_of_true ⟨fun h => absurd h (by decide), False.elim⟩ (Or.inl rfl)
  | false =>
    rw [hregs hok]
    constructor
    · rintro ⟨hkeep, _⟩
      have hM : 0 = s.cpu.des.sel := congrArg KeyRegs.desM (hkeep rfl).2
      exact Or.inr hM.symm
    · rintro (h | hM)
      · exact absurd h (by decide)
      · refine ⟨fun _ => ⟨rfl, ?_⟩, False.elim⟩
        rw [← hM]
        rfl

theorem rejectedKeeps_des3_iff (core : DeuCore) {s : KeySys} (hleft : s.left = s.cpu.keyRegs)
    (key : Nat → Byte) (keylen : Nat) (flags : Word) :
    RejectedKeeps core s (.setKey (.des3 key keylen flags)) ↔
      KeyUntouched s (.setKey (.des3 key keylen flags)) := by
  obtain ⟨hout, hregs⟩ := des3EdeSetkey_call core s.cpu key keylen flags
  unfold RejectedKeeps KeyUntouched SetKeyCall.Degenerate
  dsimp only
  rw [hleft, ← hout]
  cases hok : (s.cpu.setKey core (.des3 key keylen flags)).2.succeeded with
  | true =>
    constructor
    · rintro ⟨_, hrefuse⟩
      exact ⟨Or.inl rfl, fun h => absurd (hrefuse h) (by decide)⟩
    · rintro ⟨_, hparts⟩
      exact ⟨fun h => absurd h (by decide), fun h => absurd h hparts⟩
  | false =>
    obtain ⟨hirq, hkept⟩ := hregs hok
    rw [hirq, hkept]
    constructor
    · rintro ⟨hkeep, _⟩
      refine ⟨Or.inr (hkeep rfl).1.symm, ?_⟩
      rintro ⟨hlen, _⟩
      exact absurd (hok.symm.trans (hout.mpr (Or.inl hlen))) (by decide)
    · rintro ⟨h | hoff, _⟩
      · exact absurd h (by decide)
      · exact ⟨fun _ => ⟨hoff.symm, rfl⟩, fun _ => rfl⟩

theorem rejectedKeeps_iff (core : DeuCore) {s : KeySys} (hleft : s.left = s.cpu.keyRegs)
    (e : KeyEvent) : RejectedKeeps core s e ↔ KeyUntouched s e := by
  cases e with
  | irq on => exact Iff.rfl
  | setKey call =>
    cases call with
    | aes inKey keyLen flags kv => exact rejectedKeeps_aes_iff core hleft inKey keyLen flags kv
    | des key keylen flags => exact rejectedKeeps_des_iff core hleft key keylen flags
    | des3 key keylen flags => exact rejectedKeeps_des3_iff core hleft key keylen flags

theorem rejectedKeeps_left (core : DeuCore) {s t : KeySys} {e : KeyEvent}
    (hleft : s.left = s.cpu.keyRegs) (hok : RejectedKeeps core s e)
    (h : keyStep core s e = some t) : t.left = t.cpu.keyRegs := by
  cases e with
  | irq on =>
    cases Option.some.inj h
    exact hleft
  | setKey call =>
    cases Option.some.inj h
    cases hout : (s.cpu.setKey core call).2.succeeded with
    | true => rfl
    | false => exact ((hok.1 hout).2).symm

theorem rejected_key_keeps_iff (core : DeuCore) (cpu : DeuCpu) (es : List KeyEvent) :
    RunMeets (keyStep core) (RejectedKeeps core) (keyStart cpu) es ↔
      RunMeets (keyStep core) KeyUntouched (keyStart cpu) es :=
  @runMeets_congr _ _ _ _ _ (fun s => s.left = s.cpu.keyRegs)
    (fun {_ e} hleft => rejectedKeeps_iff core hleft e) (rejectedKeeps_left core) _ rfl es

def sampleCpu : DeuCpu := ⟨true, sampleHw.aes, sampleHw.des⟩

/-- A key of 20 bytes after one of 32: the call fails with the interrupts off and `K` changed. The
same byte 24 times over is taken as a 3DES key. -/
theorem short_key_not_kept :
    ((sampleCpu.setKey sampleCore (.aes (fun _ => 1) 32 0 true)).1.irq = true ∧
      (sampleCpu.setKey sampleCore (.aes (fun _ => 1) 32 0 true)).1.keyRegs.aesK = 2) ∧
      (((sampleCpu.setKey sampleCore (.aes (fun _ => 1) 32 0 true)).1.setKey sampleCore
          (.aes (fun _ => 1) 20 0 true)).2 = .ret eInval resBadKeyLen ∧
        ((sampleCpu.setKey sampleCore (.aes (fun _ => 1) 32 0 true)).1.setKey sampleCore
          (.aes (fun _ => 1) 20 0 true)).1.irq = false ∧
        ((sampleCpu.setKey sampleCore (.aes (fun _ => 1) 32 0 true)).1.setKey sampleCore
          (.aes (fun _ => 1) 20 0 true)).1.keyRegs.aesK = 0) ∧
      ¬RunMeets (keyStep sampleCore) (RejectedKeeps sampleCore) (keyStart sampleCpu)
        [.setKey (.aes (fun _ => 1) 32 0 true), .setKey (.aes (fun _ => 1) 20 0 true)] ∧
      ¬RunMeets (keyStep sampleCore) (RejectedKeeps sampleCore) (keyStart sampleCpu)
        [.setKey (.des3 (fun _ => 1) 24 0)] := by
  refine ⟨⟨by decide, by decide⟩, ⟨by decide, by decide, by decide⟩, ?_, ?_⟩
  · rintro ⟨_, hnext⟩
    obtain ⟨⟨hkeep, _⟩, _⟩ := hnext _ rfl
    exact absurd (hkeep rfl).1 (by decide)
  · rintro ⟨⟨_, hrefuse⟩, _⟩
    exact absurd (hrefuse ⟨rfl, Or.inl fun _ _ => rfl⟩) (by decide)

end DanubeBsp
