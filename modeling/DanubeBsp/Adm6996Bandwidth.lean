import DanubeBsp.Adm6996Calls

namespace DanubeBsp

def admSwBndwthCtl0 : Nat := 0x31

def admSwBndwthCtl1 : Nat := 0x32

def admSwBndwthExtctl0 : Nat := 0x34

def admSwBndwthExtctl1 : Nat := 0x35

def admSwBndwthExtctl2 : Nat := 0x36

def admSwBndwthExtctl3 : Nat := 0x37

def admSwBndwthExtctl4 : Nat := 0x38

def admSwBndwthExtctl5 : Nat := 0x39

def admSwBndwthExtctl6 : Nat := 0x3a

section Bandwidth

variable (r : SwRegs)

def ifxSwChkBndctl (port : Nat) (txrx : Bool) : Word :=
  if port < 3 then ((ifxSwRead r admSwBndwthCtlEna >>> (port * 2)) >>> txrx.toNat) &&& 1#32
  else if txrx then ((ifxSwRead r admSwBndwthCtlEna >>> 9) >>> (port - 3)) &&& 1#32
  else ((ifxSwRead r admSwBndwthCtlEna >>> 6) >>> (port - 3)) &&& 1#32

def ifxSwGetBndwth (port : Nat) (txrx : Bool) : Word :=
  if txrx then
    if port < 2 then
      (((ifxSwRead r admSwBndwthCtl1 >>> (port * 4 + 8)) &&& 0xf#32) +
        (((ifxSwRead r admSwBndwthExtctl2 >>> (port * 4 + 8)) &&& 0xf#32) <<< 4) +
        (((ifxSwRead r admSwBndwthExtctl5 >>> (port * 3 + 3)) &&& 0x7#32) <<< 8)) * 64#32
    else
      let bandwidth :=
        (((ifxSwRead r admSwBndwthExtctl0 >>> ((port - 2) * 4)) &&& 0xf#32) +
          (((ifxSwRead r admSwBndwthExtctl3 >>> ((port - 2) * 4)) &&& 0xf#32) <<< 4)) * 64#32
      if port < 4 then
        bandwidth +
          (((ifxSwRead r admSwBndwthExtctl5 >>> (port * 3 + 3)) &&& 0x7#32) <<< 8) * 64#32
      else
        bandwidth +
          (((ifxSwRead r admSwBndwthExtctl6 >>> ((port - 4) * 3)) &&& 0x7#32) <<< 8) * 64#32
  else if port < 4 then
    (((ifxSwRead r admSwBndwthCtl0 >>> (port * 4)) &&& 0xf#32) +
      (((ifxSwRead r admSwBndwthExtctl1 >>> (port * 4)) &&& 0xf#32) <<< 4) +
      (((ifxSwRead r admSwBndwthExtctl4 >>> (port * 3)) &&& 0x7#32) <<< 8)) * 64#32
  else if port = 4 then
    ((ifxSwRead r admSwBndwthCtl1 &&& 0xf#32) +
      ((ifxSwRead r admSwBndwthExtctl2 &&& 0xf#32) <<< 4) +
      (((ifxSwRead r admSwBndwthExtctl4 >>> (port * 3)) &&& 0x7#32) <<< 8)) * 64#32
  else
    (((ifxSwRead r admSwBndwthCtl1 >>> 4) &&& 0xf#32) +
      (((ifxSwRead r admSwBndwthExtctl2 >>> 4) &&& 0xf#32) <<< 4) +
      ((ifxSwRead r admSwBndwthExtctl5 &&& 0x7#32) <<< 8)) * 64#32

/-- The replacement of some bits of a register, which `ifx_sw_set_bndwth` writes out each time. -/
def replaceBits (reg : Nat) (mask : Word) (k : Nat) (v : Word) : SwRegs :=
  ifxSwWrite r reg ((ifxSwRead r reg &&& ~~~(mask <<< k)) ||| (v <<< k))

/-- The `switch` over the ports, with the three parts of the limit. -/
def writeBndwth (port : Nat) (txrx : Bool) (reg1 reg2 reg3 : Word) : SwRegs :=
  if txrx then
    match port with
    | 0 | 1 =>
      let r := replaceBits r admSwBndwthCtl1 0xf#32 (port * 4 + 8) reg1
      let r := replaceBits r admSwBndwthExtctl2 0xf#32 (port * 4 + 8) reg2
      replaceBits r admSwBndwthExtctl5 0x7#32 (port * 3 + 3) reg3
    | 2 | 3 =>
      let r := replaceBits r admSwBndwthExtctl0 0xf#32 ((port - 2) * 4) reg1
      let r := replaceBits r admSwBndwthExtctl3 0xf#32 ((port - 2) * 4) reg2
      replaceBits r admSwBndwthExtctl5 0x7#32 (port * 3 + 3) reg3
    | 4 | 5 =>
      let r := replaceBits r admSwBndwthExtctl0 0xf#32 ((port - 2) * 4) reg1
      let r := replaceBits r admSwBndwthExtctl3 0xf#32 ((port - 2) * 4) reg2
      replaceBits r admSwBndwthExtctl6 0x7#32 ((port - 4) * 3) reg3
    | _ => r
  else
    match port with
    | 0 | 1 | 2 | 3 =>
      let r := replaceBits r admSwBndwthCtl0 0xf#32 (port * 4) reg1
      let r := replaceBits r admSwBndwthExtctl1 0xf#32 (port * 4) reg2
      replaceBits r admSwBndwthExtctl4 0x7#32 (port * 3) reg3
    | 4 | 5 =>
      let r := replaceBits r admSwBndwthCtl1 0xf#32 ((port - 4) * 4) reg1
      let r := replaceBits r admSwBndwthExtctl2 0xf#32 ((port - 4) * 4) reg2
      if port = 4 then replaceBits r admSwBndwthExtctl4 0x7#32 (port * 3) reg3
      else replaceBits r admSwBndwthExtctl5 0x7#32 0 reg3
    | _ => r

def ifxSwSetBndwth (port : Nat) (txrx : Bool) (limit : Int) : SwRegs :=
  if limit ≤ 0 ∨ limit ≥ 102400 then ifxSwDisBndctl r port txrx
  else
    let limit64k := BitVec.ofInt 32 (limit / 64)
    let reg1 := limit64k &&& 0xf#32
    let reg2 := (limit64k >>> 4) &&& 0xf#32
    let reg3 := (limit64k >>> 8) &&& 0x7#32
    writeBndwth (ifxSwEnaBndctl r port txrx) port txrx reg1 reg2 reg3

end Bandwidth

/-- Where a limit is, cut into four, four and three bits. -/
def bndwthField (port : Nat) (txrx : Bool) : Fin 3 → RegField
  | 0 =>
    if txrx then
      if port < 2 then ⟨admSwBndwthCtl1, port * 4 + 8, 4⟩
      else ⟨admSwBndwthExtctl0, (port - 2) * 4, 4⟩
    else if port < 4 then ⟨admSwBndwthCtl0, port * 4, 4⟩
    else ⟨admSwBndwthCtl1, (port - 4) * 4, 4⟩
  | 1 =>
    if txrx then
      if port < 2 then ⟨admSwBndwthExtctl2, port * 4 + 8, 4⟩
      else ⟨admSwBndwthExtctl3, (port - 2) * 4, 4⟩
    else if port < 4 then ⟨admSwBndwthExtctl1, port * 4, 4⟩
    else ⟨admSwBndwthExtctl2, (port - 4) * 4, 4⟩
  | 2 =>
    if txrx then
      if port < 4 then ⟨admSwBndwthExtctl5, port * 3 + 3, 3⟩
      else ⟨admSwBndwthExtctl6, (port - 4) * 3, 3⟩
    else if port < 5 then ⟨admSwBndwthExtctl4, port * 3, 3⟩
    else ⟨admSwBndwthExtctl5, 0, 3⟩

/-- A port and a direction, with a limit of their own. -/
@[ext]
structure BndwthPort where
  port : Nat
  txrx : Bool
  le : port ≤ 5
  deriving DecidableEq

instance (f g : RegField) : Decidable (f.Disjoint g) :=
  inferInstanceAs (Decidable (_ ∨ _ ∨ _))

/-- The parts of all limits lie apart. -/
theorem bndwthField_disjoint {p q : BndwthPort} {i j : Fin 3} (hne : p ≠ q ∨ i ≠ j) :
    (bndwthField p.port p.txrx i).Disjoint (bndwthField q.port q.txrx j) := by
  have hall : ∀ m n : Fin 6, ∀ s t : Bool, ∀ i j : Fin 3, (m, s) ≠ (n, t) ∨ i ≠ j →
      (bndwthField m s i).Disjoint (bndwthField n t j) := by
    decide +kernel
  have hp := p.le
  have hq := q.le
  refine hall ⟨p.port, by omega⟩ ⟨q.port, by omega⟩ p.txrx q.txrx i j (hne.imp_left ?_)
  intro hpq heq
  obtain ⟨hport, htxrx⟩ := Prod.mk.inj heq
  exact hpq (BndwthPort.ext (congrArg Fin.val hport) htxrx)

section Getter

variable {r r' : SwRegs} {port : Nat} {txrx : Bool}

theorem ifxSwChkBndctl_eq :
    (ifxSwChkBndctl r port txrx).toNat = (SwSetting.bndctl port txrx).read r := by
  have hbit (k : Nat) : ((ifxSwRead r admSwBndwthCtlEna >>> k) &&& 1#32).toNat =
      ((r admSwBndwthCtlEna).getLsbD k).toNat :=
    (@get_shift r admSwBndwthCtlEna k 1 (by decide) (by decide)).trans (get_bit r).symm
  unfold ifxSwChkBndctl
  show _ = ((r admSwBndwthCtlEna).getLsbD (bndctlBit port txrx)).toNat
  unfold bndctlBit
  split_ifs
  · rw [← BitVec.shiftRight_add]
    exact hbit _
  · rw [← BitVec.shiftRight_add]
    exact hbit _
  · rw [← BitVec.shiftRight_add]
    exact hbit _

local instance bndwthPartsNeZero : NeZero 3 := ⟨by decide⟩

/-- What the three parts stand for. -/
def bndwthValue (r : SwRegs) (port : Nat) (txrx : Bool) : Nat :=
  (bndwthField port txrx 0).get r + (bndwthField port txrx 1).get r * 2 ^ 4 +
    (bndwthField port txrx 2).get r * 2 ^ 8

theorem toNat_parts {a b c : Word} {l m h : Nat} (ha : a.toNat = l) (hb : b.toNat = m)
    (hc : c.toNat = h) (hl : l < 2 ^ 4) (hm : m < 2 ^ 4) (hh : h < 2 ^ 3) :
    ((a + (b <<< 4) + (c <<< 8)) * 64#32).toNat = 64 * (l + m * 2 ^ 4 + h * 2 ^ 8) ∧
      ((a + (b <<< 4)) * 64#32 + (c <<< 8) * 64#32).toNat =
        64 * (l + m * 2 ^ 4 + h * 2 ^ 8) := by
  have hb' : (b <<< 4).toNat = m * 2 ^ 4 := by
    rw [BitVec.toNat_shiftLeft, Nat.shiftLeft_eq, hb]
    omega
  have hc' : (c <<< 8).toNat = h * 2 ^ 8 := by
    rw [BitVec.toNat_shiftLeft, Nat.shiftLeft_eq, hc]
    omega
  have h64 : (64#32).toNat = 64 := rfl
  constructor
  · rw [BitVec.toNat_mul, BitVec.toNat_add, BitVec.toNat_add, ha, hb', hc', h64]
    omega
  · rw [BitVec.toNat_add, BitVec.toNat_mul, BitVec.toNat_mul, BitVec.toNat_add, ha, hb', hc', h64]
    omega

theorem ifxSwGetBndwth_eq (hport : port ≤ 5) :
    (ifxSwGetBndwth r port txrx).toNat = 64 * bndwthValue r port txrx := by
  have hfour {reg : Nat} (hreg : reg < 1024) (k : Nat) :
      ((ifxSwRead r reg >>> k) &&& 0xf#32).toNat = RegField.get ⟨reg, k, 4⟩ r :=
    @get_shift r reg k 4 hreg (by decide)
  have hthree {reg : Nat} (hreg : reg < 1024) (k : Nat) :
      ((ifxSwRead r reg >>> k) &&& 0x7#32).toNat = RegField.get ⟨reg, k, 3⟩ r :=
    @get_shift r reg k 3 hreg (by decide)
  have hparts {l m h : RegField} {a b c : Word} (ha : a.toNat = l.get r) (hb : b.toNat = m.get r)
      (hc : c.toNat = h.get r) (hl : l.width = 4) (hm : m.width = 4) (hh : h.width = 3) :=
    toNat_parts ha hb hc (hl ▸ l.get_lt r) (hm ▸ m.get_lt r) (hh ▸ h.get_lt r)
  unfold ifxSwGetBndwth bndwthValue bndwthField
  dsimp only
  cases txrx with
  | true =>
    simp only [if_true]
    by_cases h2 : port < 2
    · have h4 : port < 4 := by omega
      rw [if_pos h2, if_pos h2, if_pos h2, if_pos h4]
      exact (hparts (hfour (by decide) _) (hfour (by decide) _) (hthree (by decide) _) rfl rfl
        rfl).1
    · rw [if_neg h2, if_neg h2, if_neg h2]
      by_cases h4 : port < 4
      · rw [if_pos h4, if_pos h4]
        exact (hparts (hfour (by decide) _) (hfour (by decide) _) (hthree (by decide) _) rfl rfl
          rfl).2
      · rw [if_neg h4, if_neg h4]
        exact (hparts (hfour (by decide) _) (hfour (by decide) _) (hthree (by decide) _) rfl rfl
          rfl).2
  | false =>
    simp only [Bool.false_eq_true, if_false]
    by_cases h4 : port < 4
    · have h5 : port < 5 := by omega
      rw [if_pos h4, if_pos h4, if_pos h4, if_pos h5]
      exact (hparts (hfour (by decide) _) (hfour (by decide) _) (hthree (by decide) _) rfl rfl
        rfl).1
    · rw [if_neg h4, if_neg h4, if_neg h4]
      by_cases h5 : port = 4
      · subst h5
        exact (hparts (hfour (by decide) 0) (hfour (by decide) 0) (hthree (by decide) _) rfl rfl
          rfl).1
      · have h5' : port = 5 := by omega
        subst h5'
        exact (hparts (hfour (by decide) 4) (hfour (by decide) 4) (hthree (by decide) 0) rfl rfl
          rfl).1

end Getter

/-- The three parts of a limit have been written, and no field apart from them has changed. -/
structure BndwthWritten (p : BndwthPort) (v : Fin 3 → Nat) (r r' : SwRegs) : Prop where
  parts : ∀ i, (bndwthField p.port p.txrx i).get r' = v i
  frame : ∀ g : RegField, (∀ i, (bndwthField p.port p.txrx i).Disjoint g) → g.get r' = g.get r

section Setter

variable {r : SwRegs} {p : BndwthPort}

theorem BndwthWritten.of_written {v : Fin 3 → Nat} {r₁ r₂ r' : SwRegs}
    (h0 : (bndwthField p.port p.txrx 0).Written (v 0) r r₁)
    (h1 : (bndwthField p.port p.txrx 1).Written (v 1) r₁ r₂)
    (h2 : (bndwthField p.port p.txrx 2).Written (v 2) r₂ r') : BndwthWritten p v r r' := by
  have hapart {i j : Fin 3} (hij : i ≠ j) :
      (bndwthField p.port p.txrx i).Disjoint (bndwthField p.port p.txrx j) :=
    bndwthField_disjoint (Or.inr hij)
  refine ⟨fun i => ?_, fun g hg => ?_⟩
  · match i with
    | 0 =>
      rw [h2.get_of_disjoint (hapart (by decide)), h1.get_of_disjoint (hapart (by decide))]
      exact h0.value
    | 1 =>
      rw [h2.get_of_disjoint (hapart (by decide))]
      exact h1.value
    | 2 => exact h2.value
  · rw [h2.get_of_disjoint (hg 2), h1.get_of_disjoint (hg 1), h0.get_of_disjoint (hg 0)]

theorem writeBndwth_written {v : Fin 3 → Nat} (hv0 : v 0 < 2 ^ 4)
    (hv1 : v 1 < 2 ^ 4) (hv2 : v 2 < 2 ^ 3) : BndwthWritten p v r
      (writeBndwth r p.port p.txrx (BitVec.ofNat 32 (v 0)) (BitVec.ofNat 32 (v 1))
        (BitVec.ofNat 32 (v 2))) := by
  have hfour (r : SwRegs) {reg k n : Nat} (hreg : reg < 1024) (hk : k ≤ 12) (hn : n < 2 ^ 4) :
      RegField.Written ⟨reg, k, 4⟩ n r (replaceBits r reg 0xf#32 k (BitVec.ofNat 32 n)) :=
    @written_replace r reg k 4 n hreg (by omega) hn
  have hthree (r : SwRegs) {reg k n : Nat} (hreg : reg < 1024) (hk : k ≤ 13) (hn : n < 2 ^ 3) :
      RegField.Written ⟨reg, k, 3⟩ n r (replaceBits r reg 0x7#32 k (BitVec.ofNat 32 n)) :=
    @written_replace r reg k 3 n hreg (by omega) hn
  obtain ⟨port, txrx, hp⟩ := p
  dsimp only
  interval_cases port <;> cases txrx
  all_goals
    refine .of_written (hfour _ ?_ ?_ hv0) (hfour _ ?_ ?_ hv1) (hthree _ ?_ ?_ hv2)
    all_goals first
      | decide
      | dsimp only; omega

/-- The parts of a limit in units of 64 kbit/s. -/
def limitPart (limit64k : Nat) : Fin 3 → Nat
  | 0 => limit64k % 2 ^ 4
  | 1 => limit64k / 2 ^ 4 % 2 ^ 4
  | 2 => limit64k / 2 ^ 8 % 2 ^ 3

theorem toNat_cut {n : Nat} (hn : n < 2 ^ 32) (k width : Nat) (hwidth : width ≤ 16) :
    (BitVec.ofNat 32 n >>> k) &&& BitVec.ofNat 32 (2 ^ width - 1) =
      BitVec.ofNat 32 (n / 2 ^ k % 2 ^ width) := by
  have hpow : 2 ^ width ≤ 2 ^ 16 := Nat.pow_le_pow_right Nat.two_pos hwidth
  have hpos : 0 < 2 ^ width := Nat.two_pow_pos width
  have hmod : n / 2 ^ k % 2 ^ width < 2 ^ width := Nat.mod_lt _ hpos
  apply BitVec.eq_of_toNat_eq
  rw [BitVec.toNat_and, BitVec.toNat_ushiftRight, Nat.shiftRight_eq_div_pow, BitVec.toNat_ofNat,
    BitVec.toNat_ofNat, BitVec.toNat_ofNat, Nat.mod_eq_of_lt hn,
    Nat.mod_eq_of_lt (by omega : 2 ^ width - 1 < 2 ^ 32), Nat.and_two_pow_sub_one_eq_mod,
    Nat.mod_eq_of_lt (by omega : n / 2 ^ k % 2 ^ width < 2 ^ 32)]

/-- A limit in range is cut, and written behind the enable bit. -/
theorem ifxSwSetBndwth_inside {limit : Int} (hlo : 0 < limit)
    (hhi : limit < 102400) :
    BndwthWritten p (limitPart (limit / 64).toNat) (ifxSwEnaBndctl r p.port p.txrx)
      (ifxSwSetBndwth r p.port p.txrx limit) := by
  have hword : BitVec.ofInt 32 (limit / 64) = BitVec.ofNat 32 (limit / 64).toNat := by
    rw [← BitVec.ofInt_natCast, Int.toNat_of_nonneg (by omega)]
  have hlt : (limit / 64).toNat < 2 ^ 32 := by omega
  have hcut0 := toNat_cut hlt 0 4 (by decide)
  have hcut1 := toNat_cut hlt 4 4 (by decide)
  have hcut2 := toNat_cut hlt 8 3 (by decide)
  rw [BitVec.ushiftRight_zero, Nat.pow_zero, Nat.div_one] at hcut0
  have hwritten := @writeBndwth_written (ifxSwEnaBndctl r p.port p.txrx) p
    (limitPart (limit / 64).toNat) (Nat.mod_lt _ (by decide)) (Nat.mod_lt _ (by decide))
    (Nat.mod_lt _ (by decide))
  rw [ifxSwSetBndwth, if_neg (by omega)]
  dsimp only
  rw [hword]
  rw [show limitPart (limit / 64).toNat 0 = (limit / 64).toNat % 2 ^ 4 from rfl, ← hcut0,
    show limitPart (limit / 64).toNat 1 = (limit / 64).toNat / 2 ^ 4 % 2 ^ 4 from rfl, ← hcut1,
    show limitPart (limit / 64).toNat 2 = (limit / 64).toNat / 2 ^ 8 % 2 ^ 3 from rfl,
    ← hcut2] at hwritten
  exact hwritten

/-- The enable bits are in a register of their own. -/
theorem ifxSwEnaBndctl_other (p : BndwthPort) {g : RegField} (hg : g.reg ≠ admSwBndwthCtlEna) :
    g.get (ifxSwEnaBndctl r p.port p.txrx) = g.get r := by
  have hbit := bndctlBit_le p.txrx p.le
  obtain ⟨r₁, v, hfirst, hflag⟩ := @written_bit_top r admSwBndwthCtlEna (bndctlBit p.port p.txrx) 1
    (by decide) (by omega) (by decide)
  exact (hflag.get_of_disjoint (Or.inl hg.symm)).trans (hfirst.get_of_disjoint (Or.inl hg.symm))

theorem ifxSwDisBndctl_other (p : BndwthPort) {g : RegField} (hg : g.reg ≠ admSwBndwthCtlEna) :
    g.get (ifxSwDisBndctl r p.port p.txrx) = g.get r := by
  have hbit := bndctlBit_le p.txrx p.le
  have hwritten := @written_clear r admSwBndwthCtlEna (bndctlBit p.port p.txrx) (by decide) (by omega)
  exact hwritten.get_of_disjoint (Or.inl hg.symm)

theorem bndwthField_reg (q : BndwthPort) (i : Fin 3) :
    (bndwthField q.port q.txrx i).reg ≠ admSwBndwthCtlEna := by
  have hall : ∀ m : Fin 6, ∀ t : Bool, ∀ i : Fin 3, (bndwthField m t i).reg ≠ admSwBndwthCtlEna := by
    decide +kernel
  have hq := q.le
  exact hall ⟨q.port, by omega⟩ q.txrx i

end Setter

/-- What the driver shows for a port and a direction: the limit, and whether it is on. -/
def swShown (r : SwRegs) (p : BndwthPort) : Nat × Nat :=
  ((ifxSwGetBndwth r p.port p.txrx).toNat, (ifxSwChkBndctl r p.port p.txrx).toNat)

/-- A limit in range is shown, rounded down to 64 kbit/s and on, and any other one is off. -/
structure BndwthShows (p : BndwthPort) (limit : Int) (r : SwRegs) : Prop where
  inside : 0 < limit → limit < 102400 →
    ((swShown r p).1 : Int) = 64 * (limit / 64) ∧ (swShown r p).2 = 1
  outside : ¬(0 < limit ∧ limit < 102400) → (swShown r p).2 = 0

def setBndwth (r : SwRegs) (s : BndwthPort × Int) : SwRegs :=
  ifxSwSetBndwth r s.1.port s.1.txrx s.2

section Shown

variable {r r' : SwRegs} {p q : BndwthPort} {limit : Int}

theorem swShown_eq : swShown r q =
    (64 * bndwthValue r q.port q.txrx, (SwSetting.bndctl q.port q.txrx).read r) := by
  rw [swShown, ifxSwGetBndwth_eq q.le, ifxSwChkBndctl_eq]

theorem swShown_congr (hparts : ∀ i, (bndwthField q.port q.txrx i).get r' =
      (bndwthField q.port q.txrx i).get r)
    (hbit : (SwSetting.bndctl q.port q.txrx).read r' = (SwSetting.bndctl q.port q.txrx).read r) :
    swShown r' q = swShown r q := by
  rw [swShown_eq, swShown_eq, hbit, bndwthValue, bndwthValue, hparts 0, hparts 1, hparts 2]

/-- The enable bits stay when a limit is written. -/
theorem BndwthWritten.bit {v : Fin 3 → Nat} (h : BndwthWritten p v r r') (q : BndwthPort) :
    (SwSetting.bndctl q.port q.txrx).read r' = (SwSetting.bndctl q.port q.txrx).read r := by
  have hvalid : (SwSetting.bndctl q.port q.txrx).Valid := q.le
  rw [SwSetting.read_eq r' hvalid, SwSetting.read_eq r hvalid]
  exact h.frame _ fun i => Or.inl (bndwthField_reg p i)

/-- An enable bit that is set, among the others. -/
theorem bndctl_update (m : SwSetting → Nat) (p q : BndwthPort) (v : Nat) :
    Function.update m (.bndctl p.port p.txrx) v (.bndctl q.port q.txrx) =
      if q = p then v else m (.bndctl q.port q.txrx) := by
  by_cases hqp : q = p
  · rw [if_pos hqp, hqp, Function.update_self]
  · rw [if_neg hqp, Function.update_of_ne]
    intro heq
    obtain ⟨hport, htxrx⟩ := SwSetting.bndctl.inj heq
    exact hqp (BndwthPort.ext hport htxrx)

theorem enaBndctl_bit (p q : BndwthPort) :
    (SwSetting.bndctl q.port q.txrx).read (ifxSwEnaBndctl r p.port p.txrx) =
      if q = p then 1 else (SwSetting.bndctl q.port q.txrx).read r := by
  have hvalid : (SwSetting.bndctl q.port q.txrx).Valid := q.le
  rw [ifxSwEnaBndctl_sets r p.le p.txrx _ hvalid SwSetting.noConfusion]
  exact bndctl_update _ p q 1

theorem disBndctl_bit (p q : BndwthPort) :
    (SwSetting.bndctl q.port q.txrx).read (ifxSwDisBndctl r p.port p.txrx) =
      if q = p then 0 else (SwSetting.bndctl q.port q.txrx).read r := by
  have hvalid : (SwSetting.bndctl q.port q.txrx).Valid := q.le
  rw [ifxSwDisBndctl_sets r p.le p.txrx _ hvalid]
  exact bndctl_update _ p q 0

theorem setBndwth_shows (r : SwRegs) (p : BndwthPort) (limit : Int) :
    BndwthShows p limit (setBndwth r (p, limit)) := by
  refine ⟨fun hlo hhi => ?_, fun hout => ?_⟩
  · have hwritten : BndwthWritten p (limitPart (limit / 64).toNat)
        (ifxSwEnaBndctl r p.port p.txrx) (setBndwth r (p, limit)) :=
      ifxSwSetBndwth_inside hlo hhi
    have hvalue : bndwthValue (setBndwth r (p, limit)) p.port p.txrx = (limit / 64).toNat := by
      rw [bndwthValue, hwritten.parts 0, hwritten.parts 1, hwritten.parts 2]
      show (limit / 64).toNat % 2 ^ 4 + (limit / 64).toNat / 2 ^ 4 % 2 ^ 4 * 2 ^ 4 +
        (limit / 64).toNat / 2 ^ 8 % 2 ^ 3 * 2 ^ 8 = _
      omega
    rw [swShown_eq, hvalue]
    refine ⟨?_, ?_⟩
    · show ((64 * (limit / 64).toNat : Nat) : Int) = _
      omega
    · show (SwSetting.bndctl p.port p.txrx).read (setBndwth r (p, limit)) = 1
      rw [hwritten.bit p, enaBndctl_bit, if_pos rfl]
  · rw [swShown_eq]
    show (SwSetting.bndctl p.port p.txrx).read (setBndwth r (p, limit)) = 0
    rw [setBndwth, ifxSwSetBndwth, if_pos (by omega), disBndctl_bit, if_pos rfl]

/-- No other port or direction shows anything else. -/
theorem setBndwth_other (r : SwRegs) (limit : Int) (hqp : q ≠ p) :
    swShown (setBndwth r (p, limit)) q = swShown r q := by
  by_cases hin : 0 < limit ∧ limit < 102400
  · have hwritten : BndwthWritten p (limitPart (limit / 64).toNat)
        (ifxSwEnaBndctl r p.port p.txrx) (setBndwth r (p, limit)) :=
      ifxSwSetBndwth_inside hin.1 hin.2
    refine swShown_congr (fun i => ?_) ?_
    · rw [hwritten.frame _ fun j => bndwthField_disjoint (Or.inl hqp.symm)]
      exact ifxSwEnaBndctl_other p (bndwthField_reg q i)
    · rw [hwritten.bit q, enaBndctl_bit, if_neg hqp]
  · refine swShown_congr (fun i => ?_) ?_
    · rw [setBndwth, ifxSwSetBndwth, if_pos (by omega)]
      exact ifxSwDisBndctl_other p (bndwthField_reg q i)
    · rw [setBndwth, ifxSwSetBndwth, if_pos (by omega), disBndctl_bit, if_neg hqp]

end Shown

/-- What is shown for `q` is its own last setting, or what was shown before. -/
def LastSetting (r : SwRegs) (settings : List (BndwthPort × Int)) (q : BndwthPort) : Prop :=
  match (settings.filter fun s => s.1 = q).getLast? with
  | some s => BndwthShows q s.2 (settings.foldl setBndwth r)
  | none => swShown (settings.foldl setBndwth r) q = swShown r q

theorem BndwthShows.congr {p : BndwthPort} {limit : Int} {r r' : SwRegs} (h : BndwthShows p limit r)
    (heq : swShown r' p = swShown r p) : BndwthShows p limit r' := by
  refine ⟨?_, ?_⟩
  · rw [heq]
    exact h.inside
  · rw [heq]
    exact h.outside

/-- A limit reads back and leaves all others alone, and after any settings each port and direction
shows its own last one. -/
theorem sw_bndwth_last (r : SwRegs) :
    (∀ (p : BndwthPort) (limit : Int), BndwthShows p limit (setBndwth r (p, limit)) ∧
      ∀ q, q ≠ p → swShown (setBndwth r (p, limit)) q = swShown r q) ∧
      ∀ (settings : List (BndwthPort × Int)) (q : BndwthPort), LastSetting r settings q := by
  refine ⟨fun p limit => ⟨setBndwth_shows r p limit, fun q hqp => setBndwth_other r limit hqp⟩, ?_⟩
  intro settings q
  induction settings using List.reverseRecOn with
  | nil => exact rfl
  | append_singleton settings s ih =>
    obtain ⟨p, limit⟩ := s
    unfold LastSetting at ih ⊢
    rw [List.filter_append, List.foldl_append]
    by_cases hpq : p = q
    · subst hpq
      have hkeep : [(p, limit)].filter (fun s => s.1 = p) = [(p, limit)] := by simp
      rw [hkeep, List.getLast?_concat]
      exact setBndwth_shows _ p limit
    · have hdrop : [(p, limit)].filter (fun s => s.1 = q) = [] := by simp [hpq]
      have hother := setBndwth_other (settings.foldl setBndwth r) limit (Ne.symm hpq)
      rw [hdrop, List.append_nil]
      cases hlast : (settings.filter fun s => s.1 = q).getLast? with
      | some s =>
        rw [hlast] at ih
        exact ih.congr hother
      | none =>
        rw [hlast] at ih
        exact hother.trans ih

end DanubeBsp
