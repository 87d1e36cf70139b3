import Mathlib.Algebra.BigOperators.Group.List.Basic
import DanubeBsp.Ssc

namespace DanubeBsp

/-- Accesses of the given widths, each behind the one before it. -/
def layOut : Nat → List TxWidth → List TxAccess
  | _, [] => []
  | a, w :: ws => ⟨a, w⟩ :: layOut (a + w.size) ws

def txSize (ws : List TxWidth) : Nat := (ws.map TxWidth.size).sum

@[simp] theorem txSize_nil : txSize [] = 0 := rfl

@[simp] theorem txSize_cons (w : TxWidth) (ws : List TxWidth) :
    txSize (w :: ws) = w.size + txSize ws := by
  simp [txSize]

@[simp] theorem txSize_append (us ws : List TxWidth) : txSize (us ++ ws) = txSize us + txSize ws := by
  simp [txSize]

theorem txSize_pos {ws : List TxWidth} (h : ws ≠ []) : 0 < txSize ws := by
  obtain ⟨w, ws, rfl⟩ := List.exists_cons_of_ne_nil h
  rw [txSize_cons]
  cases w <;> simp only [TxWidth.size] <;> omega

theorem txSize_words (k : Nat) : txSize (List.replicate k .w32) = 4 * k := by
  simp [txSize, TxWidth.size, Nat.mul_comm]

theorem layOut_append (a : Nat) (us ws : List TxWidth) :
    layOut a (us ++ ws) = layOut a us ++ layOut (a + txSize us) ws := by
  induction us generalizing a with
  | nil => simp [layOut]
  | cons u us ih => simp [layOut, ih, Nat.add_assoc]

theorem layOut_length (a : Nat) (ws : List TxWidth) : (layOut a ws).length = ws.length := by
  induction ws generalizing a with
  | nil => rfl
  | cons w ws ih => simp [layOut, ih]

theorem layOut_width (a : Nat) (ws : List TxWidth) : (layOut a ws).map TxAccess.width = ws := by
  induction ws generalizing a with
  | nil => rfl
  | cons w ws ih => simp [layOut, ih]

theorem layOut_words (a k : Nat) :
    layOut a (List.replicate k .w32) = (List.range k).map fun i => ⟨a + 4 * i, .w32⟩ := by
  induction k with
  | zero => rfl
  | succ k ih =>
    rw [List.replicate_succ', layOut_append, ih, txSize_words, List.range_succ, List.map_append]
    rfl

theorem layOut_within {a : Nat} {ws : List TxWidth} {x : TxAccess} (h : x ∈ layOut a ws) :
    a ≤ x.addr ∧ x.addr + x.width.size ≤ a + txSize ws := by
  induction ws generalizing a with
  | nil => cases h
  | cons w ws ih =>
    rw [txSize_cons]
    rcases List.mem_cons.mp h with rfl | h
    · exact ⟨Nat.le_refl _, by dsimp only; omega⟩
    · have hx := ih h
      omega

theorem tb_bytes (mem : Nat → Byte) (a : TxAccess) :
    (a.tb mem).bytes = readBlock mem a.addr a.width.size := by
  obtain ⟨addr, w⟩ := a
  cases w with
  | w32 => simp [TxAccess.tb, TbWrite.bytes, loadBe, readBlock, TxWidth.size, List.range_succ]
  | w16 =>
    have hhigh : (mem addr ++ mem (addr + 1)).extractLsb' 8 8 = mem addr := by
      ext i hi
      simp only [BitVec.getElem_extractLsb', BitVec.getLsbD_append]
      simp [hi]
    have hlow : (mem addr ++ mem (addr + 1)).extractLsb' 0 8 = mem (addr + 1) := by
      ext i hi
      simp only [BitVec.getElem_extractLsb', BitVec.getLsbD_append]
      simp [hi]
    simp [TxAccess.tb, TbWrite.bytes, readBlock, TxWidth.size, List.range_succ, hhigh, hlow]
  | w8 => simp [TxAccess.tb, TbWrite.bytes, readBlock, TxWidth.size]

/-- The bytes that a list of accesses sends. -/
def sentBytes (mem : Nat → Byte) (out : List TxAccess) : List Byte :=
  out.flatMap fun a => (a.tb mem).bytes

theorem sentBytes_layOut (mem : Nat → Byte) (a : Nat) (ws : List TxWidth) :
    sentBytes mem (layOut a ws) = readBlock mem a (txSize ws) := by
  induction ws generalizing a with
  | nil => rfl
  | cons w ws ih =>
    have hhead : sentBytes mem (layOut a (w :: ws)) =
        readBlock mem a w.size ++ sentBytes mem (layOut (a + w.size) ws) := by
      simp [sentBytes, layOut, tb_bytes]
    rw [hhead, ih, txSize_cons, readBlock_add]

/-- What a pass over the cursor has done since address `a` and count `n`. -/
structure TxFill.Laid (f : TxFill) (a : Nat) (n : Word) (ws : List TxWidth) : Prop where
  out : f.out = layOut a ws
  ptr : f.ptr = a + txSize ws
  txBytes : f.txBytes = n + BitVec.ofNat 32 (txSize ws)

theorem TxFill.Laid.words {f : TxFill} {a : Nat} {n : Word} {ws : List TxWidth}
    (h : f.Laid a n ws) : f.words.Laid a n (ws ++ List.replicate (f.fill / 4) .w32) where
  out := by rw [TxFill.words, layOut_append, layOut_words, h.out, h.ptr]
  ptr := by
    simp only [TxFill.words, txSize_append, txSize_words, h.ptr]
    omega
  txBytes := by
    simp only [TxFill.words, txSize_append, txSize_words, h.txBytes, BitVec.ofNat_add,
      BitVec.add_assoc, Nat.mul_comm]

theorem TxFill.Laid.push {f g : TxFill} {a : Nat} {n : Word} {ws : List TxWidth} {w : TxWidth}
    (h : f.Laid a n ws) (hout : g.out = f.out ++ [⟨f.ptr, w⟩]) (hptr : g.ptr = f.ptr + w.size)
    (hbytes : g.txBytes = f.txBytes + BitVec.ofNat 32 w.size) : g.Laid a n (ws ++ [w]) where
  out := by rw [hout, layOut_append, h.out, h.ptr]; rfl
  ptr := by simp [hptr, h.ptr, Nat.add_assoc]
  txBytes := by simp [hbytes, h.txBytes, BitVec.ofNat_add, BitVec.add_assoc]

theorem TxFill.Laid.half {f : TxFill} {a : Nat} {n : Word} {ws : List TxWidth} (h : f.Laid a n ws) :
    ∃ tail, f.half.Laid a n (ws ++ tail) ∧ .w32 ∉ tail ∧ txSize tail + f.half.fill = f.fill ∧
      tail.length + f.half.space = f.space := by
  unfold TxFill.half
  split
  next hroom =>
    refine ⟨[.w16], h.push rfl rfl rfl, by simp, ?_, ?_⟩
    · simp only [txSize_cons, txSize_nil, TxWidth.size]
      omega
    · simp only [List.length_singleton]
      omega
  next => exact ⟨[], by simpa using h, by simp, by simp, by simp⟩

theorem TxFill.Laid.byte {f : TxFill} {a : Nat} {n : Word} {ws : List TxWidth} (h : f.Laid a n ws) :
    ∃ tail, f.byte.Laid a n (ws ++ tail) ∧ .w32 ∉ tail ∧ txSize tail ≤ f.fill ∧
      tail.length ≤ f.space := by
  unfold TxFill.byte
  split
  next hroom => exact ⟨[.w8], h.push rfl rfl rfl, by simp, hroom.2, hroom.1⟩
  next => exact ⟨[], by simpa using h, by simp, by simp, by simp⟩

/-- Words, and behind the last whole word of the buffer narrower entries. -/
def TxShape (remaining : Nat) (ws : List TxWidth) : Prop :=
  ∃ k tail, ws = List.replicate k .w32 ++ tail ∧ .w32 ∉ tail ∧ (tail ≠ [] → remaining < 4 * k + 4)

theorem TxShape.nil (remaining : Nat) : TxShape remaining [] := ⟨0, [], by simp⟩

/-- A pass that starts behind a narrow entry has less than a word to send. -/
theorem TxShape.append {remaining : Nat} {us ws : List TxWidth} (hus : TxShape remaining us)
    (hws : TxShape (remaining - txSize us) ws) (hsize : txSize ws ≤ remaining - txSize us) :
    TxShape remaining (us ++ ws) := by
  obtain ⟨k, tail, rfl, htail, hnarrow⟩ := hus
  obtain ⟨l, rest, rfl, hrest, hlate⟩ := hws
  rw [txSize_append, txSize_words] at hlate hsize
  by_cases hempty : tail = []
  · subst hempty
    refine ⟨k + l, rest, by simp [← List.append_assoc], hrest, ?_⟩
    intro h
    have hlt := hlate h
    rw [txSize_nil] at hlt
    omega
  · have hlt := hnarrow hempty
    have hl : l = 0 := by
      have hpos := txSize_pos hempty
      rw [txSize_append, txSize_words] at hsize
      omega
    subst hl
    exact ⟨k, tail ++ rest, by simp, by simp [htail, hrest], fun _ => hlt⟩

theorem TxShape.pairwise {remaining : Nat} {ws : List TxWidth} (h : TxShape remaining ws) :
    ws.Pairwise fun u w => w = .w32 → u = .w32 := by
  obtain ⟨k, tail, rfl, htail, -⟩ := h
  refine List.pairwise_append.mpr ⟨?_, ?_, ?_⟩
  · exact List.pairwise_replicate.mpr (Or.inr fun h => h)
  · refine List.pairwise_of_forall_mem_list ?_
    intro u _ w hw h32
    exact absurd (h32 ▸ hw) htail
  · intro u hu w _ _
    exact List.eq_of_mem_replicate hu

/-- The widths of one pass. -/
structure TxPass (remaining space : Nat) (ws : List TxWidth) : Prop where
  shape : TxShape remaining ws
  size : txSize ws ≤ remaining
  length : ws.length ≤ space

theorem txFill_laid (p : SscPort) (fifoSpace : Nat) :
    ∃ ws, (txFill p fifoSpace).Laid p.txbufPtr p.txBytes ws ∧
      TxPass (p.txbufEnd - p.txbufPtr) fifoSpace ws := by
  let fill := if fifoSpace * 4 < p.txbufEnd - p.txbufPtr then fifoSpace * 4
    else p.txbufEnd - p.txbufPtr
  have hfill : fill ≤ 4 * fifoSpace ∧ fill ≤ p.txbufEnd - p.txbufPtr ∧
      (fill % 4 ≠ 0 → fill = p.txbufEnd - p.txbufPtr) := by
    simp only [fill]
    split <;> omega
  have hstart : (TxFill.mk p.txbufPtr fifoSpace fill p.txBytes []).Laid p.txbufPtr p.txBytes [] :=
    ⟨rfl, by simp, by simp⟩
  obtain ⟨us, hus, hus32, hussize, huslen⟩ := hstart.words.half
  obtain ⟨vs, hvs, hvs32, hvssize, hvslen⟩ := hus.byte
  have hrest : txSize (us ++ vs) ≤ fill % 4 := by
    have hwords : (TxFill.mk p.txbufPtr fifoSpace fill p.txBytes []).words.fill = fill % 4 := rfl
    rw [txSize_append]
    omega
  have hroom : (us ++ vs).length ≤ fifoSpace - fill / 4 := by
    have hwords : (TxFill.mk p.txbufPtr fifoSpace fill p.txBytes []).words.space =
      fifoSpace - fill / 4 := rfl
    rw [List.length_append]
    omega
  rw [List.nil_append, List.append_assoc] at hvs
  change TxFill.Laid _ _ _ (List.replicate (fill / 4) .w32 ++ (us ++ vs)) at hvs
  refine ⟨_, hvs, ⟨fill / 4, us ++ vs, rfl, ?_, ?_⟩, ?_, ?_⟩
  · simp [hus32, hvs32]
  · intro htail
    have hpos : 0 < txSize (us ++ vs) := txSize_pos htail
    omega
  · rw [txSize_append, txSize_words]
    omega
  · rw [List.length_append, List.length_replicate]
    omega

theorem TxPass.unsent {a e space : Nat} {ws : List TxWidth} (h : TxPass (e - a) space ws) (hlt : a < e)
    (hmore : space = 0 ∨ a + txSize ws < e) : a + txSize ws < e := by
  rcases hmore with hzero | hmore
  · have hlength := h.length
    have hnil : ws = [] := List.length_eq_zero_iff.mp (by omega)
    rw [hnil, txSize_nil]
    exact hlt
  · exact hmore

/-- The port with the entries of one pass behind it. -/
def SscPort.sent (p : SscPort) (ws : List TxWidth) : SscPort :=
  { p with
    txbufPtr := p.txbufPtr + txSize ws
    txBytes := p.txBytes + BitVec.ofNat 32 (txSize ws) }

/-- What one call of `tx_int` can do: send the next bytes, and if none are left then free the buffer. -/
theorem txInt_cases (p : SscPort) (fifoSpace : Nat) :
    ∃ ws, TxPass (p.txbufEnd - p.txbufPtr) fifoSpace ws ∧
      ((fifoSpace = 0 ∨ p.txbufPtr + txSize ws < p.txbufEnd) ∧
          txInt p fifoSpace = ⟨p.sent ws, layOut p.txbufPtr ws, none⟩ ∨
        p.txbufEnd ≤ p.txbufPtr + txSize ws ∧
          txInt p fifoSpace =
            ⟨{ p.sent ws with txirq := false, txbuf := 0 }, layOut p.txbufPtr ws, some p.txbuf⟩) := by
  unfold txInt
  by_cases hspace : fifoSpace = 0
  · refine ⟨[], ⟨TxShape.nil _, by simp, by simp⟩, Or.inl ⟨Or.inl hspace, ?_⟩⟩
    rw [if_pos hspace]
    simp [SscPort.sent, layOut]
  · obtain ⟨ws, hlaid, hpass⟩ := txFill_laid p fifoSpace
    refine ⟨ws, hpass, ?_⟩
    rw [if_neg hspace]
    simp only [hlaid.out, hlaid.ptr, hlaid.txBytes]
    by_cases hdone : p.txbufEnd ≤ p.txbufPtr + txSize ws
    · exact Or.inr ⟨hdone, if_pos hdone⟩
    · exact Or.inl ⟨Or.inr (by omega), if_neg hdone⟩

end DanubeBsp
