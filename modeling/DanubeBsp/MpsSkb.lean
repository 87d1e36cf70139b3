import DanubeBsp.ByteOrder

namespace DanubeBsp

/-- The memory of the buffer that is copied and of the one that comes from the pool. -/
inductive SkbBlock
  | source
  | pool
  deriving DecidableEq

/-- A pointer into or behind one of the two blocks. -/
structure SkbPtr where
  block : SkbBlock
  off : Int
  deriving DecidableEq

def SkbPtr.add (p : SkbPtr) (n : Int) : SkbPtr := ⟨p.block, p.off + n⟩

/-- The memory of a block, and what lies around it. -/
abbrev SkbMem := SkbBlock → Int → Byte

def SkbMem.at (mem : SkbMem) (p : SkbPtr) : Byte := mem p.block p.off

def SkbMem.memcpy (mem : SkbMem) (dst src : SkbPtr) (n : Int) : SkbMem := fun b o =>
  if b = dst.block ∧ dst.off ≤ o ∧ o < dst.off + n then mem src.block (src.off + (o - dst.off))
  else mem b o

/-- The data pointers and the length of an `sk_buff` without fragments (`data_len` is 0). -/
structure SkBuff where
  head : SkbPtr
  data : SkbPtr
  tail : SkbPtr
  endPtr : SkbPtr
  len : Nat

/-- An MPS buffer by its headroom, length and tailroom. -/
structure SkbLayout where
  headroom : Nat
  len : Nat
  tailroom : Nat

def SkbLayout.skb (l : SkbLayout) : SkBuff :=
  { head := ⟨.source, 0⟩
    data := ⟨.source, l.headroom⟩
    tail := ⟨.source, l.headroom + l.len⟩
    endPtr := ⟨.source, l.headroom + l.len + l.tailroom⟩
    len := l.len }

/-- The headroom that `dev_alloc_skb` builds in. -/
def devAllocRoom : Nat := 16

/-- A buffer of the allocation queue: the one size of the pool, whatever is asked for, as
`dev_alloc_skb` on the other CPU has left it. -/
structure PoolBuf where
  addr : Nat
  size : Nat
  room : devAllocRoom ≤ size
  fits : addr + size < 2 ^ 32

def PoolBuf.skb (n : PoolBuf) : SkBuff :=
  { head := ⟨.pool, 0⟩
    data := ⟨.pool, devAllocRoom⟩
    tail := ⟨.pool, devAllocRoom⟩
    endPtr := ⟨.pool, n.size⟩
    len := 0 }

def mpsSkbReserve (skb : SkBuff) (len : Int) : SkBuff :=
  { skb with data := skb.data.add len, tail := skb.tail.add len }

/-- `skb_put`; `none` is `skb_over_panic`. The comparison is one of 32-bit addresses. -/
def skbPut (addr : Nat) (skb : SkBuff) (len : Nat) : Option SkBuff :=
  let skb := { skb with tail := skb.tail.add len, len := skb.len + len }
  if ((addr : Int) + skb.tail.off) % 2 ^ 32 > addr + skb.endPtr.off then none else some skb

/-- `mps_skb_copy_bits`, and `skb_copy_bits` for a buffer without fragments; `none` is `-EFAULT`. -/
def mpsSkbCopyBits (mem : SkbMem) (skb : SkBuff) (offset : Int) (dst : SkbPtr) (len : Int) :
    Option SkbMem :=
  if offset > skb.len - len then none
  else
    let copy := skb.len - offset
    if copy > 0 then
      let copy := if copy > len then len else copy
      let mem := mem.memcpy dst (skb.data.add offset) copy
      if len - copy = 0 then some mem else none
    else if len = 0 then some mem else none

/-- What the helpers have in common: they take a buffer from the pool, move its data pointer by
`reserve`, put `skb->len` bytes and copy these with `header` bytes before them to its head. `none`
is a failed allocation or `BUG`. -/
def copyToPool (alloc : Option PoolBuf) (mem : SkbMem) (skb : SkBuff) (reserve header : Int) :
    Option (SkbMem × SkBuff) := do
  let n ← alloc
  let n' ← skbPut n.addr (mpsSkbReserve n.skb reserve) skb.len
  let mem' ← mpsSkbCopyBits mem skb (-header) n'.head (header + skb.len)
  pure (mem', n')

def skbHeadroom (skb : SkBuff) : Int := skb.data.off - skb.head.off

def ifxMpsSkbCopy (alloc : Option PoolBuf) (mem : SkbMem) (skb : SkBuff) :
    Option (SkbMem × SkBuff) :=
  copyToPool alloc mem skb (skbHeadroom skb) (skbHeadroom skb)

def ifxMpsSkbReallocHeadroom (alloc : Option PoolBuf) (mem : SkbMem) (skb : SkBuff)
    (headroom : Nat) : Option (SkbMem × SkBuff) :=
  let delta := headroom - skbHeadroom skb
  copyToPool alloc mem skb (if delta ≠ 0 then headroom else skbHeadroom skb) (skbHeadroom skb)

def ifxMpsSkbCopyExpand (alloc : Option PoolBuf) (mem : SkbMem) (skb : SkBuff)
    (newheadroom _newtailroom : Nat) : Option (SkbMem × SkBuff) :=
  copyToPool alloc mem skb newheadroom newheadroom

/-- Only the `head` pointers change places; `data`, `tail` and `end` stay as they are, and the pool
buffer is freed with the old head. -/
def ifxMpsPskbExpandHead (alloc : Option PoolBuf) (mem : SkbMem) (skb : SkBuff)
    (nhead _ntail : Nat) : Option (SkbMem × SkBuff) :=
  (copyToPool alloc mem skb nhead (skbHeadroom skb)).map fun r =>
    (r.1, { skb with head := r.2.head })

/-- Pointers of one buffer in their order. -/
def SkbPtr.le (p q : SkbPtr) : Prop := p.block = q.block ∧ p.off ≤ q.off

/-- The result `b` with memory `mem'` is a copy of `skb` with memory `mem`. -/
structure GoodCopy (mem : SkbMem) (skb : SkBuff) (headroom tailroom : Nat) (mem' : SkbMem)
    (b : SkBuff) : Prop where
  head : b.head.le b.data
  data : b.data.le b.tail
  tail : b.tail.le b.endPtr
  len : b.len = skb.len
  bytes : ∀ i, i < skb.len → mem'.at (b.data.add i) = mem.at (skb.data.add i)
  headroom : headroom ≤ b.data.off - b.head.off
  tailroom : tailroom ≤ b.endPtr.off - b.tail.off

/-- Whatever is in the memory, a call that succeeds gives a good copy. -/
def Preserves (src : SkbLayout) (headroom tailroom : Nat)
    (helper : SkbMem → SkBuff → Option (SkbMem × SkBuff)) : Prop :=
  ∀ mem mem' b, helper mem src.skb = some (mem', b) →
    GoodCopy mem src.skb headroom tailroom mem' b

/-- `skb_put` does not panic after a reserve of `reserve` bytes. -/
def PutFits (n : PoolBuf) (reserve len : Nat) : Prop :=
  (n.addr + (devAllocRoom + reserve + len)) % 2 ^ 32 ≤ n.addr + n.size

instance (n : PoolBuf) (reserve len : Nat) : Decidable (PutFits n reserve len) :=
  inferInstanceAs (Decidable (_ ≤ _))

section Helpers

variable (src : SkbLayout) (n : PoolBuf) (mem : SkbMem)

/-- The pool buffer after `mps_skb_reserve` and `skb_put`. -/
def filledPool (reserve len : Nat) : SkBuff :=
  { head := ⟨.pool, 0⟩
    data := ⟨.pool, devAllocRoom + reserve⟩
    tail := ⟨.pool, devAllocRoom + reserve + len⟩
    endPtr := ⟨.pool, n.size⟩
    len }

theorem skbPut_pool (reserve len : Nat) :
    skbPut n.addr (mpsSkbReserve n.skb reserve) len =
      if PutFits n reserve len then some (filledPool n reserve len) else none := by
  have hiff : ((n.addr : Int) + (devAllocRoom + reserve + len)) % 2 ^ 32 > n.addr + n.size ↔
      ¬PutFits n reserve len := by
    unfold PutFits
    omega
  unfold skbPut mpsSkbReserve
  dsimp only [PoolBuf.skb, SkbPtr.add]
  by_cases hfit : PutFits n reserve len
  · rw [if_pos hfit, if_neg (mt hiff.mp (not_not.mpr hfit)), Nat.zero_add]
    rfl
  · rw [if_neg hfit, if_pos (hiff.mpr hfit)]

theorem mpsSkbCopyBits_source (header : Nat) (dst : SkbPtr) :
    mpsSkbCopyBits mem src.skb (-header) dst (header + src.len) =
      some (mem.memcpy dst (src.skb.data.add (-header)) (header + src.len)) := by
  have hlen : src.skb.len = src.len := rfl
  unfold mpsSkbCopyBits
  rw [hlen, if_neg (by omega)]
  dsimp only
  by_cases hpos : (src.len : Int) - -header > 0
  · have hcopy : (if (src.len : Int) - -header > header + src.len then (header : Int) + src.len
        else src.len - -header) = header + src.len := by
      split <;> omega
    rw [if_pos hpos, hcopy, if_pos (Int.sub_self _)]
  · -- nothing to copy
    have hzero : (header : Int) + src.len = 0 := by omega
    rw [if_neg hpos, if_pos hzero, hzero]
    congr 1
    funext b o
    unfold SkbMem.memcpy
    rw [if_neg (by omega)]

theorem copyToPool_eq (reserve header : Nat) :
    copyToPool (some n) mem src.skb reserve header =
      if PutFits n reserve src.len then
        some (mem.memcpy ⟨.pool, 0⟩ (src.skb.data.add (-header)) (header + src.len),
          filledPool n reserve src.len)
      else none := by
  have hlen : src.skb.len = src.len := rfl
  unfold copyToPool
  rw [Option.bind_eq_bind, Option.bind_some, hlen, skbPut_pool]
  split
  next =>
    rw [Option.bind_eq_bind, Option.bind_some]
    rw [mpsSkbCopyBits_source]
    rfl
  next => rfl

/-- Where byte `i` of the result comes from. -/
theorem payload_at (reserve header i : Nat) :
    (mem.memcpy ⟨.pool, 0⟩ (src.skb.data.add (-header)) (header + src.len)).at
        ((filledPool n reserve src.len).data.add i) =
      if devAllocRoom + reserve + i < header + src.len then
        mem .source (src.headroom + (devAllocRoom + reserve + i - header))
      else mem .pool (devAllocRoom + reserve + i) := by
  simp only [SkbMem.at, SkbMem.memcpy, SkbPtr.add, filledPool, SkbLayout.skb]
  by_cases hin : devAllocRoom + reserve + i < header + src.len
  · rw [if_pos ⟨trivial, by omega, by omega⟩, if_pos hin]
    congr 1
    omega
  · rw [if_neg (fun hc => by omega), if_neg hin]

/-- The payload is right, whatever it is, exactly when it lies where the data pointer points. -/
theorem payload_iff (reserve header : Nat) :
    (∀ mem : SkbMem, ∀ i, i < src.len →
      (mem.memcpy ⟨.pool, 0⟩ (src.skb.data.add (-header)) (header + src.len)).at
          ((filledPool n reserve src.len).data.add i) = mem.at (src.skb.data.add i)) ↔
      src.len = 0 ∨ devAllocRoom + reserve = header := by
  constructor
  · intro h
    by_contra hc
    obtain ⟨hlen, hne⟩ := not_or.mp hc
    -- a mark on the first byte of the payload and nowhere else
    have hmark := h (fun b o => if b = .source ∧ o = src.headroom then 1 else 0) 0 (by omega)
    have hfirst : SkbMem.at (fun b o => if b = .source ∧ o = src.headroom then 1 else 0)
        (src.skb.data.add (0 : Nat)) = (1 : Byte) := if_pos ⟨rfl, Int.add_zero _⟩
    rw [payload_at, hfirst] at hmark
    split at hmark
    next =>
      rw [if_neg (fun hc => by omega)] at hmark
      exact absurd hmark (by decide)
    next =>
      rw [if_neg (fun hc => by cases hc.1)] at hmark
      exact absurd hmark (by decide)
  · rintro (hzero | heq) mem i hi
    · omega
    · rw [payload_at, if_pos (by omega)]
      simp only [SkbMem.at, SkbPtr.add, SkbLayout.skb]
      congr 1
      omega

/-- What a helper that returns the pool buffer has to meet. -/
theorem copyToPool_preserves_iff (reserve header headroom tailroom : Nat)
    (hroom : headroom ≤ devAllocRoom + reserve) :
    Preserves src headroom tailroom (fun mem skb => copyToPool (some n) mem skb reserve header) ↔
      (PutFits n reserve src.len →
        devAllocRoom + reserve + src.len + tailroom ≤ n.size ∧
          (src.len = 0 ∨ devAllocRoom + reserve = header)) := by
  rw [← payload_iff src n]
  constructor
  · intro h hfit
    have hcopy : ∀ mem, GoodCopy mem src.skb headroom tailroom _ _ := fun mem =>
      h mem _ _ ((copyToPool_eq src n mem reserve header).trans (if_pos hfit))
    have htail := (hcopy fun _ _ => 0).tailroom
    simp only [filledPool] at htail
    exact ⟨by omega, fun mem => (hcopy mem).bytes⟩
  · intro h mem mem' b hb
    dsimp only at hb
    rw [copyToPool_eq] at hb
    split at hb
    next hfit =>
      cases Option.some.inj hb
      obtain ⟨hsize, hbytes⟩ := h hfit
      refine ⟨⟨rfl, ?_⟩, ⟨rfl, ?_⟩, ⟨rfl, ?_⟩, rfl, hbytes mem, ?_, ?_⟩
      all_goals
        simp only [filledPool]
        omega
    next => cases hb

theorem preserves_congr {src : SkbLayout} {headroom tailroom : Nat}
    {f g : SkbMem → SkBuff → Option (SkbMem × SkBuff)}
    (h : ∀ mem, f mem src.skb = g mem src.skb) :
    Preserves src headroom tailroom f ↔ Preserves src headroom tailroom g := by
  unfold Preserves
  simp only [h]

theorem skbHeadroom_layout : skbHeadroom src.skb = src.headroom := Int.sub_zero _

theorem skbCopy_preserves_iff :
    Preserves src 0 0 (ifxMpsSkbCopy (some n)) ↔
      (PutFits n src.headroom src.len → src.len = 0 ∧ devAllocRoom + src.headroom ≤ n.size) := by
  have heq : ∀ mem, ifxMpsSkbCopy (some n) mem src.skb =
      copyToPool (some n) mem src.skb src.headroom src.headroom := by
    intro mem
    rw [ifxMpsSkbCopy, skbHeadroom_layout]
  rw [preserves_congr
    (g := fun mem skb => copyToPool (some n) mem skb src.headroom src.headroom) heq,
    copyToPool_preserves_iff src n _ _ _ _ (Nat.zero_le _)]
  refine imp_congr_right fun _ => ?_
  simp only [devAllocRoom]
  omega

/-- `delta` makes no difference: without one the old headroom is the one asked for. -/
theorem skbReallocHeadroom_preserves_iff (headroom : Nat) :
    Preserves src headroom 0 (fun mem skb => ifxMpsSkbReallocHeadroom (some n) mem skb headroom) ↔
      (PutFits n headroom src.len → devAllocRoom + headroom + src.len ≤ n.size ∧
        (src.len = 0 ∨ devAllocRoom + headroom = src.headroom)) := by
  have heq : ∀ mem, ifxMpsSkbReallocHeadroom (some n) mem src.skb headroom =
      copyToPool (some n) mem src.skb headroom src.headroom := by
    intro mem
    have hreserve : (if (headroom : Int) - src.headroom ≠ 0 then (headroom : Int)
        else src.headroom) = headroom := by
      split <;> omega
    rw [ifxMpsSkbReallocHeadroom, skbHeadroom_layout, hreserve]
  rw [preserves_congr (g := fun mem skb => copyToPool (some n) mem skb headroom src.headroom) heq,
    copyToPool_preserves_iff src n _ _ _ _ (by omega)]
  rfl

theorem skbCopyExpand_preserves_iff (newheadroom newtailroom : Nat) :
    Preserves src newheadroom newtailroom
        (fun mem skb => ifxMpsSkbCopyExpand (some n) mem skb newheadroom newtailroom) ↔
      (PutFits n newheadroom src.len →
        src.len = 0 ∧ devAllocRoom + newheadroom + newtailroom ≤ n.size) := by
  have hiff := copyToPool_preserves_iff src n newheadroom newheadroom newheadroom newtailroom
    (by omega)
  unfold ifxMpsSkbCopyExpand
  rw [hiff]
  refine imp_congr_right fun _ => ?_
  simp only [devAllocRoom]
  omega

/-- The head of the result is in the new buffer, its data in the one that is freed. -/
theorem pskbExpandHead_preserves_iff (nhead ntail : Nat) :
    Preserves src nhead ntail
        (fun mem skb => ifxMpsPskbExpandHead (some n) mem skb nhead ntail) ↔
      ¬PutFits n nhead src.len := by
  have heq : ∀ mem, ifxMpsPskbExpandHead (some n) mem src.skb nhead ntail =
      (copyToPool (some n) mem src.skb nhead src.headroom).map fun r =>
        (r.1, { src.skb with head := r.2.head }) := by
    intro mem
    rw [ifxMpsPskbExpandHead, skbHeadroom_layout]
  constructor
  · intro h hfit
    have hgood := h (fun _ _ => 0) _ _ ((heq _).trans (by
      rw [copyToPool_eq, if_pos hfit]
      rfl))
    exact absurd hgood.head.1 (by simp [filledPool, SkbLayout.skb])
  · intro hno mem mem' b hb
    dsimp only at hb
    rw [heq, copyToPool_eq, if_neg hno] at hb
    cases hb

end Helpers

/-- For each helper, when every call that succeeds gives a good copy. -/
theorem mpsSkb_helpers_preserve_iff (src : SkbLayout) (n : PoolBuf) (headroom tailroom : Nat) :
    (Preserves src 0 0 (ifxMpsSkbCopy (some n)) ↔
      (PutFits n src.headroom src.len → src.len = 0 ∧ devAllocRoom + src.headroom ≤ n.size)) ∧
    (Preserves src headroom 0
        (fun mem skb => ifxMpsSkbReallocHeadroom (some n) mem skb headroom) ↔
      (PutFits n headroom src.len → devAllocRoom + headroom + src.len ≤ n.size ∧
        (src.len = 0 ∨ devAllocRoom + headroom = src.headroom))) ∧
    (Preserves src headroom tailroom
        (fun mem skb => ifxMpsPskbExpandHead (some n) mem skb headroom tailroom) ↔
      ¬PutFits n headroom src.len) ∧
    (Preserves src headroom tailroom
        (fun mem skb => ifxMpsSkbCopyExpand (some n) mem skb headroom tailroom) ↔
      (PutFits n headroom src.len →
        src.len = 0 ∧ devAllocRoom + headroom + tailroom ≤ n.size)) := by
  refine ⟨?_, ?_, ?_, ?_⟩
  · exact skbCopy_preserves_iff src n
  · exact skbReallocHeadroom_preserves_iff src n headroom
  · exact pskbExpandHead_preserves_iff src n headroom tailroom
  · exact skbCopyExpand_preserves_iff src n headroom tailroom

/-- A buffer of the usual pool: `dev_alloc_skb(2048)`. -/
def usualPoolBuf : PoolBuf := ⟨0x80100000, 2080, by decide, by decide⟩

/-- Four bytes after a headroom of 16: none of the helpers gives a copy of them. -/
theorem usual_packet_not_preserved :
    ¬Preserves ⟨16, 4, 12⟩ 0 0 (ifxMpsSkbCopy (some usualPoolBuf)) ∧
    ¬Preserves ⟨16, 4, 12⟩ 32 0
      (fun mem skb => ifxMpsSkbReallocHeadroom (some usualPoolBuf) mem skb 32) ∧
    ¬Preserves ⟨16, 4, 12⟩ 32 0
      (fun mem skb => ifxMpsPskbExpandHead (some usualPoolBuf) mem skb 32 0) ∧
    ¬Preserves ⟨16, 4, 12⟩ 32 0
      (fun mem skb => ifxMpsSkbCopyExpand (some usualPoolBuf) mem skb 32 0) := by
  rw [skbCopy_preserves_iff, skbReallocHeadroom_preserves_iff, pskbExpandHead_preserves_iff,
    skbCopyExpand_preserves_iff]
  decide

end DanubeBsp
