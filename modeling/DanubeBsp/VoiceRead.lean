import DanubeBsp.VoiceFifoQueue

namespace DanubeBsp

/-- A mailbox FIFO whose read index lies inside it: `ifx_mps_fifo_clear` starts it there and
`ifx_mps_fifo_read_ptr_inc` keeps it there. -/
structure UpstreamFifo where
  fifo : VoiceFifo
  inside : fifo.preadOff < fifo.size
  small : fifo.size ≤ 2 ^ 31

/-- A call of `ifx_mps_mbx_read_message` as its caller sees it. `stores` are the assignments to
`msg->data` with their indices, `irq` is the interrupt enable bit afterwards. -/
structure ReadCall where
  ret : Int
  header : Word
  stores : List (Nat × Word)
  bytes : Option Nat
  fifo : VoiceFifo
  irq : Bool

/-- The payload loop; its counter runs in steps of four bytes. -/
def payloadStores (fifo : VoiceFifo) (len : Nat) : List (Nat × Word) :=
  (List.range ((len + 3) / 4)).map fun j => (j, ifxMpsFifoRead fifo (4 * j + 4))

/-- `ifx_mps_mbx_read_message` with every store it makes, also those behind `msg->data`. -/
def readMessageCall (fifo : VoiceFifo) (irq : Bool) : ReadCall :=
  let flags := irq
  let header := ifxMpsFifoRead fifo 0
  let len := plength header
  if len % 4 ≠ 0 then
    -- this return leaves out `restore_flags`
    { ret := -1, header, stores := [], bytes := none, fifo, irq := false }
  else
    { ret := 0, header, stores := payloadStores fifo len, bytes := some (len + 4)
      fifo := ifxMpsFifoReadPtrInc fifo (len + 4), irq := flags }

/-- The read stays inside the message buffer, takes exactly the message out of the FIFO and leaves
the interrupts as it found them. The index moves downwards. -/
structure BoundedRead (fifo : VoiceFifo) (irq : Bool) : Prop where
  bounded : ∀ st ∈ (readMessageCall fifo irq).stores, st.1 < maxUpstrmDatawords
  advance : ((readMessageCall fifo irq).fifo.preadOff + (plength (ifxMpsFifoRead fifo 0) + 4)) %
    fifo.size = fifo.preadOff
  moved : (readMessageCall fifo irq).fifo.preadOff ≠ fifo.preadOff
  flags : (readMessageCall fifo irq).irq = irq

theorem readMessageCall_odd {fifo : VoiceFifo} (irq : Bool)
    (h : plength (ifxMpsFifoRead fifo 0) % 4 ≠ 0) :
    readMessageCall fifo irq =
      { ret := -1, header := ifxMpsFifoRead fifo 0, stores := [], bytes := none, fifo,
        irq := false } := if_pos h

theorem readMessageCall_whole {fifo : VoiceFifo} (irq : Bool)
    (h : plength (ifxMpsFifoRead fifo 0) % 4 = 0) :
    readMessageCall fifo irq =
      { ret := 0, header := ifxMpsFifoRead fifo 0
        stores := payloadStores fifo (plength (ifxMpsFifoRead fifo 0))
        bytes := some (plength (ifxMpsFifoRead fifo 0) + 4)
        fifo := ifxMpsFifoReadPtrInc fifo (plength (ifxMpsFifoRead fifo 0) + 4), irq } :=
  if_neg (not_not.mpr h)

/-- For whole words the call is the one of the queue of messages. -/
theorem readMessageCall_message {fifo : VoiceFifo} (irq : Bool)
    (h4 : plength (ifxMpsFifoRead fifo 0) % 4 = 0) :
    ifxMpsMbxReadMessage fifo =
      (.message (readMessageCall fifo irq).header ((readMessageCall fifo irq).stores.map Prod.snd)
        (plength (ifxMpsFifoRead fifo 0) + 4), (readMessageCall fifo irq).fifo) := by
  rw [readMessageCall_whole irq h4]
  have hround : (plength (ifxMpsFifoRead fifo 0) + 3) / 4 = plength (ifxMpsFifoRead fifo 0) / 4 := by
    omega
  unfold ifxMpsMbxReadMessage payloadStores
  dsimp only
  rw [if_neg (not_not.mpr h4), hround, List.map_map]
  rfl

/-- The increment of the read index, by what fits into its `u8` parameter. -/
theorem readPtrInc_preadOff (f : UpstreamFifo) (increment : Nat) :
    (ifxMpsFifoReadPtrInc f.fifo increment).preadOff =
      if f.fifo.size < increment % 2 ^ 8 then f.fifo.preadOff
      else if increment % 2 ^ 8 ≤ f.fifo.preadOff then f.fifo.preadOff - increment % 2 ^ 8
      else f.fifo.preadOff + f.fifo.size - increment % 2 ^ 8 := by
  unfold ifxMpsFifoReadPtrInc
  dsimp only
  split
  next => rfl
  next h => exact downIndex_eq f.inside f.small (Nat.le_of_not_lt h)

@[simp] theorem readPtrInc_size (fifo : VoiceFifo) (increment : Nat) :
    (ifxMpsFifoReadPtrInc fifo increment).size = fifo.size := by
  unfold ifxMpsFifoReadPtrInc
  dsimp only
  split
  next => rfl
  next => rfl

@[simp] theorem readPtrInc_pwriteOff (fifo : VoiceFifo) (increment : Nat) :
    (ifxMpsFifoReadPtrInc fifo increment).pwriteOff = fifo.pwriteOff := by
  unfold ifxMpsFifoReadPtrInc
  dsimp only
  split
  next => rfl
  next => rfl

@[simp] theorem readPtrInc_mem (fifo : VoiceFifo) (increment : Nat) :
    (ifxMpsFifoReadPtrInc fifo increment).mem = fifo.mem := by
  unfold ifxMpsFifoReadPtrInc
  dsimp only
  split
  next => rfl
  next => rfl

/-- Every call keeps the read index inside the FIFO, whatever header it finds. -/
theorem readPtrInc_inside (f : UpstreamFifo) (increment : Nat) :
    (ifxMpsFifoReadPtrInc f.fifo increment).preadOff < f.fifo.size := by
  have hi := f.inside
  rw [readPtrInc_preadOff]
  split
  next => exact hi
  next =>
    split
    next => omega
    next => omega

theorem payloadStores_bounded_iff (fifo : VoiceFifo) (len : Nat) :
    (∀ st ∈ payloadStores fifo len, st.1 < maxUpstrmDatawords) ↔ len ≤ 4 * maxUpstrmDatawords := by
  simp only [payloadStores, List.forall_mem_map, List.mem_range]
  constructor
  · intro h
    by_contra hlen
    exact absurd (h maxUpstrmDatawords (by omega)) (by omega)
  · intro h j hj
    omega

/-- An increment moves the index exactly when it is less than the FIFO and not cut to nothing. -/
theorem readPtrInc_moved_iff (f : UpstreamFifo) (increment : Nat) :
    (ifxMpsFifoReadPtrInc f.fifo increment).preadOff ≠ f.fifo.preadOff ↔
      0 < increment % 2 ^ 8 ∧ increment % 2 ^ 8 < f.fifo.size := by
  have hi := f.inside
  rw [readPtrInc_preadOff]
  split
  next h => exact iff_of_false (fun hne => hne rfl) (by omega)
  next h =>
    split
    next hle => omega
    next hle => omega

theorem boundedRead_iff (f : UpstreamFifo) (irq : Bool) :
    BoundedRead f.fifo irq ↔
      plength (ifxMpsFifoRead f.fifo 0) % 4 = 0 ∧
        plength (ifxMpsFifoRead f.fifo 0) ≤ 4 * maxUpstrmDatawords ∧
        plength (ifxMpsFifoRead f.fifo 0) + 4 < f.fifo.size := by
  by_cases h4 : plength (ifxMpsFifoRead f.fifo 0) % 4 = 0
  · have hcall := readMessageCall_whole irq h4
    have hbound := payloadStores_bounded_iff f.fifo (plength (ifxMpsFifoRead f.fifo 0))
    have hmove := readPtrInc_moved_iff f (plength (ifxMpsFifoRead f.fifo 0) + 4)
    have hoff := readPtrInc_preadOff f (plength (ifxMpsFifoRead f.fifo 0) + 4)
    have hi := f.inside
    constructor
    · intro h
      have hfit := hbound.mp (by simpa only [hcall] using h.bounded)
      have hinc := hmove.mp (by simpa only [hcall] using h.moved)
      have hcut : (plength (ifxMpsFifoRead f.fifo 0) + 4) % 2 ^ 8 =
          plength (ifxMpsFifoRead f.fifo 0) + 4 := by
        simp only [maxUpstrmDatawords] at hfit
        omega
      exact ⟨h4, hfit, by omega⟩
    · rintro ⟨_, hfit, hsize⟩
      have hcut : (plength (ifxMpsFifoRead f.fifo 0) + 4) % 2 ^ 8 =
          plength (ifxMpsFifoRead f.fifo 0) + 4 := by
        simp only [maxUpstrmDatawords] at hfit
        omega
      rw [hcut] at hmove hoff
      refine ⟨?_, ?_, ?_, ?_⟩
      · rw [hcall]
        exact hbound.mpr hfit
      · rw [hcall]
        dsimp only
        rw [hoff, if_neg (by omega)]
        split
        next hle => rw [Nat.sub_add_cancel hle, Nat.mod_eq_of_lt hi]
        next hle =>
          rw [Nat.sub_add_cancel (by omega), Nat.add_mod_right, Nat.mod_eq_of_lt hi]
      · rw [hcall]
        exact hmove.mpr ⟨by omega, hsize⟩
      · rw [hcall]
  · refine iff_of_false ?_ (fun h => h4 h.1)
    intro h
    have hm := h.moved
    rw [readMessageCall_odd irq h4] at hm
    exact hm rfl

/-- An upstream data FIFO with one message whose header says three payload bytes. -/
def oddFifo : VoiceFifo :=
  { mem := fun _ => 0x01000003#32, preadOff := 124, pwriteOff := 116, size := 128, minSpace := 128 }

theorem oddFifo_not_boundedRead : ¬ BoundedRead oddFifo true := by
  intro h
  exact absurd h.flags (by decide)

end DanubeBsp
