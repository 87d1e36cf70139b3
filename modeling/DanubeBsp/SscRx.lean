import DanubeBsp.ByteOrder
import DanubeBsp.Runs

namespace DanubeBsp

/-- `IFX_SSC_RXREQ_BLOCK_SIZE`. -/
def rxreqBlockSize : Nat := 32768

/-- The count that `ifx_ssc_read_helper` and `rx_int` write to `RXREQ` when `rest` bytes are missing. -/
def rxreqCount (rest : Nat) : Nat := if rest < rxreqBlockSize then rest else rxreqBlockSize

/-- The value of `IFX_SSC_RB` for an entry of the receive FIFO: its bytes, right-aligned. -/
def rbValue : List Byte → Word
  | [b₀] => beWord 0#8 0#8 0#8 b₀
  | [b₀, b₁] => beWord 0#8 0#8 b₀ b₁
  | [b₀, b₁, b₂] => beWord 0#8 b₀ b₁ b₂
  | [b₀, b₁, b₂, b₃] => beWord b₀ b₁ b₂ b₃
  | _ => 0#32

/-- The bytes that a 32-bit store of the value writes. -/
def storeWord (v : Word) : List Byte := [beByte v 0, beByte v 1, beByte v 2, beByte v 3]

/-- The bytes that the tail loop writes for `validCnt` valid bytes. -/
def storeTail (v : Word) (validCnt : Nat) : List Byte :=
  (List.range validCnt).map fun i => (v >>> (8 * (validCnt - i - 1))).setWidth 8

/-- Where `rx_int` is, with its local variables `fifo_fill_lev` and `bytes_in_buf`. -/
inductive RxIntPc
  | idle
  | words (level bytes : Nat)
  | tail (level bytes : Nat)
  | check
  deriving DecidableEq

/-- A read of `len` bytes in receive-only mode. The controller has clocked in `pos` bytes since its
start, of which `shift` are on their way into the FIFO, and is to clock in `rxcnt` more; `buf` are the
bytes up to `rxbuf_ptr`, and `requested` is the sum of the counts written to `RXREQ`. While `helper`,
`ifx_ssc_read_helper` has enabled the RX interrupt and its own write to `RXREQ` is still to come. -/
structure SscRx where
  len : Nat
  helper : Bool
  rxcnt : Nat
  shift : List Byte
  fifo : List (List Byte)
  pos : Nat
  buf : List Byte
  requested : Nat
  pc : RxIntPc

/-- A write to `RXREQ`. -/
def SscRx.rxreq (s : SscRx) (n : Nat) : SscRx :=
  { s with rxcnt := n, requested := s.requested + n }

/-- The start of a read: `ifx_ssc_read_helper` is about to make the first request, the polling one of
`ifx_ssc_kread` leaves it to `rx_int`. -/
def sscRxStart (len : Nat) (polled : Bool) : SscRx := ⟨len, !polled, 0, [], [], 0, [], 0, .idle⟩

/-- One step of `rx_int`. -/
def SscRx.rxInt (s : SscRx) : SscRx :=
  match s.pc with
  | .idle => { s with pc := .words s.fifo.length (s.len - s.buf.length) }
  | .words level bytes =>
    if 4 ≤ bytes ∧ 0 < level then
      { s with
        buf := s.buf ++ storeWord (rbValue (s.fifo.headD []))
        fifo := s.fifo.tail
        pc := .words (level - 1) (bytes - 4) }
    else { s with pc := .tail level bytes }
  | .tail level bytes =>
    -- STATE.RXBV counts the valid bytes of the first entry, 0 for an empty FIFO
    let validCnt := (s.fifo.headD []).length
    if 0 < bytes ∧ 0 < level ∧ validCnt ≠ 0 then
      let validCnt := if bytes < validCnt then bytes else validCnt
      { s with
        buf := s.buf ++ storeTail (rbValue (s.fifo.headD [])) validCnt
        fifo := s.fifo.tail
        pc := .tail level (bytes - validCnt) }
    else { s with pc := .check }
  | .check =>
    let s := { s with pc := .idle }
    if s.len ≤ s.buf.length then s
    else if s.rxcnt = 0 then s.rxreq (rxreqCount (s.len - s.buf.length))
    else s

inductive SscRxEvent
  | request
  | clock
  | arrive
  | rxInt
  deriving DecidableEq

/-- The helper goes on only where no interrupt routine is under way. The controller clocks in a byte while
`RXCNT` is not 0, and hands a word to the FIFO of `rxfs` entries when it is complete or is the last of the
request. -/
def sscRxStep (stream : Nat → Byte) (rxfs : Nat) (s : SscRx) : SscRxEvent → Option SscRx
  | .request =>
    if s.helper = true ∧ s.pc = .idle then
      some (SscRx.rxreq { s with helper := false } (rxreqCount s.len))
    else none
  | .clock =>
    if 0 < s.rxcnt ∧ s.shift.length < 4 then
      some { s with
        rxcnt := s.rxcnt - 1
        shift := s.shift ++ [stream s.pos]
        pos := s.pos + 1 }
    else none
  | .arrive =>
    if s.fifo.length < rxfs ∧ (s.shift.length = 4 ∨ s.rxcnt = 0 ∧ s.shift ≠ []) then
      some { s with fifo := s.fifo ++ [s.shift], shift := [] }
    else none
  | .rxInt => some s.rxInt

/-- The read asks for no more than its length, each byte asked for has come or is to come, the stream is
stored in order, and nothing is left behind. -/
structure SscRxExact (stream : Nat → Byte) (s : SscRx) : Prop where
  requested : s.requested ≤ s.len
  coming : s.requested = s.pos + s.rxcnt
  stored : s.buf = readBlock stream 0 s.buf.length
  complete : s.len ≤ s.buf.length → s.requested = s.len ∧ s.buf = readBlock stream 0 s.len ∧
    s.fifo = [] ∧ s.shift = [] ∧ s.rxcnt = 0

/-- What is on its way leaves room for each new request: one that `rx_int` makes where its test finds the
last one done and bytes missing, and the helper's, which also finds no other one running. -/
def RxRequestFits (s : SscRx) : SscRxEvent → Prop
  | .request => s.helper = true → s.pc = .idle → s.rxcnt = 0 ∧
      s.buf.length + s.fifo.flatten.length + s.shift.length + rxreqCount s.len ≤ s.len
  | .rxInt => s.pc = .check → s.rxcnt = 0 → s.buf.length < s.len →
      s.buf.length + s.fifo.flatten.length + s.shift.length + rxreqCount (s.len - s.buf.length) ≤ s.len
  | _ => True

instance (s : SscRx) : (e : SscRxEvent) → Decidable (RxRequestFits s e)
  | .request | .rxInt => inferInstanceAs (Decidable (_ → _))
  | .clock | .arrive => inferInstanceAs (Decidable True)

theorem storeWord_rbValue {e : List Byte} (h : e.length = 4) : storeWord (rbValue e) = e := by
  match e, h with
  | [b₀, b₁, b₂, b₃], _ => simp [storeWord, rbValue]

theorem shift_eq_beByte (v : Word) {k : Nat} (hk : k ≤ 3) :
    (v >>> (8 * k)).setWidth 8 = beByte v (3 - k) := by
  ext i hi
  have hpos : 24 - 8 * (3 - k) + i = 8 * k + i := by omega
  simp [beByte, hpos]

theorem storeTail_rbValue {e : List Byte} (h : e.length ≤ 3) :
    storeTail (rbValue e) e.length = e := by
  have hbyte : ∀ i, i < e.length →
      ((rbValue e) >>> (8 * (e.length - i - 1))).setWidth 8 =
        beByte (rbValue e) (4 - e.length + i) := by
    intro i hi
    have hk : 3 - (e.length - i - 1) = 4 - e.length + i := by omega
    rw [shift_eq_beByte _ (by omega), hk]
  have hmap : storeTail (rbValue e) e.length =
      (List.range e.length).map fun i => beByte (rbValue e) (4 - e.length + i) := by
    apply List.map_congr_left
    intro i hi
    exact hbyte i (List.mem_range.mp hi)
  rw [hmap]
  match e, h with
  | [], _ => rfl
  | [b₀], _ => simp [rbValue]
  | [b₀, b₁], _ => simp [rbValue, List.range_succ]
  | [b₀, b₁, b₂], _ => simp [rbValue, List.range_succ]

/-- The entries behind offset `o`: whole words, and the rest of the read in the last one. -/
def RxEntries (len : Nat) : Nat → List (List Byte) → Prop
  | _, [] => True
  | o, e :: es => e.length = min 4 (len - o) ∧ e ≠ [] ∧ RxEntries len (o + e.length) es

theorem rxEntries_concat {len o : Nat} {es : List (List Byte)} {e : List Byte}
    (hes : RxEntries len o es) (hlen : e.length = min 4 (len - (o + es.flatten.length)))
    (hne : e ≠ []) : RxEntries len o (es ++ [e]) := by
  induction es generalizing o with
  | nil => exact ⟨by simpa using hlen, hne, trivial⟩
  | cons d es ih =>
    refine ⟨hes.1, hes.2.1, ih hes.2.2 ?_⟩
    rw [hlen, List.flatten_cons, List.length_append, Nat.add_assoc]

/-- The local variables of `rx_int` fit the buffer and the FIFO. -/
def RxLocals (s : SscRx) : Prop :=
  match s.pc with
  | .words level bytes => bytes = s.len - s.buf.length ∧ level ≤ s.fifo.length
  | .tail level bytes => bytes = s.len - s.buf.length ∧ (level = 0 ∨ bytes < 4)
  | _ => True

structure SscRxInv (stream : Nat → Byte) (s : SscRx) : Prop where
  data : s.buf ++ s.fifo.flatten ++ s.shift = readBlock stream 0 s.pos
  requested : s.requested = s.pos + s.rxcnt
  bound : s.requested ≤ s.len
  whole : 4 ∣ s.requested ∨ s.requested = s.len
  entries : RxEntries s.len s.buf.length s.fifo
  shift : s.shift.length ≤ 4
  aligned : 4 ∣ s.buf.length + s.fifo.flatten.length ∨
    s.shift = [] ∧ s.buf.length + s.fifo.flatten.length = s.len
  locals : RxLocals s

theorem SscRxInv.length {stream : Nat → Byte} {s : SscRx} (h : SscRxInv stream s) :
    s.buf.length + s.fifo.flatten.length + s.shift.length = s.pos := by
  have hlength := congrArg List.length h.data
  rwa [List.length_append, List.length_append, readBlock_length] at hlength

theorem SscRxInv.exact {stream : Nat → Byte} {s : SscRx} (h : SscRxInv stream s) :
    SscRxExact stream s := by
  have hlength := h.length
  have hrequested := h.requested
  have hbound := h.bound
  have hstored : s.buf = readBlock stream 0 s.buf.length := by
    have hdata := h.data
    have hpos : s.pos = s.buf.length + (s.fifo.flatten.length + s.shift.length) := by omega
    rw [List.append_assoc, hpos, readBlock_add] at hdata
    exact (List.append_inj hdata (readBlock_length stream 0 s.buf.length).symm).1
  refine ⟨hbound, hrequested, hstored, ?_⟩
  intro hfull
  have hbuf : s.buf.length = s.len := by omega
  have hshift : s.shift = [] := List.length_eq_zero_iff.mp (by omega)
  have hfifo : s.fifo = [] := by
    cases hf : s.fifo with
    | nil => rfl
    | cons e es =>
      have hentries := h.entries
      rw [hf] at hentries
      have he : e.length = 0 := by
        have hmin := hentries.1
        omega
      exact absurd (List.length_eq_zero_iff.mp he) hentries.2.1
  refine ⟨by omega, ?_, hfifo, hshift, by omega⟩
  rw [← hbuf]
  exact hstored

theorem SscRxInv.clock {stream : Nat → Byte} {s : SscRx} (h : SscRxInv stream s)
    (hcnt : 0 < s.rxcnt) (hshift : s.shift.length < 4) :
    SscRxInv stream { s with
      rxcnt := s.rxcnt - 1, shift := s.shift ++ [stream s.pos], pos := s.pos + 1 } := by
  have hlength := h.length
  have hrequested := h.requested
  have hbound := h.bound
  refine ⟨?_, ?_, h.bound, h.whole, h.entries, ?_, Or.inl ?_, h.locals⟩
  · have hone : readBlock stream (0 + s.pos) 1 = [stream s.pos] := by simp [readBlock]
    rw [readBlock_add, hone, ← h.data]
    simp
  · dsimp only
    omega
  · simp only [List.length_append, List.length_singleton]
    omega
  · rcases h.aligned with haligned | ⟨hempty, hlen⟩
    · exact haligned
    · have hzero : s.shift.length = 0 := by rw [hempty]; rfl
      omega

theorem SscRxInv.arrive {stream : Nat → Byte} {s : SscRx} (h : SscRxInv stream s)
    (hword : s.shift.length = 4 ∨ s.rxcnt = 0 ∧ s.shift ≠ []) :
    SscRxInv stream { s with fifo := s.fifo ++ [s.shift], shift := [] } := by
  have hlength := h.length
  have hrequested := h.requested
  have hbound := h.bound
  have hne : s.shift ≠ [] := by
    rcases hword with hfour | ⟨_, hne⟩
    · intro hnil
      rw [hnil] at hfour
      cases hfour
    · exact hne
  have hpos : 0 < s.shift.length := List.length_pos_iff.mpr hne
  have hle := h.shift
  have haligned : 4 ∣ s.buf.length + s.fifo.flatten.length := by
    rcases h.aligned with haligned | ⟨hempty, _⟩
    · exact haligned
    · exact absurd hempty hne
  -- a short word is the last of the read
  have hlast : s.shift.length = 4 ∨
      s.buf.length + s.fifo.flatten.length + s.shift.length = s.len := by
    rcases hword with hfour | ⟨hzero, _⟩
    · exact Or.inl hfour
    · rcases h.whole with hwhole | hwhole
      · left
        omega
      · right
        omega
  refine ⟨?_, h.requested, h.bound, h.whole, ?_, Nat.zero_le _, ?_, ?_⟩
  · rw [← h.data]
    simp
  · have hmin : s.shift.length = min 4 (s.len - (s.buf.length + s.fifo.flatten.length)) := by omega
    exact rxEntries_concat h.entries hmin hne
  · simp only [List.flatten_append, List.length_append, List.flatten_cons, List.flatten_nil,
      List.length_nil, Nat.add_zero]
    rcases hlast with hfour | hlen
    · left
      omega
    · right
      exact ⟨trivial, by omega⟩
  · have hlocals := h.locals
    unfold RxLocals at hlocals ⊢
    dsimp only
    cases hpc : s.pc with
    | words level bytes =>
      rw [hpc] at hlocals
      exact ⟨hlocals.1, by rw [List.length_append]; exact Nat.le_trans hlocals.2 (Nat.le_add_right _ _)⟩
    | tail level bytes =>
      rw [hpc] at hlocals
      exact hlocals
    | idle => trivial
    | check => trivial

theorem SscRxInv.pop {stream : Nat → Byte} {s : SscRx} (h : SscRxInv stream s) {e : List Byte}
    {es : List (List Byte)} (hfifo : s.fifo = e :: es) {pc : RxIntPc}
    (hlocals : RxLocals { s with buf := s.buf ++ e, fifo := es, pc := pc }) :
    SscRxInv stream { s with buf := s.buf ++ e, fifo := es, pc := pc } := by
  have hdata := h.data
  have hentries := h.entries
  have haligned := h.aligned
  rw [hfifo] at hdata hentries haligned
  refine ⟨?_, h.requested, h.bound, h.whole, ?_, h.shift, ?_, hlocals⟩
  · rw [← hdata]
    simp
  · simpa using hentries.2.2
  · simpa [Nat.add_assoc] using haligned

theorem SscRxInv.head_length {stream : Nat → Byte} {s : SscRx} (h : SscRxInv stream s)
    {e : List Byte} {es : List (List Byte)} (hfifo : s.fifo = e :: es) :
    e.length = min 4 (s.len - s.buf.length) := by
  have hentries := h.entries
  rw [hfifo] at hentries
  exact hentries.1

theorem SscRxInv.setPc {stream : Nat → Byte} {s : SscRx} (h : SscRxInv stream s) {pc : RxIntPc}
    (hlocals : RxLocals { s with pc := pc }) : SscRxInv stream { s with pc := pc } :=
  ⟨h.data, h.requested, h.bound, h.whole, h.entries, h.shift, h.aligned, hlocals⟩

theorem SscRxInv.words {stream : Nat → Byte} {s : SscRx} (h : SscRxInv stream s) {level bytes : Nat}
    (hpc : s.pc = .words level bytes) : SscRxInv stream s.rxInt := by
  have hlocals := h.locals
  simp only [RxLocals, hpc] at hlocals
  obtain ⟨hbytes, hlevel⟩ := hlocals
  simp only [SscRx.rxInt, hpc]
  split
  next hroom =>
    obtain ⟨e, es, hfifo⟩ := List.exists_cons_of_length_pos (Nat.lt_of_lt_of_le hroom.2 hlevel)
    have hfour : e.length = 4 := by
      rw [h.head_length hfifo]
      omega
    rw [hfifo] at hlevel
    simp only [hfifo, List.headD_cons, List.tail_cons, storeWord_rbValue hfour]
    apply h.pop hfifo
    simp only [RxLocals, List.length_append, hfour]
    simp only [List.length_cons] at hlevel
    omega
  next hroom =>
    apply h.setPc
    simp only [RxLocals]
    omega

theorem SscRxInv.tail {stream : Nat → Byte} {s : SscRx} (h : SscRxInv stream s) {level bytes : Nat}
    (hpc : s.pc = .tail level bytes) : SscRxInv stream s.rxInt := by
  have hlocals := h.locals
  simp only [RxLocals, hpc] at hlocals
  obtain ⟨hbytes, hshort⟩ := hlocals
  simp only [SscRx.rxInt, hpc]
  split
  next hroom =>
    cases hfifo : s.fifo with
    | nil => simp [hfifo] at hroom
    | cons e es =>
      have hlen : e.length = bytes := by
        rw [h.head_length hfifo]
        omega
      have hthree : e.length ≤ 3 := by omega
      simp only [List.headD_cons, List.tail_cons, hlen, Nat.lt_irrefl, ↓reduceIte]
      rw [← hlen, storeTail_rbValue hthree]
      apply h.pop hfifo
      simp only [RxLocals, List.length_append]
      omega
  next =>
    apply h.setPc
    trivial

/-- A request that fits what is on its way. -/
theorem SscRxInv.rxreq {stream : Nat → Byte} {s : SscRx} {rest : Nat} (h : SscRxInv stream s)
    (hzero : s.rxcnt = 0) (hrest : s.len ≤ s.buf.length + rest)
    (hfits : s.buf.length + s.fifo.flatten.length + s.shift.length + rxreqCount rest ≤ s.len) :
    SscRxInv stream (s.rxreq (rxreqCount rest)) := by
  have hlength := h.length
  have hrequested := h.requested
  refine ⟨h.data, ?_, ?_, ?_, h.entries, h.shift, h.aligned, h.locals⟩
  · simp only [SscRx.rxreq]
    omega
  · simp only [SscRx.rxreq]
    omega
  · simp only [SscRx.rxreq]
    unfold rxreqCount rxreqBlockSize at hfits ⊢
    split
    next hlast =>
      rw [if_pos hlast] at hfits
      right
      omega
    next hblock =>
      rw [if_neg hblock] at hfits
      rcases h.whole with hwhole | hwhole
      · left
        omega
      · omega

theorem SscRxInv.request {stream : Nat → Byte} {s : SscRx} (h : SscRxInv stream s)
    (hhelper : s.helper = true) (hpc : s.pc = .idle) (hfits : RxRequestFits s .request) :
    SscRxInv stream (SscRx.rxreq { s with helper := false } (rxreqCount s.len)) := by
  obtain ⟨hzero, hroom⟩ := hfits hhelper hpc
  have hdone : SscRxInv stream { s with helper := false } :=
    ⟨h.data, h.requested, h.bound, h.whole, h.entries, h.shift, h.aligned, h.locals⟩
  exact hdone.rxreq hzero (Nat.le_add_left _ _) hroom

/-- The last test of `rx_int`. -/
theorem SscRxInv.check {stream : Nat → Byte} {s : SscRx} (h : SscRxInv stream s)
    (hpc : s.pc = .check) (hfits : RxRequestFits s .rxInt) : SscRxInv stream s.rxInt := by
  have hidle : SscRxInv stream { s with pc := .idle } := h.setPc trivial
  simp only [SscRx.rxInt, hpc]
  split
  · exact hidle
  next hmissing =>
    split
    next hzero => exact hidle.rxreq hzero (by dsimp only; omega) (hfits hpc hzero (by omega))
    next => exact hidle

theorem sscRxStep_inv {stream : Nat → Byte} {rxfs : Nat} {s t : SscRx} {e : SscRxEvent}
    (hs : SscRxInv stream s) (hok : RxRequestFits s e) (h : sscRxStep stream rxfs s e = some t) :
    SscRxInv stream t := by
  cases e with
  | request =>
    obtain ⟨⟨hhelper, hpc⟩, ⟨⟩⟩ := Option.ite_none_right_eq_some.mp h
    exact hs.request hhelper hpc hok
  | clock =>
    obtain ⟨⟨hcnt, hshift⟩, ⟨⟩⟩ := Option.ite_none_right_eq_some.mp h
    exact hs.clock hcnt hshift
  | arrive =>
    obtain ⟨⟨_, hword⟩, ⟨⟩⟩ := Option.ite_none_right_eq_some.mp h
    exact hs.arrive hword
  | rxInt =>
    cases Option.some.inj h
    cases hpc : s.pc with
    | idle =>
      simp only [SscRx.rxInt, hpc]
      apply hs.setPc
      exact ⟨rfl, Nat.le_refl _⟩
    | words level bytes => exact hs.words hpc
    | tail level bytes => exact hs.tail hpc
    | check => exact hs.check hpc hok

/-- A step behind which the read still asks for no more than its length has met the condition. -/
theorem sscRxStep_fits {stream : Nat → Byte} {rxfs : Nat} {s t : SscRx} {e : SscRxEvent}
    (hs : SscRxInv stream s) (h : sscRxStep stream rxfs s e = some t) (ht : SscRxExact stream t) :
    RxRequestFits s e := by
  cases e with
  | request =>
    intro hhelper hpc
    simp only [sscRxStep, hhelper, hpc, and_self, if_true] at h
    cases Option.some.inj h
    have hlength := hs.length
    have hrequested := hs.requested
    have hbound := ht.requested
    have hcoming := ht.coming
    simp only [SscRx.rxreq] at hbound hcoming
    omega
  | clock => trivial
  | arrive => trivial
  | rxInt =>
    intro hpc hzero hmissing
    cases Option.some.inj h
    have hlength := hs.length
    have hrequested := hs.requested
    have hbound := ht.requested
    have hnext : s.rxInt = SscRx.rxreq { s with pc := .idle } (rxreqCount (s.len - s.buf.length)) := by
      simp only [SscRx.rxInt, hpc, hzero, Nat.not_le.mpr hmissing, ↓reduceIte]
    rw [hnext] at hbound
    simp only [SscRx.rxreq] at hbound
    omega

theorem sscRxStart_inv (stream : Nat → Byte) (len : Nat) (polled : Bool) :
    SscRxInv stream (sscRxStart len polled) :=
  ⟨rfl, rfl, Nat.zero_le _, Or.inl ⟨0, rfl⟩, trivial, Nat.zero_le _, Or.inl ⟨0, rfl⟩, trivial⟩

/-- A read in receive-only mode asks for its bytes exactly, in every state of a run, exactly when the
bytes on their way leave room for each request that the helper and `rx_int` make. -/
theorem sscRx_exact_iff (stream : Nat → Byte) (rxfs len : Nat) (polled : Bool)
    (es : List SscRxEvent) :
    RunMeets (sscRxStep stream rxfs) RxRequestFits (sscRxStart len polled) es ↔
      ∀ pre t, pre <+: es → run (sscRxStep stream rxfs) (sscRxStart len polled) pre = some t →
        SscRxExact stream t := by
  apply runMeets_iff_states SscRxInv.exact sscRxStep_inv sscRxStep_fits _
    (sscRxStart_inv stream len polled)
  intro s e _ h
  cases e with
  | request =>
    intro hhelper hpc
    simp [sscRxStep, hhelper, hpc] at h
  | clock => trivial
  | arrive => trivial
  | rxInt => cases h

example : (run (sscRxStep (fun i => BitVec.ofNat 8 i) 8) (sscRxStart 6 false)
    [.request, .clock, .clock, .clock, .clock, .arrive, .clock, .clock, .arrive, .rxInt, .rxInt, .rxInt,
      .rxInt, .rxInt, .rxInt]).map (fun t => (t.requested, t.buf)) =
      some (6, [0#8, 1#8, 2#8, 3#8, 4#8, 5#8]) := by decide

/-- Eight bytes: the second word comes between the level that `rx_int` reads and its last test, so
four more are asked for and are still to come when the read is complete. A latched interrupt that is taken
before the helper's request asks for all eight, and the helper for eight more. -/
theorem sscRx_requested_twice :
    (∃ t, run (sscRxStep (fun i => BitVec.ofNat 8 i) 8) (sscRxStart 8 false)
        [.request, .clock, .clock, .clock, .clock, .arrive, .rxInt, .clock, .clock, .clock, .clock,
          .arrive, .rxInt, .rxInt, .rxInt, .rxInt, .rxInt, .rxInt, .rxInt, .rxInt, .rxInt] = some t ∧
        t.buf.length = 8 ∧ t.requested = 12 ∧ t.rxcnt = 4 ∧
        ¬ SscRxExact (fun i => BitVec.ofNat 8 i) t) ∧
      ∃ t, run (sscRxStep (fun i => BitVec.ofNat 8 i) 8) (sscRxStart 8 false)
          [.rxInt, .rxInt, .rxInt, .rxInt, .request] = some t ∧ t.requested = 16 ∧
        ¬ SscRxExact (fun i => BitVec.ofNat 8 i) t := by
  refine ⟨⟨_, rfl, rfl, rfl, rfl, ?_⟩, ⟨_, rfl, rfl, ?_⟩⟩
  · intro h
    exact absurd h.requested (by decide)
  · intro h
    exact absurd h.requested (by decide)

end DanubeBsp
