import DanubeBsp.SscReadRuns
import DanubeBsp.SscSession
import DanubeBsp.SscTx
import DanubeBsp.WordBits

namespace DanubeBsp

/-- The polling loop: the receive cursors are on the buffer, and the transmit buffer is on its way or
freed. -/
structure SscPollInv (buf kbuf : Nat) (len : Word) (txirq : Bool) (s : SscPoll) : Prop where
  rxbuf : s.port.rxbuf = kbuf
  rxPtr : s.port.rxbufPtr = kbuf + s.stored.length
  rxEnd : s.port.rxbufEnd = kbuf + len.toNat
  stored : s.stored.length ≤ len.toNat
  tx : s.port.txbufPtr < s.port.txbufEnd ∧ s.port.txbuf = buf ∧ s.freed = [] ∧
      s.port.txirq = txirq ∨
    s.port.txbufEnd ≤ s.port.txbufPtr ∧ s.port.txbuf = 0 ∧ s.freed = [buf]

theorem rxAdvance_tx (p : SscPort) (n : Nat) :
    (p.rxAdvance n).txbuf = p.txbuf ∧ (p.rxAdvance n).txbufPtr = p.txbufPtr ∧
      (p.rxAdvance n).txbufEnd = p.txbufEnd ∧ (p.rxAdvance n).txirq = p.txirq := by
  unfold SscPort.rxAdvance
  dsimp only
  split
  · exact ⟨rfl, rfl, rfl, rfl⟩
  · exact ⟨rfl, rfl, rfl, rfl⟩

/-- `tx_int` with bytes left either sends on or frees the buffer. -/
theorem txInt_progress {p : SscPort} (hlt : p.txbufPtr < p.txbufEnd) (fifoSpace : Nat) :
    ((txInt p fifoSpace).port.txbufPtr < (txInt p fifoSpace).port.txbufEnd ∧
        (txInt p fifoSpace).port.txbuf = p.txbuf ∧ (txInt p fifoSpace).kfreed = none ∧
        (txInt p fifoSpace).port.txirq = p.txirq) ∨
      (txInt p fifoSpace).port.txbufEnd ≤ (txInt p fifoSpace).port.txbufPtr ∧
        (txInt p fifoSpace).port.txbuf = 0 ∧ (txInt p fifoSpace).kfreed = some p.txbuf := by
  obtain ⟨ws, hpass, ⟨hmore, heq⟩ | ⟨hdone, heq⟩⟩ := txInt_cases p fifoSpace
  · rw [heq]
    exact Or.inl ⟨hpass.unsent hlt hmore, rfl, rfl, rfl⟩
  · rw [heq]
    exact Or.inr ⟨hdone, rfl, rfl⟩

theorem SscPollInv.round {buf kbuf : Nat} {len : Word} {txirq : Bool} {s : SscPoll}
    (h : SscPollInv buf kbuf len txirq s) (r : SscRound) : SscPollInv buf kbuf len txirq (s.round r) := by
  obtain ⟨t, ht, hrx, htx⟩ : ∃ t : TxOutcome,
      (if s.port.txbufPtr < s.port.txbufEnd then txInt s.port r.fifoSpace
        else ⟨s.port, [], none⟩) = t ∧
      (t.port.rxbuf = s.port.rxbuf ∧ t.port.rxbufPtr = s.port.rxbufPtr ∧
        t.port.rxbufEnd = s.port.rxbufEnd ∧ t.port.rxirq = s.port.rxirq) ∧
      (t.port.txbufPtr < t.port.txbufEnd ∧ t.port.txbuf = buf ∧ s.freed ++ t.kfreed.toList = [] ∧
          t.port.txirq = txirq ∨
        t.port.txbufEnd ≤ t.port.txbufPtr ∧ t.port.txbuf = 0 ∧
          s.freed ++ t.kfreed.toList = [buf]) := by
    refine ⟨_, rfl, ?_, ?_⟩
    · split
      · exact txInt_rx s.port r.fifoSpace
      · exact ⟨rfl, rfl, rfl, rfl⟩
    · rcases h.tx with ⟨hlt, hbuf, hfreed, hirq⟩ | ⟨hle, hbuf, hfreed⟩
      · rw [if_pos hlt, hfreed]
        rcases txInt_progress hlt r.fifoSpace with ⟨hlt', hbuf', hnone, hirq'⟩ | ⟨hle, hzero, hsome⟩
        · exact Or.inl ⟨hlt', hbuf'.trans hbuf, by rw [hnone]; rfl, hirq'.trans hirq⟩
        · exact Or.inr ⟨hle, hzero, by rw [hsome, hbuf]; rfl⟩
      · rw [if_neg (by omega)]
        exact Or.inr ⟨hle, hbuf, by rw [hfreed]; rfl⟩
  obtain ⟨hrxbuf, hptr, hend, _⟩ := hrx
  have hle := rxStored_length_le (t.port.rxbufEnd - t.port.rxbufPtr) r.level r.fifo
  obtain ⟨hcrx, hcptr, hcend⟩ := rxAdvance_cursors t.port
    (rxStored (t.port.rxbufEnd - t.port.rxbufPtr) r.level r.fifo).length
  obtain ⟨hatx, haptr, haend, hairq⟩ := rxAdvance_tx t.port
    (rxStored (t.port.rxbufEnd - t.port.rxbufPtr) r.level r.fifo).length
  have hrxPtr := h.rxPtr
  have hrxEnd := h.rxEnd
  have hstored := h.stored
  simp only [SscPoll.round, ht]
  constructor
  · exact hcrx.trans (hrxbuf.trans h.rxbuf)
  · rw [hcptr, List.length_append]
    omega
  · exact hcend.trans (hend.trans h.rxEnd)
  · rw [List.length_append]
    omega
  · rw [hatx, haptr, haend, hairq]
    exact htx

/-- The loop ends with a full buffer, and keeps the invariant. -/
theorem SscPollInv.loop {buf kbuf : Nat} {len : Word} {txirq : Bool} {s t : SscPoll}
    {rounds : List SscRound} (h : SscPollInv buf kbuf len txirq s) (ht : s.loop rounds = some t) :
    SscPollInv buf kbuf len txirq t ∧ t.stored.length = len.toNat := by
  induction rounds generalizing s with
  | nil =>
    obtain ⟨hfull, heq⟩ := Option.ite_none_left_eq_some.mp ht
    cases Option.some.inj heq
    have hptr := h.rxPtr
    have hend := h.rxEnd
    have hstored := h.stored
    exact ⟨h, by omega⟩
  | cons r rounds ih =>
    rw [SscPoll.loop] at ht
    by_cases hroom : s.port.rxbufPtr < s.port.rxbufEnd
    · rw [if_pos hroom] at ht
      exact ih (h.round r) ht
    · rw [if_neg hroom] at ht
      cases Option.some.inj ht
      have hptr := h.rxPtr
      have hend := h.rxEnd
      have hstored := h.stored
      exact ⟨h, by omega⟩

theorem toInt_of_le_kmallocMax {len : Word} (h : len.toNat ≤ kmallocMax) :
    len.toInt = len.toNat := by
  unfold kmallocMax at h
  exact BitVec.toInt_eq_toNat_of_lt (by omega)

section Kwrite

variable {p : SscPort} {len : Word} (hlen : len ≠ 0) (kbuf fifoSpace : Nat)

include hlen

end Kwrite

section Session

variable {p : SscPort} {a : SscArgs} (mem : SessionMem p a.size)

variable {mem} {fifoSpace : Nat} {rounds : List SscRound} {o : SessionOutcome}

/-- What a session with its buffers and copies in order knows of its length. -/
structure SessionLen (p : SscPort) (a : SscArgs) (mem : SessionMem p a.size) : Prop where
  ne_zero : a.effSize ≠ 0
  max : a.effSize.toNat ≤ kmallocMax
  tx : mem.tx + a.effSize.toNat < 2 ^ 32
  rx : mem.rx + a.effSize.toNat < 2 ^ 32

theorem SessionLen.toInt (h : SessionLen p a mem) : a.effSize.toInt = a.effSize.toNat :=
  toInt_of_le_kmallocMax h.max

end Session

theorem SscPoll.loop_returns (s : SscPoll) : ∃ rounds t, s.loop rounds = some t := by
  by_cases hroom : s.port.rxbufPtr < s.port.rxbufEnd
  · obtain ⟨r, hfull⟩ : ∃ r, ¬(s.round r).port.rxbufPtr < (s.round r).port.rxbufEnd := by
      refine ⟨⟨0, s.port.rxbufEnd - s.port.rxbufPtr + 1,
        List.replicate (s.port.rxbufEnd - s.port.rxbufPtr) [0#8]⟩, ?_⟩
      have hsame : (if s.port.txbufPtr < s.port.txbufEnd then txInt s.port 0
          else ⟨s.port, [], none⟩) = ⟨s.port, [], none⟩ := by
        split
        · rfl
        · rfl
      have hlength := rxStored_single (s.port.rxbufEnd - s.port.rxbufPtr)
      obtain ⟨_, hptr, hend⟩ := rxAdvance_cursors s.port (s.port.rxbufEnd - s.port.rxbufPtr)
      simp only [SscPoll.round, hsame, hlength, hptr, hend]
      omega
    refine ⟨[r], s.round r, ?_⟩
    rw [SscPoll.loop, if_pos hroom, SscPoll.loop, if_neg hfull]
  · exact ⟨[], s, if_neg hroom⟩

theorem kread_returns (p : SscPort) (kbuf : Nat) (len : Word) :
    ∃ rounds r, p.kread kbuf len rounds = some r := by
  obtain ⟨rounds, t, ht⟩ := SscPoll.loop_returns ⟨p.pollStart kbuf len, [], []⟩
  refine ⟨rounds, ?_⟩
  unfold SscPort.kread
  split_ifs
  · exact ⟨_, rfl⟩
  · exact ⟨_, rfl⟩
  · exact ⟨_, rfl⟩
  · exact ⟨_, rfl⟩
  · exact ⟨_, congrArg _ ht⟩

/-- A session returns once enough has come in. -/
theorem sscSession_returns (p : SscPort) (a : SscArgs) (mem : SessionMem p a.size)
    (fifoSpace : Nat) : ∃ rounds o, p.sscSession a mem fifoSpace rounds = some o := by
  obtain ⟨rounds, r, hr⟩ := kread_returns (p.kwrite mem.tx a.effSize fifoSpace).port mem.rx a.effSize
  refine ⟨rounds, ?_⟩
  cases hmode : a.mode with
  | none =>
    simp only [SscPort.sscSession, hmode]
    exact ⟨_, rfl⟩
  | some mode =>
    simp only [SscPort.sscSession, hmode, hr]
    by_cases hmem : mem.tx = 0 ∨ mem.rx = 0
    · exact ⟨_, if_pos hmem⟩
    · rw [if_neg hmem]
      by_cases hret : (p.kwrite mem.tx a.effSize fifoSpace).ret ≠ a.effSize.toInt
      · exact ⟨_, if_pos hret⟩
      · rw [if_neg hret]
        exact ⟨_, rfl⟩

end DanubeBsp
