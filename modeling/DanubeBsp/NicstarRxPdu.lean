import DanubeBsp.Aal5
import DanubeBsp.NicstarRxOwner

namespace DanubeBsp

section Bytes

variable {mem : Nat → Byte} {n m : Nat}

theorem memBytes_length (mem : Nat → Byte) (n : Nat) : (memBytes mem n).length = n := by
  rw [memBytes, List.length_map, List.length_range]

theorem memBytes_add (mem : Nat → Byte) (n m : Nat) :
    memBytes mem (n + m) = memBytes mem n ++ memBytes (fun k => mem (n + k)) m := by
  rw [memBytes, List.range_add, List.map_append, List.map_map]
  rfl

theorem memBytes_take (mem : Nat → Byte) (n m : Nat) :
    (memBytes mem n).take m = memBytes mem (min m n) := by
  rw [memBytes, ← List.map_take, List.take_range]
  rfl

theorem memBytes_congr {mem' : Nat → Byte} (h : ∀ k < n, mem' k = mem k) :
    memBytes mem' n = memBytes mem n := by
  refine List.map_congr_left ?_
  intro k hk
  exact h k (List.mem_range.mp hk)

theorem memBytes_getD (hm : m < n) : (memBytes mem n).getD m 0 = mem m := by
  rw [memBytes, List.getD_eq_getElem _ _ (by simpa using hm)]
  simp

end Bytes

/-- The bytes in the buffers of an iovec. -/
def iovBytes (mem : Word → Nat → Byte) (iov : List NsIov) : List Byte :=
  iov.flatMap fun i => memBytes (mem i.base) i.len

/-- The iovec entry that an RSQ entry makes. -/
def NsRsqe.iov (e : NsRsqe) : NsIov := ⟨e.bufferHandle, e.cellcount * 48⟩

/-- How many packets of the socket, of AAL5, the driver has counted as dropped. -/
def NsRxLog.dropped (l : NsRxLog) (v : Nat) : Nat := (l.drops .aal5).count v

/-- Nothing is delivered, and a drop is counted if there was an SDU; or the SDU is delivered. -/
def PduOutcome (v : Nat) (r : Option (List Byte)) (l l' : NsRxLog) : Prop :=
  (l'.pushed = l.pushed ∧ l.dropped v + r.toList.length ≤ l'.dropped v) ∨
    ∃ d, r = some d ∧ l'.pushed = l.pushed ++ [⟨v, none, d⟩] ∧ l'.dropped v = l.dropped v

section Log

variable {l l' : NsRxLog} {mem : Word → Nat → Byte} {v : Nat} {e : NsRsqe} {s : NsRxBufs}
  {iov : List NsIov} {rxIov : Option (List NsIov)} {rest : Multiset Word} {len : Nat}

@[simp] theorem err_pushed (l : NsRxLog) : l.err.pushed = l.pushed := rfl

@[simp] theorem err_dropped (l : NsRxLog) (v : Nat) : l.err.dropped v = l.dropped v := rfl

@[simp] theorem drop_pushed (l : NsRxLog) (a : NsAal) (v n : Nat) :
    (l.drop a v n).pushed = l.pushed := rfl

@[simp] theorem drop_dropped (l : NsRxLog) (v n : Nat) :
    (l.drop .aal5 v n).dropped v = l.dropped v + n := by
  simp [NsRxLog.drop, NsRxLog.dropped]

@[simp] theorem push_pushed (l : NsRxLog) (a : NsAal) (d : NsSdu) :
    (l.push a d).pushed = l.pushed ++ [d] := rfl

@[simp] theorem push_dropped (l : NsRxLog) (a : NsAal) (d : NsSdu) (v : Nat) :
    (l.push a d).dropped v = l.dropped v := rfl

theorem charge_cases (l : NsRxLog) (v : Nat) :
    ((l.charge .aal5 v).1 = true ∧ (l.charge .aal5 v).2.pushed = l.pushed ∧
        (l.charge .aal5 v).2.dropped v = l.dropped v) ∨
      ((l.charge .aal5 v).1 = false ∧ (l.charge .aal5 v).2.pushed = l.pushed ∧
        (l.charge .aal5 v).2.dropped v = l.dropped v + 1) := by
  unfold NsRxLog.charge
  split
  · exact .inl ⟨rfl, rfl, rfl⟩
  · exact .inl ⟨rfl, rfl, rfl⟩
  · refine .inr ⟨rfl, rfl, ?_⟩
    rw [drop_dropped]
    rfl

theorem hugeCopy_eq (mem : Word → Nat → Byte) (iov : List NsIov) (n : Nat) :
    hugeCopy mem iov n = (iovBytes mem iov).take n := by
  induction iov generalizing n with
  | nil => rw [iovBytes, List.flatMap_nil, List.take_nil, hugeCopy]
  | cons x iov ih =>
    have hrest : n - min n x.len = n - x.len := by omega
    have hbytes : iovBytes mem (x :: iov) = memBytes (mem x.base) x.len ++ iovBytes mem iov := rfl
    rw [hugeCopy, ih, hbytes, List.take_append, memBytes_length, memBytes_take, hrest]

/-- A PDU that is complete and right is delivered as it is, or a drop is counted. -/
theorem deliverPdu_log (hne : iov ≠ []) (hfit : len ≤ (iovBytes mem iov).length)
    (hlen : len ≤ 65536) (hfirst : 1 < iov.length → ∀ x ∈ iov.head?, x.len = nsB0BufSize)
    (hlong : 2 < iov.length → nsB0BufSize ≤ len) :
    PduOutcome v (some ((iovBytes mem iov).take len)) l (deliverPdu mem v iov len s l).2 := by
  -- a refused charge counts a drop
  have hrefused : ∀ {l' : NsRxLog} {d : List Byte}, l'.pushed = l.pushed →
      l'.dropped v = l.dropped v + 1 → PduOutcome v (some d) l l' :=
    fun hpushed hdropped => .inl ⟨hpushed, Nat.le_of_eq hdropped.symm⟩
  have hgiven : ∀ {l' : NsRxLog} {d : List Byte}, d = (iovBytes mem iov).take len →
      l'.pushed = l.pushed → l'.dropped v = l.dropped v →
      PduOutcome v (some ((iovBytes mem iov).take len)) l (l'.push .aal5 ⟨v, none, d⟩) := by
    intro l' d hd hpushed hdropped
    refine .inr ⟨_, rfl, ?_, ?_⟩
    · rw [push_pushed, hpushed, hd]
    · rw [push_dropped, hdropped]
  have hcharge := charge_cases l v
  match iov with
  | [] => exact absurd rfl hne
  | [sb] =>
    unfold deliverPdu
    dsimp only
    generalize l.charge .aal5 v = c at hcharge ⊢
    obtain ⟨ok, l'⟩ := c
    rcases hcharge with ⟨hok, hpushed, hdropped⟩ | ⟨hok, hpushed, hdropped⟩
    · cases hok
      refine hgiven ?_ hpushed hdropped
      have hbytes : iovBytes mem [sb] = memBytes (mem sb.base) sb.len := List.append_nil _
      rw [hbytes, memBytes_length] at hfit
      rw [hbytes, memBytes_take, Nat.min_eq_left hfit]
    · cases hok
      exact hrefused hpushed hdropped
  | [sb, lb] =>
    have hsb : sb.len = nsB0BufSize := hfirst (show 1 < 2 by omega) sb rfl
    have hbytes : iovBytes mem [sb, lb] =
        memBytes (mem sb.base) nsB0BufSize ++ memBytes (mem lb.base) lb.len := by
      rw [← hsb]
      exact congrArg (memBytes (mem sb.base) sb.len ++ ·) (List.append_nil _)
    rw [hbytes, List.length_append, memBytes_length, memBytes_length] at hfit
    unfold deliverPdu
    dsimp only
    generalize l.charge .aal5 v = c at hcharge ⊢
    obtain ⟨ok, l'⟩ := c
    split
    next hshort =>
      rcases hcharge with ⟨hok, hpushed, hdropped⟩ | ⟨hok, hpushed, hdropped⟩
      · cases hok
        refine hgiven ?_ hpushed hdropped
        rw [hbytes, List.take_append_of_le_length (by rwa [memBytes_length]), memBytes_take,
          Nat.min_eq_left hshort]
      · cases hok
        exact hrefused hpushed hdropped
    next hlonger =>
      rcases hcharge with ⟨hok, hpushed, hdropped⟩ | ⟨hok, hpushed, hdropped⟩
      · cases hok
        refine hgiven ?_ hpushed hdropped
        rw [hbytes, List.take_append, memBytes_length, memBytes_take, memBytes_take,
          Nat.min_eq_right (by omega), Nat.min_eq_left (by omega)]
      · cases hok
        exact hrefused hpushed hdropped
  | sb :: lb :: lb2 :: lbs =>
    have hsb : sb.len = nsB0BufSize := hfirst (by simp) sb rfl
    have hlen' : nsB0BufSize ≤ len := hlong (by simp)
    unfold deliverPdu
    dsimp only
    rcases takeHugeBuf s with ⟨ok, s'⟩
    cases ok with
    | false =>
      refine .inl ⟨rfl, ?_⟩
      rw [drop_dropped]
      rfl
    | true =>
      dsimp only
      generalize l.charge .aal5 v = c at hcharge ⊢
      obtain ⟨ok, l'⟩ := c
      rcases hcharge with ⟨hok, hpushed, hdropped⟩ | ⟨hok, hpushed, hdropped⟩
      · cases hok
        refine hgiven ?_ hpushed hdropped
        have hremaining : (len + 2 ^ 32 - sb.len) % 2 ^ 32 = len - nsB0BufSize := by
          rw [hsb]
          unfold nsB0BufSize at hlen' ⊢
          omega
        have hbytes : iovBytes mem (sb :: lb :: lb2 :: lbs) =
            memBytes (mem sb.base) nsB0BufSize ++ iovBytes mem (lb :: lb2 :: lbs) := by
          rw [← hsb]
          rfl
        rw [hremaining, hugeCopy_eq, hbytes, List.take_append, memBytes_length, memBytes_take,
          Nat.min_eq_right hlen', hsb]
      · cases hok
        exact hrefused hpushed hdropped

/-- What the bytes of a PDU hold, and `bad` is the answer of the checksum. -/
def pduSdu (bad : Bool) (pdu : List Byte) : Option (List Byte) := if bad then none else aal5Sdu pdu

/-- The end of a PDU: it is delivered exactly if it is right. -/
theorem endPdu_log (pre : List NsIov) (hiov : iov = pre ++ [⟨e.bufferHandle, e.cellcount * 48⟩])
    (hcells : 1 ≤ e.cellcount) (hfirst : 1 < iov.length → ∀ x ∈ iov.head?, x.len = nsB0BufSize)
    (hlong : 2 < iov.length → nsB0BufSize + 55 ≤ (iovBytes mem iov).length) :
    PduOutcome v (pduSdu e.crcerr (iovBytes mem iov)) l (endPdu mem v e iov s l).2 := by
  have htotal : (iov.map NsIov.len).sum = (iovBytes mem iov).length := by
    rw [iovBytes, List.length_flatMap]
    refine congrArg List.sum (List.map_congr_left fun x _ => ?_)
    rw [memBytes_length]
  have hbytes : iovBytes mem iov =
      iovBytes mem pre ++ memBytes (mem e.bufferHandle) (e.cellcount * 48) := by
    rw [hiov, iovBytes, List.flatMap_append, List.flatMap_singleton]
    rfl
  have hsum : (iovBytes mem iov).length = (iovBytes mem pre).length + e.cellcount * 48 := by
    rw [hbytes, List.length_append, memBytes_length]
  -- the octets of the trailer are in the last buffer
  have htrailer : ∀ k, 1 ≤ k → k ≤ 48 → (iovBytes mem iov).getD ((iovBytes mem iov).length - k) 0 =
      mem e.bufferHandle (e.cellcount * 48 - k) := by
    intro k hk hk'
    have hat : (iovBytes mem iov).length - k =
        (iovBytes mem pre).length + (e.cellcount * 48 - k) := by
      omega
    rw [hat, hbytes, List.getD_append_right _ _ _ _ (Nat.le_add_right _ _),
      Nat.add_sub_cancel_left, memBytes_getD (by omega)]
  have hlenEq : nsAal5Len (mem e.bufferHandle) (e.cellcount * 48) =
      aal5Len ((iovBytes mem iov).getD ((iovBytes mem iov).length - 6) 0)
        ((iovBytes mem iov).getD ((iovBytes mem iov).length - 5) 0) := by
    rw [htrailer 6 (by omega) (by omega), htrailer 5 (by omega) (by omega)]
    rfl
  have hbound := aal5Len_le ((iovBytes mem iov).getD ((iovBytes mem iov).length - 6) 0)
    ((iovBytes mem iov).getD ((iovBytes mem iov).length - 5) 0)
  have hsdu : aal5Sdu (iovBytes mem iov) =
      if nsAal5Len (mem e.bufferHandle) (e.cellcount * 48) + 8 ≤ (iovBytes mem iov).length ∧
        (iovBytes mem iov).length ≤ nsAal5Len (mem e.bufferHandle) (e.cellcount * 48) + 55 then
        some ((iovBytes mem iov).take (nsAal5Len (mem e.bufferHandle) (e.cellcount * 48)))
      else none := by
    rw [hlenEq]
    rfl
  rw [← hlenEq] at hbound
  unfold endPdu
  dsimp only
  rw [htotal]
  generalize nsAal5Len (mem e.bufferHandle) (e.cellcount * 48) = len at hbound hsdu ⊢
  by_cases hbad : e.crcerr = true ∨ (iovBytes mem iov).length < len + 8 ∨
      len + (47 + 8) < (iovBytes mem iov).length
  · have hnone : pduSdu e.crcerr (iovBytes mem iov) = none := by
      unfold pduSdu
      split
      · rfl
      next hcrc =>
        rw [hsdu]
        refine if_neg ?_
        intro hfit
        rcases hbad with hbad | hbad | hbad
        · exact hcrc hbad
        · omega
        · omega
    rw [if_pos hbad, hnone]
    exact .inl ⟨err_pushed l, Nat.le_of_eq (err_dropped l v).symm⟩
  · have hcrc : ¬e.crcerr = true := fun h => hbad (.inl h)
    have hfit : len + 8 ≤ (iovBytes mem iov).length ∧ (iovBytes mem iov).length ≤ len + 55 := by
      constructor
      · by_contra hno
        exact hbad (.inr (.inl (by omega)))
      · by_contra hno
        exact hbad (.inr (.inr (by omega)))
    rw [if_neg hbad, pduSdu, if_neg hcrc, hsdu, if_pos hfit]
    refine deliverPdu_log ?_ (by omega) hbound.2 hfirst ?_
    · rw [hiov]
      exact List.append_ne_nil_of_right_ne_nil _ (List.cons_ne_nil _ _)
    · intro hthree
      have := hlong hthree
      omega

/-- The first buffer of a PDU. -/
theorem dequeueAal5_first (mem : Word → Nat → Byte) (v : Nat) (l : NsRxLog)
    (hskb : e.bufferHandle ∈ s.b0.queue) (hcells : 1 ≤ e.cellcount) :
    (e.eopdu = true → (dequeueAal5 mem v e none s l).1 = none ∧
        PduOutcome v (pduSdu e.crcerr (iovBytes mem [e.iov])) l
          (dequeueAal5 mem v e none s l).2.2) ∧
      (e.eopdu = false →
        (dequeueAal5 mem v e none s l).2.2.pushed = l.pushed ∧
          ((dequeueAal5 mem v e none s l).1 = none ∧
              (dequeueAal5 mem v e none s l).2.2.dropped v = l.dropped v + 1 ∨
            (dequeueAal5 mem v e none s l).1 = some [e.iov] ∧
              (dequeueAal5 mem v e none s l).2.2.dropped v = l.dropped v)) := by
  have hsame := sameRxbufs_takeIovBuf s
  unfold dequeueAal5 openIov
  dsimp only
  rcases htake : takeIovBuf s with ⟨ok, s'⟩
  rw [htake] at hsame
  cases ok with
  | false =>
    dsimp only
    constructor
    · intro _
      refine ⟨rfl, .inl ⟨drop_pushed _ _ _ _, ?_⟩⟩
      rw [drop_dropped]
      have hone : (pduSdu e.crcerr (iovBytes mem [e.iov])).toList.length ≤ 1 := by
        cases pduSdu e.crcerr (iovBytes mem [e.iov]) with
        | none => exact Nat.zero_le 1
        | some d => exact Nat.le_refl 1
      omega
    · exact fun _ => ⟨drop_pushed _ _ _ _, .inl ⟨rfl, drop_dropped _ _ _⟩⟩
  | true =>
    have hmem : e.bufferHandle ∈ s'.b0.queue := by
      have hqueue : s'.b0.queue = s.b0.queue := (hsame .b0).1
      rw [hqueue]
      exact hskb
    dsimp only
    rw [List.nil_append, if_neg (fun h => h.2 hmem), if_neg (fun h => h.1 rfl)]
    constructor
    · intro heop
      rw [if_pos heop]
      refine ⟨rfl, endPdu_log [] rfl hcells ?_ ?_⟩
      · exact fun h => absurd h (Nat.lt_irrefl 1)
      · exact fun h => absurd h (show ¬2 < 1 by omega)
    · intro heop
      rw [if_neg (by rw [heop]; exact Bool.false_ne_true)]
      exact ⟨rfl, .inr ⟨rfl, rfl⟩⟩

/-- A large buffer of a PDU of which the driver keeps nothing. -/
theorem dequeueAal5_skip (mem : Word → Nat → Byte) (v : Nat) (l : NsRxLog)
    (hskb : e.bufferHandle ∉ s.b0.queue) :
    (dequeueAal5 mem v e none s l).1 = none ∧
      (dequeueAal5 mem v e none s l).2.2.pushed = l.pushed ∧
      l.dropped v ≤ (dequeueAal5 mem v e none s l).2.2.dropped v := by
  have hsame := sameRxbufs_takeIovBuf s
  unfold dequeueAal5 openIov
  dsimp only
  rcases htake : takeIovBuf s with ⟨ok, s'⟩
  rw [htake] at hsame
  cases ok with
  | false =>
    refine ⟨rfl, drop_pushed _ _ _ _, ?_⟩
    dsimp only
    rw [drop_dropped]
    omega
  | true =>
    have hmem : e.bufferHandle ∉ s'.b0.queue := by
      have hqueue : s'.b0.queue = s.b0.queue := (hsame .b0).1
      rw [hqueue]
      exact hskb
    dsimp only
    rw [List.nil_append, if_pos ⟨rfl, hmem⟩]
    exact ⟨rfl, err_pushed l, Nat.le_of_eq (err_dropped l v).symm⟩

/-- A further buffer of a PDU. -/
theorem dequeueAal5_next (mem : Word → Nat → Byte) (v : Nat) (l : NsRxLog) (hne : iov ≠ [])
    (hlt : iov.length < nsMaxIovecs) (hskb : e.bufferHandle ∈ s.b1.queue)
    (hcells : 1 ≤ e.cellcount) (hfirst : ∀ x ∈ iov.head?, x.len = nsB0BufSize)
    (hlong : 1 < iov.length → nsB0BufSize + 55 ≤ (iovBytes mem iov).length) :
    (e.eopdu = true → (dequeueAal5 mem v e (some iov) s l).1 = none ∧
        PduOutcome v (pduSdu e.crcerr (iovBytes mem (iov ++ [e.iov]))) l
          (dequeueAal5 mem v e (some iov) s l).2.2) ∧
      (e.eopdu = false → (dequeueAal5 mem v e (some iov) s l).1 = some (iov ++ [e.iov]) ∧
        (dequeueAal5 mem v e (some iov) s l).2.2 = l) := by
  have hpos := List.length_pos_iff.mpr hne
  have hone : ¬((iov ++ [e.iov]).length = 1 ∧ ¬OnList s.b0.queue e.bufferHandle) := by
    intro h
    have hlen := h.1
    rw [List.length_append, List.length_singleton] at hlen
    omega
  unfold dequeueAal5 openIov
  dsimp only
  rw [if_neg (Nat.not_le_of_lt hlt)]
  dsimp only
  have hiov : (⟨e.bufferHandle, e.cellcount * 48⟩ : NsIov) = e.iov := rfl
  rw [hiov, if_neg hone, if_neg (fun h => h.2 hskb)]
  constructor
  · intro heop
    rw [if_pos heop]
    refine ⟨rfl, endPdu_log iov rfl hcells ?_ ?_⟩
    · intro _
      rw [List.head?_append_of_ne_nil _ hne]
      exact hfirst
    · intro hthree
      rw [List.length_append, List.length_singleton] at hthree
      have hmore := hlong (by omega)
      rw [iovBytes, List.flatMap_append, List.length_append]
      exact Nat.le_trans hmore (Nat.le_add_right _ _)
  · intro heop
    rw [if_neg (by rw [heop]; exact Bool.false_ne_true)]
    exact ⟨rfl, rfl⟩

/-- A buffer for which the iovec has no room. -/
theorem dequeueAal5_full (mem : Word → Nat → Byte) (v : Nat) (l : NsRxLog)
    (hs : NsRxBooks s (e.bufferHandle ::ₘ (iovHandles (some iov) + rest)))
    (hfull : iov.length = nsMaxIovecs) (hskb : e.bufferHandle ∈ s.b1.queue) :
    (dequeueAal5 mem v e (some iov) s l).1 = none ∧
      (dequeueAal5 mem v e (some iov) s l).2.2.pushed = l.pushed ∧
      (dequeueAal5 mem v e (some iov) s l).2.2.dropped v = l.dropped v := by
  have htake : iov.take nsMaxIovecs = iov := List.take_of_length_le (Nat.le_of_eq hfull)
  have hswap : (e.bufferHandle ::ₘ (iovHandles (some iov) + rest) : Multiset Word) =
      ↑(iov.map NsIov.base) + (e.bufferHandle ::ₘ rest) := (Multiset.add_cons _ _ _).symm
  rw [hswap] at hs
  have hback := recycleIovecRxBufs_books hs
  have hstill := hback.size _ (Multiset.mem_cons_self _ _) .b1 hskb
  have hno : e.bufferHandle ∉ (recycleIovecRxBufs s (iov.map NsIov.base)).b0.queue := by
    intro hin
    have hsize := hback.books.one_size (t := .b0) hin hstill
    cases hsize
  unfold dequeueAal5 openIov
  dsimp only
  rw [if_pos (Nat.le_of_eq hfull.symm), htake]
  dsimp only
  rw [List.nil_append, if_pos ⟨rfl, hno⟩]
  refine ⟨rfl, rfl, ?_⟩
  dsimp only
  rw [err_dropped, err_dropped]

end Log

end DanubeBsp
