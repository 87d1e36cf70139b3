import Mathlib.Data.List.Forall2
import DanubeBsp.AtmDevs
import DanubeBsp.ByteOrder
import DanubeBsp.Runs

namespace DanubeBsp

/-- A connection, with the pointer to its device. -/
structure AtmVcc where
  dev : Word
  vpi : Int
  vci : Int
  deriving DecidableEq

/-- A message from user space: the buffer and the bytes from `skb->data` on, an `IFX_CELL`. -/
structure OamSkb where
  skb : Word
  data : Nat → Byte

/-- The first word of the cell. The bit fields are those of a big-endian processor. -/
def OamSkb.cellHeader (m : OamSkb) : Word := beWord (m.data 0) (m.data 1) (m.data 2) (m.data 3)

def OamSkb.vpi (m : OamSkb) : Int := (m.cellHeader.extractLsb' 20 8).toNat

def OamSkb.vci (m : OamSkb) : Int := (m.cellHeader.extractLsb' 4 16).toNat

/-- `pid` stands behind the 52 bytes of the cell. -/
def OamSkb.pid (m : OamSkb) : Word := beWord (m.data 52) (m.data 53) (m.data 54) (m.data 55)

/-- The loop over `vcc_sklist`. -/
def scanVccs (atmdev : Word) (vpi vci : Int) : List AtmVcc → Option AtmVcc
  | [] => none
  | vcc :: vccs =>
    if vcc.dev ≠ atmdev then scanVccs atmdev vpi vci vccs
    else if vcc.vpi = vpi ∧ vcc.vci = vci then some vcc
    else if vcc.vpi = vpi ∧ (vci = 3 ∨ vci = 4) then some vcc
    else scanVccs atmdev vpi vci vccs

/-- The loop over the devices from number `devId` on, for at most `fuel` rounds. -/
def findAtmVccFrom (vccs : List AtmVcc) (vpi vci : Int) :
    Nat → Int → AtmDevs → Option (Option AtmVcc × AtmDevs)
  | 0, _, _ => none
  | fuel + 1, devId, d =>
    match d.lookup devId with
    | (none, d) => some (none, d)
    | (some atmdev, d) =>
      match scanVccs atmdev vpi vci vccs with
      | some vcc => some (some vcc, d)
      | none => findAtmVccFrom vccs vpi vci fuel (devId + 1) (d.put atmdev)

/-- Each round is for another device. -/
def findAtmVcc (vccs : List AtmVcc) (vpi vci : Int) (d : AtmDevs) :
    Option (Option AtmVcc × AtmDevs) :=
  findAtmVccFrom vccs vpi vci (d.atmDevs.length + 1) 0 d

inductive OamEvent
  | sendOam (vcc : AtmVcc) (m : OamSkb)
  | kfreeSkb (m : OamSkb)

structure OamState where
  devs : AtmDevs
  oamUpid : Word
  events : List OamEvent

/-- A round of the inner loop, for the message taken from the queue. -/
def oamRelay (vccs : List AtmVcc) (s : OamState) (m : OamSkb) : Option OamState :=
  match findAtmVcc vccs m.vpi m.vci s.devs with
  | none => none
  | some (none, devs) => some ⟨devs, m.pid, s.events ++ [.kfreeSkb m]⟩
  | some (some vcc, devs) => some ⟨devs, m.pid, s.events ++ [.sendOam vcc m, .kfreeSkb m]⟩

/-- `late` are the messages that are found in the queue after it had been emptied. They are looked
for only if the socket is there. -/
def oamKrcv (vccs : List AtmVcc) (oamKsock : Bool) (s : OamState) (queue : List OamSkb) :
    List (List OamSkb) → Option OamState
  | [] => run (oamRelay vccs) s queue
  | more :: late =>
    match run (oamRelay vccs) s queue with
    | none => none
    | some s => if oamKsock ∧ more.length ≠ 0 then oamKrcv vccs oamKsock s more late else some s

/-- The messages taken from the queue. -/
def dequeued (oamKsock : Bool) (queue : List OamSkb) : List (List OamSkb) → List OamSkb
  | [] => queue
  | more :: late =>
    if oamKsock ∧ more.length ≠ 0 then queue ++ dequeued oamKsock more late else queue

/-- Channels 3 and 4 are those of the F4 flows: any connection of the path will do. -/
def AtmVcc.Carries (vcc : AtmVcc) (vpi vci : Int) : Prop :=
  vcc.vpi = vpi ∧ (vcc.vci = vci ∨ vci = 3 ∨ vci = 4)

/-- A connection for a message. A socket that is not bound is on none of the devices. -/
def Fits (d : AtmDevs) (vccs : List AtmVcc) (m : OamSkb) (vcc : AtmVcc) : Prop :=
  vcc ∈ vccs ∧ vcc.dev ∈ d.atmDevs ∧ vcc.Carries m.vpi m.vci

/-- A connection that the search comes to: its device has one of the numbers from 0 on up to the first
that is not taken. -/
def Relays (d : AtmDevs) (vccs : List AtmVcc) (m : OamSkb) (vcc : AtmVcc) : Prop :=
  vcc ∈ vccs ∧ d.ReachedFrom 0 vcc.dev ∧ vcc.Carries m.vpi m.vci

/-- The message is sent on at most one connection, out of those of `conn`, and on one if there is any;
then it is freed. -/
def SentOn (conn : AtmVcc → Prop) (m : OamSkb) (events : List OamEvent) : Prop :=
  ∃ sent : List AtmVcc, events = sent.map (.sendOam · m) ++ [.kfreeSkb m] ∧ sent.length ≤ 1 ∧
    (∀ vcc ∈ sent, conn vcc) ∧ ((∃ vcc, conn vcc) → sent ≠ [])

def MessageRight (d : AtmDevs) (vccs : List AtmVcc) (m : OamSkb) (events : List OamEvent) : Prop :=
  SentOn (Fits d vccs m) m events

/-- The run ends, every message that has been dequeued is dealt with in turn, and no reference to a
device is lost or left. -/
def OamBooks (vccs : List AtmVcc) (oamKsock : Bool) (s : OamState) (queue : List OamSkb)
    (late : List (List OamSkb)) : Prop :=
  ∃ t events, oamKrcv vccs oamKsock s queue late = some t ∧
    t.events = s.events ++ events.flatten ∧
    List.Forall₂ (MessageRight s.devs vccs) (dequeued oamKsock queue late) events ∧
    t.devs.refcnt = s.devs.refcnt

variable {d : AtmDevs} {vccs : List AtmVcc} {vpi vci : Int} {s : OamState} {m : OamSkb}

theorem scanVccs_some {atmdev : Word} {vcc : AtmVcc} (h : scanVccs atmdev vpi vci vccs = some vcc) :
    vcc ∈ vccs ∧ vcc.dev = atmdev ∧ vcc.Carries vpi vci := by
  induction vccs with
  | nil => cases h
  | cons first vccs ih =>
    have hlater : scanVccs atmdev vpi vci vccs = some vcc →
        vcc ∈ first :: vccs ∧ vcc.dev = atmdev ∧ vcc.Carries vpi vci := by
      intro hrest
      obtain ⟨hmem, hvcc⟩ := ih hrest
      exact ⟨List.mem_cons_of_mem first hmem, hvcc⟩
    unfold scanVccs at h
    split_ifs at h with hdev hexact hflow
    · exact hlater h
    · cases h
      exact ⟨List.mem_cons_self, not_not.mp hdev, hexact.1, .inl hexact.2⟩
    · cases h
      exact ⟨List.mem_cons_self, not_not.mp hdev, hflow.1, .inr hflow.2⟩
    · exact hlater h

theorem scanVccs_none {atmdev : Word} (h : scanVccs atmdev vpi vci vccs = none) {vcc : AtmVcc}
    (hmem : vcc ∈ vccs) (hdev : vcc.dev = atmdev) : ¬vcc.Carries vpi vci := by
  induction vccs with
  | nil => cases hmem
  | cons first vccs ih =>
    unfold scanVccs at h
    split_ifs at h with hother hexact hflow
    · rcases List.mem_cons.mp hmem with rfl | hmem
      · exact absurd hdev hother
      · exact ih h hmem
    · rcases List.mem_cons.mp hmem with rfl | hmem
      · rintro ⟨hvpi, hvci | hvci⟩
        · exact hexact ⟨hvpi, hvci⟩
        · exact hflow ⟨hvpi, hvci⟩
      · exact ih h hmem

theorem lookup_some {n : Int} {dev : Word} (h : d.devAt n = some dev) :
    d.lookup n = (some dev, d.hold dev) := by
  unfold AtmDevs.lookup
  rw [h]

theorem lookup_none {n : Int} (h : d.devAt n = none) : d.lookup n = (none, d) := by
  unfold AtmDevs.lookup
  rw [h]

/-- What the search finds from a number on. Only a device that it returns a connection of is still
held. -/
theorem findAtmVccFrom_cases (vccs : List AtmVcc) (vpi vci : Int) (hd : d.Closing) {fuel : Nat}
    {n : Int} (hfuel : d.above n < fuel) :
    (findAtmVccFrom vccs vpi vci fuel n d = some (none, d) ∧
      ∀ vcc ∈ vccs, d.ReachedFrom n vcc.dev → ¬vcc.Carries vpi vci) ∨
    ∃ vcc ∈ vccs, d.ReachedFrom n vcc.dev ∧ vcc.Carries vpi vci ∧
      findAtmVccFrom vccs vpi vci fuel n d = some (some vcc, d.hold vcc.dev) := by
  induction fuel generalizing n with
  | zero => omega
  | succ fuel ih =>
    unfold findAtmVccFrom
    cases hn : d.devAt n with
    | none =>
      rw [lookup_none hn]
      refine .inl ⟨rfl, ?_⟩
      intro vcc _ hreached
      have htaken := AtmDevs.reachedFrom_taken hreached
      rw [hn] at htaken
      cases htaken
    | some atmdev =>
      rw [lookup_some hn]
      dsimp only
      cases hscan : scanVccs atmdev vpi vci vccs with
      | some vcc =>
        obtain ⟨hmem, hdev, hcarries⟩ := scanVccs_some hscan
        subst hdev
        exact .inr ⟨vcc, hmem, AtmDevs.reachedFrom_here hn, hcarries, rfl⟩
      | none =>
        dsimp only
        rw [AtmDevs.put_hold hd (AtmDevs.devAt_some hn).1]
        have hfewer := AtmDevs.above_succ_lt hn
        have hfuel' : d.above (n + 1) < fuel := by omega
        rcases ih hfuel' with ⟨hfind, hnone⟩ | ⟨vcc, hmem, hreached, hcarries, hfind⟩
        · refine .inl ⟨hfind, ?_⟩
          intro vcc hmem hreached
          rcases AtmDevs.reachedFrom_cases hn hreached with hdev | hlater
          · exact scanVccs_none hscan hmem hdev
          · exact hnone vcc hmem hlater
        · exact .inr ⟨vcc, hmem, AtmDevs.reachedFrom_next hn hreached, hcarries, hfind⟩

theorem oamRelay_cases (vccs : List AtmVcc) (hs : s.devs.Closing) (m : OamSkb) :
    (oamRelay vccs s m = some ⟨s.devs, m.pid, s.events ++ [.kfreeSkb m]⟩ ∧
      ∀ vcc, ¬Relays s.devs vccs m vcc) ∨
    ∃ vcc, Relays s.devs vccs m vcc ∧ oamRelay vccs s m =
      some ⟨s.devs.hold vcc.dev, m.pid, s.events ++ [.sendOam vcc m, .kfreeSkb m]⟩ := by
  have hfuel : s.devs.above 0 < s.devs.atmDevs.length + 1 :=
    Nat.lt_succ_of_le (s.devs.above_le 0)
  unfold oamRelay findAtmVcc
  rcases findAtmVccFrom_cases vccs m.vpi m.vci hs hfuel with
    ⟨hfind, hnone⟩ | ⟨vcc, hmem, hreached, hcarries, hfind⟩
  · rw [hfind]
    exact .inl ⟨rfl, fun vcc ⟨hmem, hreached, hcarries⟩ => hnone vcc hmem hreached hcarries⟩
  · rw [hfind]
    exact .inr ⟨vcc, ⟨hmem, hreached, hcarries⟩, rfl⟩

/-- The cells sent to a device. -/
def OamEvent.isSentTo (dev : Word) : OamEvent → Bool
  | .sendOam vcc _ => vcc.dev == dev
  | .kfreeSkb _ => false

/-- A round deals with its message. A device is left with a reference more for each cell sent to
it. -/
theorem oamRelay_right (vccs : List AtmVcc) (hs : s.devs.Closing) (m : OamSkb) :
    ∃ t events, oamRelay vccs s m = some t ∧ t.events = s.events ++ events ∧
      SentOn (Relays s.devs vccs m) m events ∧ t.devs.Closing ∧ t.devs.devAt = s.devs.devAt ∧
      ∀ dev, t.devs.refcnt dev = s.devs.refcnt dev + events.countP (OamEvent.isSentTo dev) := by
  rcases oamRelay_cases vccs hs m with ⟨hrelay, hnone⟩ | ⟨vcc, hvcc, hrelay⟩
  · refine ⟨_, _, hrelay, rfl, ?_, hs, rfl, ?_⟩
    · refine ⟨[], rfl, Nat.zero_le 1, ?_, ?_⟩
      · intro vcc hmem
        cases hmem
      · rintro ⟨vcc, hvcc⟩
        exact absurd hvcc (hnone vcc)
    · intro dev
      exact (add_zero _).symm
  · refine ⟨_, _, hrelay, rfl, ?_, AtmDevs.closing_hold hs vcc.dev, rfl, ?_⟩
    · refine ⟨[vcc], rfl, le_refl 1, ?_, ?_⟩
      · intro other hmem
        rw [List.mem_singleton.mp hmem]
        exact hvcc
      · rintro _ hempty
        cases hempty
    · intro dev
      rw [AtmDevs.refcnt_hold]
      by_cases heq : vcc.dev = dev
      · simp [OamEvent.isSentTo, heq]
      · simp [OamEvent.isSentTo, heq]

theorem relays_congr {d' : AtmDevs} (h : d'.devAt = d.devAt) :
    Relays d' vccs m = Relays d vccs m := by
  unfold Relays AtmDevs.ReachedFrom
  rw [h]

theorem Relays.fits {vcc : AtmVcc} (h : Relays d vccs m vcc) : Fits d vccs m vcc :=
  ⟨h.1, AtmDevs.reachedFrom_mem h.2.1, h.2.2⟩

/-- With no connection for it at all, a message is treated right. -/
theorem SentOn.right {events : List OamEvent} (h : SentOn (Relays d vccs m) m events)
    (hnone : ∀ vcc, ¬Fits d vccs m vcc) : MessageRight d vccs m events := by
  obtain ⟨sent, hevents, hlen, hall, _⟩ := h
  refine ⟨sent, hevents, hlen, fun vcc hmem => (hall vcc hmem).fits, ?_⟩
  rintro ⟨vcc, hvcc⟩
  exact absurd hvcc (hnone vcc)

theorem run_oamRelay (vccs : List AtmVcc) (hs : s.devs.Closing) (queue : List OamSkb) :
    ∃ t events, run (oamRelay vccs) s queue = some t ∧
      t.events = s.events ++ events.flatten ∧
      List.Forall₂ (fun m events => SentOn (Relays s.devs vccs m) m events) queue events ∧
      ∀ dev, t.devs.refcnt dev =
        s.devs.refcnt dev + events.flatten.countP (OamEvent.isSentTo dev) := by
  induction queue generalizing s with
  | nil => exact ⟨s, [], rfl, (List.append_nil _).symm, .nil, fun dev => (add_zero _).symm⟩
  | cons m queue ih =>
    obtain ⟨u, first, hrelay, hevents, hright, hu, hdevs, hcount⟩ := oamRelay_right vccs hs m
    obtain ⟨t, events, hrun, hevents', hright', hcount'⟩ := ih hu
    refine ⟨t, first :: events, ?_, ?_, ?_, ?_⟩
    · unfold run at hrun ⊢
      rw [List.foldlM_cons, hrelay]
      exact hrun
    · rw [hevents', hevents, List.append_assoc, List.flatten_cons]
    · refine .cons hright ?_
      refine hright'.imp ?_
      intro m events h
      rwa [relays_congr hdevs] at h
    · intro dev
      rw [hcount', hcount, List.flatten_cons, List.countP_append]
      rw [Nat.cast_add, add_assoc]

/-- The rounds of the outer loop make one run over all the messages. -/
theorem oamKrcv_eq (vccs : List AtmVcc) (oamKsock : Bool) (s : OamState) (queue : List OamSkb)
    (late : List (List OamSkb)) : oamKrcv vccs oamKsock s queue late =
      run (oamRelay vccs) s (dequeued oamKsock queue late) := by
  induction late generalizing s queue with
  | nil => rfl
  | cons more late ih =>
    unfold oamKrcv dequeued
    by_cases hmore : oamKsock ∧ more.length ≠ 0
    · rw [if_pos hmore, run_append]
      cases hrun : run (oamRelay vccs) s queue with
      | none => rfl
      | some t =>
        dsimp only
        rw [if_pos hmore, ih]
        rfl
    · rw [if_neg hmore]
      cases hrun : run (oamRelay vccs) s queue with
      | none => rfl
      | some t => exact if_neg hmore

theorem exists_right_of_forall₂ {α β : Type*} {R : α → β → Prop} {as : List α} {bs : List β}
    (h : List.Forall₂ R as bs) {a : α} (ha : a ∈ as) : ∃ b ∈ bs, R a b := by
  induction h with
  | nil => cases ha
  | @cons first b as bs hfirst _ ih =>
    rcases List.mem_cons.mp ha with rfl | ha
    · exact ⟨b, List.mem_cons_self, hfirst⟩
    · obtain ⟨b', hmem, hb'⟩ := ih ha
      exact ⟨b', List.mem_cons_of_mem b hmem, hb'⟩

theorem forall₂_of_forall_mem {α β : Type*} {R S : α → β → Prop} {as : List α} {bs : List β}
    (h : List.Forall₂ R as bs) (hall : ∀ a ∈ as, ∀ b, R a b → S a b) : List.Forall₂ S as bs := by
  induction h with
  | nil => exact .nil
  | @cons a b as bs hfirst _ ih =>
    refine .cons (hall a List.mem_cons_self b hfirst) (ih ?_)
    exact fun a' ha' => hall a' (List.mem_cons_of_mem a ha')

/-- Only cells that are sent leave a reference, and a message for which there is no connection is
not sent. -/
theorem countP_sent_eq_zero {conn : AtmVcc → Prop} {es : List OamEvent} (hright : SentOn conn m es)
    (hnone : ∀ vcc, ¬conn vcc) (dev : Word) : es.countP (OamEvent.isSentTo dev) = 0 := by
  obtain ⟨sent, rfl, _, hall, _⟩ := hright
  cases sent with
  | nil => rfl
  | cons vcc sent => exact absurd (hall vcc List.mem_cons_self) (hnone vcc)

theorem exists_countP_sent_pos {conn : AtmVcc → Prop} {es : List OamEvent}
    (hright : SentOn conn m es) (hconn : ∃ vcc, conn vcc) :
    ∃ dev, 0 < es.countP (OamEvent.isSentTo dev) := by
  obtain ⟨sent, rfl, _, _, hsent⟩ := hright
  cases sent with
  | nil => exact absurd rfl (hsent hconn)
  | cons vcc sent =>
    refine ⟨vcc.dev, List.countP_pos_iff.mpr ⟨.sendOam vcc m, ?_, beq_self_eq_true vcc.dev⟩⟩
    exact List.mem_append_left _ List.mem_cons_self

/-- Every message goes where it should and the references to the devices are as before exactly if
there is a connection for none of the messages: one that the search comes to costs its device a
reference, and one that it does not come to gets nothing. -/
theorem oamKrcv_books_iff (vccs : List AtmVcc) (oamKsock : Bool) (kept : KeptDevs) (oamUpid : Word)
    (queue : List OamSkb) (late : List (List OamSkb)) :
    OamBooks vccs oamKsock ⟨kept.toAtmDevs, oamUpid, []⟩ queue late ↔
      ∀ m ∈ dequeued oamKsock queue late, ∀ vcc, ¬Fits kept.toAtmDevs vccs m vcc := by
  let s : OamState := ⟨kept.toAtmDevs, oamUpid, []⟩
  have hs : s.devs.Closing := kept.closing
  obtain ⟨t, events, hrun, hevents, hright, hcount⟩ :=
    run_oamRelay vccs hs (dequeued oamKsock queue late)
  rw [← oamKrcv_eq] at hrun
  constructor
  · rintro ⟨t', events', hrun', hevents', hright', hsame⟩ m hm vcc hvcc
    cases Option.some.inj (hrun.symm.trans hrun')
    obtain ⟨es, hes, hes_right⟩ := exists_right_of_forall₂ hright' hm
    obtain ⟨dev, hpos⟩ := exists_countP_sent_pos hes_right ⟨vcc, hvcc⟩
    have hle : es.countP (OamEvent.isSentTo dev) ≤ events.flatten.countP (OamEvent.isSentTo dev) := by
      have hflat : events.flatten = events'.flatten :=
        List.append_cancel_left (hevents.symm.trans hevents')
      rw [hflat]
      exact (List.sublist_flatten_of_mem hes).countP_le
    have hdev : s.devs.refcnt dev =
        s.devs.refcnt dev + events.flatten.countP (OamEvent.isSentTo dev) :=
      (congrFun hsame dev).symm.trans (hcount dev)
    omega
  · intro hnone
    refine ⟨t, events, hrun, hevents, ?_, ?_⟩
    · have hmem : ∀ m ∈ dequeued oamKsock queue late, ∀ es, SentOn (Relays s.devs vccs m) m es →
          MessageRight s.devs vccs m es := fun m hm es hes => hes.right (hnone m hm)
      exact forall₂_of_forall_mem hright hmem
    · funext dev
      have hzero : events.flatten.countP (OamEvent.isSentTo dev) = 0 := by
        refine List.countP_eq_zero.mpr ?_
        intro e he
        obtain ⟨es, hes, he⟩ := List.mem_flatten.mp he
        obtain ⟨m, hm, hes_right⟩ := exists_right_of_forall₂ hright.flip hes
        have hnot : ∀ vcc, ¬Relays s.devs vccs m vcc := fun vcc hvcc => hnone m hm vcc hvcc.fits
        exact List.countP_eq_zero.mp (countP_sent_eq_zero hes_right hnot dev) e he
      rw [hcount, hzero]
      exact add_zero _

/-- A single device, with reference count 1. -/
def oneAtmDev (number : Int) : KeptDevs where
  atmDevs := [0x80100000]
  ops := fun _ => true
  number := fun _ => number
  refcnt := fun _ => 1
  dfClose := fun _ => false
  closing := fun _ _ hclose => by cases hclose

/-- A cell of the connection 0/32. -/
def cellFor32 : OamSkb := ⟨0x80200000, fun i => if i = 2 then 2 else 0⟩

/-- A cell of the connection 0/32 is sent, and device 0 is left with two references; on device 1,
with no device 0, the connection gets nothing. -/
theorem oamKrcv_keeps_reference :
    ¬OamBooks [⟨0x80100000, 0, 32⟩] true ⟨(oneAtmDev 0).toAtmDevs, 0, []⟩ [cellFor32] [] ∧
      ¬OamBooks [⟨0x80100000, 0, 32⟩] true ⟨(oneAtmDev 1).toAtmDevs, 0, []⟩ [cellFor32] [] := by
  constructor
  · rintro ⟨t, _, hrun, _, _, hsame⟩
    have hrefs := congrFun hsame 0x80100000
    have ht : (oamKrcv [⟨0x80100000, 0, 32⟩] true ⟨(oneAtmDev 0).toAtmDevs, 0, []⟩
        [cellFor32] []).map (·.devs.refcnt 0x80100000) = some 2 := by
      decide
    rw [hrun, Option.map_some, hrefs] at ht
    revert ht
    decide
  · rintro ⟨t, events, hrun, hevents, hright, _⟩
    have ht : (oamKrcv [⟨0x80100000, 0, 32⟩] true ⟨(oneAtmDev 1).toAtmDevs, 0, []⟩
        [cellFor32] []).map (·.events.length) = some 1 := by
      decide
    rw [hrun, Option.map_some, hevents] at ht
    obtain ⟨es, rest, hes, hrest, rfl⟩ := List.forall₂_cons_left_iff.mp hright
    cases hrest
    obtain ⟨sent, rfl, _, _, hsent⟩ := hes
    have hne := hsent ⟨⟨0x80100000, 0, 32⟩, by simp, by simp [oneAtmDev], by decide, by decide⟩
    have hlen : sent.length = 0 := by simpa using ht
    exact hne (List.length_eq_zero_iff.mp hlen)

end DanubeBsp
