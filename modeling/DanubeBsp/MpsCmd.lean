import Mathlib.Logic.Function.Basic
import DanubeBsp.Runs
import DanubeBsp.WordMemory

namespace DanubeBsp

/-- The commands of the helpers that CPU1 sends to CPU0. -/
inductive MpsCmd
  | dataAlloc
  | dataFree
  | skbAlloc
  | skbFree
  | datalistAlloc
  | datalistFree
  | getRemoteVer
  deriving DecidableEq

/-- The codes `MPS_CMD_CPU1_*`. -/
def MpsCmd.code : MpsCmd → Nat
  | .dataAlloc => 0x204
  | .dataFree => 0x205
  | .skbAlloc => 0x206
  | .skbFree => 0x207
  | .datalistAlloc => 0x208
  | .datalistFree => 0x209
  | .getRemoteVer => 0x216

/-- The helpers of these commands wait for a reply; those of the others only send. -/
def waitedCodes : List Nat := [0x204, 0x206, 0x208, 0x216]

def MpsCmd.waits (cmd : MpsCmd) : Bool := waitedCodes.contains cmd.code

/-- `mps_data_message` with the first word of its content; `origin` is the call that it belongs to
and no field of the message. -/
structure CmdMsg where
  msgCmd : Nat
  payload : Word
  origin : Option Nat
  deriving DecidableEq

/-- The position of a waiting helper; `returned` with the value and the call that the answered
message belongs to. -/
inductive CallPhase
  | idle
  | cleared (cmd : MpsCmd) (param : Word)
  | waiting
  | woken
  | acked
  | returned (value : Word) (source : Option Nat)
  deriving DecidableEq

def CallPhase.outside : CallPhase → Bool
  | .idle => true
  | .returned _ _ => true
  | _ => false

/-- `mps_cmd_control` and the two command mailboxes. `source`, `answers` and `delivered` are history:
the call whose reply is in `msg_data`, the payload that CPU0 has produced for each call, and whether
the reply of a call has reached the callback. -/
structure CmdSys where
  msgData : Word
  source : Option Nat
  cmdCallbackFlag : Bool
  calls : Nat
  phase : Nat → CallPhase
  requests : List CmdMsg
  replies : List CmdMsg
  answers : Nat → Option Word
  delivered : Nat → Bool

def cmdInit : CmdSys :=
  { msgData := 0, source := none, cmdCallbackFlag := false, calls := 0, phase := fun _ => .idle
    requests := [], replies := [], answers := fun _ => none, delivered := fun _ => false }

/-- The request case of `ifx_mps_cmd_rcv_callback` on CPU0, with the result of the allocation. A free
command sets no message type, so that its reply is not sent. -/
def cmdReply (m : CmdMsg) (result : Word) : Option CmdMsg :=
  if waitedCodes.contains m.msgCmd then some ⟨m.msgCmd + 0x1000, result, m.origin⟩ else none

/-- The response case of `ifx_mps_cmd_rcv_callback`. -/
def ifxMpsCmdRcvCallback (s : CmdSys) (m : CmdMsg) : CmdSys :=
  if m.msgCmd > 0x1000 ∧ waitedCodes.contains (m.msgCmd - 0x1000) = true then
    { s with
      msgData := m.payload
      source := m.origin
      cmdCallbackFlag := true
      delivered := fun k => if m.origin = some k then true else s.delivered k }
  else s

/-- `start` is the clearing of `msg_data` at the head of a helper, `send` its `ifx_cmd_process` call,
whose failure it ignores; `signal` ends the interruptible wait early. -/
inductive CmdEvent
  | start (cmd : MpsCmd) (param : Word)
  | send (k : Nat) (ok : Bool)
  | free (cmd : MpsCmd) (param : Word) (ok : Bool)
  | serve (result : Word) (ok : Bool)
  | deliver
  | wake (k : Nat)
  | signal (k : Nat)
  | ack (k : Nat)
  | finish (k : Nat)

def setPhase (s : CmdSys) (k : Nat) (p : CallPhase) : CmdSys :=
  { s with phase := Function.update s.phase k p }

def post (s : CmdSys) (ok : Bool) (m : CmdMsg) : CmdSys :=
  { s with requests := if ok then s.requests ++ [m] else s.requests }

def cmdStart (s : CmdSys) (cmd : MpsCmd) (param : Word) : Option CmdSys :=
  if cmd.waits then
    some { setPhase s s.calls (.cleared cmd param) with
      msgData := 0, source := none, calls := s.calls + 1 }
  else none

def cmdSend (s : CmdSys) (k : Nat) (ok : Bool) : Option CmdSys :=
  match s.phase k with
  | .cleared cmd param => some (setPhase (post s ok ⟨cmd.code, param, some k⟩) k .waiting)
  | _ => none

def cmdServe (s : CmdSys) (result : Word) (ok : Bool) : Option CmdSys :=
  match s.requests with
  | [] => none
  | m :: rest =>
    match cmdReply m result with
    | none => some { s with requests := rest }
    | some r =>
      some { s with
        requests := rest
        replies := if ok then s.replies ++ [r] else s.replies
        answers := fun k => if m.origin = some k then some result else s.answers k }

def cmdDeliver (s : CmdSys) : Option CmdSys :=
  match s.replies with
  | [] => none
  | m :: rest => some (ifxMpsCmdRcvCallback { s with replies := rest } m)

def cmdStep (s : CmdSys) : CmdEvent → Option CmdSys
  | .start cmd param => cmdStart s cmd param
  | .send k ok => cmdSend s k ok
  | .free cmd param ok => if cmd.waits then none else some (post s ok ⟨cmd.code, param, none⟩)
  | .serve result ok => cmdServe s result ok
  | .deliver => cmdDeliver s
  | .wake k =>
    if s.phase k = .waiting ∧ s.cmdCallbackFlag = true then some (setPhase s k .woken) else none
  | .signal k => if s.phase k = .waiting then some (setPhase s k .woken) else none
  | .ack k =>
    if s.phase k = .woken then some { setPhase s k .acked with cmdCallbackFlag := false } else none
  | .finish k =>
    if s.phase k = .acked then some (setPhase s k (.returned s.msgData s.source)) else none

/-- A helper starts only when no other call is between its start and its return, and neither a
request that will be answered nor a reply is on its way. -/
def QuietStart (s : CmdSys) : CmdEvent → Prop
  | .start _ _ => (∀ k, (s.phase k).outside = true) ∧
      (∀ m ∈ s.requests, waitedCodes.contains m.msgCmd = false) ∧ s.replies = []
  | _ => True

/-- Replies reach their callers: a successful call has the payload of its own reply, no reply serves
two calls, and a waiting call still finds its reply in `msg_data` once it has come. -/
structure CmdMatched (s : CmdSys) : Prop where
  own : ∀ k v source, s.phase k = .returned v source → v ≠ 0 →
    source = some k ∧ s.answers k = some v
  once : ∀ j k k' v v', s.phase k = .returned v (some j) → s.phase k' = .returned v' (some j) →
    v ≠ 0 → v' ≠ 0 → k = k'
  kept : ∀ k, s.phase k = .waiting → s.delivered k = true →
    s.cmdCallbackFlag = true ∧ s.source = some k

/-- The calls whose request, reply or delivered message is still around. -/
def inFlight (s : CmdSys) : List Nat :=
  s.requests.filterMap (·.origin) ++ s.replies.filterMap (·.origin) ++ s.source.toList

def CallPhase.isCleared : CallPhase → Bool
  | .cleared _ _ => true
  | _ => false

/-- The reply code passes the tests of the callback. -/
def acceptedReply (m : CmdMsg) : Prop :=
  m.msgCmd > 0x1000 ∧ waitedCodes.contains (m.msgCmd - 0x1000) = true

/-- Only the youngest call is under way, and at most one message belongs to it. -/
structure CmdInv (s : CmdSys) : Prop where
  older : ∀ k, k + 1 ≠ s.calls → (s.phase k).outside = true
  beyond : ∀ k, s.calls ≤ k → s.phase k = .idle ∧ s.answers k = none ∧ s.delivered k = false
  tokens : inFlight s = [] ∨
    ∃ k, inFlight s = [k] ∧ k + 1 = s.calls ∧ (s.phase k).isCleared = false
  reqs : ∀ m ∈ s.requests, m.origin.isSome = waitedCodes.contains m.msgCmd
  unserved : ∀ m ∈ s.requests, ∀ k, m.origin = some k → s.answers k = none
  reps : ∀ m ∈ s.replies, acceptedReply m ∧ ∃ k, m.origin = some k ∧ s.answers k = some m.payload
  slot : (s.source = none ∧ s.msgData = 0) ∨
    ∃ k, s.source = some k ∧ s.answers k = some s.msgData
  unsent : ∀ k cmd param, s.phase k = .cleared cmd param →
    cmd.waits = true ∧ s.answers k = none ∧ s.delivered k = false
  deliv : ∀ k, s.delivered k = true → k + 1 = s.calls → s.source = some k
  flag : ∀ k, s.phase k = .waiting → s.source = some k → s.cmdCallbackFlag = true
  own : ∀ k v source, s.phase k = .returned v source → v ≠ 0 →
    source = some k ∧ s.answers k = some v

theorem CmdInv.youngest {s : CmdSys} (h : CmdInv s) {k : Nat}
    (hk : (s.phase k).outside = false) : k + 1 = s.calls := by
  by_contra hc
  exact absurd (hk.symm.trans (h.older k hc)) Bool.false_ne_true

theorem CmdInv.matched {s : CmdSys} (h : CmdInv s) : CmdMatched s := by
  refine ⟨h.own, ?_, ?_⟩
  · intro j k k' v v' hk hk' hv hv'
    have h1 := (h.own k v _ hk hv).1
    have h2 := (h.own k' v' _ hk' hv').1
    exact Option.some.inj (h1.symm.trans h2)
  · intro k hk hd
    have hlast := h.youngest (k := k) (by rw [hk]; rfl)
    have hsrc := h.deliv k hd hlast
    exact ⟨h.flag k hk hsrc, hsrc⟩

theorem cmdInit_inv : CmdInv cmdInit := by
  refine ⟨fun _ _ => rfl, fun _ _ => ⟨rfl, rfl, rfl⟩, .inl rfl, ?_, ?_, ?_, .inl ⟨rfl, rfl⟩, ?_, ?_,
    ?_, ?_⟩
  · simp [cmdInit]
  · simp [cmdInit]
  · simp [cmdInit]
  · simp [cmdInit]
  · simp [cmdInit]
  · simp [cmdInit]
  · simp [cmdInit]

theorem cmdStart_inv {s t : CmdSys} {cmd : MpsCmd} {param : Word} (h : CmdInv s)
    (hq : QuietStart s (.start cmd param)) (hs : cmdStart s cmd param = some t) : CmdInv t := by
  obtain ⟨hout, hreq, hrep⟩ := hq
  unfold cmdStart at hs
  split at hs
  next hwaits =>
    cases Option.some.inj hs
    have hnone : s.requests.filterMap (·.origin) = [] := by
      apply List.filterMap_eq_nil_iff.mpr
      intro m hm
      have hsome := h.reqs m hm
      rw [hreq m hm] at hsome
      simpa using hsome
    obtain ⟨-, hans, hdel⟩ := h.beyond s.calls (le_refl _)
    have hother : ∀ {k}, k ≠ s.calls →
        Function.update s.phase s.calls (.cleared cmd param) k = s.phase k :=
      fun hk => Function.update_of_ne hk _ _
    refine ⟨?_, ?_, .inl ?_, h.reqs, h.unserved, h.reps, .inl ⟨rfl, rfl⟩, ?_, ?_, ?_, ?_⟩
    · intro k hk
      show (Function.update s.phase s.calls _ k).outside = true
      rw [hother (by rintro rfl; exact hk rfl)]
      exact hout k
    · intro k hk
      have hk : s.calls + 1 ≤ k := hk
      show Function.update s.phase s.calls _ k = .idle ∧ _
      rw [hother (by omega)]
      exact h.beyond k (by omega)
    · show s.requests.filterMap (·.origin) ++ s.replies.filterMap (·.origin) ++ [] = []
      rw [hnone, hrep]
      rfl
    · intro k cmd' param' hk
      have hk : Function.update s.phase s.calls (.cleared cmd param) k = .cleared cmd' param' := hk
      by_cases hkc : k = s.calls
      · subst hkc
        rw [Function.update_self] at hk
        cases hk
        exact ⟨hwaits, hans, hdel⟩
      · rw [hother hkc] at hk
        exact h.unsent k cmd' param' hk
    · intro k hd hk
      have hk : k + 1 = s.calls + 1 := hk
      have hd : s.delivered k = true := hd
      rw [Nat.succ.inj hk, hdel] at hd
      exact absurd hd Bool.false_ne_true
    · intro k _ hsrc
      exact absurd hsrc (by simp)
    · intro k v source hk
      have hk : Function.update s.phase s.calls (.cleared cmd param) k = .returned v source := hk
      by_cases hkc : k = s.calls
      · subst hkc
        rw [Function.update_self] at hk
        cases hk
      · rw [hother hkc] at hk
        exact h.own k v source hk
  next => simp at hs

/-- A step of the youngest call behind its send that does not touch the messages. -/
theorem CmdInv.advance {s : CmdSys} (h : CmdInv s) {k : Nat} {p : CallPhase} (flag : Bool)
    (hk : (s.phase k).outside = false) (hp : p.isCleared = false) (hw : p ≠ .waiting)
    (hown : ∀ v source, p = .returned v source → v ≠ 0 → source = some k ∧ s.answers k = some v) :
    CmdInv { setPhase s k p with cmdCallbackFlag := flag } := by
  have hlast := h.youngest hk
  have hother : ∀ {j}, j ≠ k → Function.update s.phase k p j = s.phase j :=
    fun hj => Function.update_of_ne hj _ _
  refine ⟨?_, ?_, ?_, h.reqs, h.unserved, h.reps, h.slot, ?_, h.deliv, ?_, ?_⟩
  · intro j hj
    show (Function.update s.phase k p j).outside = true
    rw [hother (by rintro rfl; exact hj hlast)]
    exact h.older j hj
  · intro j hj
    have hj : s.calls ≤ j := hj
    show Function.update s.phase k p j = .idle ∧ _
    rw [hother (by omega)]
    exact h.beyond j hj
  · obtain htok | ⟨j, htok, hj, -⟩ := h.tokens
    · exact .inl htok
    · refine .inr ⟨j, htok, hj, ?_⟩
      have hjk : j = k := by omega
      show (Function.update s.phase k p j).isCleared = false
      rw [hjk, Function.update_self]
      exact hp
  · intro j cmd param hj
    have hj : Function.update s.phase k p j = .cleared cmd param := hj
    by_cases hjk : j = k
    · subst hjk
      rw [Function.update_self] at hj
      rw [hj] at hp
      exact absurd hp Bool.true_eq_false.mp
    · rw [hother hjk] at hj
      exact h.unsent j cmd param hj
  · intro j hj _
    have hj : Function.update s.phase k p j = .waiting := hj
    by_cases hjk : j = k
    · subst hjk
      rw [Function.update_self] at hj
      exact absurd hj hw
    · rw [hother hjk] at hj
      have hjl := h.youngest (k := j) (by rw [hj]; rfl)
      omega
  · intro j v source hj hv
    have hj : Function.update s.phase k p j = .returned v source := hj
    by_cases hjk : j = k
    · subst hjk
      rw [Function.update_self] at hj
      exact hown v source hj hv
    · rw [hother hjk] at hj
      exact h.own j v source hj hv

/-- The message in `msg_data` belongs to the youngest call. -/
theorem CmdInv.source_youngest {s : CmdSys} (h : CmdInv s) {k : Nat} (hk : s.source = some k) :
    k + 1 = s.calls := by
  have hmem : k ∈ inFlight s := by
    apply List.mem_append_right
    rw [hk]
    exact List.mem_singleton_self k
  obtain htok | ⟨j, htok, hj, -⟩ := h.tokens
  · rw [htok] at hmem
    exact absurd hmem List.not_mem_nil
  · rw [htok] at hmem
    rw [List.mem_singleton.mp hmem]
    exact hj

theorem CmdInv.finish {s : CmdSys} (h : CmdInv s) {k : Nat} (hk : s.phase k = .acked) :
    CmdInv (setPhase s k (.returned s.msgData s.source)) := by
  have hout : (s.phase k).outside = false := by rw [hk]; rfl
  refine h.advance s.cmdCallbackFlag hout rfl (by simp) ?_
  intro v source heq hv
  cases heq
  obtain ⟨-, hzero⟩ | ⟨j, hsrc, hans⟩ := h.slot
  · exact absurd hzero hv
  · have hj := h.source_youngest hsrc
    have hl := h.youngest hout
    have hjk : j = k := by omega
    rw [hjk] at hsrc hans
    exact ⟨hsrc, hans⟩

theorem CmdInv.no_tokens {s : CmdSys} (h : CmdInv s) {k : Nat} (hk : (s.phase k).isCleared = true) :
    inFlight s = [] := by
  obtain htok | ⟨j, htok, hj, hjc⟩ := h.tokens
  · exact htok
  · have hout : (s.phase k).outside = false := by
      cases hp : s.phase k with
      | cleared cmd param => rfl
      | _ => simp [hp, CallPhase.isCleared] at hk
    have hl := h.youngest hout
    have hjk : j = k := by omega
    rw [hjk, hk] at hjc
    exact absurd hjc Bool.true_eq_false.mp

theorem cmdSend_inv {s t : CmdSys} {k : Nat} {ok : Bool} (h : CmdInv s)
    (hs : cmdSend s k ok = some t) : CmdInv t := by
  unfold cmdSend at hs
  split at hs
  next cmd param hk =>
    have hout : (s.phase k).outside = false := by rw [hk]; rfl
    have hlast := h.youngest hout
    have htok := h.no_tokens (k := k) (by rw [hk]; rfl)
    obtain ⟨hwaits, hans, hdel⟩ := h.unsent k cmd param hk
    obtain ⟨hfront, hsrc⟩ := List.append_eq_nil_iff.mp htok
    obtain ⟨hreq, hrep⟩ := List.append_eq_nil_iff.mp hfront
    have hsource : s.source = none := by simpa using hsrc
    have hother : ∀ {j}, j ≠ k → Function.update s.phase k .waiting j = s.phase j :=
      fun hj => Function.update_of_ne hj _ _
    cases Option.some.inj hs
    have hposted : ∀ m ∈ (post s ok ⟨cmd.code, param, some k⟩).requests,
        m ∈ s.requests ∨ m = ⟨cmd.code, param, some k⟩ := by
      intro m hm
      simp only [post] at hm
      split at hm
      next =>
        obtain hm | hm := List.mem_append.mp hm
        · exact .inl hm
        · exact .inr (List.mem_singleton.mp hm)
      next => exact .inl hm
    refine ⟨?_, ?_, ?_, ?_, ?_, h.reps, h.slot, ?_, h.deliv, ?_, ?_⟩
    · intro j hj
      show (Function.update s.phase k .waiting j).outside = true
      rw [hother (by rintro rfl; exact hj hlast)]
      exact h.older j hj
    · intro j hj
      have hj : s.calls ≤ j := hj
      show Function.update s.phase k .waiting j = .idle ∧ _
      rw [hother (by omega)]
      exact h.beyond j hj
    · cases ok with
      | true =>
        right
        refine ⟨k, ?_, hlast, ?_⟩
        · show (s.requests ++ [CmdMsg.mk cmd.code param (some k)]).filterMap (·.origin) ++
            s.replies.filterMap (·.origin) ++ s.source.toList = [k]
          rw [List.filterMap_append, hreq, hrep, hsource]
          rfl
        · show (Function.update s.phase k .waiting k).isCleared = false
          rw [Function.update_self]
          rfl
      | false => exact .inl htok
    · intro m hm
      obtain hm | rfl := hposted m hm
      · exact h.reqs m hm
      · exact hwaits.symm
    · intro m hm j hj
      obtain hm | rfl := hposted m hm
      · exact h.unserved m hm j hj
      · rw [← Option.some.inj hj]
        exact hans
    · intro j cmd' param' hj
      have hj : Function.update s.phase k .waiting j = .cleared cmd' param' := hj
      by_cases hjk : j = k
      · subst hjk
        rw [Function.update_self] at hj
        cases hj
      · rw [hother hjk] at hj
        exact h.unsent j cmd' param' hj
    · intro j _ hj
      have hj : s.source = some j := hj
      rw [hsource] at hj
      cases hj
    · intro j v source hj
      have hj : Function.update s.phase k .waiting j = .returned v source := hj
      by_cases hjk : j = k
      · subst hjk
        rw [Function.update_self] at hj
        cases hj
      · rw [hother hjk] at hj
        exact h.own j v source hj
  next => simp at hs

/-- A free command leaves no trace for the waiting helpers. -/
theorem CmdInv.posted_free {s : CmdSys} (h : CmdInv s) {cmd : MpsCmd} (param : Word) (ok : Bool)
    (hcmd : ¬cmd.waits = true) : CmdInv (post s ok ⟨cmd.code, param, none⟩) := by
  cases ok with
  | false => exact h
  | true =>
    have hsplit : ∀ m ∈ s.requests ++ [CmdMsg.mk cmd.code param none],
        m ∈ s.requests ∨ m = ⟨cmd.code, param, none⟩ := by
      intro m hm
      obtain hm | hm := List.mem_append.mp hm
      · exact .inl hm
      · exact .inr (List.mem_singleton.mp hm)
    have htok : inFlight (post s true ⟨cmd.code, param, none⟩) = inFlight s := by
      simp [inFlight, post]
    refine ⟨h.older, h.beyond, ?_, ?_, ?_, h.reps, h.slot, h.unsent, h.deliv, h.flag, h.own⟩
    · rw [htok]
      exact h.tokens
    · intro m hm
      obtain hm | rfl := hsplit m hm
      · exact h.reqs m hm
      · exact (Bool.eq_false_of_not_eq_true hcmd).symm
    · intro m hm j hj
      obtain hm | rfl := hsplit m hm
      · exact h.unserved m hm j hj
      · cases hj

/-- The message at the head of a mailbox is the only one in flight. -/
theorem CmdInv.only_token {s : CmdSys} (h : CmdInv s) {k : Nat} (hk : k ∈ inFlight s) :
    inFlight s = [k] ∧ k + 1 = s.calls ∧ (s.phase k).isCleared = false := by
  obtain htok | ⟨j, htok, hj, hjc⟩ := h.tokens
  · rw [htok] at hk
    exact absurd hk List.not_mem_nil
  · rw [htok, List.mem_singleton] at hk
    subst hk
    exact ⟨htok, hj, hjc⟩

theorem ne_of_cleared {s : CmdSys} {j k : Nat} {cmd : MpsCmd} {param : Word}
    (hj : s.phase j = .cleared cmd param) (hclr : (s.phase k).isCleared = false) : j ≠ k := by
  rintro rfl
  rw [hj] at hclr
  exact absurd hclr Bool.true_eq_false.mp

/-- The message that is served next is the only one: nothing waits behind it, and no reply is under
way. -/
theorem CmdInv.only_request {s : CmdSys} (h : CmdInv s) {m : CmdMsg} {rest : List CmdMsg}
    (hr : s.requests = m :: rest) {k : Nat} (hk : m.origin = some k) :
    rest.filterMap (·.origin) = [] ∧ s.replies = [] ∧ s.source = none ∧ k + 1 = s.calls ∧
      (s.phase k).isCleared = false := by
  have hhead : s.requests.filterMap (·.origin) = k :: rest.filterMap (·.origin) := by
    rw [hr, List.filterMap_cons_some hk]
  have hmem : k ∈ inFlight s := by
    rw [inFlight, hhead]
    simp
  obtain ⟨htok, hlast, hclr⟩ := h.only_token hmem
  rw [inFlight, hhead, List.cons_append, List.cons_append, List.cons.injEq] at htok
  obtain ⟨hfront, hsrc⟩ := List.append_eq_nil_iff.mp htok.2
  obtain ⟨hrest, hreps⟩ := List.append_eq_nil_iff.mp hfront
  refine ⟨hrest, ?_, by simpa using hsrc, hlast, hclr⟩
  apply List.eq_nil_iff_forall_not_mem.mpr
  intro r hrm
  obtain ⟨-, j, hj, -⟩ := h.reps r hrm
  have hnone := List.filterMap_eq_nil_iff.mp hreps r hrm
  rw [hj] at hnone
  cases hnone

/-- The code of a reply leads back to the code that is waited for. -/
theorem reply_waited {code : Nat} (h : waitedCodes.contains code = true) :
    code + 0x1000 > 0x1000 ∧ waitedCodes.contains (code + 0x1000 - 0x1000) = true := by
  have hpos : 0 < code := by
    simp only [waitedCodes, List.contains_iff_mem, List.mem_cons, List.not_mem_nil, or_false] at h
    omega
  refine ⟨by omega, ?_⟩
  rw [Nat.add_sub_cancel]
  exact h

theorem CmdInv.served {s : CmdSys} (h : CmdInv s) {m : CmdMsg} {rest : List CmdMsg}
    (hr : s.requests = m :: rest) {k : Nat} (hk : m.origin = some k) (result : Word) (ok : Bool)
    (hm : waitedCodes.contains m.msgCmd = true) :
    CmdInv { s with
      requests := rest
      replies := if ok then s.replies ++ [⟨m.msgCmd + 0x1000, result, m.origin⟩] else s.replies
      answers := fun j => if m.origin = some j then some result else s.answers j } := by
  obtain ⟨hrest, hnorep, hsource, hlast, hclr⟩ := h.only_request hr hk
  have hnone := h.unserved m (by rw [hr]; exact List.mem_cons_self) k hk
  have hkeep : ∀ {j}, j ≠ k → (if m.origin = some j then some result else s.answers j) =
      s.answers j := by
    intro j hj
    rw [if_neg]
    rw [hk]
    intro heq
    exact hj (Option.some.inj heq).symm
  refine ⟨h.older, ?_, ?_, ?_, ?_, ?_, ?_, ?_, h.deliv, h.flag, ?_⟩
  · intro j hj
    have hj : s.calls ≤ j := hj
    obtain ⟨h1, h2, h3⟩ := h.beyond j hj
    refine ⟨h1, ?_, h3⟩
    show (if m.origin = some j then some result else s.answers j) = none
    rw [hkeep (by omega)]
    exact h2
  · cases ok with
    | true =>
      refine .inr ⟨k, ?_, hlast, hclr⟩
      show rest.filterMap (·.origin) ++
        (s.replies ++ [CmdMsg.mk (m.msgCmd + 0x1000) result m.origin]).filterMap (·.origin) ++
        s.source.toList = [k]
      rw [hrest, hnorep, hsource]
      simp [hk]
    | false =>
      left
      show rest.filterMap (·.origin) ++ s.replies.filterMap (·.origin) ++ s.source.toList = []
      rw [hrest, hnorep, hsource]
      rfl
  · intro m' hm'
    exact h.reqs m' (by rw [hr]; exact List.mem_cons_of_mem m hm')
  · intro m' hm' j hj
    have hnil := List.filterMap_eq_nil_iff.mp hrest m' hm'
    rw [hj] at hnil
    cases hnil
  · intro r hrm
    have hrm : r ∈ if ok then s.replies ++ [CmdMsg.mk (m.msgCmd + 0x1000) result m.origin]
        else s.replies := hrm
    cases ok with
    | true =>
      rw [hnorep] at hrm
      have heq : r = ⟨m.msgCmd + 0x1000, result, m.origin⟩ := by simpa using hrm
      subst heq
      exact ⟨reply_waited hm, k, hk, if_pos hk⟩
    | false =>
      rw [hnorep] at hrm
      simp at hrm
  · obtain hs | ⟨j, hj, -⟩ := h.slot
    · exact .inl hs
    · rw [hsource] at hj
      cases hj
  · intro j cmd param hj
    have hj : s.phase j = .cleared cmd param := hj
    have hjk := ne_of_cleared hj hclr
    obtain ⟨h1, h2, h3⟩ := h.unsent j cmd param hj
    refine ⟨h1, ?_, h3⟩
    show (if m.origin = some j then some result else s.answers j) = none
    rw [hkeep hjk]
    exact h2
  · intro j v source hj hv
    obtain ⟨h1, h2⟩ := h.own j v source hj hv
    have hjk : j ≠ k := by
      rintro rfl
      rw [hnone] at h2
      cases h2
    refine ⟨h1, ?_⟩
    show (if m.origin = some j then some result else s.answers j) = some v
    rw [hkeep hjk]
    exact h2

theorem cmdServe_inv {s t : CmdSys} {result : Word} {ok : Bool} (h : CmdInv s)
    (hs : cmdServe s result ok = some t) : CmdInv t := by
  unfold cmdServe at hs
  split at hs
  next => simp at hs
  next m rest hr =>
    have horigin := h.reqs m (by rw [hr]; exact List.mem_cons_self)
    unfold cmdReply at hs
    by_cases hm : waitedCodes.contains m.msgCmd = true
    · rw [if_pos hm] at hs
      cases Option.some.inj hs
      rw [hm] at horigin
      obtain ⟨k, hk⟩ := Option.isSome_iff_exists.mp horigin
      exact h.served hr hk result ok hm
    · rw [if_neg hm] at hs
      cases Option.some.inj hs
      have hnone : m.origin = none := by
        rw [Bool.eq_false_of_not_eq_true hm] at horigin
        simpa using horigin
      have htok : inFlight { s with requests := rest } = inFlight s := by
        simp only [inFlight, hr, List.filterMap_cons_none hnone]
      refine ⟨h.older, h.beyond, ?_, ?_, ?_, h.reps, h.slot, h.unsent, h.deliv, h.flag, h.own⟩
      · rw [htok]
        exact h.tokens
      · intro m' hm'
        exact h.reqs m' (by rw [hr]; exact List.mem_cons_of_mem m hm')
      · intro m' hm'
        exact h.unserved m' (by rw [hr]; exact List.mem_cons_of_mem m hm')

theorem cmdDeliver_inv {s t : CmdSys} (h : CmdInv s) (hs : cmdDeliver s = some t) : CmdInv t := by
  unfold cmdDeliver at hs
  split at hs
  next => simp at hs
  next m rest hr =>
    obtain ⟨hacc, k, hk, hans⟩ := h.reps m (by rw [hr]; exact List.mem_cons_self)
    have hhead : s.replies.filterMap (·.origin) = k :: rest.filterMap (·.origin) := by
      rw [hr, List.filterMap_cons_some hk]
    have hmem : k ∈ inFlight s := by
      rw [inFlight, hhead]
      simp
    obtain ⟨htok, hlast, hclr⟩ := h.only_token hmem
    have hparts : s.requests.filterMap (·.origin) = [] ∧ rest.filterMap (·.origin) = [] := by
      rw [inFlight, hhead] at htok
      have hlen := congrArg List.length htok
      simp only [List.length_append, List.length_cons, List.length_nil] at hlen
      exact ⟨List.length_eq_zero_iff.mp (by omega), List.length_eq_zero_iff.mp (by omega)⟩
    have hkeep : ∀ {j}, j ≠ k →
        (if m.origin = some j then true else s.delivered j) = s.delivered j := by
      intro j hj
      rw [if_neg]
      rw [hk]
      intro heq
      exact hj (Option.some.inj heq).symm
    unfold acceptedReply at hacc
    unfold ifxMpsCmdRcvCallback at hs
    rw [if_pos hacc] at hs
    cases Option.some.inj hs
    refine ⟨h.older, ?_, .inr ⟨k, ?_, hlast, hclr⟩, h.reqs, h.unserved, ?_, .inr ⟨k, hk, hans⟩, ?_,
      ?_, fun _ _ _ => rfl, h.own⟩
    · intro j hj
      have hj : s.calls ≤ j := hj
      obtain ⟨h1, h2, h3⟩ := h.beyond j hj
      refine ⟨h1, h2, ?_⟩
      show (if m.origin = some j then true else s.delivered j) = false
      rw [hkeep (by omega)]
      exact h3
    · show s.requests.filterMap (·.origin) ++ rest.filterMap (·.origin) ++ m.origin.toList = [k]
      rw [hparts.1, hparts.2, hk]
      rfl
    · intro r hrm
      exact h.reps r (by rw [hr]; exact List.mem_cons_of_mem m hrm)
    · intro j cmd param hj
      have hj : s.phase j = .cleared cmd param := hj
      have hjk := ne_of_cleared hj hclr
      obtain ⟨h1, h2, h3⟩ := h.unsent j cmd param hj
      refine ⟨h1, h2, ?_⟩
      show (if m.origin = some j then true else s.delivered j) = false
      rw [hkeep hjk]
      exact h3
    · intro j _ hj
      have hj : j + 1 = s.calls := hj
      have hjk : j = k := by omega
      rw [hjk]
      exact hk

theorem cmdStep_inv {s t : CmdSys} {e : CmdEvent} (h : CmdInv s) (hq : QuietStart s e)
    (hs : cmdStep s e = some t) : CmdInv t := by
  cases e with
  | start cmd param => exact cmdStart_inv h hq hs
  | send k ok => exact cmdSend_inv h hs
  | free cmd param ok =>
    simp only [cmdStep] at hs
    split at hs
    next => simp at hs
    next hcmd => cases Option.some.inj hs; exact h.posted_free param ok hcmd
  | serve result ok => exact cmdServe_inv h hs
  | deliver => exact cmdDeliver_inv h hs
  | wake k =>
    simp only [cmdStep] at hs
    split at hs
    next hk =>
      cases Option.some.inj hs
      exact h.advance s.cmdCallbackFlag (by rw [hk.1]; rfl) rfl (by simp) (by simp)
    next => simp at hs
  | signal k =>
    simp only [cmdStep] at hs
    split at hs
    next hk =>
      cases Option.some.inj hs
      exact h.advance s.cmdCallbackFlag (by rw [hk]; rfl) rfl (by simp) (by simp)
    next => simp at hs
  | ack k =>
    simp only [cmdStep] at hs
    split at hs
    next hk =>
      cases Option.some.inj hs
      exact h.advance false (by rw [hk]; rfl) rfl (by simp) (by simp)
    next => simp at hs
  | finish k =>
    simp only [cmdStep] at hs
    split at hs
    next hk => cases Option.some.inj hs; exact h.finish hk
    next => simp at hs

/-- Requests that start one after the other get their own replies. -/
theorem mpsCmd_replies_matched (es : List CmdEvent) (s : CmdSys)
    (hq : RunMeets cmdStep QuietStart cmdInit es) (h : run cmdStep cmdInit es = some s) :
    CmdMatched s :=
  CmdInv.matched (run_invariant_of_meets cmdStep_inv cmdInit_inv hq h)

/-- A single allocation gets its buffer address. -/
theorem mpsCmd_replies_matched_small :
    ∃ s, run cmdStep cmdInit [.start .skbAlloc 64, .send 0 true, .serve 0xa000 true, .deliver,
        .wake 0, .ack 0, .finish 0] = some s ∧ s.phase 0 = .returned 0xa000 (some 0) ∧
      CmdMatched s := by
  refine ⟨_, rfl, by decide, ?_⟩
  refine mpsCmd_replies_matched [.start .skbAlloc 64, .send 0 true, .serve 0xa000 true, .deliver,
    .wake 0, .ack 0, .finish 0] _ ?_ rfl
  refine ⟨⟨fun k => rfl, by simp [cmdInit], rfl⟩, ?_⟩
  intro _ _
  simp only [RunMeets, QuietStart, implies_true, and_self]

/-- Two calls wait together: the first returns the buffer of the second, which waits for ever. -/
theorem mpsCmd_replies_mixed_up :
    ∃ s, run cmdStep cmdInit [.start .skbAlloc 64, .send 0 true, .start .dataAlloc 128, .send 1 true,
        .serve 0xa000 true, .serve 0xb000 true, .deliver, .deliver, .wake 0, .ack 0, .finish 0] =
          some s ∧ s.phase 0 = .returned 0xb000 (some 1) ∧ s.answers 0 = some 0xa000 ∧
      (s.phase 1 = .waiting ∧ s.delivered 1 = true ∧ s.cmdCallbackFlag = false) ∧
      ¬CmdMatched s := by
  refine ⟨_, rfl, by decide, by decide, by decide, ?_⟩
  intro hm
  have hown := (hm.own 0 0xb000 (some 1) (by decide) (by decide)).1
  exact absurd hown (by decide)

end DanubeBsp
