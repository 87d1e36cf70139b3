import DanubeBsp.WdtRuns

namespace DanubeBsp

/-- The ticks of a timeout and of the prewarning limit, as numbers. -/
def wdtTicks (ffpi cr timeout : Word) : Nat :=
  timeout.toNat * (ffpi.toNat / (wdtClkdivVal (fieldGet 2 24 cr)).toNat) +
    (wdtPwlVal (fieldGet 2 26 cr)).toNat

/-- The watchdog runs, and starts from so many ticks. -/
structure Armed (cr : Word) (ticks : Nat) : Prop where
  reload : wdtReloadField.get (crFile cr) = ticks
  running : wdtGenField.get (crFile cr) = 1

/-- A timeout that the register can hold is armed, any other one is refused and leaves the register. -/
def EnableRight (ffpi : Word) (r : WdtReg) (timeout : Word) : Prop :=
  if wdtTicks ffpi r.cr timeout ≤ 0xffff then
    (wdtEnable ffpi r timeout).1 = 0 ∧
      Armed (wdtEnable ffpi r timeout).2.cr (wdtTicks ffpi r.cr timeout)
  else (wdtEnable ffpi r timeout).1 < 0 ∧ (wdtEnable ffpi r timeout).2 = r

/-- The ticks do not look fewer in 32 bits than they are. -/
def EnableFits (ffpi cr timeout : Word) : Prop :=
  wdtTicks ffpi cr timeout ≤ 0xffff ∨ 0xffff < wdtTicks ffpi cr timeout % 2 ^ 32

section Enable

variable {ffpi timeout : Word} {r : WdtReg}

theorem wdtReload_toNat (ffpi cr timeout : Word) :
    (wdtReload ffpi cr timeout).toNat = wdtTicks ffpi cr timeout % 2 ^ 32 := by
  unfold wdtReload wdtTicks
  rw [BitVec.toNat_add, BitVec.toNat_mul, BitVec.toNat_udiv, Nat.mod_add_mod]

theorem reload_gt_iff (cr : Word) :
    wdtReload ffpi cr timeout > 0xffff ↔ 0xffff < wdtTicks ffpi cr timeout % 2 ^ 32 := by
  rw [← wdtReload_toNat]
  exact BitVec.lt_def

theorem wdtEnable_refuses (h : 0xffff < wdtTicks ffpi r.cr timeout % 2 ^ 32) :
    wdtEnable ffpi r timeout = (eInval, r) := by
  unfold wdtEnable
  dsimp only
  rw [if_pos ((reload_gt_iff r.cr).mpr h)]

theorem wdtEnable_arms (h : ¬0xffff < wdtTicks ffpi r.cr timeout % 2 ^ 32) :
    (wdtEnable ffpi r timeout).1 = 0 ∧
      Armed (wdtEnable ffpi r timeout).2.cr (wdtTicks ffpi r.cr timeout % 2 ^ 32) := by
  have hfit : ¬ wdtReload ffpi r.cr timeout > 0xffff := fun hgt => h ((reload_gt_iff r.cr).mp hgt)
  refine ⟨?_, ?_, ?_⟩
  · unfold wdtEnable
    dsimp only
    rw [if_neg hfit]
  · rw [wdtEnable_eq hfit]
    dsimp only
    rw [enabled_reload, wdtReload_toNat]
    rw [wdtReload_toNat]
    omega
  · rw [wdtEnable_eq hfit]
    exact enabled_gen r.cr _

/-- `wdt_enable` returns 0 or an error. -/
theorem wdtEnable_result (ffpi timeout : Word) (r : WdtReg) :
    (wdtEnable ffpi r timeout).1 = 0 ∨ (wdtEnable ffpi r timeout).1 < 0 := by
  by_cases hbig : 0xffff < wdtTicks ffpi r.cr timeout % 2 ^ 32
  · rw [wdtEnable_refuses hbig]
    exact .inr eInval_neg
  · exact .inl (wdtEnable_arms hbig).1

theorem enableFits_iff : EnableFits ffpi r.cr timeout ↔ EnableRight ffpi r timeout := by
  unfold EnableFits EnableRight
  by_cases hle : wdtTicks ffpi r.cr timeout ≤ 0xffff
  · have hmod : wdtTicks ffpi r.cr timeout % 2 ^ 32 = wdtTicks ffpi r.cr timeout :=
      Nat.mod_eq_of_lt (by omega)
    have hnot : ¬0xffff < wdtTicks ffpi r.cr timeout % 2 ^ 32 := by omega
    have harms := wdtEnable_arms hnot
    rw [hmod] at harms
    rw [if_pos hle]
    exact iff_of_true (.inl hle) harms
  · rw [if_neg hle]
    constructor
    · intro hfits
      have hbig := hfits.resolve_left hle
      rw [wdtEnable_refuses hbig]
      exact ⟨eInval_neg, rfl⟩
    · intro hright
      by_contra hwrap
      have hneg := hright.1
      rw [(wdtEnable_arms (fun hbig => hwrap (.inr hbig))).1] at hneg
      exact Int.lt_irrefl 0 hneg

end Enable

/-- The watchdog with its books: the timeout of the last `START` that succeeded, and what a copy that
failed has left in `timeout` since. -/
structure WdtBooks where
  wdt : Wdt
  started : Option Word
  left : Option Word

def WdtBooks.after (s : WdtBooks) (result : Int) (wdt : Wdt) : WdtIoctl → WdtBooks
  | .start (.copied timeout) => ⟨wdt, if result = 0 then some timeout else s.started, none⟩
  | .start (.bad left) => ⟨wdt, s.started, some left⟩
  | .stop => ⟨wdt, s.started, none⟩
  | _ => ⟨wdt, s.started, s.left⟩

def wdtBooksStep (ffpi : Word) (s : WdtBooks) (cmd : WdtIoctl) : Option WdtBooks :=
  some (s.after (wdtIoctl ffpi s.wdt cmd).1 (wdtIoctl ffpi s.wdt cmd).2 cmd)

def wdtBooksInit (cr : Word) : WdtBooks := ⟨wdtInit cr, none, none⟩

/-- A `PING` that returns 0 arms the timeout of the last `START` that succeeded. -/
def PingRearms (ffpi : Word) (s : WdtBooks) : Prop :=
  (wdtIoctl ffpi s.wdt .ping).1 = 0 → ∃ timeout, s.started = some timeout ∧
    Armed (wdtIoctl ffpi s.wdt .ping).2.reg.cr (wdtTicks ffpi s.wdt.reg.cr timeout)

def TimeoutKept (ffpi : Word) (s : WdtBooks) : WdtIoctl → Prop
  | .start (.copied timeout) => EnableRight ffpi s.wdt.reg timeout
  | .ping => (0 ≤ s.wdt.timeout.toInt → EnableRight ffpi s.wdt.reg s.wdt.timeout) ∧ PingRearms ffpi s
  | _ => True

/-- No number of ticks wraps to one that is accepted, and what a copy that failed has left is negative,
too long, or of as many ticks as the timeout of the last `START` that succeeded. -/
def TimeoutFits (ffpi : Word) (s : WdtBooks) : WdtIoctl → Prop
  | .start (.copied timeout) => EnableFits ffpi s.wdt.reg.cr timeout
  | .ping => (0 ≤ s.wdt.timeout.toInt → EnableFits ffpi s.wdt.reg.cr s.wdt.timeout) ∧
      ∀ v, s.left = some v → 0 ≤ v.toInt → wdtTicks ffpi s.wdt.reg.cr v ≤ 0xffff →
        ∃ timeout, s.started = some timeout ∧
          wdtTicks ffpi s.wdt.reg.cr timeout = wdtTicks ffpi s.wdt.reg.cr v
  | _ => True

/-- `timeout` holds what was left in it, or the timeout of the last `START` that succeeded. -/
structure BooksInv (s : WdtBooks) : Prop where
  left : ∀ v, s.left = some v → s.wdt.timeout = v
  started : s.left = none → 0 ≤ s.wdt.timeout.toInt → s.started = some s.wdt.timeout

section Books

theorem eIo_ne_zero : eIo ≠ 0 := by decide

theorem noTimeout_neg : (-1 : Word).toInt < 0 := by decide

variable {ffpi : Word} {s t : WdtBooks} {cmd : WdtIoctl}

theorem BooksInv.init (cr : Word) : BooksInv (wdtBooksInit cr) := by
  refine ⟨nofun, ?_⟩
  intro _ hpos
  exact absurd noTimeout_neg (Int.not_lt_of_ge hpos)

/-- A command that leaves `timeout` and the books. -/
theorem BooksInv.same (hs : BooksInv s) (htimeout : t.wdt.timeout = s.wdt.timeout)
    (hstarted : t.started = s.started) (hleft : t.left = s.left) : BooksInv t := by
  refine ⟨?_, ?_⟩
  · intro v hv
    rw [htimeout]
    exact hs.left v (hleft.symm.trans hv)
  · intro hnone hpos
    rw [htimeout] at hpos ⊢
    rw [hstarted]
    exact hs.started (hleft.symm.trans hnone) hpos

/-- A start that does not clear `timeout` has succeeded. -/
theorem started_eq {result : Int} {timeout : Word} {started : Option Word}
    (h : result = 0 ∨ result < 0) (hpos : 0 ≤ (if result < 0 then (-1 : Word) else timeout).toInt) :
    (if result = 0 then some timeout else started) =
      some (if result < 0 then (-1 : Word) else timeout) := by
  rcases h with hzero | hneg
  · rw [if_pos hzero, if_neg (Int.not_lt_of_ge (Int.le_of_eq hzero.symm))]
  · rw [if_pos hneg] at hpos
    exact absurd noTimeout_neg (Int.not_lt_of_ge hpos)

theorem BooksInv.step (hs : BooksInv s) (h : wdtBooksStep ffpi s cmd = some t) : BooksInv t := by
  cases Option.some.inj h
  cases cmd with
  | start arg =>
    cases arg with
    | copied timeout =>
      refine ⟨nofun, ?_⟩
      intro _ hpos
      exact started_eq (wdtEnable_result ffpi timeout s.wdt.reg) hpos
    | bad left => exact ⟨fun v hv => Option.some.inj hv, nofun⟩
  | stop =>
    refine ⟨nofun, ?_⟩
    intro _ hpos
    exact absurd noTimeout_neg (Int.not_lt_of_ge hpos)
  | ping =>
    refine hs.same ?_ rfl rfl
    by_cases hneg : s.wdt.timeout.toInt < 0
    · simp only [WdtBooks.after, wdtIoctl, if_pos hneg]
    · simp only [WdtBooks.after, wdtIoctl, if_neg hneg]
  | setPwl arg => exact hs.same rfl rfl rfl
  | setDsen arg => exact hs.same rfl rfl rfl
  | setLpen arg => exact hs.same rfl rfl rfl
  | setClkdiv arg => exact hs.same rfl rfl rfl
  | getStatus => exact hs.same rfl rfl rfl

theorem armed_ticks {cr : Word} {m n : Nat} (hm : Armed cr m) (hn : Armed cr n) : m = n :=
  hm.reload.symm.trans hn.reload

theorem ping_silent (h : s.wdt.timeout.toInt < 0) : wdtIoctl ffpi s.wdt .ping = (eIo, s.wdt) := by
  simp only [wdtIoctl, if_pos h]

theorem ping_enables (ffpi : Word) (h : ¬s.wdt.timeout.toInt < 0) :
    (wdtIoctl ffpi s.wdt .ping).1 = (wdtEnable ffpi s.wdt.reg s.wdt.timeout).1 ∧
      (wdtIoctl ffpi s.wdt .ping).2.reg = (wdtEnable ffpi s.wdt.reg s.wdt.timeout).2 := by
  simp only [wdtIoctl, if_neg h]
  exact ⟨trivial, trivial⟩

/-- A ping of what a failed copy has left arms as many ticks as the last start if they are the same. -/
theorem pingRearms_iff (hs : BooksInv s) (hpos : 0 ≤ s.wdt.timeout.toInt)
    (hright : EnableRight ffpi s.wdt.reg s.wdt.timeout) :
    (∀ v, s.left = some v → 0 ≤ v.toInt → wdtTicks ffpi s.wdt.reg.cr v ≤ 0xffff →
        ∃ timeout, s.started = some timeout ∧
          wdtTicks ffpi s.wdt.reg.cr timeout = wdtTicks ffpi s.wdt.reg.cr v) ↔
      PingRearms ffpi s := by
  obtain ⟨hresult, hreg⟩ := ping_enables ffpi (Int.not_lt_of_ge hpos)
  unfold PingRearms
  rw [hresult, hreg]
  unfold EnableRight at hright
  by_cases hle : wdtTicks ffpi s.wdt.reg.cr s.wdt.timeout ≤ 0xffff
  · rw [if_pos hle] at hright
    obtain ⟨hzero, harmed⟩ := hright
    constructor
    · intro hleft _
      cases h : s.left with
      | none => exact ⟨_, hs.started h hpos, harmed⟩
      | some v =>
        have hv := hs.left v h
        rw [hv] at hpos hle harmed
        obtain ⟨timeout, hstarted, hticks⟩ := hleft v h hpos hle
        rw [hv]
        exact ⟨timeout, hstarted, hticks ▸ harmed⟩
    · intro hrearms v h _ _
      obtain ⟨timeout, hstarted, hagain⟩ := hrearms hzero
      rw [← hs.left v h]
      exact ⟨timeout, hstarted, armed_ticks hagain harmed⟩
  · rw [if_neg hle] at hright
    constructor
    · intro _ hzero
      exact absurd hright.1 (Int.not_lt_of_ge (Int.le_of_eq hzero.symm))
    · intro _ v h _ hv
      rw [hs.left v h] at hle
      exact absurd hv hle

theorem timeoutFits_iff (hs : BooksInv s) : TimeoutFits ffpi s cmd ↔ TimeoutKept ffpi s cmd := by
  cases cmd with
  | start arg =>
    cases arg with
    | copied timeout => exact enableFits_iff
    | bad left => exact Iff.rfl
  | ping =>
    by_cases hneg : s.wdt.timeout.toInt < 0
    · refine iff_of_true ⟨?_, ?_⟩ ⟨?_, ?_⟩
      · intro hpos
        exact absurd hneg (Int.not_lt_of_ge hpos)
      · intro v h hpos
        rw [hs.left v h] at hneg
        exact absurd hneg (Int.not_lt_of_ge hpos)
      · intro hpos
        exact absurd hneg (Int.not_lt_of_ge hpos)
      · intro hzero
        rw [ping_silent hneg] at hzero
        exact absurd hzero eIo_ne_zero
    · have hpos := Int.not_lt.mp hneg
      constructor
      · intro ⟨hfits, hleft⟩
        have hright := enableFits_iff.mp (hfits hpos)
        exact ⟨fun _ => hright, (pingRearms_iff hs hpos hright).mp hleft⟩
      · intro ⟨hright, hrearms⟩
        refine ⟨fun _ => enableFits_iff.mpr (hright hpos), ?_⟩
        exact (pingRearms_iff hs hpos (hright hpos)).mpr hrearms
  | stop => exact Iff.rfl
  | setPwl arg => exact Iff.rfl
  | setDsen arg => exact Iff.rfl
  | setLpen arg => exact Iff.rfl
  | setClkdiv arg => exact Iff.rfl
  | getStatus => exact Iff.rfl

end Books

/-- Timeouts are honoured, by `wdt_enable` and along every sequence of ioctls, exactly as far as no
number of ticks wraps and no failed copy has left another timeout. -/
theorem wdt_timeouts_iff (ffpi : Word) :
    (∀ r timeout, EnableRight ffpi r timeout ↔ EnableFits ffpi r.cr timeout) ∧
      ∀ cr cmds, RunMeets (wdtBooksStep ffpi) (TimeoutKept ffpi) (wdtBooksInit cr) cmds ↔
        RunMeets (wdtBooksStep ffpi) (TimeoutFits ffpi) (wdtBooksInit cr) cmds := by
  refine ⟨fun _ _ => enableFits_iff.symm, ?_⟩
  intro cr cmds
  exact (runMeets_congr timeoutFits_iff (fun hs _ h => hs.step h) (BooksInv.init cr) cmds).symm

/-- At 400 MHz 4194304 s are a multiple of 2^32 ticks: the watchdog is started with none of them. -/
theorem wdt_timeout_wraps :
    ¬ RunMeets (wdtBooksStep 400000000) (TimeoutKept 400000000) (wdtBooksInit 0)
      [.start (.copied 4194304)] := by
  intro h
  have hright : EnableRight 400000000 (wdtBooksInit 0).wdt.reg 4194304 := h.1
  unfold EnableRight at hright
  rw [if_neg (by decide +kernel)] at hright
  have hneg := hright.1
  revert hneg
  decide +kernel

end DanubeBsp
