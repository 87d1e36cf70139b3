import DanubeBsp.Deu
import DanubeBsp.Runs

namespace DanubeBsp

theorem aesWords_nodup (sel : Nat) : (aesWords sel).Nodup := by
  unfold aesWords
  split <;> decide

theorem desWords_nodup (sel : Nat) : (desWords sel).Nodup := by
  unfold desWords
  split <;> decide

theorem CipherUnit.setup_key (u : CipherUnit) (ivWords : Nat) (ivArg : Nat → Byte) (encdec : Bool)
    (mode : CipherMode) :
    let v := u.setup ivWords ivArg encdec mode
    (v.sm = u.sm ∧ v.sel = u.sel ∧ v.key = u.key) ∧ v.od = u.od := by
  unfold CipherUnit.setup
  dsimp only
  split
  · exact ⟨⟨rfl, rfl, rfl⟩, rfl⟩
  · exact ⟨⟨rfl, rfl, rfl⟩, rfl⟩

/-- A call sets up everything but the key: the IV is left only in the mode that does without. -/
theorem CipherUnit.SameKey.setup {words : Nat → List Nat} {u u' : CipherUnit}
    (h : SameKey words u u') (ivWords : Nat) (ivArg : Nat → Byte) (encdec : Bool)
    (mode : CipherMode) :
    SameSetup words (u.setup ivWords ivArg encdec mode) (u'.setup ivWords ivArg encdec mode) := by
  have hkey := h.congr (u.setup_key ivWords ivArg encdec mode).1
    (u'.setup_key ivWords ivArg encdec mode).1
  refine ⟨hkey, ?_, ?_, ?_⟩
  · unfold CipherUnit.setup
    dsimp only
    split <;> rfl
  · unfold CipherUnit.setup
    dsimp only
    split <;> rfl
  · unfold CipherUnit.setup
    dsimp only
    cases mode with
    | ecb =>
      intro hne
      exact absurd rfl hne
    | cbc => exact fun _ => rfl
    | cfb => exact fun _ => rfl
    | ofb => exact fun _ => rfl

/-- A new key replaces all that counts of the old one. -/
theorem CipherUnit.sameKey_load (u u' : CipherUnit) {words : Nat → List Nat}
    (hnd : ∀ sel, (words sel).Nodup) (inKey : Nat → Byte) (sel : Nat) :
    SameKey words { u with sm := true, sel := sel, key := loadKey inKey 0 (words sel) u.key }
      { u' with sm := true, sel := sel, key := loadKey inKey 0 (words sel) u'.key } :=
  ⟨rfl, rfl, rfl, map_loadKey_congr (hnd sel) 0 _ _⟩

theorem aesSetKey_agree (core : DeuCore) (aes aes' : AesUnit) (inKey : Nat → Byte) (keyLen : Nat)
    (flags : Word) :
    (aesSetKey core aes' inKey keyLen flags).2 = (aesSetKey core aes inKey keyLen flags).2 ∧
      ((aesSetKey core aes inKey keyLen flags).2.succeeded = true →
        CipherUnit.SameKey aesWords (aesSetKey core aes inKey keyLen flags).1.toCipherUnit
          (aesSetKey core aes' inKey keyLen flags).1.toCipherUnit) := by
  unfold aesSetKey
  dsimp only
  split
  · refine ⟨rfl, ?_⟩
    intro hok
    cases (hok : false = true)
  · have hsame := aes.toCipherUnit.sameKey_load aes'.toCipherUnit aesWords_nodup inKey
      (BitVec.ofNat 2 (keyLen / 8) - 2#2).toNat
    exact ⟨by rw [hsame.key], fun _ => hsame⟩

theorem aesSetKey_data (core : DeuCore) (aes : AesUnit) (inKey : Nat → Byte) (keyLen : Nat)
    (flags : Word) :
    (aesSetKey core aes inKey keyLen flags).1.id = aes.id ∧
      (aesSetKey core aes inKey keyLen flags).1.od = aes.od := by
  unfold aesSetKey
  dsimp only
  split
  · exact ⟨rfl, rfl⟩
  · exact ⟨rfl, rfl⟩

/-- Two AES units with the same input and output data. -/
def SameData (aes aes' : AesUnit) : Prop :=
  (∀ r < 4, aes'.id r = aes.id r) ∧ aes'.od = aes.od

/-- A full block replaces all input registers; a part of one, or none, leaves what was there. -/
theorem aesInput_agree {id id' : Nat → Word} (inArg : Nat → Byte) {nbytes : Nat}
    (h : nbytes = 16 ∨ ∀ r < 4, id' r = id r) :
    (∃ jd jd', aesInput id inArg nbytes = some jd ∧ aesInput id' inArg nbytes = some jd' ∧
      ∀ r < 4, jd' r = jd r) ∨
    (nbytes ≠ 16 ∧ aesInput id inArg nbytes = none ∧ aesInput id' inArg nbytes = none) := by
  have hupd : ∀ (w : Word), (∀ r < 4, id' r = id r) →
      ∀ r < 4, Function.update id' 0 w r = Function.update id 0 w r := by
    intro w hid r hr
    by_cases h0 : r = 0
    · rw [h0, Function.update_self, Function.update_self]
    · rw [Function.update_of_ne h0, Function.update_of_ne h0, hid r hr]
  rcases h with rfl | hid
  · refine Or.inl ⟨_, _, rfl, rfl, ?_⟩
    intro r hr
    rw [if_pos hr, if_pos hr]
  · unfold aesInput
    split
    · refine Or.inl ⟨_, _, rfl, rfl, ?_⟩
      intro r hr
      rw [if_pos hr, if_pos hr]
    · refine Or.inl ⟨_, _, rfl, rfl, ?_⟩
      intro r hr
      rw [hid r hr]
    · exact Or.inl ⟨_, _, rfl, rfl, hupd _ hid⟩
    · exact Or.inl ⟨_, _, rfl, rfl, hupd _ hid⟩
    · exact Or.inl ⟨_, _, rfl, rfl, hupd _ hid⟩
    next h16 _ _ _ _ => exact Or.inr ⟨h16, rfl, rfl⟩

theorem aesIfxdeu_agree (core : DeuCore) {aes aes' : AesUnit}
    (hkey : CipherUnit.SameKey aesWords aes.toCipherUnit aes'.toCipherUnit)
    (inArg ivArg : Nat → Byte) {nbytes : Nat} (hdata : nbytes = 16 ∨ SameData aes aes')
    (encdec : Bool) (mode : CipherMode) :
    let r := aesIfxdeu core aes inArg ivArg nbytes encdec mode
    let r' := aesIfxdeu core aes' inArg ivArg nbytes encdec mode
    r'.2 = r.2 ∧ CipherUnit.SameKey aesWords r.1.toCipherUnit r'.1.toCipherUnit ∧
      SameData r.1 r'.1 := by
  have hsetup := hkey.setup 4 ivArg encdec mode
  have hod := (aes.toCipherUnit.setup_key 4 ivArg encdec mode).2
  have hod' := (aes'.toCipherUnit.setup_key 4 ivArg encdec mode).2
  unfold aesIfxdeu
  dsimp only
  rcases aesInput_agree inArg (hdata.imp_right And.left) with
    ⟨jd, jd', hj, hj', hsame⟩ | ⟨hne, hj, hj'⟩
  · rw [hj, hj']
    dsimp only
    rw [hsame 3 (by omega), hsame 2 (by omega), hsame 1 (by omega), hsame 0 (by omega)]
    obtain ⟨hstart, hout⟩ := hsetup.start core.aes [jd 3, jd 2, jd 1, jd 0]
    exact ⟨hout, hstart.toSameKey, hsame, hout⟩
  · obtain ⟨hid, hdod⟩ := hdata.resolve_left hne
    rw [hj, hj']
    dsimp only
    have hout : (aes'.toCipherUnit.setup 4 ivArg encdec mode).od =
        (aes.toCipherUnit.setup 4 ivArg encdec mode).od := by
      rw [hod, hod', hdod]
    exact ⟨hout, hsetup.toSameKey, hid, hout⟩

theorem aesIfxdeu_key (core : DeuCore) (aes : AesUnit) (inArg ivArg : Nat → Byte) (nbytes : Nat)
    (encdec : Bool) (mode : CipherMode) :
    let u := (aesIfxdeu core aes inArg ivArg nbytes encdec mode).1
    u.sm = aes.sm ∧ u.sel = aes.sel ∧ u.key = aes.key := by
  obtain ⟨hsm, hsel, hkey⟩ := (aes.toCipherUnit.setup_key 4 ivArg encdec mode).1
  unfold aesIfxdeu
  dsimp only
  cases aesInput aes.id inArg nbytes with
  | none => exact ⟨hsm, hsel, hkey⟩
  | some jd =>
    obtain ⟨hsm', hsel', hkey'⟩ := CipherUnit.start_key aesWords core.aes
      (aes.toCipherUnit.setup 4 ivArg encdec mode) [jd 3, jd 2, jd 1, jd 0]
    exact ⟨hsm'.trans hsm, hsel'.trans hsel, hkey'.trans hkey⟩

theorem desSetkey_agree (des des' : CipherUnit) (key : Nat → Byte) (keylen : Nat) (flags : Word) :
    (desSetkey des' key keylen flags).2 = (desSetkey des key keylen flags).2 ∧
      ((desSetkey des key keylen flags).2.succeeded = true →
        CipherUnit.SameKey desWords (desSetkey des key keylen flags).1
          (desSetkey des' key keylen flags).1) := by
  unfold desSetkey
  dsimp only
  split
  · refine ⟨rfl, ?_⟩
    intro hok
    cases (hok : false = true)
  · split
    · refine ⟨rfl, ?_⟩
      intro hok
      cases (hok : false = true)
    · exact ⟨rfl, fun _ => des.sameKey_load des' desWords_nodup key 0⟩

theorem des3EdeSetkey_agree (des des' : CipherUnit) (key : Nat → Byte) (keylen : Nat)
    (flags : Word) :
    (des3EdeSetkey des' key keylen flags).2 = (des3EdeSetkey des key keylen flags).2 ∧
      (((des3EdeSetkey des key keylen flags).2.succeeded = true ∧
        CipherUnit.SameKey desWords (des3EdeSetkey des key keylen flags).1
          (des3EdeSetkey des' key keylen flags).1) ∨
      ((des3EdeSetkey des key keylen flags).2.succeeded = false ∧
        (des3EdeSetkey des key keylen flags).1 = des ∧
        (des3EdeSetkey des' key keylen flags).1 = des')) := by
  unfold des3EdeSetkey
  dsimp only
  split
  · exact ⟨rfl, Or.inl ⟨rfl, des.sameKey_load des' desWords_nodup key _⟩⟩
  · exact ⟨rfl, Or.inr ⟨rfl, rfl, rfl⟩⟩

theorem desLoop_agree (core : DeuCore) (inArg : Nat → Byte) (n i : Nat) {u u' : CipherUnit}
    (h : CipherUnit.SameSetup desWords u u') :
    (desLoop core inArg n i u').2 = (desLoop core inArg n i u).2 ∧
      CipherUnit.SameKey desWords (desLoop core inArg n i u).1 (desLoop core inArg n i u').1 := by
  induction n generalizing i u u' with
  | zero => exact ⟨rfl, h.toSameKey⟩
  | succ n ih =>
    obtain ⟨hstart, hout⟩ := h.start core.des [loadBe inArg (4 * i), loadBe inArg (4 * (i + 1))]
    obtain ⟨hrest, hkey⟩ := ih (i + 2) hstart
    unfold desLoop
    dsimp only
    rw [hout, hrest]
    exact ⟨rfl, hkey⟩

theorem desLoop_key (core : DeuCore) (inArg : Nat → Byte) (n i : Nat) (u : CipherUnit) :
    (desLoop core inArg n i u).1.sm = u.sm ∧ (desLoop core inArg n i u).1.sel = u.sel ∧
      (desLoop core inArg n i u).1.key = u.key := by
  induction n generalizing i u with
  | zero => exact ⟨rfl, rfl, rfl⟩
  | succ n ih =>
    obtain ⟨hsm, hsel, hkey⟩ := CipherUnit.start_key desWords core.des u
      [loadBe inArg (4 * i), loadBe inArg (4 * (i + 1))]
    obtain ⟨hsm', hsel', hkey'⟩ := ih (i + 2)
      (u.start desWords core.des [loadBe inArg (4 * i), loadBe inArg (4 * (i + 1))])
    exact ⟨hsm'.trans hsm, hsel'.trans hsel, hkey'.trans hkey⟩

section

variable {κ : Type*}

/-- What the engine holds for a context is the same in both. -/
structure HwAgree (l : Loaded κ) (k : κ) (hw hw' : DeuHw) : Prop where
  aesKey : l.aesKey = some k →
    CipherUnit.SameKey aesWords hw.aes.toCipherUnit hw'.aes.toCipherUnit
  aesData : l.aesData = some k → SameData hw.aes hw'.aes
  desKey : l.desKey = some k → CipherUnit.SameKey desWords hw.des hw'.des
  hash : l.hash = some k → hw'.hash = hw.hash ∧ hw'.hashSm = hw.hashSm

/-- The other fields of `Loaded` and the other units are not touched. -/
theorem HwAgree.setAes {l : Loaded κ} {k : κ} {hw hw' : DeuHw} (h : HwAgree l k hw hw')
    {aes aes' : AesUnit} {aesKey aesData : Option κ}
    (hkey : aesKey = some k → CipherUnit.SameKey aesWords aes.toCipherUnit aes'.toCipherUnit)
    (hdata : aesData = some k → SameData aes aes') :
    HwAgree { l with aesKey := aesKey, aesData := aesData } k { hw with aes := aes }
      { hw' with aes := aes' } :=
  ⟨hkey, hdata, h.desKey, h.hash⟩

theorem HwAgree.setDes {l : Loaded κ} {k : κ} {hw hw' : DeuHw} (h : HwAgree l k hw hw')
    {des des' : CipherUnit} {desKey : Option κ}
    (hkey : desKey = some k → CipherUnit.SameKey desWords des des') :
    HwAgree { l with desKey := desKey } k { hw with des := des } { hw' with des := des' } :=
  ⟨h.aesKey, h.aesData, hkey, h.hash⟩

theorem HwAgree.setHash {l : Loaded κ} {k : κ} {hw hw' : DeuHw} (h : HwAgree l k hw hw')
    {u u' : HashUnit} {sm sm' : Bool} {hash : Option κ}
    (hhash : hash = some k → u' = u ∧ sm' = sm) :
    HwAgree { l with hash := hash } k { hw with hash := u, hashSm := sm }
      { hw' with hash := u', hashSm := sm' } :=
  ⟨h.aesKey, h.aesData, h.desKey, hhash⟩

/-- The hash unit of the context goes on in the same way. -/
theorem HwAgree.feed {l : Loaded κ} {k : κ} {hw hw' : DeuHw} (h : HwAgree l k hw hw')
    (hown : l.hash = some k) (core : DeuCore) (bs : List (List Word)) :
    HwAgree l k (hw.feed core bs) (hw'.feed core bs) ∧
      (hw'.feed core bs).hash = (hw.feed core bs).hash := by
  obtain ⟨hhash, hsm⟩ := h.hash hown
  have heq : (hw'.feed core bs).hash = (hw.feed core bs).hash := by
    unfold DeuHw.feed
    dsimp only
    rw [hhash, hsm]
  exact ⟨⟨h.aesKey, h.aesData, h.desKey, fun _ => ⟨heq, hsm⟩⟩, heq⟩

variable [DecidableEq κ]

/-- An operation of the context itself gives the same in both. -/
theorem deuOp_own (core : DeuCore) {s : DeuSys κ} {k : κ} {op : DeuOp} (hok : DeuOk s (k, op))
    {hw' hw₁ : DeuHw} (h : HwAgree s.loaded k s.hw hw') {ctx ctx₁ : DeuCtx} {out : DeuOut}
    (hop : deuOp core s.hw ctx op = some (hw₁, ctx₁, out)) :
    ∃ hw₁', deuOp core hw' ctx op = some (hw₁', ctx₁, out) ∧
      HwAgree (s.loaded.next k out op) k hw₁ hw₁' := by
  cases op with
  | aesSetKey inKey keyLen flags =>
    cases Option.some.inj hop
    obtain ⟨hout, hkey⟩ := aesSetKey_agree core s.hw.aes hw'.aes inKey keyLen flags
    obtain ⟨hid, hod⟩ := aesSetKey_data core s.hw.aes inKey keyLen flags
    obtain ⟨hid', hod'⟩ := aesSetKey_data core hw'.aes inKey keyLen flags
    refine ⟨_, by rw [← hout]; rfl, ?_⟩
    apply h.setAes
    · intro hk
      exact hkey (Option.ite_none_right_eq_some.mp hk).1
    · intro hk
      obtain ⟨hsid, hsod⟩ := h.aesData hk
      refine ⟨?_, ?_⟩
      · intro r hr
        rw [hid, hid', hsid r hr]
      · rw [hod, hod', hsod]
  | aesCrypt inArg ivArg nbytes encdec mode =>
    cases Option.some.inj hop
    obtain ⟨hown, hdata⟩ := hok
    obtain ⟨hout, hkey, hsame⟩ := aesIfxdeu_agree core (h.aesKey hown) inArg ivArg
      (hdata.imp_right h.aesData) encdec mode
    refine ⟨_, by rw [← hout]; rfl, ?_⟩
    exact h.setAes (fun _ => hkey) (fun _ => hsame)
  | desSetkey key keylen flags =>
    cases Option.some.inj hop
    obtain ⟨hout, hkey⟩ := desSetkey_agree s.hw.des hw'.des key keylen flags
    refine ⟨_, by rw [← hout]; rfl, ?_⟩
    apply h.setDes
    intro hk
    exact hkey (Option.ite_none_right_eq_some.mp hk).1
  | des3EdeSetkey key keylen flags =>
    cases Option.some.inj hop
    obtain ⟨hout, hcase⟩ := des3EdeSetkey_agree s.hw.des hw'.des key keylen flags
    refine ⟨_, by rw [← hout]; rfl, ?_⟩
    apply h.setDes
    intro hk
    rcases hcase with ⟨_, hkey⟩ | ⟨hno, hsame, hsame'⟩
    · exact hkey
    · rw [hno] at hk
      rw [hsame, hsame']
      exact h.desKey hk
  | desCrypt inArg ivArg nbytes encdec mode =>
    cases Option.some.inj hop
    obtain ⟨hout, hkey⟩ := desLoop_agree core inArg ((nbytes / 4 + 1) / 2) 0
      ((h.desKey hok).setup 2 ivArg encdec mode)
    refine ⟨_, by unfold desIncaip1; rw [← hout]; rfl, ?_⟩
    exact h.setDes (fun _ => hkey)
  | md5Init =>
    cases Option.some.inj hop
    exact ⟨_, rfl, h.setHash (fun _ => ⟨rfl, rfl⟩)⟩
  | md5Update data =>
    cases Option.some.inj hop
    exact ⟨_, rfl, (h.feed hok core _).1⟩
  | md5Final =>
    cases Option.some.inj hop
    obtain ⟨hfed, heq⟩ := h.feed hok core (md5Final ctx.md5)
    refine ⟨_, by rw [← heq]; rfl, ?_⟩
    exact hfed.setHash (fun _ => ⟨heq, rfl⟩)
  | sha1Init =>
    cases Option.some.inj hop
    exact ⟨_, rfl, h.setHash (fun _ => ⟨rfl, rfl⟩)⟩
  | sha1Update data =>
    obtain ⟨r, hr, hrest⟩ := Option.map_eq_some_iff.mp hop
    cases hrest
    refine ⟨_, ?_, (h.feed hok core _).1⟩
    change (sha1Update ctx.sha1 data).map _ = _
    rw [hr]
    rfl
  | sha1Final =>
    obtain ⟨r, hr, hrest⟩ := Option.map_eq_some_iff.mp hop
    cases hrest
    obtain ⟨hfed, heq⟩ := h.feed hok core (r.2.map sha1Transform)
    refine ⟨_, ?_, hfed.setHash (fun _ => ⟨heq, rfl⟩)⟩
    change (sha1Final ctx.sha1).map _ = _
    rw [hr, ← heq]
    rfl

/-- An operation of another context leaves what the engine still holds for this one. -/
theorem deuOp_other (core : DeuCore) {s : DeuSys κ} {j k : κ} (hj : j ≠ k) {op : DeuOp}
    (hok : DeuOk s (j, op)) {hw' hw₁ : DeuHw} (h : HwAgree s.loaded k s.hw hw') {ctx ctx₁ : DeuCtx}
    {out : DeuOut} (hop : deuOp core s.hw ctx op = some (hw₁, ctx₁, out)) :
    HwAgree (s.loaded.next j out op) k hw₁ hw' := by
  have hne : some j ≠ some k := by
    intro heq
    exact hj (Option.some.inj heq)
  cases op with
  | aesSetKey inKey keyLen flags =>
    cases Option.some.inj hop
    obtain ⟨hid, hod⟩ := aesSetKey_data core s.hw.aes inKey keyLen flags
    apply h.setAes
    · intro hk
      exact absurd (Option.ite_none_right_eq_some.mp hk).2 hne
    · intro hk
      obtain ⟨hsid, hsod⟩ := h.aesData hk
      refine ⟨?_, ?_⟩
      · intro r hr
        rw [hid, hsid r hr]
      · rw [hod, hsod]
  | aesCrypt inArg ivArg nbytes encdec mode =>
    cases Option.some.inj hop
    apply h.setAes
    · intro hk
      exact (h.aesKey hk).congr (aesIfxdeu_key core s.hw.aes inArg ivArg nbytes encdec mode)
        ⟨rfl, rfl, rfl⟩
    · intro hk
      exact absurd (Option.ite_none_right_eq_some.mp hk).2 hne
  | desSetkey key keylen flags =>
    cases Option.some.inj hop
    apply h.setDes
    intro hk
    exact absurd (Option.ite_none_right_eq_some.mp hk).2 hne
  | des3EdeSetkey key keylen flags =>
    cases Option.some.inj hop
    obtain ⟨_, hcase⟩ := des3EdeSetkey_agree s.hw.des hw'.des key keylen flags
    apply h.setDes
    intro hk
    rcases hcase with ⟨hyes, _⟩ | ⟨hno, hsame, _⟩
    · rw [hyes] at hk
      exact absurd hk hne
    · rw [hno] at hk
      rw [hsame]
      exact h.desKey hk
  | desCrypt inArg ivArg nbytes encdec mode =>
    cases Option.some.inj hop
    obtain ⟨hsm, hsel, hkey⟩ := desLoop_key core inArg ((nbytes / 4 + 1) / 2) 0
      (s.hw.des.setup 2 ivArg encdec mode)
    obtain ⟨hsm', hsel', hkey'⟩ := (s.hw.des.setup_key 2 ivArg encdec mode).1
    apply h.setDes
    intro hk
    exact (h.desKey hk).congr ⟨hsm.trans hsm', hsel.trans hsel', hkey.trans hkey'⟩ ⟨rfl, rfl, rfl⟩
  | md5Init =>
    cases Option.some.inj hop
    exact h.setHash (fun hk => absurd hk hne)
  | md5Update data =>
    cases Option.some.inj hop
    exact h.setHash (fun hk => absurd ((hok : s.loaded.hash = some j).symm.trans hk) hne)
  | md5Final =>
    cases Option.some.inj hop
    exact h.setHash (fun hk => absurd ((hok : s.loaded.hash = some j).symm.trans hk) hne)
  | sha1Init =>
    cases Option.some.inj hop
    exact h.setHash (fun hk => absurd hk hne)
  | sha1Update data =>
    obtain ⟨r, _, hrest⟩ := Option.map_eq_some_iff.mp hop
    cases hrest
    exact h.setHash (fun hk => absurd ((hok : s.loaded.hash = some j).symm.trans hk) hne)
  | sha1Final =>
    obtain ⟨r, _, hrest⟩ := Option.map_eq_some_iff.mp hop
    cases hrest
    exact h.setHash (fun hk => absurd ((hok : s.loaded.hash = some j).symm.trans hk) hne)

/-- The shared run and the one of the context alone, from the context's point of view. -/
structure DeuAgree (k : κ) (s s' : DeuSys κ) : Prop where
  ctx : s'.ctx k = s.ctx k
  out : s'.out k = s.out k
  hw : HwAgree s.loaded k s.hw s'.hw

theorem DeuAgree.own {core : DeuCore} {k : κ} {s s' t : DeuSys κ} {op : DeuOp}
    (h : DeuAgree k s s') (hok : DeuOk s (k, op)) (hstep : deuStep core s (k, op) = some t) :
    ∃ t', deuStep core s' (k, op) = some t' ∧ DeuAgree k t t' := by
  obtain ⟨⟨hw₁, ctx₁, out⟩, hop, ht⟩ := Option.map_eq_some_iff.mp hstep
  obtain ⟨hw₁', hop', hagree⟩ := deuOp_own core hok h.hw hop
  subst ht
  refine ⟨_, by unfold deuStep; rw [h.ctx, hop']; rfl, ?_, ?_, hagree⟩
  · dsimp only
    rw [Function.update_self, Function.update_self]
  · dsimp only
    rw [Function.update_self, Function.update_self, h.out]

theorem DeuAgree.other {core : DeuCore} {j k : κ} {s s' t : DeuSys κ} {op : DeuOp} (hj : j ≠ k)
    (h : DeuAgree k s s') (hok : DeuOk s (j, op)) (hstep : deuStep core s (j, op) = some t) :
    DeuAgree k t s' := by
  obtain ⟨⟨hw₁, ctx₁, out⟩, hop, ht⟩ := Option.map_eq_some_iff.mp hstep
  subst ht
  refine ⟨?_, ?_, deuOp_other core hj hok h.hw hop⟩
  · dsimp only
    rw [Function.update_of_ne hj.symm]
    exact h.ctx
  · dsimp only
    rw [Function.update_of_ne hj.symm]
    exact h.out

/-- In a run in which the engine always holds what the acting context has put there, every context
gets what it would get alone. -/
theorem deu_isolated (core : DeuCore) (hw : DeuHw) (ctx : κ → DeuCtx) (es : List (κ × DeuOp))
    {s : DeuSys κ} (hok : RunMeets (deuStep core) DeuOk (deuInit hw ctx) es)
    (hrun : run (deuStep core) (deuInit hw ctx) es = some s) (k : κ) :
    ∃ s', run (deuStep core) (deuInit hw ctx) (ownEvents k es) = some s' ∧ s'.out k = s.out k := by
  have hinit : DeuAgree k (deuInit hw ctx) (deuInit hw ctx) := by
    refine ⟨rfl, rfl, ?_, ?_, ?_, ?_⟩
    · intro hk
      cases hk
    · intro hk
      cases hk
    · intro hk
      cases hk
    · intro hk
      cases hk
  obtain ⟨s', hs', hagree⟩ :=
    run_ownEvents DeuAgree.own DeuAgree.other hinit hok hrun
  exact ⟨s', hs', hagree.out⟩

end

/-- An engine, on the blocks of the examples below: AES-128 of one block under two keys, and MD5 of
the message `abc`. -/
def sampleCore : DeuCore where
  aes := fun _ => {
    ecb := fun key decrypt block =>
      if decrypt = false ∧ block = [0x6bc1bee2, 0x2e409f96, 0xe93d7e11, 0x7393172a] then
        if key = [0x2b7e1516, 0x28aed2a6, 0xabf71588, 0x09cf4f3c] then
          [0x3ad77bb4, 0x0d7a3660, 0xa89ecaf3, 0x2466ef97]
        else if key = [0x00010203, 0x04050607, 0x08090a0b, 0x0c0d0e0f] then
          [0x47c58d5e, 0x21caaf84, 0x0d015b7d, 0x9b910981]
        else []
      else []
    chain := fun _ _ _ iv _ => ([], iv) }
  des := fun _ => { ecb := fun _ _ _ => [], chain := fun _ _ _ iv _ => ([], iv) }
  hash := {
    iv := fun _ i => [0x67452301, 0xefcdab89, 0x98badcfe, 0x10325476, 0xc3d2e1f0].getD i.val 0
    compress := fun algo digest block =>
      if algo = .md5 ∧ block = [0x80636261, 0, 0, 0, 0, 0, 0, 0, 0, 0, 0, 0, 0, 0, 0x18, 0] then
        fun i => [0x98500190, 0xb04fd23c, 0x7d3f96d6, 0x727fe128, 0xc3d2e1f0].getD i.val 0
      else digest }
  keyValid := fun _ => true

/-- The bytes of a buffer. -/
def sampleBytes (bs : List Byte) (i : Nat) : Byte := bs.getD i 0

def sampleKeyA : Nat → Byte := sampleBytes
  [0x2b, 0x7e, 0x15, 0x16, 0x28, 0xae, 0xd2, 0xa6, 0xab, 0xf7, 0x15, 0x88, 0x09, 0xcf, 0x4f, 0x3c]

def sampleKeyB : Nat → Byte := sampleBytes
  [0x00, 0x01, 0x02, 0x03, 0x04, 0x05, 0x06, 0x07, 0x08, 0x09, 0x0a, 0x0b, 0x0c, 0x0d, 0x0e, 0x0f]

def sampleBlock : Nat → Byte := sampleBytes
  [0x6b, 0xc1, 0xbe, 0xe2, 0x2e, 0x40, 0x9f, 0x96, 0xe9, 0x3d, 0x7e, 0x11, 0x73, 0x93, 0x17, 0x2a]

def sampleHw : DeuHw where
  aes := { sm := false, sel := 0, key := fun _ => 0, eD := false, o := 0, iv := [0, 0, 0, 0],
           od := [0, 0, 0, 0], id := fun _ => 0 }
  des := { sm := false, sel := 0, key := fun _ => 0, eD := false, o := 0, iv := [0, 0], od := [0, 0] }
  hash := ⟨.sha1, fun _ => 0, []⟩
  hashSm := false

def sampleCtx : Bool → DeuCtx := fun _ => ⟨⟨fun _ => 0, 0⟩, ⟨0, fun _ => 0⟩⟩

/-- Two contexts that take turns: AES with one key, then MD5 and AES with another. -/
def sampleTurns : List (Bool × DeuOp) :=
  [(false, .aesSetKey sampleKeyA 16 0), (true, .md5Init),
   (false, .aesCrypt sampleBlock sampleBlock 16 true .ecb), (true, .md5Update [0x61, 0x62, 0x63]),
   (true, .aesSetKey sampleKeyB 16 0), (true, .aesCrypt sampleBlock sampleBlock 16 true .ecb),
   (true, .md5Final)]

theorem deu_isolated_turns : ∃ s s',
    run (deuStep sampleCore) (deuInit sampleHw sampleCtx) sampleTurns = some s ∧
      run (deuStep sampleCore) (deuInit sampleHw sampleCtx) (ownEvents false sampleTurns) = some s' ∧
      s'.out false = s.out false := by
  have hok : RunMeets (deuStep sampleCore) DeuOk (deuInit sampleHw sampleCtx) sampleTurns := by
    decide
  obtain ⟨s', hs', hout⟩ := deu_isolated sampleCore sampleHw sampleCtx sampleTurns hok rfl false
  exact ⟨_, s', rfl, hs', hout⟩

/-- Two contexts set their keys before the first encrypts: it gets the block under the second key. -/
theorem deu_not_isolated : ∃ s s',
    run (deuStep sampleCore) (deuInit sampleHw sampleCtx)
        [(false, .aesSetKey sampleKeyA 16 0), (true, .aesSetKey sampleKeyB 16 0),
         (false, .aesCrypt sampleBlock sampleBlock 16 true .ecb)] = some s ∧
      run (deuStep sampleCore) (deuInit sampleHw sampleCtx) (ownEvents false
        [(false, .aesSetKey sampleKeyA 16 0), (true, .aesSetKey sampleKeyB 16 0),
         (false, .aesCrypt sampleBlock sampleBlock 16 true .ecb)]) = some s' ∧
      s.out false = [.ret 0 0, .data [0x47c58d5e, 0x21caaf84, 0x0d015b7d, 0x9b910981]] ∧
      s'.out false = [.ret 0 0, .data [0x3ad77bb4, 0x0d7a3660, 0xa89ecaf3, 0x2466ef97]] :=
  ⟨_, _, rfl, rfl, by decide, by decide⟩

end DanubeBsp
