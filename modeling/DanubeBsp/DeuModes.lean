import DanubeBsp.BlockModes
import DanubeBsp.DeuIsolation

namespace DanubeBsp

/-- A block cipher on blocks of `w` words. -/
structure BlockCipher (w : Nat) where
  enc : List Word → List Word → List Word
  dec : List Word → List Word → List Word
  enc_length : ∀ {key block}, block.length = w → (enc key block).length = w
  dec_length : ∀ {key block}, block.length = w → (dec key block).length = w

def xorWords (a b : List Word) : List Word := List.zipWith (· ^^^ ·) a b

theorem xorWords_length {w : Nat} {a b : List Word} (ha : a.length = w) (hb : b.length = w) :
    (xorWords a b).length = w := by
  rw [xorWords, List.length_zipWith, ha, hb, Nat.min_self]

namespace BlockCipher

variable {w : Nat} (c : BlockCipher w) (key : List Word)

/-- The modes as the books have them, over all blocks of a buffer; `encdec` is set to encrypt. -/
def textbook : CipherMode → Bool → List Word → List (List Word) → List (List Word)
  | .ecb, true, _, bs => bs.map (c.enc key)
  | .ecb, false, _, bs => bs.map (c.dec key)
  | .cbc, true, iv, bs => cbcEncrypt xorWords (c.enc key) iv bs
  | .cbc, false, iv, bs => cbcDecrypt xorWords (c.dec key) iv bs
  | .cfb, true, iv, bs => cfbEncrypt xorWords (c.enc key) iv bs
  | .cfb, false, iv, bs => cfbDecrypt xorWords (c.enc key) iv bs
  | .ofb, _, iv, bs => ofbCrypt xorWords (c.enc key) iv bs

/-- What a single block gives in a mode, and the chaining value for the next one. -/
def block : CipherMode → Bool → List Word → List Word → List Word × List Word
  | .ecb, true, iv, b => (c.enc key b, iv)
  | .ecb, false, iv, b => (c.dec key b, iv)
  | .cbc, true, iv, b => (c.enc key (xorWords b iv), c.enc key (xorWords b iv))
  | .cbc, false, iv, b => (xorWords (c.dec key b) iv, b)
  | .cfb, true, iv, b => (xorWords b (c.enc key iv), xorWords b (c.enc key iv))
  | .cfb, false, iv, b => (xorWords b (c.enc key iv), b)
  | .ofb, _, iv, b => (xorWords b (c.enc key iv), c.enc key iv)

theorem textbook_eq_transduce (mode : CipherMode) (encdec : Bool) (iv : List Word)
    (bs : List (List Word)) :
    c.textbook key mode encdec iv bs = transduce (c.block key mode encdec) iv bs := by
  cases mode with
  | ecb =>
    cases encdec with
    | true =>
      symm
      exact transduce_map (f := c.enc key) (fun _ _ => rfl) iv bs
    | false =>
      symm
      exact transduce_map (f := c.dec key) (fun _ _ => rfl) iv bs
  | cbc =>
    cases encdec with
    | true => exact cbcEncrypt_eq_transduce xorWords (c.enc key) iv bs
    | false => exact cbcDecrypt_eq_transduce xorWords (c.dec key) iv bs
  | cfb =>
    cases encdec with
    | true => exact cfbEncrypt_eq_transduce xorWords (c.enc key) iv bs
    | false => exact cfbDecrypt_eq_transduce xorWords (c.enc key) iv bs
  | ofb => exact ofbCrypt_eq_transduce xorWords (c.enc key) iv bs

/-- In a chained mode the chaining value is a block. -/
def IvOk (w : Nat) (mode : CipherMode) (iv : List Word) : Prop := mode ≠ .ecb → iv.length = w

theorem block_length {mode : CipherMode} (encdec : Bool) {iv b : List Word} (hiv : IvOk w mode iv)
    (hb : b.length = w) :
    (c.block key mode encdec iv b).1.length = w ∧ IvOk w mode (c.block key mode encdec iv b).2 := by
  cases mode with
  | ecb =>
    cases encdec with
    | true => exact ⟨c.enc_length hb, hiv⟩
    | false => exact ⟨c.dec_length hb, hiv⟩
  | cbc =>
    have hiv := hiv (by decide)
    cases encdec with
    | true =>
      have hout := @c.enc_length key _ (xorWords_length hb hiv)
      exact ⟨hout, fun _ => hout⟩
    | false => exact ⟨xorWords_length (c.dec_length hb) hiv, fun _ => hb⟩
  | cfb =>
    have hout := xorWords_length hb (@c.enc_length key _ (hiv (by decide)))
    cases encdec with
    | true => exact ⟨hout, fun _ => hout⟩
    | false => exact ⟨hout, fun _ => hb⟩
  | ofb =>
    have hstream := @c.enc_length key _ (hiv (by decide))
    exact ⟨xorWords_length hb hstream, fun _ => hstream⟩

theorem textbook_length {mode : CipherMode} (encdec : Bool) {iv : List Word} (hiv : IvOk w mode iv)
    {bs : List (List Word)} (hbs : ∀ b ∈ bs, b.length = w) :
    (c.textbook key mode encdec iv bs).flatten.length = w * bs.length := by
  have hall : ∀ b ∈ transduce (c.block key mode encdec) iv bs, b.length = w :=
    @transduce_forall _ _ _ _ (IvOk w mode) (·.length = w) (·.length = w)
      (fun hiv hb => (c.block_length key encdec hiv hb).1)
      (fun hiv hb => (c.block_length key encdec hiv hb).2) _ hiv _ hbs
  have hmap : (transduce (c.block key mode encdec) iv bs).map List.length =
      List.replicate bs.length w := by
    rw [List.eq_replicate_iff, List.length_map, transduce_length]
    refine ⟨rfl, ?_⟩
    intro n hn
    obtain ⟨b, hb, rfl⟩ := List.mem_map.mp hn
    exact hall b hb
  rw [textbook_eq_transduce, List.length_flatten, hmap, List.sum_replicate_nat, Nat.mul_comm]

end BlockCipher

/-- The values of `O` by the drivers' comment: 0 ECB, 1 CBC, 2 OFB, 3 CFB. -/
def CipherMode.om : CipherMode → BitVec 3
  | .ecb => 0
  | .cbc => 1
  | .ofb => 2
  | .cfb => 3

/-- A unit that ciphers one block for each start and leaves the next chaining value in its IV
registers. Nothing is said about the other values of `O`. -/
structure CipherCore.Ciphers {w : Nat} (core : CipherCore) (c : BlockCipher w) : Prop where
  ecb : ∀ key encdec iv b, b.length = w →
    core.ecb key (!encdec) b = (c.block key .ecb encdec iv b).1
  chain : ∀ key mode encdec iv b, mode ≠ .ecb → iv.length = w → b.length = w →
    core.chain key (!encdec) mode.om iv b = c.block key mode encdec iv b

/-- `aes_set_key`, `des_setkey` and `des3_ede_setkey` set the key of these. -/
inductive DeuAlg
  | aes
  | des
  | des3
  deriving DecidableEq

namespace DeuAlg

def width : DeuAlg → Nat
  | .aes => 4
  | _ => 2

def words : DeuAlg → Nat → List Nat
  | .aes => aesWords
  | _ => desWords

/-- The values of `K` and of `M` that stand for a cipher. -/
def Sel : DeuAlg → Nat → Prop
  | .aes, sel => sel < 3
  | .des, sel => sel = 0
  | .des3, sel => 2 ≤ sel ∧ sel ≤ 4

/-- The keys that a driver takes; for AES the engine has a say in it too. -/
def Takes (alg : DeuAlg) (key : Nat → Byte) (keyLen : Nat) (flags : Word) : Prop :=
  match alg with
  | .aes => keyLen = 16 ∨ keyLen = 24 ∨ keyLen = 32
  | .des => keyLen = 8 ∧ desWeak key flags = false
  | .des3 => keyLen = 24 ∨ keyLen = 16 ∨ keyLen = 8

theorem words_nodup (alg : DeuAlg) (sel : Nat) : (alg.words sel).Nodup := by
  cases alg with
  | aes => exact aesWords_nodup sel
  | des => exact desWords_nodup sel
  | des3 => exact desWords_nodup sel

end DeuAlg

def DeuHw.unit (hw : DeuHw) : DeuAlg → CipherUnit
  | .aes => hw.aes.toCipherUnit
  | _ => hw.des

def DeuCore.unit (core : DeuCore) : DeuAlg → Nat → CipherCore
  | .aes => core.aes
  | _ => core.des

structure DeuCiphers where
  aes : BlockCipher 4
  des : BlockCipher 2
  des3 : BlockCipher 2

def DeuCiphers.cipher (c : DeuCiphers) : (alg : DeuAlg) → BlockCipher alg.width
  | .aes => c.aes
  | .des => c.des
  | .des3 => c.des3

def DeuCiphers.Engine (c : DeuCiphers) (core : DeuCore) : Prop :=
  ∀ alg sel, alg.Sel sel → (core.unit alg sel).Ciphers (c.cipher alg)

/-- Consecutive words of a buffer, from word `i` on. -/
def wordsFrom (p : Nat → Byte) (i n : Nat) : List Word :=
  (List.range' i n).map fun j => loadBe p (4 * j)

/-- The blocks of a buffer, from block `k` on. -/
def blocksFrom (w : Nat) (p : Nat → Byte) (k n : Nat) : List (List Word) :=
  (List.range' k n).map fun j => wordsFrom p (w * j) w

/-- A buffer of whole blocks to be ciphered under a key. -/
structure CipherJob where
  alg : DeuAlg
  key : Nat → Byte
  keyLen : Nat
  flags : Word
  takes : alg.Takes key keyLen flags
  inArg : Nat → Byte
  ivArg : Nat → Byte
  blocks : Nat
  encdec : Bool
  mode : CipherMode

namespace CipherJob

def nbytes (j : CipherJob) : Nat := 4 * j.alg.width * j.blocks

def setKey (j : CipherJob) (core : DeuCore) (hw : DeuHw) : DeuHw × DeuOut :=
  match j.alg with
  | .aes =>
    let r := aesSetKey core hw.aes j.key j.keyLen j.flags
    ({ hw with aes := r.1 }, r.2)
  | .des =>
    let r := desSetkey hw.des j.key j.keyLen j.flags
    ({ hw with des := r.1 }, r.2)
  | .des3 =>
    let r := des3EdeSetkey hw.des j.key j.keyLen j.flags
    ({ hw with des := r.1 }, r.2)

/-- The words that the driver writes to the output. -/
def output (j : CipherJob) (core : DeuCore) (hw : DeuHw) : List Word :=
  match j.alg with
  | .aes => (aesIfxdeu core hw.aes j.inArg j.ivArg j.nbytes j.encdec j.mode).2
  | _ => (desIncaip1 core hw.des j.inArg j.ivArg j.nbytes j.encdec j.mode).2

/-- The words that the mode gives for the whole buffer. -/
def textbook (j : CipherJob) (c : DeuCiphers) : List Word :=
  ((c.cipher j.alg).textbook (wordsFrom j.key 0 (j.keyLen / 4)) j.mode j.encdec
    (wordsFrom j.ivArg 0 j.alg.width) (blocksFrom j.alg.width j.inArg 0 j.blocks)).flatten

end CipherJob

/-- With every engine that computes the ciphers, and whatever its registers hold before, the job gives
the textbook mode over all its blocks. -/
def CipheredAll (c : DeuCiphers) (j : CipherJob) : Prop :=
  ∀ (core : DeuCore) (hw : DeuHw), c.Engine core → hw.aes.od.length = 4 →
    (j.setKey core hw).2.succeeded = true → j.output core (j.setKey core hw).1 = j.textbook c

section

variable {w : Nat} {words : Nat → List Nat} {core : Nat → CipherCore}

/-- What a start of the unit gives, for a value of its IV registers. -/
def CipherUnit.pass (words : Nat → List Nat) (core : Nat → CipherCore) (u : CipherUnit)
    (iv b : List Word) : List Word × List Word :=
  CipherUnit.result words core { u with iv := iv } b

theorem CipherUnit.start_of_sm {u : CipherUnit} (hsm : u.sm = true) (b : List Word) :
    u.start words core b =
      { u with od := (u.pass words core u.iv b).1, iv := (u.pass words core u.iv b).2 } := by
  unfold CipherUnit.start
  rw [if_pos hsm]
  rfl

theorem CipherUnit.pass_eq_block {c : BlockCipher w} {u : CipherUnit}
    (hc : (core u.sel).Ciphers c) {mode : CipherMode} {encdec : Bool} (heD : u.eD = !encdec)
    (ho : u.o = mode.om) {iv b : List Word} (hiv : BlockCipher.IvOk w mode iv)
    (hb : b.length = w) :
    u.pass words core iv b = c.block (u.activeKey words) mode encdec iv b := by
  have hkey : CipherUnit.activeKey words { u with iv := iv } = u.activeKey words := rfl
  unfold CipherUnit.pass CipherUnit.result
  rw [hkey]
  dsimp only
  rw [heD, ho]
  by_cases hmode : mode = .ecb
  · subst hmode
    rw [if_pos (by rfl), hc.ecb _ encdec iv b hb]
    cases encdec with
    | true => rfl
    | false => rfl
  · have hom : mode.om ≠ 0 := by
      cases mode with
      | ecb => exact absurd rfl hmode
      | cbc => decide
      | cfb => decide
      | ofb => decide
    rw [if_neg hom, hc.chain _ mode encdec iv b hmode (hiv hmode) hb]

end

theorem wordsFrom_length (p : Nat → Byte) (i n : Nat) : (wordsFrom p i n).length = n := by
  rw [wordsFrom, List.length_map, List.length_range']

theorem mem_blocksFrom {w : Nat} {p : Nat → Byte} {k n : Nat} {b : List Word}
    (hb : b ∈ blocksFrom w p k n) : b.length = w := by
  obtain ⟨j, _, rfl⟩ := List.mem_map.mp hb
  exact wordsFrom_length p (w * j) w

theorem blocksFrom_succ (w : Nat) (p : Nat → Byte) (k n : Nat) :
    blocksFrom w p k (n + 1) = wordsFrom p (w * k) w :: blocksFrom w p (k + 1) n := by
  rw [blocksFrom, List.range'_succ, List.map_cons]
  rfl

theorem map_loadKey {inKey : Nat → Byte} {rs : List Nat} (hnd : rs.Nodup) (i : Nat)
    (key : Nat → Word) : rs.map (loadKey inKey i rs key) = wordsFrom inKey i rs.length := by
  induction rs generalizing i key with
  | nil => rfl
  | cons r rs ih =>
    obtain ⟨hr, hrest⟩ := List.nodup_cons.mp hnd
    rw [wordsFrom, List.length_cons, List.range'_succ, List.map_cons, List.map_cons, loadKey,
      loadKey_of_notMem hr, Function.update_self, ih hrest]
    rfl

theorem desLoop_out (core : DeuCore) (inArg : Nat → Byte) (n k : Nat) {u : CipherUnit}
    (hsm : u.sm = true) :
    (desLoop core inArg n (2 * k) u).2 =
      (transduce (u.pass desWords core.des) u.iv (blocksFrom 2 inArg k n)).flatten := by
  induction n generalizing k u with
  | zero => rfl
  | succ n ih =>
    have hblock : [loadBe inArg (4 * (2 * k)), loadBe inArg (4 * (2 * k + 1))] =
        wordsFrom inArg (2 * k) 2 := rfl
    rw [desLoop, hblock, CipherUnit.start_of_sm hsm, show 2 * k + 2 = 2 * (k + 1) by omega]
    dsimp only
    rw [ih (k + 1) (by exact hsm), blocksFrom_succ, transduce, List.flatten_cons]
    rfl

structure CipherUnit.Holds (alg : DeuAlg) (u : CipherUnit) (key : List Word) : Prop where
  sm : u.sm = true
  sel : alg.Sel u.sel
  key : u.activeKey alg.words = key

theorem CipherUnit.load_holds {alg : DeuAlg} {n : Nat} {u : CipherUnit} (hsm : u.sm = true)
    (hsel : alg.Sel u.sel) (hlen : (alg.words u.sel).length = n) (inKey : Nat → Byte) :
    CipherUnit.Holds alg { u with key := loadKey inKey 0 (alg.words u.sel) u.key }
      (wordsFrom inKey 0 n) := by
  subst hlen
  exact ⟨hsm, hsel, map_loadKey (alg.words_nodup u.sel) 0 u.key⟩

theorem aesSetKey_holds (core : DeuCore) (aes : AesUnit) (inKey : Nat → Byte) {keyLen : Nat}
    (flags : Word) (hlen : keyLen = 16 ∨ keyLen = 24 ∨ keyLen = 32) :
    (aesSetKey core aes inKey keyLen flags).1.toCipherUnit.Holds .aes
      (wordsFrom inKey 0 (keyLen / 4)) := by
  have hsel : (BitVec.ofNat 2 (keyLen / 8) - 2#2).toNat < 3 ∧
      (aesWords (BitVec.ofNat 2 (keyLen / 8) - 2#2).toNat).length = keyLen / 4 := by
    rcases hlen with rfl | rfl | rfl
    · decide
    · decide
    · decide
  unfold aesSetKey
  rw [if_neg (by omega)]
  exact @CipherUnit.load_holds .aes _ { aes.toCipherUnit with
    sm := true, sel := (BitVec.ofNat 2 (keyLen / 8) - 2#2).toNat } rfl hsel.1 hsel.2 inKey

theorem desSetkey_holds (des : CipherUnit) {key : Nat → Byte} {flags : Word}
    (hweak : desWeak key flags = false) :
    (desSetkey des key 8 flags).1.Holds .des (wordsFrom key 0 (8 / 4)) := by
  unfold desSetkey
  rw [if_neg (by decide), if_neg (by rw [hweak]; decide)]
  exact @CipherUnit.load_holds .des _ { des with sel := 0, sm := true } rfl rfl rfl key

theorem des3EdeSetkey_holds (des : CipherUnit) (key : Nat → Byte) {keyLen : Nat} (flags : Word)
    (hlen : keyLen = 24 ∨ keyLen = 16 ∨ keyLen = 8) :
    (des3EdeSetkey des key keyLen flags).1.Holds .des3 (wordsFrom key 0 (keyLen / 4)) := by
  have hsel : 2 ≤ keyLen / 8 + 1 ∧ keyLen / 8 + 1 ≤ 4 := by omega
  have hwords : (desWords (keyLen / 8 + 1)).length = keyLen / 4 := by
    rcases hlen with rfl | rfl | rfl
    · decide
    · decide
    · decide
  unfold des3EdeSetkey
  rw [if_pos hlen]
  exact @CipherUnit.load_holds .des3 _ { des with sel := keyLen / 8 + 1, sm := true } rfl hsel
    hwords key

theorem CipherJob.setKey_holds (j : CipherJob) (core : DeuCore) (hw : DeuHw) :
    ((j.setKey core hw).1.unit j.alg).Holds j.alg (wordsFrom j.key 0 (j.keyLen / 4)) := by
  obtain ⟨alg, key, keyLen, flags, takes, inArg, ivArg, blocks, encdec, mode⟩ := j
  cases alg with
  | aes => exact aesSetKey_holds core hw.aes key flags takes
  | des =>
    obtain ⟨rfl, hweak⟩ := takes
    exact desSetkey_holds hw.des hweak
  | des3 => exact des3EdeSetkey_holds hw.des key flags takes

theorem CipherUnit.setup_eq (u : CipherUnit) (w : Nat) (ivArg : Nat → Byte) (encdec : Bool)
    (mode : CipherMode) :
    u.setup w ivArg encdec mode =
      { u with
        eD := !encdec, o := BitVec.ofNat 3 (mode.value - 1),
        iv := if mode = .ecb then u.iv else wordsFrom ivArg 0 w } := by
  unfold CipherUnit.setup wordsFrom
  rw [← List.range_eq_range']
  cases mode with
  | ecb => rfl
  | cbc => rfl
  | cfb => rfl
  | ofb => rfl

/-- In every mode but OFB the drivers write the value of `O` that the mode has. -/
theorem CipherMode.om_of_ne {mode : CipherMode} (h : mode ≠ .ofb) :
    BitVec.ofNat 3 (mode.value - 1) = mode.om := by
  cases mode with
  | ecb => rfl
  | cbc => rfl
  | cfb => rfl
  | ofb => exact absurd rfl h

theorem CipherUnit.Holds.setup {alg : DeuAlg} {u : CipherUnit} {key : List Word}
    (h : u.Holds alg key) (w : Nat) (ivArg : Nat → Byte) (encdec : Bool) (mode : CipherMode) :
    (u.setup w ivArg encdec mode).Holds alg key := by
  rw [CipherUnit.setup_eq]
  exact ⟨h.sm, h.sel, h.key⟩

/-- A unit that holds the key ciphers the blocks one after the other as the mode does. -/
theorem CipherUnit.Holds.transduce {c : DeuCiphers} {core : DeuCore} (hc : c.Engine core)
    {alg : DeuAlg} {u : CipherUnit} {key : List Word} (h : u.Holds alg key) (ivArg : Nat → Byte)
    (encdec : Bool) {mode : CipherMode} (hmode : mode ≠ .ofb) {bs : List (List Word)}
    (hbs : ∀ b ∈ bs, b.length = alg.width) :
    transduce ((u.setup alg.width ivArg encdec mode).pass alg.words (core.unit alg))
        (u.setup alg.width ivArg encdec mode).iv bs =
      (c.cipher alg).textbook key mode encdec (wordsFrom ivArg 0 alg.width) bs := by
  have hv := h.setup alg.width ivArg encdec mode
  have hset := u.setup_eq alg.width ivArg encdec mode
  have heD : (u.setup alg.width ivArg encdec mode).eD = !encdec := by rw [hset]
  have ho : (u.setup alg.width ivArg encdec mode).o = mode.om := by
    rw [hset, ← mode.om_of_ne hmode]
  have hiv : (u.setup alg.width ivArg encdec mode).iv =
      if mode = .ecb then u.iv else wordsFrom ivArg 0 alg.width := by rw [hset]
  have hivOk : BlockCipher.IvOk alg.width mode (u.setup alg.width ivArg encdec mode).iv := by
    intro hne
    rw [hiv, if_neg hne, wordsFrom_length]
  have hpass : ∀ {iv b : List Word}, BlockCipher.IvOk alg.width mode iv → b.length = alg.width →
      (u.setup alg.width ivArg encdec mode).pass alg.words (core.unit alg) iv b =
        (c.cipher alg).block key mode encdec iv b := by
    intro iv b hiv hb
    rw [CipherUnit.pass_eq_block (hc alg _ hv.sel) heD ho hiv hb, hv.key]
  rw [@transduce_congr _ _ _ _ ((c.cipher alg).block key mode encdec)
      (BlockCipher.IvOk alg.width mode) (·.length = alg.width) hpass
      (fun hiv hb => ((c.cipher alg).block_length key encdec hiv hb).2) _ hivOk _ hbs,
    ← BlockCipher.textbook_eq_transduce, hiv]
  -- without chaining the mode does not look at the IV
  by_cases hecb : mode = .ecb
  · subst hecb
    cases encdec with
    | true => rfl
    | false => rfl
  · rw [if_neg hecb]

theorem aesIfxdeu_block (core : DeuCore) {aes : AesUnit} (hsm : aes.sm = true)
    (inArg ivArg : Nat → Byte) (encdec : Bool) (mode : CipherMode) :
    (aesIfxdeu core aes inArg ivArg 16 encdec mode).2 =
      (transduce ((aes.toCipherUnit.setup 4 ivArg encdec mode).pass aesWords core.aes)
        (aes.toCipherUnit.setup 4 ivArg encdec mode).iv (blocksFrom 4 inArg 0 1)).flatten := by
  have hsetup : (aes.toCipherUnit.setup 4 ivArg encdec mode).sm = true := by
    rw [CipherUnit.setup_eq]
    exact hsm
  have hout : (aesIfxdeu core aes inArg ivArg 16 encdec mode).2 =
      ((aes.toCipherUnit.setup 4 ivArg encdec mode).start aesWords core.aes
        (wordsFrom inArg (4 * 0) 4)).od := rfl
  rw [hout, CipherUnit.start_of_sm hsetup, blocksFrom_succ, transduce, List.flatten_cons]
  exact (List.append_nil _).symm

/-- No other number of blocks starts the unit, and the output registers are read as they are. -/
theorem aesIfxdeu_stale (core : DeuCore) (aes : AesUnit) (inArg ivArg : Nat → Byte) {n : Nat}
    (hn : n ≠ 1) (encdec : Bool) (mode : CipherMode) :
    (aesIfxdeu core aes inArg ivArg (16 * n) encdec mode).2 = aes.od := by
  have hinput : aesInput aes.id inArg (16 * n) = none := by
    unfold aesInput
    split
    · omega
    · omega
    · omega
    · omega
    · omega
    · rfl
  unfold aesIfxdeu
  rw [hinput, CipherUnit.setup_eq]

theorem desIncaip1_out (core : DeuCore) {des : CipherUnit} (hsm : des.sm = true)
    (inArg ivArg : Nat → Byte) (n : Nat) (encdec : Bool) (mode : CipherMode) :
    (desIncaip1 core des inArg ivArg (8 * n) encdec mode).2 =
      (transduce ((des.setup 2 ivArg encdec mode).pass desWords core.des)
        (des.setup 2 ivArg encdec mode).iv (blocksFrom 2 inArg 0 n)).flatten := by
  have hsetup : (des.setup 2 ivArg encdec mode).sm = true := by
    rw [CipherUnit.setup_eq]
    exact hsm
  unfold desIncaip1
  rw [show (8 * n / 4 + 1) / 2 = n by omega]
  exact desLoop_out core inArg n 0 hsetup

theorem CipherJob.output_eq_transduce (j : CipherJob) (core : DeuCore) {hw : DeuHw}
    (hsm : (hw.unit j.alg).sm = true) (hblocks : j.alg = .aes → j.blocks = 1) :
    j.output core hw =
      (transduce (((hw.unit j.alg).setup j.alg.width j.ivArg j.encdec j.mode).pass j.alg.words
        (core.unit j.alg)) ((hw.unit j.alg).setup j.alg.width j.ivArg j.encdec j.mode).iv
        (blocksFrom j.alg.width j.inArg 0 j.blocks)).flatten := by
  obtain ⟨alg, key, keyLen, flags, takes, inArg, ivArg, blocks, encdec, mode⟩ := j
  cases alg with
  | aes =>
    cases hblocks rfl
    exact aesIfxdeu_block core hsm inArg ivArg encdec mode
  | des => exact desIncaip1_out core hsm inArg ivArg blocks encdec mode
  | des3 => exact desIncaip1_out core hsm inArg ivArg blocks encdec mode

theorem cipheredAll_of_started (c : DeuCiphers) {j : CipherJob}
    (hblocks : j.alg = .aes → j.blocks = 1) (hmode : j.mode ≠ .ofb) : CipheredAll c j := by
  intro core hw hc _ _
  have hkey := j.setKey_holds core hw
  rw [j.output_eq_transduce core hkey.sm hblocks,
    hkey.transduce hc j.ivArg j.encdec hmode fun b hb => mem_blocksFrom hb]
  rfl

theorem CipherJob.textbook_length (j : CipherJob) (c : DeuCiphers) :
    (j.textbook c).length = j.alg.width * j.blocks := by
  unfold CipherJob.textbook
  rw [BlockCipher.textbook_length _ _ _ (fun _ => wordsFrom_length _ _ _)
    fun b hb => mem_blocksFrom hb, blocksFrom, List.length_map, List.length_range']

theorem cipheredAll_of_empty (c : DeuCiphers) {j : CipherJob} (halg : j.alg ≠ .aes)
    (hblocks : j.blocks = 0) : CipheredAll c j := by
  intro core hw _ _ _
  have hkey := j.setKey_holds core hw
  have htext : j.textbook c = [] := by
    refine List.length_eq_zero_iff.mp ?_
    rw [j.textbook_length, hblocks, Nat.mul_zero]
  rw [j.output_eq_transduce core hkey.sm fun h => absurd h halg, htext, hblocks]
  rfl

/-- A unit that computes the modes of a cipher, and something else for the other values of `O`. -/
def BlockCipher.core {w : Nat} (c : BlockCipher w) : CipherCore where
  ecb key eD b := (c.block key .ecb (!eD) [] b).1
  chain key eD o iv b :=
    if o = 1 then c.block key .cbc (!eD) iv b
    else if o = 2 then c.block key .ofb (!eD) iv b
    else if o = 3 then c.block key .cfb (!eD) iv b
    else ((c.block key .ofb (!eD) iv b).1.map (~~~ ·), iv)

theorem BlockCipher.core_ciphers {w : Nat} (c : BlockCipher w) : c.core.Ciphers c := by
  constructor
  · intro key encdec iv b _
    cases encdec with
    | true => rfl
    | false => rfl
  · intro key mode encdec iv b hmode _ _
    cases mode with
    | ecb => exact absurd rfl hmode
    | cbc =>
      cases encdec with
      | true => rfl
      | false => rfl
    | cfb =>
      cases encdec with
      | true => rfl
      | false => rfl
    | ofb => rfl

def DeuCiphers.core (c : DeuCiphers) : DeuCore where
  aes _ := c.aes.core
  des sel := if sel = 0 then c.des.core else c.des3.core
  hash := ⟨fun _ _ => 0, fun _ digest _ => digest⟩
  keyValid _ := true

theorem DeuCiphers.core_unit (c : DeuCiphers) {alg : DeuAlg} {sel : Nat} (hsel : alg.Sel sel) :
    c.core.unit alg sel = (c.cipher alg).core := by
  cases alg with
  | aes => rfl
  | des => exact if_pos hsel
  | des3 => exact if_neg (by have := hsel.1; omega)

theorem DeuCiphers.core_engine (c : DeuCiphers) : c.Engine c.core := by
  intro alg sel hsel
  rw [c.core_unit hsel]
  exact (c.cipher alg).core_ciphers

theorem CipherJob.setKey_succeeded (j : CipherJob) (c : DeuCiphers) (hw : DeuHw) :
    (j.setKey c.core hw).2.succeeded = true := by
  obtain ⟨alg, key, keyLen, flags, takes, inArg, ivArg, blocks, encdec, mode⟩ := j
  cases alg with
  | aes =>
    have hlen : ¬(keyLen ≠ 16 ∧ keyLen ≠ 24 ∧ keyLen ≠ 32) := by
      rcases takes with rfl | rfl | rfl
      · decide
      · decide
      · decide
    simp [CipherJob.setKey, aesSetKey, hlen, DeuCiphers.core, DeuOut.succeeded]
  | des => simp [CipherJob.setKey, desSetkey, takes.1, takes.2, DeuOut.succeeded]
  | des3 =>
    have hlen : keyLen = 24 ∨ keyLen = 16 ∨ keyLen = 8 := takes
    simp [CipherJob.setKey, des3EdeSetkey, hlen, DeuOut.succeeded]

theorem not_cipheredAll_aes (c : DeuCiphers) {j : CipherJob} (halg : j.alg = .aes)
    (hblocks : j.blocks ≠ 1) : ¬CipheredAll c j := by
  intro h
  have hout := h c.core sampleHw c.core_engine rfl (j.setKey_succeeded c sampleHw)
  have hlen := congrArg List.length hout
  rw [j.textbook_length] at hlen
  obtain ⟨alg, key, keyLen, flags, takes, inArg, ivArg, blocks, encdec, mode⟩ := j
  cases halg
  have hstale : (aesIfxdeu c.core (aesSetKey c.core sampleHw.aes key keyLen flags).1 inArg ivArg
      (16 * blocks) encdec mode).2 = sampleHw.aes.od := by
    rw [aesIfxdeu_stale c.core _ inArg ivArg hblocks encdec mode]
    exact (aesSetKey_data c.core sampleHw.aes key keyLen flags).2
  have hfour : 4 * 1 = 4 * blocks := (congrArg List.length hstale).symm.trans hlen
  exact hblocks (Nat.eq_of_mul_eq_mul_left (by decide) hfour).symm

/-- For OFB the drivers write 7 to `O`. -/
theorem CipherUnit.Holds.pass_ofb {alg : DeuAlg} {u : CipherUnit} {key : List Word}
    (h : u.Holds alg key) (c : DeuCiphers) (ivArg : Nat → Byte) (encdec : Bool) (b : List Word) :
    ((u.setup alg.width ivArg encdec .ofb).pass alg.words (c.core.unit alg)
        (u.setup alg.width ivArg encdec .ofb).iv b).1 =
      ((c.cipher alg).block key .ofb encdec (wordsFrom ivArg 0 alg.width) b).1.map (~~~ ·) := by
  have hseven : ¬(BitVec.ofNat 3 (CipherMode.ofb.value - 1) = 0) := by decide
  rw [CipherUnit.setup_eq, ← h.key]
  unfold CipherUnit.pass CipherUnit.result
  rw [if_neg hseven, c.core_unit h.sel]
  rfl

theorem map_not_ne_self {ws : List Word} (h : 0 < ws.length) : ws.map (~~~ ·) ≠ ws := by
  cases ws with
  | nil => exact absurd h (by decide)
  | cons a ws =>
    intro heq
    have hhead : ~~~a = a := (List.cons.inj heq).1
    have hbit := congrArg (·.getLsbD 0) hhead
    simp at hbit

theorem not_cipheredAll_ofb (c : DeuCiphers) {j : CipherJob} (hmode : j.mode = .ofb)
    (haes : j.alg = .aes → j.blocks = 1) (hblocks : j.blocks ≠ 0) : ¬CipheredAll c j := by
  intro h
  have hkey := j.setKey_holds c.core sampleHw
  have hout := h c.core sampleHw c.core_engine rfl (j.setKey_succeeded c sampleHw)
  obtain ⟨n, hn⟩ := Nat.exists_eq_succ_of_ne_zero hblocks
  rw [j.output_eq_transduce c.core hkey.sm haes, CipherJob.textbook,
    BlockCipher.textbook_eq_transduce, hn, hmode, blocksFrom_succ, transduce, transduce,
    List.flatten_cons, List.flatten_cons, hkey.pass_ofb c] at hout
  have hlen : ((c.cipher j.alg).block (wordsFrom j.key 0 (j.keyLen / 4)) .ofb j.encdec
      (wordsFrom j.ivArg 0 j.alg.width)
      (wordsFrom j.inArg (j.alg.width * 0) j.alg.width)).1.length = j.alg.width :=
    (BlockCipher.block_length _ _ _ (fun _ => wordsFrom_length _ _ _) (wordsFrom_length _ _ _)).1
  have hfirst := List.append_inj_left hout (by rw [List.length_map])
  refine map_not_ne_self ?_ hfirst
  rw [hlen]
  unfold DeuAlg.width
  split
  · decide
  · decide

/-- For AES there is exactly one block, and OFB has nothing to cipher. -/
def ModeServed (j : CipherJob) : Prop :=
  (j.alg = .aes → j.blocks = 1) ∧ (j.mode = .ofb → j.blocks = 0)

theorem multi_block_textbook_iff (c : DeuCiphers) (j : CipherJob) :
    CipheredAll c j ↔ ModeServed j := by
  constructor
  · intro h
    have haes : j.alg = .aes → j.blocks = 1 := by
      intro halg
      by_contra hblocks
      exact not_cipheredAll_aes c halg hblocks h
    refine ⟨haes, ?_⟩
    intro hmode
    by_contra hblocks
    exact not_cipheredAll_ofb c hmode haes hblocks h
  · rintro ⟨haes, hofb⟩
    by_cases hmode : j.mode = .ofb
    · have hzero := hofb hmode
      have halg : j.alg ≠ .aes := by
        intro h
        have hone := haes h
        omega
      exact cipheredAll_of_empty c halg hzero
    · exact cipheredAll_of_started c haes hmode

/-- A permutation of the blocks that has the value of AES-128 for one key and one block. -/
def sampleSwap (key b : List Word) : List Word :=
  if key = wordsFrom sampleKeyA 0 4 then
    if b = wordsFrom sampleBlock 0 4 then [0x3ad77bb4, 0x0d7a3660, 0xa89ecaf3, 0x2466ef97]
    else if b = [0x3ad77bb4, 0x0d7a3660, 0xa89ecaf3, 0x2466ef97] then wordsFrom sampleBlock 0 4
    else b
  else b

theorem sampleSwap_length {key b : List Word} (hb : b.length = 4) :
    (sampleSwap key b).length = 4 := by
  unfold sampleSwap
  split_ifs
  · rfl
  · rfl
  · exact hb
  · exact hb

def sampleAes : BlockCipher 4 where
  enc := sampleSwap
  dec := sampleSwap
  enc_length := sampleSwap_length
  dec_length := sampleSwap_length

def sampleDes : BlockCipher 2 where
  enc _ b := b
  dec _ b := b
  enc_length := fun hb => hb
  dec_length := fun hb => hb

def sampleCiphers : DeuCiphers := ⟨sampleAes, sampleDes, sampleDes⟩

/-- The same block twice, with AES-128 in mode ECB. -/
def twoBlocks : CipherJob where
  alg := .aes
  key := sampleKeyA
  keyLen := 16
  flags := 0
  takes := Or.inl rfl
  inArg := fun i => sampleBlock (i % 16)
  ivArg := fun _ => 0
  blocks := 2
  encdec := true
  mode := .ecb

/-- The unit is not started at all. -/
theorem two_blocks_not_ciphered :
    twoBlocks.output sampleCiphers.core (twoBlocks.setKey sampleCiphers.core sampleHw).1 =
        [0, 0, 0, 0] ∧
      twoBlocks.textbook sampleCiphers =
        [0x3ad77bb4, 0x0d7a3660, 0xa89ecaf3, 0x2466ef97,
         0x3ad77bb4, 0x0d7a3660, 0xa89ecaf3, 0x2466ef97] ∧
      ¬CipheredAll sampleCiphers twoBlocks := by
  have hout : twoBlocks.output sampleCiphers.core
      (twoBlocks.setKey sampleCiphers.core sampleHw).1 = [0, 0, 0, 0] := by decide
  have htext : twoBlocks.textbook sampleCiphers =
      [0x3ad77bb4, 0x0d7a3660, 0xa89ecaf3, 0x2466ef97,
       0x3ad77bb4, 0x0d7a3660, 0xa89ecaf3, 0x2466ef97] := by decide
  refine ⟨hout, htext, ?_⟩
  intro h
  have heq := h sampleCiphers.core sampleHw sampleCiphers.core_engine rfl
    (twoBlocks.setKey_succeeded sampleCiphers sampleHw)
  rw [hout, htext] at heq
  exact absurd heq (by decide)

end DanubeBsp
