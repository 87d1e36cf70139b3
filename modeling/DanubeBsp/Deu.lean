import DanubeBsp.CipherEngine
import DanubeBsp.Errno
import DanubeBsp.Md5
import DanubeBsp.Runs
import DanubeBsp.Sha1

namespace DanubeBsp

/-- The modes that the drivers pass, `CRYPTO_TFM_MODE_*`. -/
inductive CipherMode
  | ecb
  | cbc
  | cfb
  | ofb
  deriving DecidableEq

def CipherMode.value : CipherMode → Nat
  | .ecb => 1
  | .cbc => 2
  | .cfb => 4
  | .ofb => 16

/-- `CRYPTO_TFM_REQ_WEAK_KEY`, `CRYPTO_TFM_RES_WEAK_KEY` and `CRYPTO_TFM_RES_BAD_KEY_LEN`. -/
def reqWeakKey : Word := 0x00000100#32

def resWeakKey : Word := 0x00100000#32

def resBadKeyLen : Word := 0x00200000#32

/-- What an operation gives back: the code and the flags, the output words, or the digest. -/
inductive DeuOut
  | ret (code : Int) (flags : Word)
  | data (ws : List Word)
  | digest (bs : List Byte)
  | done
  deriving DecidableEq

def DeuOut.succeeded : DeuOut → Bool
  | .ret code _ => code == 0
  | _ => true

/-- `E_D`, `O` and, in a chained mode, the IV, as both cipher drivers set them for a call. -/
def CipherUnit.setup (u : CipherUnit) (ivWords : Nat) (ivArg : Nat → Byte) (encdec : Bool)
    (mode : CipherMode) : CipherUnit :=
  let u := { u with eD := !encdec, o := BitVec.ofNat 3 (mode.value - 1) }
  if 1 < mode.value then { u with iv := (List.range ivWords).map fun i => loadBe ivArg (4 * i) } else u

/-- The AES unit, with the input registers `ID0R` to `ID3R`. -/
structure AesUnit extends CipherUnit where
  id : Nat → Word

/-- The key registers that count for a value of `K`, from the first word on. -/
def aesWords : Nat → List Nat
  | 0 => [3, 2, 1, 0]
  | 1 => [5, 4, 3, 2, 1, 0]
  | 2 => [7, 6, 5, 4, 3, 2, 1, 0]
  | _ => []

/-- What the engine computes. `keyValid` is the `KV` bit behind the preparation of a key. -/
structure DeuCore where
  aes : Nat → CipherCore
  des : Nat → CipherCore
  hash : HashCore
  keyValid : List Word → Bool

/-- `aes_set_key`. The length goes to `K`, two bits wide, before it is checked. -/
def aesSetKey (core : DeuCore) (aes : AesUnit) (inKey : Nat → Byte) (keyLen : Nat) (flags : Word) :
    AesUnit × DeuOut :=
  let u := { aes.toCipherUnit with sm := true, sel := (BitVec.ofNat 2 (keyLen / 8) - 2#2).toNat }
  if keyLen ≠ 16 ∧ keyLen ≠ 24 ∧ keyLen ≠ 32 then
    ({ aes with toCipherUnit := u }, .ret eInval (flags ||| resBadKeyLen))
  else
    let u := { u with key := loadKey inKey 0 (aesWords u.sel) u.key }
    ({ aes with toCipherUnit := u },
      .ret (if core.keyValid (u.activeKey aesWords) then 0 else eInval) flags)

/-- The input registers behind the `switch` over `nbytes`; other sizes write none. -/
def aesInput (id : Nat → Word) (inArg : Nat → Byte) : Nat → Option (Nat → Word)
  | 16 => some fun r => if r < 4 then loadBe inArg (4 * (3 - r)) else id r
  | 8 => some fun r => if r < 2 then loadBe inArg (4 * (1 - r)) else id r
  | 4 => some (Function.update id 0 (loadBe inArg 0))
  | 2 => some (Function.update id 0 (beWord 0 0 (inArg 0) (inArg 1)))
  | 1 => some (Function.update id 0 (beWord 0 0 0 (inArg 0)))
  | _ => none

/-- `aes_ifxdeu`. The write of `ID0R` starts the unit; the output is read in every case. -/
def aesIfxdeu (core : DeuCore) (aes : AesUnit) (inArg ivArg : Nat → Byte) (nbytes : Nat)
    (encdec : Bool) (mode : CipherMode) : AesUnit × List Word :=
  let u := aes.toCipherUnit.setup 4 ivArg encdec mode
  match aesInput aes.id inArg nbytes with
  | some id =>
    let u := u.start aesWords core.aes [id 3, id 2, id 1, id 0]
    ({ toCipherUnit := u, id := id }, u.od)
  | none => ({ aes with toCipherUnit := u }, u.od)

/-- The key registers that count for a value of `M`: `K1HR`, `K1LR` and so on. -/
def desWords : Nat → List Nat
  | 3 => [0, 1, 2, 3]
  | 4 => [0, 1, 2, 3, 4, 5]
  | _ => [0, 1]

def parity : List Nat :=
  [8, 1, 0, 8, 0, 8, 8, 0, 0, 8, 8, 0, 8, 0, 2, 8, 0, 8, 8, 0, 8, 0, 0, 8, 8, 0, 0, 8, 0, 8, 8, 3,
   0, 8, 8, 0, 8, 0, 0, 8, 8, 0, 0, 8, 0, 8, 8, 0, 8, 0, 0, 8, 0, 8, 8, 0, 0, 8, 8, 0, 8, 0, 0, 8,
   0, 8, 8, 0, 8, 0, 0, 8, 8, 0, 0, 8, 0, 8, 8, 0, 8, 0, 0, 8, 0, 8, 8, 0, 0, 8, 8, 0, 8, 0, 0, 8,
   8, 0, 0, 8, 0, 8, 8, 0, 0, 8, 8, 0, 8, 0, 0, 8, 0, 8, 8, 0, 8, 0, 0, 8, 8, 0, 0, 8, 0, 8, 8, 0,
   0, 8, 8, 0, 8, 0, 0, 8, 8, 0, 0, 8, 0, 8, 8, 0, 8, 0, 0, 8, 0, 8, 8, 0, 0, 8, 8, 0, 8, 0, 0, 8,
   8, 0, 0, 8, 0, 8, 8, 0, 0, 8, 8, 0, 8, 0, 0, 8, 0, 8, 8, 0, 8, 0, 0, 8, 8, 0, 0, 8, 0, 8, 8, 0,
   8, 0, 0, 8, 0, 8, 8, 0, 0, 8, 8, 0, 8, 0, 0, 8, 0, 8, 8, 0, 8, 0, 0, 8, 8, 0, 0, 8, 0, 8, 8, 0,
   4, 8, 8, 0, 8, 0, 0, 8, 8, 0, 0, 8, 0, 8, 8, 0, 8, 5, 0, 8, 0, 8, 8, 0, 0, 8, 8, 0, 8, 0, 6, 8]

/-- The parity digits of the weak keys. -/
def weakKeys : List Word :=
  [0x11111111#32, 0x13131212#32, 0x14141515#32, 0x16161616#32, 0x31312121#32, 0x33332222#32,
   0x34342525#32, 0x36362626#32, 0x41415151#32, 0x43435252#32, 0x44445555#32, 0x46465656#32,
   0x61616161#32, 0x63636262#32, 0x64646565#32, 0x66666666#32]

/-- The weak key test of `setkey`. -/
def desWeak (key : Nat → Byte) (flags : Word) : Bool :=
  let n := (List.range 8).foldl
    (fun (n : Word) i => (n <<< 4) ||| BitVec.ofNat 32 (parity.getD (key i).toNat 0)) 0#32
  let w := 0x88888888#32
  flags &&& reqWeakKey != 0#32 && (n - (w >>> 3)) &&& w == 0#32 && weakKeys.contains n

/-- `setkey` of DES. `M` is cleared before the key is checked. -/
def desSetkey (des : CipherUnit) (key : Nat → Byte) (keylen : Nat) (flags : Word) :
    CipherUnit × DeuOut :=
  let u := { des with sel := 0, sm := true }
  if keylen ≠ 8 then (u, .ret eInval flags)
  else if desWeak key flags then (u, .ret eInval (flags ||| resWeakKey))
  else ({ u with key := loadKey key 0 [0, 1] u.key }, .ret 0 flags)

/-- `des3_ede_setkey`. -/
def des3EdeSetkey (des : CipherUnit) (key : Nat → Byte) (keylen : Nat) (flags : Word) :
    CipherUnit × DeuOut :=
  if keylen = 24 ∨ keylen = 16 ∨ keylen = 8 then
    let sel := keylen / 8 + 1
    ({ des with key := loadKey key 0 (desWords sel) des.key, sel := sel, sm := true }, .ret 0 flags)
  else (des, .ret eInval flags)

/-- The loop of `des_incaip1` over pairs of words, from word `i` on. -/
def desLoop (core : DeuCore) (inArg : Nat → Byte) : Nat → Nat → CipherUnit → CipherUnit × List Word
  | 0, _, u => (u, [])
  | n + 1, i, u =>
    let u := u.start desWords core.des [loadBe inArg (4 * i), loadBe inArg (4 * (i + 1))]
    let r := desLoop core inArg n (i + 2) u
    (r.1, u.od ++ r.2)

/-- `des_incaip1`: `i` goes from 0 in steps of 2 while it is below the number of words. -/
def desIncaip1 (core : DeuCore) (des : CipherUnit) (inArg ivArg : Nat → Byte) (nbytes : Nat)
    (encdec : Bool) (mode : CipherMode) : CipherUnit × List Word :=
  desLoop core inArg ((nbytes / 4 + 1) / 2) 0 (des.setup 2 ivArg encdec mode)

/-- The words that `sha1_transform` writes to `MR`. -/
def sha1Transform (block : List Byte) : List Word :=
  (List.range 16).map fun i => loadBe (fun j => block.getD j 0) (4 * i)

local instance sha1DigestNeZero : NeZero 5 := ⟨by decide⟩

/-- The digest registers as `sha1_final` stores them. -/
def sha1Output (digest : HashDigest) : List Byte :=
  [0, 1, 2, 3, 4].flatMap fun i =>
    [beByte (digest i) 0, beByte (digest i) 1, beByte (digest i) 2, beByte (digest i) 3]

/-- The registers of the engine, which all contexts share. -/
structure DeuHw where
  aes : AesUnit
  des : CipherUnit
  hash : HashUnit
  hashSm : Bool

/-- What a context keeps for itself; the keys of the cipher contexts are not among it. -/
structure DeuCtx where
  md5 : Md5Ctx
  sha1 : Sha1Ctx

/-- The operations of the four drivers. `aes_encrypt` and `aes_decrypt` are `aesCrypt` in mode `ecb`
with 16 bytes, `des_encrypt` and `des_decrypt` are `desCrypt` with 8. -/
inductive DeuOp
  | aesSetKey (inKey : Nat → Byte) (keyLen : Nat) (flags : Word)
  | aesCrypt (inArg ivArg : Nat → Byte) (nbytes : Nat) (encdec : Bool) (mode : CipherMode)
  | desSetkey (key : Nat → Byte) (keylen : Nat) (flags : Word)
  | des3EdeSetkey (key : Nat → Byte) (keylen : Nat) (flags : Word)
  | desCrypt (inArg ivArg : Nat → Byte) (nbytes : Nat) (encdec : Bool) (mode : CipherMode)
  | md5Init
  | md5Update (data : List Byte)
  | md5Final
  | sha1Init
  | sha1Update (data : List Byte)
  | sha1Final

/-- Blocks written to `MR`; without `SM` they are not started. -/
def DeuHw.feed (core : DeuCore) (hw : DeuHw) (bs : List (List Word)) : DeuHw :=
  { hw with hash := if hw.hashSm then feedBlocks core.hash hw.hash bs else hw.hash }

/-- One operation of a context. Both `final`s clear `SM` and wipe the context. -/
def deuOp (core : DeuCore) (hw : DeuHw) (ctx : DeuCtx) : DeuOp → Option (DeuHw × DeuCtx × DeuOut)
  | .aesSetKey inKey keyLen flags =>
    let r := aesSetKey core hw.aes inKey keyLen flags
    some ({ hw with aes := r.1 }, ctx, r.2)
  | .aesCrypt inArg ivArg nbytes encdec mode =>
    let r := aesIfxdeu core hw.aes inArg ivArg nbytes encdec mode
    some ({ hw with aes := r.1 }, ctx, .data r.2)
  | .desSetkey key keylen flags =>
    let r := desSetkey hw.des key keylen flags
    some ({ hw with des := r.1 }, ctx, r.2)
  | .des3EdeSetkey key keylen flags =>
    let r := des3EdeSetkey hw.des key keylen flags
    some ({ hw with des := r.1 }, ctx, r.2)
  | .desCrypt inArg ivArg nbytes encdec mode =>
    let r := desIncaip1 core hw.des inArg ivArg nbytes encdec mode
    some ({ hw with des := r.1 }, ctx, .data r.2)
  | .md5Init =>
    some ({ hw with hash := initHash core.hash .md5, hashSm := true },
      { ctx with md5 := md5Init ctx.md5 }, .done)
  | .md5Update data =>
    let r := md5Update ctx.md5 data
    some (hw.feed core r.2, { ctx with md5 := r.1 }, .done)
  | .md5Final =>
    let hw := hw.feed core (md5Final ctx.md5)
    some ({ hw with hashSm := false }, { ctx with md5 := ⟨fun _ => 0, 0⟩ },
      .digest (md5Output hw.hash.digest))
  | .sha1Init =>
    some ({ hw with hash := initHash core.hash .sha1, hashSm := true },
      { ctx with sha1 := sha1Init ctx.sha1 }, .done)
  | .sha1Update data =>
    (sha1Update ctx.sha1 data).map fun r =>
      (hw.feed core (r.2.map sha1Transform), { ctx with sha1 := r.1 }, .done)
  | .sha1Final =>
    (sha1Final ctx.sha1).map fun r =>
      let hw := hw.feed core (r.2.map sha1Transform)
      ({ hw with hashSm := false }, { ctx with sha1 := ⟨0, fun _ => 0⟩ },
        .digest (sha1Output hw.hash.digest))

/-- Whose key, data and digest are in the engine: the context of the last `set_key` of a unit that
succeeded, of the last full AES block, and of the last `init` of a digest. -/
structure Loaded (κ : Type*) where
  aesKey : Option κ
  aesData : Option κ
  desKey : Option κ
  hash : Option κ

/-- A `set_key` that fails may have changed the selection of the key. -/
def Loaded.next {κ : Type*} [DecidableEq κ] (l : Loaded κ) (k : κ) (out : DeuOut) :
    DeuOp → Loaded κ
  | .aesSetKey .. => { l with aesKey := if out.succeeded then some k else none }
  | .aesCrypt _ _ nbytes _ _ =>
    { l with aesData := if nbytes = 16 ∨ l.aesData = some k then some k else none }
  | .desSetkey .. => { l with desKey := if out.succeeded then some k else none }
  | .des3EdeSetkey .. => { l with desKey := if out.succeeded then some k else l.desKey }
  | .md5Init => { l with hash := some k }
  | .sha1Init => { l with hash := some k }
  | _ => l

structure DeuSys (κ : Type*) where
  hw : DeuHw
  ctx : κ → DeuCtx
  out : κ → List DeuOut
  loaded : Loaded κ

def deuInit {κ : Type*} (hw : DeuHw) (ctx : κ → DeuCtx) : DeuSys κ where
  hw := hw
  ctx := ctx
  out := fun _ => []
  loaded := ⟨none, none, none, none⟩

/-- One whole operation of a context. -/
def deuStep {κ : Type*} [DecidableEq κ] (core : DeuCore) (s : DeuSys κ) (e : κ × DeuOp) :
    Option (DeuSys κ) :=
  (deuOp core s.hw (s.ctx e.1) e.2).map fun r =>
    { hw := r.1
      ctx := Function.update s.ctx e.1 r.2.1
      out := Function.update s.out e.1 (s.out e.1 ++ [r.2.2])
      loaded := s.loaded.next e.1 r.2.2 e.2 }

/-- What the engine holds for an operation is the context's own: its key for a cipher, and for AES the
whole block or else the data registers too; its digest for an update or a final. -/
def DeuOk {κ : Type*} (s : DeuSys κ) (e : κ × DeuOp) : Prop :=
  match e.2 with
  | .aesCrypt _ _ nbytes _ _ =>
    s.loaded.aesKey = some e.1 ∧ (nbytes = 16 ∨ s.loaded.aesData = some e.1)
  | .desCrypt .. => s.loaded.desKey = some e.1
  | .md5Update _ => s.loaded.hash = some e.1
  | .md5Final => s.loaded.hash = some e.1
  | .sha1Update _ => s.loaded.hash = some e.1
  | .sha1Final => s.loaded.hash = some e.1
  | _ => True

instance {κ : Type*} [DecidableEq κ] (s : DeuSys κ) (e : κ × DeuOp) : Decidable (DeuOk s e) :=
  match e with
  | (k, .aesCrypt _ _ nbytes _ _) =>
    inferInstanceAs
      (Decidable (s.loaded.aesKey = some k ∧ (nbytes = 16 ∨ s.loaded.aesData = some k)))
  | (k, .desCrypt ..) => inferInstanceAs (Decidable (s.loaded.desKey = some k))
  | (k, .md5Update _) => inferInstanceAs (Decidable (s.loaded.hash = some k))
  | (k, .md5Final) => inferInstanceAs (Decidable (s.loaded.hash = some k))
  | (k, .sha1Update _) => inferInstanceAs (Decidable (s.loaded.hash = some k))
  | (k, .sha1Final) => inferInstanceAs (Decidable (s.loaded.hash = some k))
  | (_, .aesSetKey ..) => inferInstanceAs (Decidable True)
  | (_, .desSetkey ..) => inferInstanceAs (Decidable True)
  | (_, .des3EdeSetkey ..) => inferInstanceAs (Decidable True)
  | (_, .md5Init) => inferInstanceAs (Decidable True)
  | (_, .sha1Init) => inferInstanceAs (Decidable True)

end DanubeBsp
