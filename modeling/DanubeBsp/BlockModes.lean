import Mathlib.Data.List.Basic

namespace DanubeBsp

section

variable {β γ σ : Type*}

/-- Put the blocks of a list through a machine, one after the other. -/
def transduce (step : σ → β → γ × σ) : σ → List β → List γ
  | _, [] => []
  | s, b :: bs => (step s b).1 :: transduce step (step s b).2 bs

/-- The machine does not look at its state. -/
theorem transduce_map {step : σ → β → γ × σ} {f : β → γ} (h : ∀ s b, (step s b).1 = f b) (s : σ)
    (bs : List β) : transduce step s bs = bs.map f := by
  induction bs generalizing s with
  | nil => rfl
  | cons b bs ih => rw [transduce, h, ih, List.map_cons]

/-- Two machines that agree on the states and the blocks that occur. -/
theorem transduce_congr {step step' : σ → β → γ × σ} {Inv : σ → Prop} {P : β → Prop}
    (heq : ∀ {s b}, Inv s → P b → step s b = step' s b)
    (hkeep : ∀ {s b}, Inv s → P b → Inv (step' s b).2) {s : σ} (hs : Inv s) {bs : List β}
    (hbs : ∀ b ∈ bs, P b) : transduce step s bs = transduce step' s bs := by
  induction bs generalizing s with
  | nil => rfl
  | cons b bs ih =>
    have hb := hbs b List.mem_cons_self
    rw [transduce, transduce, heq hs hb,
      ih (hkeep hs hb) fun a ha => hbs a (List.mem_cons_of_mem b ha)]

theorem transduce_forall {step : σ → β → γ × σ} {Inv : σ → Prop} {P : β → Prop} {Q : γ → Prop}
    (hout : ∀ {s b}, Inv s → P b → Q (step s b).1)
    (hkeep : ∀ {s b}, Inv s → P b → Inv (step s b).2) {s : σ} (hs : Inv s) {bs : List β}
    (hbs : ∀ b ∈ bs, P b) : ∀ c ∈ transduce step s bs, Q c := by
  induction bs generalizing s with
  | nil => simp [transduce]
  | cons b bs ih =>
    intro c hc
    have hb := hbs b List.mem_cons_self
    rcases List.mem_cons.mp hc with rfl | hc
    · exact hout hs hb
    · exact ih (hkeep hs hb) (fun a ha => hbs a (List.mem_cons_of_mem b ha)) c hc

theorem transduce_length (step : σ → β → γ × σ) (s : σ) (bs : List β) :
    (transduce step s bs).length = bs.length := by
  induction bs generalizing s with
  | nil => rfl
  | cons b bs ih => rw [transduce, List.length_cons, ih, List.length_cons]

end

section

variable {β : Type*} (xor : β → β → β) (f : β → β)

/-- Cipher block chaining: a block is added to the ciphertext before it and then encrypted. -/
def cbcEncrypt : β → List β → List β
  | _, [] => []
  | prev, p :: ps => f (xor p prev) :: cbcEncrypt (f (xor p prev)) ps

/-- A block is decrypted and then added to the ciphertext before it. -/
def cbcDecrypt : β → List β → List β
  | _, [] => []
  | prev, c :: cs => xor (f c) prev :: cbcDecrypt c cs

/-- Cipher feedback: a block is added to the encryption of the ciphertext before it. -/
def cfbEncrypt : β → List β → List β
  | _, [] => []
  | prev, p :: ps => xor p (f prev) :: cfbEncrypt (xor p (f prev)) ps

def cfbDecrypt : β → List β → List β
  | _, [] => []
  | prev, c :: cs => xor c (f prev) :: cfbDecrypt c cs

/-- Output feedback: a block is added to the key stream, which does not depend on the blocks. -/
def ofbCrypt : β → List β → List β
  | _, [] => []
  | prev, p :: ps => xor p (f prev) :: ofbCrypt (f prev) ps

theorem cbcEncrypt_eq_transduce (iv : β) (bs : List β) :
    cbcEncrypt xor f iv bs = transduce (fun prev p => (f (xor p prev), f (xor p prev))) iv bs := by
  induction bs generalizing iv with
  | nil => rfl
  | cons b bs ih => rw [cbcEncrypt, transduce, ih]

theorem cbcDecrypt_eq_transduce (iv : β) (bs : List β) :
    cbcDecrypt xor f iv bs = transduce (fun prev c => (xor (f c) prev, c)) iv bs := by
  induction bs generalizing iv with
  | nil => rfl
  | cons b bs ih => rw [cbcDecrypt, transduce, ih]

theorem cfbEncrypt_eq_transduce (iv : β) (bs : List β) :
    cfbEncrypt xor f iv bs = transduce (fun prev p => (xor p (f prev), xor p (f prev))) iv bs := by
  induction bs generalizing iv with
  | nil => rfl
  | cons b bs ih => rw [cfbEncrypt, transduce, ih]

theorem cfbDecrypt_eq_transduce (iv : β) (bs : List β) :
    cfbDecrypt xor f iv bs = transduce (fun prev c => (xor c (f prev), c)) iv bs := by
  induction bs generalizing iv with
  | nil => rfl
  | cons b bs ih => rw [cfbDecrypt, transduce, ih]

theorem ofbCrypt_eq_transduce (iv : β) (bs : List β) :
    ofbCrypt xor f iv bs = transduce (fun prev p => (xor p (f prev), f prev)) iv bs := by
  induction bs generalizing iv with
  | nil => rfl
  | cons b bs ih => rw [ofbCrypt, transduce, ih]

end

end DanubeBsp
