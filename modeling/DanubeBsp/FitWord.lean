import Mathlib.Data.BitVec

namespace DanubeBsp

/-- A word, and whether all exact results that it comes from have fitted. -/
structure FitWord (w : Nat) where
  val : BitVec w
  fits : Bool

namespace FitWord

variable {w : Nat} {x : FitWord w} {n m : Nat}

def of (v : BitVec w) : FitWord w := ⟨v, true⟩

instance : HShiftLeft (FitWord w) Nat (FitWord w) :=
  ⟨fun x k => ⟨x.val <<< k, x.fits && decide (x.val.toNat * 2 ^ k < 2 ^ w)⟩⟩

instance : HShiftRight (FitWord w) Nat (FitWord w) := ⟨fun x k => ⟨x.val >>> k, x.fits⟩⟩

instance : HMul (FitWord w) (BitVec w) (FitWord w) :=
  ⟨fun x v => ⟨x.val * v, x.fits && decide (x.val.toNat * v.toNat < 2 ^ w)⟩⟩

instance : HAdd (FitWord w) (BitVec w) (FitWord w) :=
  ⟨fun x v => ⟨x.val + v, x.fits && decide (x.val.toNat + v.toNat < 2 ^ w)⟩⟩

instance : HDiv (FitWord w) (BitVec w) (FitWord w) := ⟨fun x v => ⟨x.val / v, x.fits⟩⟩

/-- The exact value is `n`, the largest exact result on the way to it is `m`. -/
structure Tracks (x : FitWord w) (n m : Nat) : Prop where
  fits : x.fits = true ↔ m < 2 ^ w
  val : x.fits = true → x.val.toNat = n

theorem tracks_of (v : BitVec w) : (of v).Tracks v.toNat v.toNat :=
  ⟨iff_of_true rfl v.isLt, fun _ => rfl⟩

/-- A result that is cut unless it fits. -/
theorem Tracks.step {v : BitVec w} {r : Nat} (h : x.Tracks n m)
    (hval : x.val.toNat = n → v.toNat = r % 2 ^ w) {k : Nat} (hk : x.val.toNat = n → k = r) :
    (⟨v, x.fits && decide (k < 2 ^ w)⟩ : FitWord w).Tracks r (max m r) := by
  cases hf : x.fits with
  | false =>
    refine ⟨iff_of_false Bool.false_ne_true ?_, fun hfalse => ?_⟩
    · intro hlt
      exact Bool.false_ne_true (hf.symm.trans (h.fits.mpr (lt_of_le_of_lt (le_max_left m r) hlt)))
    · cases hfalse
  | true =>
    have hn := h.val hf
    rw [hk hn, Bool.true_and]
    refine ⟨?_, fun hfits => ?_⟩
    · rw [decide_eq_true_iff, max_lt_iff]
      exact ⟨fun hlt => ⟨h.fits.mp hf, hlt⟩, fun hlt => hlt.2⟩
    · rw [hval hn, Nat.mod_eq_of_lt (of_decide_eq_true hfits)]

theorem Tracks.congr (h : x.Tracks n m) {n' m' : Nat} (hn : n = n')
    (hm : m < 2 ^ w ↔ m' < 2 ^ w) : x.Tracks n' m' :=
  ⟨h.fits.trans hm, fun hf => (h.val hf).trans hn⟩

theorem Tracks.shl (h : x.Tracks n m) (k : Nat) :
    (x <<< k).Tracks (n * 2 ^ k) (max m (n * 2 ^ k)) :=
  h.step (fun hn => by rw [BitVec.toNat_shiftLeft, Nat.shiftLeft_eq, hn]) (fun hn => by rw [hn])

theorem Tracks.mul (h : x.Tracks n m) (v : BitVec w) :
    (x * v).Tracks (n * v.toNat) (max m (n * v.toNat)) :=
  h.step (fun hn => by rw [BitVec.toNat_mul, hn]) (fun hn => by rw [hn])

theorem Tracks.add (h : x.Tracks n m) (v : BitVec w) :
    (x + v).Tracks (n + v.toNat) (max m (n + v.toNat)) :=
  h.step (fun hn => by rw [BitVec.toNat_add, hn]) (fun hn => by rw [hn])

theorem Tracks.div (h : x.Tracks n m) (v : BitVec w) : (x / v).Tracks (n / v.toNat) m :=
  ⟨h.fits, fun hf => (BitVec.toNat_udiv).trans (by rw [h.val hf])⟩

theorem Tracks.shr (h : x.Tracks n m) (k : Nat) : (x >>> k).Tracks (n / 2 ^ k) m :=
  ⟨h.fits, fun hf => by
    show (x.val >>> k).toNat = _
    rw [BitVec.toNat_ushiftRight, Nat.shiftRight_eq_div_pow, h.val hf]⟩

end FitWord

end DanubeBsp
