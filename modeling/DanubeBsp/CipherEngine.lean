import DanubeBsp.ByteOrder

namespace DanubeBsp

/-- What a cipher unit computes from the words of a key: a block on its own, and a block in a chained
mode together with the IV for the next one. The flag is the direction. -/
structure CipherCore where
  ecb : List Word → Bool → List Word → List Word
  chain : List Word → Bool → BitVec 3 → List Word → List Word → List Word × List Word

/-- The registers of a cipher unit. `sel` selects which words of the key count. -/
structure CipherUnit where
  sm : Bool
  sel : Nat
  key : Nat → Word
  eD : Bool
  o : BitVec 3
  iv : List Word
  od : List Word

/-- Store consecutive words of a key in the given registers, from word `i` on. -/
def loadKey (inKey : Nat → Byte) : Nat → List Nat → (Nat → Word) → Nat → Word
  | _, [], key => key
  | i, r :: rs, key => loadKey inKey (i + 1) rs (Function.update key r (loadBe inKey (4 * i)))

theorem loadKey_of_notMem {inKey : Nat → Byte} {rs : List Nat} {r : Nat} (h : r ∉ rs) (i : Nat)
    (key : Nat → Word) : loadKey inKey i rs key r = key r := by
  induction rs generalizing i key with
  | nil => rfl
  | cons q rs ih =>
    rw [List.mem_cons, not_or] at h
    rw [loadKey, ih h.2, Function.update_of_ne h.1]

/-- What was in the registers before does not matter. -/
theorem map_loadKey_congr {inKey : Nat → Byte} {rs : List Nat} (hnd : rs.Nodup) (i : Nat)
    (key key' : Nat → Word) :
    rs.map (loadKey inKey i rs key) = rs.map (loadKey inKey i rs key') := by
  induction rs generalizing i key key' with
  | nil => rfl
  | cons r rs ih =>
    obtain ⟨hr, hrest⟩ := List.nodup_cons.mp hnd
    have hhead : loadKey inKey (i + 1) rs (Function.update key r (loadBe inKey (4 * i))) r =
        loadKey inKey (i + 1) rs (Function.update key' r (loadBe inKey (4 * i))) r := by
      rw [loadKey_of_notMem hr, loadKey_of_notMem hr, Function.update_self, Function.update_self]
    simp only [loadKey, List.map_cons]
    rw [hhead, ih hrest]

namespace CipherUnit

section

variable (words : Nat → List Nat)

/-- The words of the key that count. -/
def activeKey (u : CipherUnit) : List Word := (words u.sel).map u.key

/-- The output block and the next IV; mode 0 does without the IV. -/
def result (core : Nat → CipherCore) (u : CipherUnit) (block : List Word) : List Word × List Word :=
  if u.o = 0 then ((core u.sel).ecb (u.activeKey words) u.eD block, u.iv)
  else (core u.sel).chain (u.activeKey words) u.eD u.o u.iv block

/-- The write of the last input word starts the unit, if `SM` is set. -/
def start (core : Nat → CipherCore) (u : CipherUnit) (block : List Word) : CipherUnit :=
  if u.sm then
    let r := u.result words core block
    { u with od := r.1, iv := r.2 }
  else u

/-- Two units that are ready and have the same key. -/
structure SameKey (u u' : CipherUnit) : Prop where
  sm : u.sm = true
  sm' : u'.sm = true
  sel : u'.sel = u.sel
  key : u'.activeKey words = u.activeKey words

/-- Two units that are set up in the same way for the next block. -/
structure SameSetup (u u' : CipherUnit) : Prop extends SameKey words u u' where
  eD : u'.eD = u.eD
  o : u'.o = u.o
  iv : u.o ≠ 0 → u'.iv = u.iv

theorem start_key (core : Nat → CipherCore) (u : CipherUnit) (block : List Word) :
    (u.start words core block).sm = u.sm ∧ (u.start words core block).sel = u.sel ∧
      (u.start words core block).key = u.key := by
  unfold CipherUnit.start
  split
  · exact ⟨rfl, rfl, rfl⟩
  · exact ⟨rfl, rfl, rfl⟩

variable {words}

theorem SameSetup.result {u u' : CipherUnit} (h : SameSetup words u u') (core : Nat → CipherCore)
    (block : List Word) :
    (u'.result words core block).1 = (u.result words core block).1 ∧
      (u.o ≠ 0 → (u'.result words core block).2 = (u.result words core block).2) := by
  unfold CipherUnit.result
  rw [h.o, h.sel, h.key, h.eD]
  by_cases ho : u.o = 0
  · rw [if_pos ho, if_pos ho]
    exact ⟨rfl, fun hne => absurd ho hne⟩
  · rw [if_neg ho, if_neg ho, h.iv ho]
    exact ⟨rfl, fun _ => rfl⟩

theorem SameSetup.start {u u' : CipherUnit} (h : SameSetup words u u') (core : Nat → CipherCore)
    (block : List Word) :
    SameSetup words (u.start words core block) (u'.start words core block) ∧
      (u'.start words core block).od = (u.start words core block).od := by
  obtain ⟨hout, hiv⟩ := h.result core block
  unfold CipherUnit.start
  rw [if_pos h.sm, if_pos h.sm']
  exact ⟨⟨⟨h.sm, h.sm', h.sel, h.key⟩, h.eD, h.o, hiv⟩, hout⟩

/-- Only the key and the selection count for `SameKey`. -/
theorem SameKey.congr {u u' v v' : CipherUnit} (h : SameKey words u u')
    (hv : v.sm = u.sm ∧ v.sel = u.sel ∧ v.key = u.key)
    (hv' : v'.sm = u'.sm ∧ v'.sel = u'.sel ∧ v'.key = u'.key) : SameKey words v v' := by
  obtain ⟨hsm, hsel, hkey⟩ := hv
  obtain ⟨hsm', hsel', hkey'⟩ := hv'
  refine ⟨by rw [hsm, h.sm], by rw [hsm', h.sm'], by rw [hsel, hsel', h.sel], ?_⟩
  have hk := h.key
  unfold activeKey at hk ⊢
  rw [hsel, hkey, hsel', hkey', hk]

end

end CipherUnit

end DanubeBsp
