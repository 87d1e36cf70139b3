import Mathlib.Data.List.TakeWhile
import DanubeBsp.AmazonImage

namespace DanubeBsp

@[simp] theorem int32str_length (n : Nat) : (int32str n).length = 4 := rfl

@[simp] theorem headPart4CheckMd5_length (md5 : Md5Sum) (headId : List Byte) (length : Nat)
    (imageMd5 : Fin 16 → Byte) (secret : List Byte) :
    (headPart4CheckMd5 md5 headId length imageMd5 secret).length = 8 := by
  rw [headPart4CheckMd5, List.length_ofFn]

theorem shiftLeft_or_byte (x : Nat) (b : Byte) : x <<< 8 ||| b.toNat = x * 256 + b.toNat := by
  rw [← Nat.shiftLeft_add_eq_or_of_lt b.isLt, Nat.shiftLeft_eq]

theorem ordN_four (b₀ b₁ b₂ b₃ : Byte) : ordN [b₀, b₁, b₂, b₃] 4 =
    some (((b₀.toNat * 256 + b₁.toNat) * 256 + b₂.toNat) * 256 + b₃.toNat) := by
  simp only [ordN, List.take, List.foldl, shiftLeft_or_byte]

theorem ordN_take (stream : List Byte) (n : Nat) : ordN (stream.take n) n = ordN stream n := by
  rw [ordN, ordN, List.take_take, Nat.min_self]

/-- Four bytes are the number exactly if the number is written as these bytes. -/
theorem ordN_four_iff {bs : List Byte} (hlen : bs.length = 4) (n : Nat) :
    ordN bs 4 = some n ↔ n < 2 ^ 32 ∧ bs = int32str n := by
  match bs, hlen with
  | [b₀, b₁, b₂, b₃], _ =>
    have h₀ := b₀.isLt
    have h₁ := b₁.isLt
    have h₂ := b₂.isLt
    have h₃ := b₃.isLt
    rw [ordN_four, Option.some.injEq]
    simp only [int32str, List.cons.injEq, and_true, ← BitVec.toNat_inj, BitVec.toNat_ofNat,
      Nat.shiftRight_eq_div_pow]
    omega

/-- The first sixteen bytes of a file are its vendor id, its length field and its checksum. -/
theorem take_sixteen (data : List Byte) :
    data.take 16 = data.take 4 ++ ((data.drop 4).take 4 ++ (data.drop 8).take 8) := by
  have hinner : (data.drop 4).take 12 = (data.drop 4).take 4 ++ (data.drop 8).take 8 := by
    rw [show (12 : Nat) = 4 + 8 from rfl, List.take_add, List.drop_drop]
  rw [show (16 : Nat) = 4 + 12 from rfl, List.take_add, hinner]

theorem vendor_and_length_length {data : List Byte} (hlen : 8 ≤ data.length) :
    (data.take 4).length = 4 ∧ ((data.drop 4).take 4).length = 4 := by
  rw [List.length_take, List.length_take, List.length_drop]
  omega

theorem take_sixteen_iff {data a b c : List Byte} (hlen : 16 ≤ data.length) (ha : a.length = 4)
    (hb : b.length = 4) :
    data.take 16 = a ++ (b ++ c) ↔
      data.take 4 = a ∧ (data.drop 4).take 4 = b ∧ (data.drop 8).take 8 = c := by
  obtain ⟨hid, hfour⟩ := vendor_and_length_length (show 8 ≤ data.length by omega)
  rw [take_sixteen]
  constructor
  · intro h
    obtain ⟨h₁, h⟩ := List.append_inj h (hid.trans ha.symm)
    obtain ⟨h₂, h₃⟩ := List.append_inj h (hfour.trans hb.symm)
    exact ⟨h₁, h₂, h₃⟩
  · rintro ⟨h₁, h₂, h₃⟩
    rw [h₁, h₂, h₃]

theorem amazonHeader_eq (md5 : Md5Sum) (headId secret part : List Byte) :
    amazonHeader md5 headId secret part = (headId.take 4 ++ (int32str part.length ++
      headPart4CheckMd5 md5 (headId.take 4) part.length (md5 part) secret)) ++
      (List.ofFn (md5 part) ++ List.replicate 32 0) := by
  simp only [amazonHeader, List.append_assoc]

theorem amazonHeader_length {headId : List Byte} (hid : 4 ≤ headId.length) (md5 : Md5Sum)
    (secret part : List Byte) : (amazonHeader md5 headId secret part).length = headSize := by
  simp only [amazonHeader, List.length_append, List.length_take, int32str_length,
    headPart4CheckMd5_length, List.length_ofFn, List.length_replicate, headSize]
  omega

/-- The checked part of the header. -/
theorem amazonHeader_take {headId : List Byte} (hid : 4 ≤ headId.length) (md5 : Md5Sum)
    (secret part : List Byte) :
    (amazonHeader md5 headId secret part).take 16 = headId.take 4 ++ (int32str part.length ++
      headPart4CheckMd5 md5 (headId.take 4) part.length (md5 part) secret) := by
  rw [amazonHeader_eq]
  refine List.take_left' ?_
  simp only [List.length_append, List.length_take, int32str_length, headPart4CheckMd5_length]
  omega

theorem displayAmazonImage_eq_some {md5 : Md5Sum} {tar : TarLib} {data secret : List Byte}
    {report : ImageReport} :
    displayAmazonImage md5 tar data secret = some report ↔
      ∃ n ms, 32 ≤ data.length ∧ ordN (data.drop 4) 4 = some n ∧
        tar.members (data.drop headSize) = some ms ∧ report =
          { vendor := data.take 4
            burnLength := n
            checksum := (data.drop 8).take 8
            imageMd5 := (data.drop 16).take 16
            lengthError := (n : Int) ≠ (data.length : Int) - headSize
            checksumError := headPart4CheckMd5 md5 (data.take 4) n (md5 (data.drop headSize)) secret ≠
              (data.drop 8).take 8
            images := (ms.filter (·.isFile)).map fun m => (m.name, m.data.length) } := by
  simp only [displayAmazonImage, hexN, List.length_drop, Option.bind_eq_bind, Option.bind_eq_some_iff,
    Option.ite_none_right_eq_some, Option.some.injEq, Option.pure_def]
  constructor
  · rintro ⟨_, ⟨h₁, rfl⟩, n, hn, _, ⟨h₂, rfl⟩, _, ⟨h₃, rfl⟩, ms, hms, rfl⟩
    exact ⟨n, ms, by omega, hn, hms, rfl⟩
  · rintro ⟨n, ms, hlen, hn, hms, rfl⟩
    exact ⟨_, ⟨by omega, rfl⟩, n, hn, _, ⟨by omega, rfl⟩, _, ⟨by omega, rfl⟩, ms, hms, rfl⟩

/-- No error is reported exactly if the tar part can be read and the vendor id, the length and the
checksum are those of its header. The stored sum of the tar part and the padding are not looked at. -/
theorem noErrors_iff (md5 : Md5Sum) (tar : TarLib) (data secret : List Byte) :
    NoErrors md5 tar data secret ↔
      headSize ≤ data.length ∧ data.length - headSize < 2 ^ 32 ∧
        (tar.members (data.drop headSize)).isSome ∧
        data.take 16 =
          (amazonHeader md5 (data.take 4) secret (data.drop headSize)).take 16 := by
  have hhead : headSize = 64 := rfl
  have hpart : (data.drop headSize).length = data.length - headSize := List.length_drop
  constructor
  · rintro ⟨report, hreport, hlenOk, hsumOk⟩
    obtain ⟨n, ms, h32, hn, hms, rfl⟩ := displayAmazonImage_eq_some.mp hreport
    have hsize : (n : Int) = (data.length : Int) - headSize := by simpa using hlenOk
    have hsum : headPart4CheckMd5 md5 (data.take 4) n (md5 (data.drop headSize)) secret =
        (data.drop 8).take 8 := by simpa using hsumOk
    obtain ⟨hid, hfour⟩ := vendor_and_length_length (show 8 ≤ data.length by omega)
    rw [← ordN_take, ordN_four_iff hfour] at hn
    obtain ⟨hlt, hbytes⟩ := hn
    have hlen : n = (data.drop headSize).length := by omega
    refine ⟨by omega, by omega, by rw [hms]; rfl, ?_⟩
    rw [amazonHeader_take hid.ge, List.take_of_length_le hid.le, ← hlen,
      take_sixteen_iff (by omega) hid (int32str_length n)]
    exact ⟨rfl, hbytes, hsum.symm⟩
  · rintro ⟨hmin, hmax, hms, hsixteen⟩
    obtain ⟨ms, hms⟩ := Option.isSome_iff_exists.mp hms
    obtain ⟨hid, hfour⟩ := vendor_and_length_length (show 8 ≤ data.length by omega)
    rw [amazonHeader_take hid.ge, List.take_of_length_le hid.le,
      take_sixteen_iff (by omega) hid (int32str_length _)] at hsixteen
    obtain ⟨-, hbytes, hsum⟩ := hsixteen
    have hn : ordN (data.drop 4) 4 = some (data.drop headSize).length := by
      rw [← ordN_take, ordN_four_iff hfour]
      exact ⟨by omega, hbytes⟩
    refine ⟨_, displayAmazonImage_eq_some.mpr ⟨_, ms, by omega, hn, hms, rfl⟩, ?_, ?_⟩
    · have hsize : ((data.drop headSize).length : Int) = (data.length : Int) - headSize := by omega
      simpa using hsize
    · simpa using hsum.symm

/-! The sub-images come back under their names. -/

theorem slash_not_mem_tail (p : List Byte) : slash ∉ (pathSplit p).2 := by
  intro hmem
  have htake := List.mem_takeWhile_imp (List.mem_reverse.mp hmem)
  simp at htake

theorem pathSplit_append {dir name : List Byte} (hdir : slash ∉ dir) (hne : dir ≠ [])
    (hname : slash ∉ name) : pathSplit (dir ++ slash :: name) = (dir, name) := by
  have htail : ((dir ++ slash :: name).reverse.takeWhile (· ≠ slash)).reverse = name := by
    have hpos : ∀ b ∈ name.reverse, decide (b ≠ slash) = true := by
      intro b hb
      have hne : b ≠ slash := fun heq => hname (heq ▸ List.mem_reverse.mp hb)
      exact decide_eq_true hne
    rw [List.reverse_append, List.reverse_cons, List.append_assoc, List.singleton_append,
      List.takeWhile_append_of_pos hpos, List.takeWhile_cons_of_neg (by simp), List.append_nil,
      List.reverse_reverse]
  have hhead : (dir ++ slash :: name).take ((dir ++ slash :: name).length - name.length) =
      dir ++ [slash] := by
    have happend : dir ++ slash :: name = (dir ++ [slash]) ++ name := by simp
    rw [happend]
    refine List.take_left' ?_
    simp only [List.length_append, List.length_cons, List.length_nil]
    omega
  have hall : ¬ (dir ++ [slash]).all (· = slash) = true := by
    obtain ⟨b, bs, rfl⟩ := List.exists_cons_of_ne_nil hne
    intro hall
    have hb := List.all_eq_true.mp hall b (by simp)
    exact hdir (by simp [of_decide_eq_true hb])
  have hdrop : (dir.reverse.dropWhile (· = slash)).reverse = dir := by
    rw [List.dropWhile_eq_self_iff.mpr, List.reverse_reverse]
    intro hpos heq
    have hmem := List.getElem_mem hpos
    rw [of_decide_eq_true heq] at hmem
    exact hdir (List.mem_reverse.mp hmem)
  unfold pathSplit
  dsimp only
  rw [htail, hhead, if_neg hall, List.reverse_append, List.reverse_singleton, List.singleton_append,
    List.dropWhile_cons_of_pos (by simp), hdrop]

theorem Partition.dir_split : ∀ key : Partition, slash ∉ key.dir ∧ key.dir ≠ [] := by
  intro key
  cases key <;> decide

theorem Partition.find_dir (key : Partition) :
    amazonImageDefaultPath.find? (fun k => k.dir = key.dir) = some key := by
  cases key <;> decide

theorem Partition.mem_default (key : Partition) : key ∈ amazonImageDefaultPath := by
  cases key <;> decide

theorem getImage_file (imgDict : ImageDict) (key : Partition) (path data : List Byte) :
    getImage imgDict ⟨key.dir ++ slash :: (pathSplit path).2, true, data⟩ =
      Function.update imgDict key (some ((pathSplit path).2, data)) := by
  have hsplit := pathSplit_append key.dir_split.1 key.dir_split.2 (slash_not_mem_tail path)
  simp only [getImage, if_true, hsplit, key.find_dir]

theorem addImages_images {files : Files} {setting : Setting} {keys : List Partition}
    {ms : List (List Byte × List Byte)} (h : addImages files setting keys = some ms)
    (imgDict : ImageDict) (key : Partition) :
    (fileMembers ms).foldl getImage imgDict key =
      (if key ∈ keys then givenImages files setting key else none).or (imgDict key) := by
  induction keys generalizing ms imgDict with
  | nil =>
    cases Option.some.inj h
    rfl
  | cons k keys ih =>
    have hskip (hnone : givenImages files setting k = none)
        (h : addImages files setting keys = some ms) :
        (fileMembers ms).foldl getImage imgDict key =
          (if key ∈ k :: keys then givenImages files setting key else none).or (imgDict key) := by
      rw [ih h]
      by_cases hk : key = k
      · simp [hk, hnone]
      · simp [hk]
    unfold addImages at h
    split at h
    next hset => exact hskip (by simp [givenImages, hset]) h
    next hset => exact hskip (by simp [givenImages, hset]) h
    next c cs hset =>
      obtain ⟨data, hdata, h⟩ := Option.bind_eq_some_iff.mp h
      obtain ⟨rest, hrest, h⟩ := Option.bind_eq_some_iff.mp h
      cases Option.some.inj h
      have hgiven : givenImages files setting k = some ((pathSplit (c :: cs)).2, data) := by
        simp [givenImages, hset, hdata]
      rw [fileMembers, List.map_cons, List.foldl_cons, getImage_file]
      refine (ih hrest _).trans ?_
      by_cases hk : key = k
      · subst hk
        split <;> simp [hgiven]
      · simp [hk]

theorem addImages_isSome {files : Files} {setting : Setting}
    (hfiles : ∀ key path, setting key = some path → path ≠ [] → (files path).isSome)
    (keys : List Partition) : ∃ ms, addImages files setting keys = some ms := by
  induction keys with
  | nil => exact ⟨[], rfl⟩
  | cons k keys ih =>
    obtain ⟨ms, hms⟩ := ih
    unfold addImages
    split
    next => exact ⟨ms, hms⟩
    next => exact ⟨ms, hms⟩
    next c cs hset =>
      obtain ⟨data, hdata⟩ := Option.isSome_iff_exists.mp (hfiles k (c :: cs) hset (by simp))
      exact ⟨_, by rw [hdata, hms]; rfl⟩

theorem vendorOf_length {a headId : List Byte} (h : vendorOf a = some headId)
    (ha : hexPrefixed a = true ∨ 4 ≤ a.length) : 4 ≤ headId.length := by
  unfold vendorOf at h
  split at h
  next =>
    obtain ⟨n, -, rfl⟩ := Option.map_eq_some_iff.mp h
    exact (int32str_length n).ge
  next hhex =>
    cases Option.some.inj h
    exact ha.resolve_left hhex

theorem imageArgs_vendor_length {opts : List ImageOpt} {st st' : ImageArgs}
    (h : opts.foldlM ImageArgs.add st = some st') (hst : 4 ≤ st.vendorId.length)
    (hopts : ∀ a, .vendor a ∈ opts → hexPrefixed a = true ∨ 4 ≤ a.length) :
    4 ≤ st'.vendorId.length := by
  induction opts generalizing st with
  | nil =>
    cases Option.some.inj h
    exact hst
  | cons o opts ih =>
    rw [List.foldlM_cons] at h
    obtain ⟨u, hu, h⟩ := Option.bind_eq_some_iff.mp h
    refine ih h ?_ (fun a ha => hopts a (List.mem_cons_of_mem o ha))
    cases o with
    | image key path =>
      cases Option.some.inj hu
      exact hst
    | secret word =>
      cases Option.some.inj hu
      exact hst
    | tar output =>
      cases Option.some.inj hu
      exact hst
    | vendor header =>
      obtain ⟨headId, hid, rfl⟩ := Option.map_eq_some_iff.mp hu
      exact vendorOf_length hid (hopts header List.mem_cons_self)

section Written

variable {md5 : Md5Sum} {tar : TarLib} {headId secret part : List Byte} (hid : 4 ≤ headId.length)

include hid in
/-- Of the header only the first sixteen bytes matter. -/
theorem noErrors_of_take {header : List Byte} (hhead : header.length = headSize)
    (htake : header.take 16 = (amazonHeader md5 headId secret part).take 16)
    (hlen : part.length < 2 ^ 32) (hread : (tar.members part).isSome) :
    NoErrors md5 tar (header ++ part) secret := by
  have hsize : headSize = 64 := rfl
  have hsixteen : (header ++ part).take 16 = header.take 16 :=
    List.take_append_of_le_length (by omega)
  have hfour : (header ++ part).take 4 = headId.take 4 := by
    have hid4 : (headId.take 4).length = 4 := by
      rw [List.length_take]
      omega
    rw [amazonHeader_take hid, ← hsixteen] at htake
    have hleft := congrArg (List.take 4) htake
    rwa [List.take_take, List.take_left' hid4] at hleft
  rw [noErrors_iff, List.drop_left' hhead, hfour, List.length_append, hhead, hsixteen, htake,
    amazonHeader_take hid, amazonHeader_take (by rw [List.length_take]; omega), List.take_take,
    Nat.min_self]
  exact ⟨by omega, by omega, hread, rfl⟩

end Written

theorem runAmazonImage_created {md5 : Md5Sum} {tar : TarLib} {files : Files} {opts : List ImageOpt}
    {imagefile : List Byte} {st : ImageArgs} {ms : List (List Byte × List Byte)}
    (hargs : imageArgs opts = some st) (hftar : st.ftar = []) (key : Partition)
    (hkey : (st.images key).isSome)
    (hms : addImages files st.images amazonImageDefaultPath = some ms) :
    runAmazonImage md5 tar files opts [imagefile] =
      .created (some (amazonHeader md5 st.vendorId st.secret (tar.create ms) ++ tar.create ms)) := by
  have hany : (amazonImageDefaultPath.any fun key => (st.images key).isSome) = true :=
    List.any_eq_true.mpr ⟨key, key.mem_default, hkey⟩
  have himage : amazonImage md5 tar files st.vendorId st.secret st.images =
      some (amazonHeader md5 st.vendorId st.secret (tar.create ms) ++ tar.create ms) := by
    simp [amazonImage, hany, hms]
  simp only [runAmazonImage, hargs, hany, if_true, hftar, ne_eq, not_true_eq_false, if_false, himage]

theorem givenImages_isSome {files : Files} {setting : Setting} {key : Partition}
    (h : (givenImages files setting key).isSome) : (setting key).isSome := by
  cases hset : setting key with
  | none => simp [givenImages, hset] at h
  | some path => rfl

theorem amazonImage_agree (md5 : Md5Sum) (tar : TarLib) :
    (∀ (files : Files) (opts : List ImageOpt) (imagefile : List Byte) (st : ImageArgs),
      imageArgs opts = some st → st.ftar = [] →
      (∃ key, (givenImages files st.images key).isSome) →
      (∀ key path, st.images key = some path → path ≠ [] → (files path).isSome) →
      (∀ a, .vendor a ∈ opts → hexPrefixed a = true ∨ 4 ≤ a.length) →
      (∀ ms, addImages files st.images amazonImageDefaultPath = some ms →
        tar.members (tar.create ms) = some (fileMembers ms) ∧ (tar.create ms).length < 2 ^ 32) →
      ∃ header part, header.length = headSize ∧
        runAmazonImage md5 tar files opts [imagefile] = .created (some (header ++ part)) ∧
        NoErrors md5 tar (header ++ part) st.secret ∧
        getImages tar (header ++ part) (fun _ => none) = some (givenImages files st.images)) ∧
    ∀ data secret, NoErrors md5 tar data secret ↔
      headSize ≤ data.length ∧ data.length - headSize < 2 ^ 32 ∧
        (tar.members (data.drop headSize)).isSome ∧
        data.take 16 = (amazonHeader md5 (data.take 4) secret (data.drop headSize)).take 16 := by
  refine ⟨?_, noErrors_iff md5 tar⟩
  rintro files opts imagefile st hargs hftar ⟨key, hkey⟩ hfiles hvendor htar
  obtain ⟨ms, hms⟩ := addImages_isSome hfiles amazonImageDefaultPath
  obtain ⟨hround, hlen⟩ := htar ms hms
  have hid : 4 ≤ st.vendorId.length := imageArgs_vendor_length hargs (by decide) hvendor
  have hhead := amazonHeader_length hid md5 st.secret (tar.create ms)
  refine ⟨_, tar.create ms, hhead, runAmazonImage_created hargs hftar key (givenImages_isSome hkey) hms,
    noErrors_of_take hid hhead rfl hlen (by rw [hround]; rfl), ?_⟩
  rw [getImages, List.drop_left' hhead, hround, Option.map_some, Option.some.injEq]
  funext k
  rw [addImages_images hms, if_pos k.mem_default, Option.or_none]

/-- A field of a tar header block, filled up with zeros. -/
def tarField (cs : List Char) (n : Nat) : List Byte := pyStr cs ++ List.replicate (n - cs.length) 0

theorem tarField_length {cs : List Char} {n : Nat} (h : cs.length ≤ n) :
    (tarField cs n).length = n := by
  rw [tarField, List.length_append, pyStr, List.length_map, List.length_replicate]
  omega

/-- The archive with the file `kernel/k` of four bytes. -/
def kernelTar : List Byte :=
  tarField ['k', 'e', 'r', 'n', 'e', 'l', '/', 'k'] 100 ++
  tarField ['0', '0', '0', '0', '6', '4', '4'] 8 ++
  tarField ['0', '0', '0', '0', '0', '0', '0'] 8 ++ tarField ['0', '0', '0', '0', '0', '0', '0'] 8 ++
  tarField ['0', '0', '0', '0', '0', '0', '0', '0', '0', '0', '4'] 12 ++
  tarField ['0', '0', '0', '0', '0', '0', '0', '0', '0', '0', '0'] 12 ++
  tarField ['0', '1', '2', '4', '4', '4'] 7 ++ pyStr [' ', '0'] ++ tarField [] 100 ++
  tarField ['u', 's', 't', 'a', 'r'] 6 ++ pyStr ['0', '0'] ++
  tarField ['r', 'o', 'o', 't'] 32 ++ tarField ['r', 'o', 'o', 't'] 32 ++
  tarField ['0', '0', '0', '0', '0', '0', '0'] 8 ++ tarField ['0', '0', '0', '0', '0', '0', '0'] 8 ++
  tarField [] 167 ++ [0x27, 0x05, 0x19, 0x56] ++ List.replicate 9724 0

/-- The library on this archive. -/
def kernelTarLib : TarLib where
  create := fun _ => kernelTar
  members := fun bytes => if bytes = kernelTar then
    some [⟨pyStr ['k', 'e', 'r', 'n', 'e', 'l', '/', 'k'], true, [0x27, 0x05, 0x19, 0x56]⟩] else none

/-- The sums of this archive and of the header of its image. -/
def kernelMd5 : Md5Sum := fun msg i =>
  (if msg = kernelTar then
    [0x70, 0x29, 0x35, 0xf0, 0x2d, 0x4e, 0x00, 0x71, 0x5c, 0x8e, 0xca, 0x64, 0x72, 0x3c, 0xab, 0x64]
  else
    [0xc8, 0xec, 0x91, 0x46, 0xb2, 0xfb, 0xff, 0xde, 0x3d, 0x45, 0x4b, 0x17, 0xc2, 0x89, 0x89, 0xa7] : List Byte).getD i 0

theorem kernelTar_length : kernelTar.length = 10240 := by
  unfold kernelTar
  simp (disch := decide) only [List.length_append, tarField_length, List.length_replicate]
  rfl

theorem kernelTarLib_members : kernelTarLib.members kernelTar =
    some [⟨pyStr ['k', 'e', 'r', 'n', 'e', 'l', '/', 'k'], true, [0x27, 0x05, 0x19, 0x56]⟩] := by
  dsimp only [kernelTarLib]
  rw [if_pos (Eq.refl kernelTar)]

theorem amazonImage_agree_kernel :
    ∃ header part, header.length = headSize ∧
      runAmazonImage kernelMd5 kernelTarLib (fun _ => some [0x27, 0x05, 0x19, 0x56])
        [.vendor (pyStr ['0', 'x', '1', '2', '3', '4', '5', '6', '7', '8']),
          .image .kernel (pyStr ['b', '/', 'k'])] [pyStr ['o']] = .created (some (header ++ part)) ∧
      NoErrors kernelMd5 kernelTarLib (header ++ part) [] ∧
      getImages kernelTarLib (header ++ part) (fun _ => none) =
        some (givenImages (fun _ => some [0x27, 0x05, 0x19, 0x56])
          (Function.update (fun _ => none) .kernel (some (pyStr ['b', '/', 'k'])))) := by
  refine (amazonImage_agree kernelMd5 kernelTarLib).1 _ _ _
    ⟨[], [], [0x12, 0x34, 0x56, 0x78], Function.update (fun _ => none) .kernel
      (some (pyStr ['b', '/', 'k']))⟩ rfl rfl ⟨.kernel, rfl⟩ (fun _ _ _ _ => rfl) ?_ ?_
  · intro a ha
    rcases List.mem_cons.mp ha with hvendor | himage
    · rw [ImageOpt.vendor.inj hvendor]
      exact .inl (by decide)
    · cases List.mem_singleton.mp himage
  · intro ms hms
    have hone : addImages (fun _ => some [0x27, 0x05, 0x19, 0x56])
        (Function.update (fun _ => none) .kernel (some (pyStr ['b', '/', 'k'])))
        amazonImageDefaultPath =
        some [(pyStr ['k', 'e', 'r', 'n', 'e', 'l', '/', 'k'], [0x27, 0x05, 0x19, 0x56])] := by
      decide +kernel
    cases Option.some.inj (hone.symm.trans hms)
    refine ⟨kernelTarLib_members, ?_⟩
    exact kernelTar_length.trans_lt (by decide)

/-- With a vendor id of two characters the length field is read two bytes too far. -/
theorem short_vendor_error (md5 : Md5Sum) (tar : TarLib) (secret : List Byte) {part : List Byte}
    (hlen : part.length = 10240) :
    ¬ NoErrors md5 tar (amazonHeader md5 (pyStr ['A', 'B']) secret part ++ part) secret := by
  intro h
  have hbody : ∃ rest, amazonHeader md5 (pyStr ['A', 'B']) secret part ++ part =
      pyStr ['A', 'B'] ++ (int32str 10240 ++ rest) := by
    simp only [amazonHeader, hlen, List.append_assoc]
    exact ⟨_, rfl⟩
  have hsize : (amazonHeader md5 (pyStr ['A', 'B']) secret part ++ part).length = 10302 := by
    simp [amazonHeader, pyStr, hlen]
  obtain ⟨rest, hbody⟩ := hbody
  rw [noErrors_iff, hbody] at h
  rw [hbody] at hsize
  have hsixteen := h.2.2.2
  have hid : (pyStr ['A', 'B'] ++ (int32str 10240 ++ rest)).take 4 =
      pyStr ['A', 'B'] ++ [0x00, 0x00] := rfl
  rw [hid, amazonHeader_take (by decide), List.length_drop, hsize] at hsixteen
  -- the fifth byte belongs to the length in both, but not at the same place of it
  have hfifth := congrArg (fun l : List Byte => l[4]?) hsixteen
  have hleft : (List.take 16 (pyStr ['A', 'B'] ++ (int32str 10240 ++ rest)))[4]? = some 0x28 := rfl
  have hzero : some 0x28 = some (0x00 : Byte) := hleft.symm.trans hfifth
  exact absurd hzero (by decide)

/-- A header with a changed last byte passes as well. -/
theorem changed_padding_noErrors {md5 : Md5Sum} {tar : TarLib} {headId secret part : List Byte}
    (hid : 4 ≤ headId.length) (hlen : part.length < 2 ^ 32) (hread : (tar.members part).isSome) :
    NoErrors md5 tar (((amazonHeader md5 headId secret part).take 63 ++ [1]) ++ part) secret := by
  have hhead := amazonHeader_length hid md5 secret part
  have hsize : headSize = 64 := rfl
  refine noErrors_of_take hid ?_ ?_ hlen hread
  · rw [List.length_append, List.length_take, hhead]
    rfl
  · rw [List.take_append_of_le_length (by rw [List.length_take]; omega), List.take_take]
    rfl

theorem changed_padding_ne {md5 : Md5Sum} {headId secret part : List Byte} (hid : 4 ≤ headId.length)
    (headId' secret' part' : List Byte) :
    (((amazonHeader md5 headId secret part).take 63 ++ [1]) ++ part).take headSize ≠
      amazonHeader md5 headId' secret' part' := by
  have hhead := amazonHeader_length hid md5 secret part
  have hlen : ((amazonHeader md5 headId secret part).take 63 ++ [1]).length = headSize := by
    rw [List.length_append, List.length_take, hhead]
    rfl
  rw [List.take_left' hlen]
  intro heq
  have hlast := congrArg List.getLast? heq
  have hzero : (amazonHeader md5 headId' secret' part').getLast? = some 0 := by
    rw [amazonHeader, List.getLast?_append]
    rfl
  rw [hzero, List.getLast?_append] at hlast
  cases hlast

/-- Whatever the sums are, a vendor id of two characters makes an image with errors, and an image can
be without errors and not have the header of its tar part. -/
theorem amazonImage_disagree :
    ¬ ∃ (md5 : Md5Sum) (tar : TarLib),
      tar.members (tar.create [(pyStr ['k', 'e', 'r', 'n', 'e', 'l', '/', 'k'], [])]) =
        some (fileMembers [(pyStr ['k', 'e', 'r', 'n', 'e', 'l', '/', 'k'], [])]) ∧
      (tar.create [(pyStr ['k', 'e', 'r', 'n', 'e', 'l', '/', 'k'], [])]).length = 10240 ∧
      ((∀ file, runAmazonImage md5 tar (fun _ => some [])
          [.vendor (pyStr ['A', 'B']), .image .kernel (pyStr ['k'])] [pyStr ['o']] =
            .created (some file) → NoErrors md5 tar file []) ∨
        ∀ data, NoErrors md5 tar data [] →
          data.take headSize = amazonHeader md5 (data.take 4) [] (data.drop headSize)) := by
  rintro ⟨md5, tar, hround, hlen, hforward | hconverse⟩
  · have hms : addImages (fun _ => some []) (Function.update (fun _ => none) .kernel
        (some (pyStr ['k']))) amazonImageDefaultPath =
        some [(pyStr ['k', 'e', 'r', 'n', 'e', 'l', '/', 'k'], [])] := by
      decide +kernel
    have hargs : imageArgs [.vendor (pyStr ['A', 'B']), .image .kernel (pyStr ['k'])] =
        some ⟨[], [], pyStr ['A', 'B'],
          Function.update (fun _ => none) .kernel (some (pyStr ['k']))⟩ := rfl
    exact short_vendor_error md5 tar [] hlen
      (hforward _ (runAmazonImage_created hargs rfl .kernel rfl hms))
  · have hread : (tar.members
        (tar.create [(pyStr ['k', 'e', 'r', 'n', 'e', 'l', '/', 'k'], [])])).isSome := by
      rw [hround]
      rfl
    have hid : 4 ≤ (pyStr ['A', 'M', 'Z', 'N']).length := by decide
    exact changed_padding_ne hid _ _ _
      (hconverse _ (changed_padding_noErrors hid (hlen.trans_lt (by decide)) hread))

end DanubeBsp
