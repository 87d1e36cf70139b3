import DanubeBsp.ByteOrder

namespace DanubeBsp

/-- A byte string with the codes of the characters. -/
def pyStr (cs : List Char) : List Byte := cs.map fun c => BitVec.ofNat 8 c.toNat

/-- `AmazonImageDefaultPath`: the directories of the burning images. -/
inductive Partition
  | loader
  | bootconf
  | kernel
  | rootfs
  | firmware
  | userapp
  deriving DecidableEq

def Partition.dir : Partition → List Byte
  | .loader => pyStr ['l', 'o', 'a', 'd', 'e', 'r']
  | .bootconf => pyStr ['b', 'o', 'o', 't', 'c', 'o', 'n', 'f']
  | .kernel => pyStr ['k', 'e', 'r', 'n', 'e', 'l']
  | .rootfs => pyStr ['r', 'o', 'o', 't', 'f', 's']
  | .firmware => pyStr ['f', 'i', 'r', 'm', 'w', 'a', 'r', 'e']
  | .userapp => pyStr ['u', 's', 'e', 'r', 'a', 'p', 'p']

def amazonImageDefaultPath : List Partition :=
  [.loader, .bootconf, .kernel, .rootfs, .firmware, .userapp]

def headSize : Nat := 64

/-- `none` is the exception of `reduce` on an empty sequence. -/
def ordN (stream : List Byte) (n : Nat) : Option Nat :=
  match stream.take n with
  | [] => none
  | b :: bs => some (bs.foldl (fun x y => x <<< 8 ||| y.toNat) b.toNat)

/-- The bytes that are shown; too few of them for the format are an exception. -/
def hexN (stream : List Byte) (n : Nat) : Option (List Byte) :=
  if n ≤ stream.length then some (stream.take n) else none

def int32str (integer : Nat) : List Byte :=
  [BitVec.ofNat 8 (integer >>> 24), BitVec.ofNat 8 (integer >>> 16), BitVec.ofNat 8 (integer >>> 8),
    BitVec.ofNat 8 integer]

abbrev Md5Sum := List Byte → Fin 16 → Byte

def headPart4CheckMd5 (md5 : Md5Sum) (headId : List Byte) (length : Nat) (imageMd5 : Fin 16 → Byte)
    (secret : List Byte) : List Byte :=
  let h := headId ++ int32str length ++ List.replicate 8 0 ++ List.ofFn imageMd5 ++
    List.replicate 32 0 ++ secret
  List.ofFn fun i : Fin 8 => md5 h ⟨i, by omega⟩ ^^^ md5 h ⟨i + 8, by omega⟩

/-- A member of an archive. -/
structure TarMember where
  name : List Byte
  isFile : Bool
  data : List Byte
  deriving DecidableEq

/-- The tar library: the archive with the given files, and the members of an archive, or `none` for an
exception. -/
structure TarLib where
  create : List (List Byte × List Byte) → List Byte
  members : List Byte → Option (List TarMember)

/-- The files as the members of an archive. -/
def fileMembers (ms : List (List Byte × List Byte)) : List TarMember :=
  ms.map fun m => ⟨m.1, true, m.2⟩

def slash : Byte := BitVec.ofNat 8 '/'.toNat

/-- `os.path.split`: the slashes at the end of the directory are removed unless it has nothing else. -/
def pathSplit (p : List Byte) : List Byte × List Byte :=
  let tail := (p.reverse.takeWhile (· ≠ slash)).reverse
  let head := p.take (p.length - tail.length)
  (if head.all (· = slash) then head else (head.reverse.dropWhile (· = slash)).reverse, tail)

/-- What `DisplayAmazonImage` prints. -/
structure ImageReport where
  vendor : List Byte
  burnLength : Nat
  lengthError : Bool
  checksum : List Byte
  imageMd5 : List Byte
  checksumError : Bool
  images : List (List Byte × Nat)

/-- `none` is an exception. -/
def displayAmazonImage (md5 : Md5Sum) (tar : TarLib) (data secret : List Byte) :
    Option ImageReport := do
  let vendor ← hexN data 4
  let burnLength ← ordN (data.drop 4) 4
  let checksum ← hexN (data.drop 8) 8
  let imageMd5 ← hexN (data.drop 16) 16
  let hc := headPart4CheckMd5 md5 (data.take 4) burnLength (md5 (data.drop headSize)) secret
  let members ← tar.members (data.drop headSize)
  return {
    vendor, burnLength, checksum, imageMd5
    lengthError := (burnLength : Int) ≠ (data.length : Int) - headSize
    checksumError := hc ≠ (data.drop 8).take 8
    images := (members.filter (·.isFile)).map fun m => (m.name, m.data.length) }

abbrev ImageDict := Partition → Option (List Byte × List Byte)

/-- The body of the loop of `GetImages`. -/
def getImage (imgDict : ImageDict) (m : TarMember) : ImageDict :=
  if m.isFile then
    let (path, fname) := pathSplit m.name
    match amazonImageDefaultPath.find? fun key => key.dir = path with
    | some key => Function.update imgDict key (some (fname, m.data))
    | none => imgDict
  else imgDict

def getImages (tar : TarLib) (data : List Byte) (imgDict : ImageDict) : Option ImageDict :=
  (tar.members (data.drop headSize)).map fun ms => ms.foldl getImage imgDict

/-- The regular files, by path. -/
abbrev Files := List Byte → Option (List Byte)

/-- The paths of the burning images, by partition. -/
abbrev Setting := Partition → Option (List Byte)

/-- The members that the loop of `AmazonImage` adds; a path without a file ends the call. -/
def addImages (files : Files) (setting : Setting) :
    List Partition → Option (List (List Byte × List Byte))
  | [] => some []
  | key :: keys =>
    match setting key with
    | none | some [] => addImages files setting keys
    | some (c :: cs) => do
      let data ← files (c :: cs)
      let ms ← addImages files setting keys
      return (key.dir ++ slash :: (pathSplit (c :: cs)).2, data) :: ms

def amazonHeader (md5 : Md5Sum) (headId secret part : List Byte) : List Byte :=
  headId.take 4 ++ int32str part.length ++
    headPart4CheckMd5 md5 (headId.take 4) part.length (md5 part) secret ++
    List.ofFn (md5 part) ++ List.replicate 32 0

/-- The contents of the file, or `none` if none is written. -/
def amazonImage (md5 : Md5Sum) (tar : TarLib) (files : Files) (headId secret : List Byte)
    (setting : Setting) : Option (List Byte) := do
  guard (amazonImageDefaultPath.any fun key => (setting key).isSome)
  let ms ← addImages files setting amazonImageDefaultPath
  return amazonHeader md5 headId secret (tar.create ms) ++ tar.create ms

/-- The options on the command line. -/
inductive ImageOpt
  | image (key : Partition) (path : List Byte)
  | secret (word : List Byte)
  | tar (output : List Byte)
  | vendor (header : List Byte)

structure ImageArgs where
  secret : List Byte
  ftar : List Byte
  vendorId : List Byte
  images : Setting

def hexDigit (c : Byte) : Option Nat :=
  let n := c.toNat
  if '0'.toNat ≤ n ∧ n ≤ '9'.toNat then some (n - '0'.toNat)
  else if 'a'.toNat ≤ n ∧ n ≤ 'f'.toNat then some (n - 'a'.toNat + 10)
  else if 'A'.toNat ≤ n ∧ n ≤ 'F'.toNat then some (n - 'A'.toNat + 10)
  else none

def isSpace (c : Byte) : Bool := c = 32 || (9 ≤ c.toNat && c.toNat ≤ 13)

/-- `string.atoi(a, 16)` behind the prefix: white space at the end is dropped, and anything else than
digits is an exception. -/
def atoi16 (digits : List Byte) : Option Nat := do
  let digits := (digits.reverse.dropWhile isSpace).reverse
  guard (digits ≠ [])
  digits.foldlM (fun n c => (hexDigit c).map (n * 16 + ·)) 0

def hexPrefixed (a : List Byte) : Bool := a.take 2 = pyStr ['0', 'x']

/-- The vendor id of the argument of `-v`. -/
def vendorOf (a : List Byte) : Option (List Byte) :=
  if hexPrefixed a then (atoi16 (a.drop 2)).map int32str else some a

def ImageArgs.add (st : ImageArgs) : ImageOpt → Option ImageArgs
  | .image key path => some { st with images := Function.update st.images key (some path) }
  | .secret word => some { st with secret := word }
  | .tar output => some { st with ftar := output }
  | .vendor header => (vendorOf header).map fun vendorId => { st with vendorId }

def imageArgs (opts : List ImageOpt) : Option ImageArgs :=
  opts.foldlM ImageArgs.add ⟨[], [], pyStr ['A', 'M', 'Z', 'N'], fun _ => none⟩

inductive ImageRun
  | usage
  | failed
  | transferred (output : List Byte) (tar : List Byte)
  | displayed (report : Option ImageReport)
  | refused
  | created (file : Option (List Byte))

def runAmazonImage (md5 : Md5Sum) (tar : TarLib) (files : Files) (opts : List ImageOpt)
    (args : List (List Byte)) : ImageRun :=
  match args with
  | [imagefile] =>
    match imageArgs opts with
    | none => .failed
    | some st =>
      if amazonImageDefaultPath.any fun key => (st.images key).isSome then
        if st.ftar ≠ [] then .refused
        else .created (amazonImage md5 tar files st.vendorId st.secret st.images)
      else
        match files imagefile with
        | none => .failed
        | some data =>
          if st.ftar ≠ [] then .transferred st.ftar (data.drop headSize)
          else .displayed (displayAmazonImage md5 tar data st.secret)
  | _ => .usage

/-- The burning images that the options give: the name and the contents of the file, by partition. -/
def givenImages (files : Files) (setting : Setting) : ImageDict := fun key =>
  match setting key with
  | none | some [] => none
  | some (c :: cs) => (files (c :: cs)).map fun data => ((pathSplit (c :: cs)).2, data)

/-- `DisplayAmazonImage` reports no error. -/
def NoErrors (md5 : Md5Sum) (tar : TarLib) (data secret : List Byte) : Prop :=
  ∃ report, displayAmazonImage md5 tar data secret = some report ∧
    report.lengthError = false ∧ report.checksumError = false

end DanubeBsp
