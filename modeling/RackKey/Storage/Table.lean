import Mathlib.Order.Interval.Finset.Nat
import RackKey.Lib.Chunks
import RackKey.Lib.Keyed
import RackKey.Shared.Block

set_option autoImplicit false

/-! # The header and the block allocation table

The packed structs `Header` (24 bytes) and `BATEntry` (62 bytes), the table `BAT`, and their
bytes in the store file. Reading undoes writing (`Header.read_bytes`, `BATEntry.read_bytes`).
-/

namespace RackKey

open Words MathUtils

/-! ## Header -/

structure Header where
  magicNumber : UInt32
  batOffset : UInt32
  batSize : UInt32
  diskBlockSize : UInt32
  maxDataSize : UInt32
  blockStoreOffset : UInt32
  deriving DecidableEq, Repr

namespace Header

/-- `sizeof(Header)`. -/
def size : Nat := 24

def bytes (h : Header) : Bytes :=
  le32 h.magicNumber ++ le32 h.batOffset ++ le32 h.batSize ++ le32 h.diskBlockSize
    ++ le32 h.maxDataSize ++ le32 h.blockStoreOffset

/-- The header held by the first 24 bytes of a buffer. -/
def read (bs : Bytes) : Option Header := do
  let (magicNumber, bs) ← readLe32 bs
  let (batOffset, bs) ← readLe32 bs
  let (batSize, bs) ← readLe32 bs
  let (diskBlockSize, bs) ← readLe32 bs
  let (maxDataSize, bs) ← readLe32 bs
  let (blockStoreOffset, _) ← readLe32 bs
  some ⟨magicNumber, batOffset, batSize, diskBlockSize, maxDataSize, blockStoreOffset⟩

@[simp] theorem bytes_length (h : Header) : h.bytes.length = size := rfl

theorem read_bytes (h : Header) (rest : Bytes) : read (h.bytes ++ rest) = some h := by
  unfold read bytes
  simp only [List.append_assoc, readLe32_append, Option.bind_eq_bind, Option.bind_some]

/-- `getDiskBlockOffset`. -/
def getDiskBlockOffset (h : Header) (diskBlockNum : UInt32) : UInt32 :=
  h.blockStoreOffset + h.diskBlockSize * diskBlockNum

/-- `getNumDiskBlocks`. -/
def getNumDiskBlocks (h : Header) (numDataBytes : UInt32) : UInt32 :=
  ceilDiv numDataBytes h.diskBlockSize

end Header

/-! ## Table entries -/

/-- A `char[50]`. -/
abbrev KeyField := { cs : Bytes // cs.length = 50 }

/-- What `std::strncpy(field, key.c_str(), 49); field[49] = 0` leaves in a `char[50]`. -/
def KeyField.ofKey (key : Bytes) : KeyField :=
  let cs := (StringUtils.cStr key).take 49
  ⟨cs ++ List.replicate (50 - cs.length) 0, by
    have h : cs.length ≤ 49 := List.length_take_le 49 _
    simp only [List.length_append, List.length_replicate]
    omega⟩

structure BATEntry where
  key : KeyField
  keyHash : UInt32
  startingDiskBlockNum : UInt32
  numBytes : UInt32
  deriving DecidableEq

namespace BATEntry

/-- `sizeof(BATEntry)`. -/
def size : Nat := 62

def bytes (e : BATEntry) : Bytes :=
  e.key.val ++ le32 e.keyHash ++ le32 e.startingDiskBlockNum ++ le32 e.numBytes

/-- The entry held by the first 62 bytes of a buffer. -/
def read (bs : Bytes) : Option BATEntry :=
  if h : 50 ≤ bs.length then do
    let (keyHash, rest) ← readLe32 (bs.drop 50)
    let (startingDiskBlockNum, rest) ← readLe32 rest
    let (numBytes, _) ← readLe32 rest
    some ⟨⟨bs.take 50, by rw [List.length_take]; omega⟩, keyHash, startingDiskBlockNum, numBytes⟩
  else none

@[simp] theorem bytes_length (e : BATEntry) : e.bytes.length = size := by
  simp only [bytes, List.length_append, le32_length, e.key.property, size]

theorem read_bytes (e : BATEntry) (rest : Bytes) : read (e.bytes ++ rest) = some e := by
  have hlen := e.key.property
  have hle : 50 ≤ (e.bytes ++ rest).length := by
    rw [List.length_append, bytes_length]
    simp only [size]
    omega
  have htake : (e.bytes ++ rest).take 50 = e.key.val := by
    simp only [bytes, List.append_assoc]
    exact List.take_left' hlen
  have hdrop : (e.bytes ++ rest).drop 50
      = le32 e.keyHash ++ (le32 e.startingDiskBlockNum ++ (le32 e.numBytes ++ rest)) := by
    simp only [bytes, List.append_assoc]
    exact List.drop_left' hlen
  unfold read
  rw [dif_pos hle]
  simp only [hdrop, htake, readLe32_append, Option.bind_eq_bind, Option.bind_some]

theorem bytes_inj {e e' : BATEntry} (h : e.bytes = e'.bytes) : e = e' := by
  have hread := e.read_bytes []
  rw [h, e'.read_bytes] at hread
  exact (Option.some.inj hread).symm

/-- Any 62 bytes are an entry. -/
theorem exists_bytes (bs : Bytes) (h : bs.length = size) : ∃ e : BATEntry, e.bytes = bs := by
  simp only [size] at h
  obtain ⟨keyHash, hkey⟩ := exists_le32 (bs.drop 50) (by rw [List.length_drop]; omega)
  obtain ⟨start, hstart⟩ := exists_le32 ((bs.drop 50).drop 4)
    (by simp only [List.length_drop]; omega)
  obtain ⟨numBytes, hnum⟩ := exists_le32 (((bs.drop 50).drop 4).drop 4)
    (by simp only [List.length_drop]; omega)
  refine ⟨⟨⟨bs.take 50, by rw [List.length_take]; omega⟩, keyHash, start, numBytes⟩, ?_⟩
  have hend : (((bs.drop 50).drop 4).drop 4).drop 4 = [] := by
    apply List.drop_eq_nil_of_le
    simp only [List.length_drop]
    omega
  rw [hend, List.append_nil] at hnum
  calc bs.take 50 ++ le32 keyHash ++ le32 start ++ le32 numBytes
      = bs.take 50 ++ (le32 keyHash ++ (le32 start ++ le32 numBytes)) := by
        simp only [List.append_assoc]
    _ = bs := by rw [← hnum, ← hstart, ← hkey, List.take_append_drop]

/-- `std::string(be.key)`: the text of the key field. -/
def keyText (e : BATEntry) : Bytes := StringUtils.cStr e.key.val

/-- The disk blocks an entry owns, in a store with header `h`. -/
def extent (h : Header) (e : BATEntry) : Finset Nat :=
  Finset.Ico e.startingDiskBlockNum.toNat
    (e.startingDiskBlockNum.toNat + (h.getNumDiskBlocks e.numBytes).toNat)

end BATEntry

/-! ## The table -/

structure BAT where
  numEntries : UInt32
  table : List BATEntry
  deriving DecidableEq

namespace BAT

/-- `findBATEntry`. The iterator it returns is the position of the entry, and the entry. -/
def findBATEntry (bat : BAT) (keyHash : UInt32) : Option (Nat × BATEntry) := do
  let i ← Keyed.find BATEntry.keyHash bat.table keyHash
  let e ← bat.table[i]?
  some (i, e)

theorem findBATEntry_eq_some {bat : BAT} {keyHash : UInt32} {i : Nat} {e : BATEntry}
    (h : bat.findBATEntry keyHash = some (i, e)) :
    Keyed.find BATEntry.keyHash bat.table keyHash = some i ∧ bat.table[i]? = some e
      ∧ e ∈ bat.table ∧ e.keyHash = keyHash := by
  unfold findBATEntry at h
  cases hf : Keyed.find BATEntry.keyHash bat.table keyHash with
  | none => rw [hf] at h; cases h
  | some j =>
      obtain ⟨hj, hk⟩ := Keyed.find_eq_some hf
      rw [hf] at h
      simp only [Option.bind_eq_bind, Option.bind_some, List.getElem?_eq_getElem hj,
        Option.some.injEq, Prod.mk.injEq] at h
      obtain ⟨rfl, rfl⟩ := h
      exact ⟨rfl, List.getElem?_eq_getElem hj, List.getElem_mem hj, hk⟩

theorem findBATEntry_eq_none {bat : BAT} {keyHash : UInt32} :
    bat.findBATEntry keyHash = none ↔ Keyed.find BATEntry.keyHash bat.table keyHash = none := by
  unfold findBATEntry
  cases hf : Keyed.find BATEntry.keyHash bat.table keyHash with
  | none => simp
  | some j =>
      obtain ⟨hj, -⟩ := Keyed.find_eq_some hf
      simp [List.getElem?_eq_getElem hj]

/-- The search for an entry is the lookup of its hash in the table. -/
theorem findBATEntry_map_snd (bat : BAT) (keyHash : UInt32) :
    (bat.findBATEntry keyHash).map Prod.snd = Keyed.lookup BATEntry.keyHash bat.table keyHash := by
  cases h : bat.findBATEntry keyHash with
  | none => rw [Keyed.lookup_of_find_none (findBATEntry_eq_none.mp h)]; rfl
  | some ie =>
      obtain ⟨hf, he, -, -⟩ := findBATEntry_eq_some h
      rw [Keyed.lookup_of_find hf, he]
      rfl

/-- The bytes `writeBAT` writes. -/
def bytes (bat : BAT) : Bytes := le32 bat.numEntries ++ bat.table.flatMap BATEntry.bytes

theorem flatMap_bytes_length (t : List BATEntry) :
    (t.flatMap BATEntry.bytes).length = BATEntry.size * t.length :=
  Chunks.length_flatMap BATEntry.bytes_length t

theorem bytes_length (bat : BAT) :
    bat.bytes.length = 4 + BATEntry.size * bat.table.length := by
  rw [bytes, List.length_append, le32_length, flatMap_bytes_length]

/-- The bytes around the place and the size in a record of the table. -/
theorem bytes_set (n : UInt32) {t : List BATEntry} {i : Nat} {e : BATEntry} (h : t[i]? = some e) :
    ∃ before behind : Bytes, before.length = 4 + BATEntry.size * i + 54 ∧
      ∀ start numBytes, (BAT.mk n (t.set i
          { e with startingDiskBlockNum := start, numBytes := numBytes })).bytes
        = before ++ ((le32 start ++ le32 numBytes) ++ behind) := by
  obtain ⟨hlt, -⟩ := List.getElem?_eq_some_iff.mp h
  refine ⟨le32 n ++ ((t.take i).flatMap BATEntry.bytes ++ (e.key.val ++ le32 e.keyHash)),
    (t.drop (i + 1)).flatMap BATEntry.bytes, ?_, fun start numBytes => ?_⟩
  · simp only [List.length_append, flatMap_bytes_length, List.length_take, le32_length,
      e.key.property, Nat.min_eq_left (Nat.le_of_lt hlt)]
    omega
  · rw [List.set_eq_take_append_cons_drop, if_pos hlt]
    simp only [bytes, List.flatMap_append, List.flatMap_cons, BATEntry.bytes, List.append_assoc]

end BAT

end RackKey
