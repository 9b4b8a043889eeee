import RackKey.Storage.FreeSpace
import RackKey.Storage.StoreFile

set_option autoImplicit false

/-! # The on-disk block store

`DiskStorage` of a storage node: the cached header and table, the free space map and the
store file. Every method returns its result (or the exception it throws) together with the
state it leaves behind, so that what an exception leaves half done stays visible.

`sha256_32` is the hash the keys are found by. It is the first 32 bits of SHA-256, which the
model takes as an arbitrary function.
-/

namespace RackKey

open Words MathUtils

structure DiskStorage where
  header : Header
  bat : BAT
  freeSpaceMap : FreeSpaceMap
  storeFile : StoreFile
  keyLengthMax : UInt32
  deriving DecidableEq

/-- Memory the source uses before it initialises it: the header of a new object, and the key
field of a default table entry. -/
structure Junk where
  header : Header
  entryKey : KeyField

instance : Inhabited Junk := ⟨⟨0, 0, 0, 0, 0, 0⟩, KeyField.ofKey []⟩

/-- Data blocks of a key, all of them in `buffer`: the loop of `readBlocks` over the raw block
data. `none` when the cursor steps past the end of the buffer within a block number. -/
def parseBlocks (key : Bytes) (dataBlockSize : UInt32) : Nat → Bytes → Option (List Block)
  | _, [] => some []
  | 0, _ :: _ => none
  | fuel + 1, bs => do
      let (blockNum, bs) ← readLe32 bs
      let dataSize := min dataBlockSize (UInt32.ofNat bs.length)
      let blocks ← parseBlocks key dataBlockSize fuel (bs.drop dataSize.toNat)
      some (⟨key, blockNum, dataSize, bs.take dataSize.toNat⟩ :: blocks)

/-- What `readBlocks` makes of the raw block data. -/
def selectBlocks (key : Bytes) (requestedBlockNums : Finset UInt32) (dataBlockSize : UInt32)
    (readBuffer : Bytes) : Except StorageError (List Block) :=
  match parseBlocks key dataBlockSize readBuffer.length readBuffer with
  | none => .error .pastEnd
  | some all =>
      let blocks := all.filter (fun b => b.blockNum ∈ requestedBlockNums)
      if blocks.length ≠ requestedBlockNums.card then .error .numBlocksRead else .ok blocks

/-- What `getBlockNums` makes of the raw block data: the block numbers, by the same walk. -/
def parseBlockNums (dataBlockSize : UInt32) (readBuffer : Bytes) :
    Except StorageError (List UInt32) :=
  match parseBlocks [] dataBlockSize readBuffer.length readBuffer with
  | none => .error .pastEnd
  | some all => .ok (all.map Block.blockNum)

/-- The 32-bit sum `numTotalBytes` of `writeBlocks`. -/
def totalNumBytes (dataBlocks : List Block) : UInt32 :=
  dataBlocks.foldl (fun n b => n + 4 + b.dataSize) 0

/-- The buffer `writeBlocks` writes to disk: block numbers and data, without lengths. -/
def copyBlocks (dataBlocks : List Block) : Bytes :=
  dataBlocks.flatMap fun b => le32 b.blockNum ++ b.data

namespace DiskStorage

variable (sha256_32 : Bytes → UInt32)

def getDiskBlockOffset (ds : DiskStorage) (diskBlockNum : UInt32) : UInt32 :=
  ds.header.getDiskBlockOffset diskBlockNum

def getNumDiskBlocks (ds : DiskStorage) (numDataBytes : UInt32) : UInt32 :=
  ds.header.getNumDiskBlocks numDataBytes

/-- The entry of a key. -/
def findEntry (ds : DiskStorage) (key : Bytes) : Option (Nat × BATEntry) :=
  ds.bat.findBATEntry (sha256_32 key)

/-! ## Reading -/

/-- `readBlocks`. -/
def readBlocks (ds : DiskStorage) (key : Bytes) (requestedBlockNums : Finset UInt32)
    (dataBlockSize : UInt32) : Except StorageError (List Block) × DiskStorage :=
  match ds.findEntry sha256_32 key with
  | none => (.error (.noEntryForRead key), ds)
  | some (_, e) =>
      let r := ds.storeFile.readExtent .badRead (ds.getDiskBlockOffset e.startingDiskBlockNum)
        e.numBytes
      let ds := { ds with storeFile := r.2 }
      match r.1 with
      | .error err => (.error err, ds)
      | .ok readBuffer => (selectBlocks key requestedBlockNums dataBlockSize readBuffer, ds)

/-- `getBlockNums`. Its message for a missing entry names `readBlocks()`. -/
def getBlockNums (ds : DiskStorage) (key : Bytes) (dataBlockSize : UInt32) :
    Except StorageError (List UInt32) × DiskStorage :=
  match ds.findEntry sha256_32 key with
  | none => (.error (.noEntryForRead key), ds)
  | some (_, e) =>
      let r := ds.storeFile.readExtent .badReadBlockNums
        (ds.getDiskBlockOffset e.startingDiskBlockNum) e.numBytes
      let ds := { ds with storeFile := r.2 }
      match r.1 with
      | .error err => (.error err, ds)
      | .ok readBuffer => (parseBlockNums dataBlockSize readBuffer, ds)

/-- `getKeys`. -/
def getKeys (ds : DiskStorage) : List Bytes :=
  ds.bat.table.map fun be => StringUtils.fixedSize be.keyText ds.keyLengthMax

/-- `readRawDiskBlocks`: the stream is not checked, and what is not read stays zero. -/
def readRawDiskBlocks (ds : DiskStorage) (startingDiskBlockNum N : UInt32) :
    Except StorageError Bytes × DiskStorage :=
  let numBytes := N * ds.header.diskBlockSize
  let f := ds.storeFile.openFile
  if f.isOpen then
    let r := (f.seek (ds.getDiskBlockOffset startingDiskBlockNum).toNat).read numBytes.toNat
    (.ok (StoreFile.overlay (List.replicate numBytes.toNat 0) r.1),
      { ds with storeFile := r.2.close })
  else (.error .openForReading, { ds with storeFile := f })

def dataUsedSize (ds : DiskStorage) : UInt32 :=
  ds.bat.table.foldl (fun usedSize be => usedSize + be.numBytes) 0

def dataTotalSize (ds : DiskStorage) : UInt32 := ds.header.maxDataSize

def totalFileSize (ds : DiskStorage) : UInt32 := 24 + ds.header.batSize + ds.header.maxDataSize

/-! ## Writing -/

/-- The map after `writeBlocks` has freed the blocks of an existing entry. -/
def freeExisting (ds : DiskStorage) : Option (Nat × BATEntry) → FreeSpaceMap
  | some (_, e) =>
      ds.freeSpaceMap.freeNBlocks e.startingDiskBlockNum (ds.getNumDiskBlocks e.numBytes)
  | none => ds.freeSpaceMap

/-- The lambda `restoreFreedBlocks` of `writeBlocks`. -/
def restoreFreedBlocks (ds : DiskStorage) (fsm : FreeSpaceMap) :
    Option (Nat × BATEntry) → FreeSpaceMap
  | some (_, e) =>
      (fsm.allocateNBlocks e.startingDiskBlockNum (ds.getNumDiskBlocks e.numBytes)).2
  | none => fsm

/-- The table with the existing entry patched, or with a new one. -/
def updateBAT (bat : BAT) (key : Bytes) (startingDiskBlockNum numTotalBytes : UInt32) :
    Option (Nat × BATEntry) → BAT
  | some (i, e) =>
      { bat with
        table := bat.table.set i
          { e with startingDiskBlockNum := startingDiskBlockNum, numBytes := numTotalBytes } }
  | none =>
      { numEntries := bat.numEntries + 1
        table := bat.table ++
          [⟨KeyField.ofKey key, sha256_32 key, startingDiskBlockNum, numTotalBytes⟩] }

/-- The map after the new blocks are allocated. For a new entry the source does it twice. -/
def allocateNew (fsm : FreeSpaceMap) (startingDiskBlockNum N : UInt32) :
    Option (Nat × BATEntry) → FreeSpaceMap
  | some _ => (fsm.allocateNBlocks startingDiskBlockNum N).2
  | none =>
      ((fsm.allocateNBlocks startingDiskBlockNum N).2.allocateNBlocks startingDiskBlockNum N).2

/-- `writeBlocks`. -/
def writeBlocks (ds : DiskStorage) (key : Bytes) (dataBlocks : List Block) :
    Except StorageError Unit × DiskStorage :=
  if dataBlocks.length = 0 then (.error .noDataBlocks, ds)
  else
    let entry := ds.findEntry sha256_32 key
    let freed := ds.freeExisting entry
    let numTotalBytes := totalNumBytes dataBlocks
    let N := ds.getNumDiskBlocks numTotalBytes
    match freed.findNFreeBlocks N with
    | none => (.error (.noContiguousSection N), { ds with freeSpaceMap := freed })
    | some startingDiskBlockNum =>
        let buffer := copyBlocks dataBlocks
        if buffer.length ≠ numTotalBytes.toNat then
          (.error .badCopy, { ds with freeSpaceMap := ds.restoreFreedBlocks freed entry })
        else
          let r := ds.storeFile.writeExtent (ds.getDiskBlockOffset startingDiskBlockNum) buffer
          match r.1 with
          | .error err =>
              (.error err,
                { ds with
                  freeSpaceMap := ds.restoreFreedBlocks freed entry
                  storeFile := r.2 })
          | .ok () =>
              let bat := updateBAT sha256_32 ds.bat key startingDiskBlockNum numTotalBytes entry
              (.ok (),
                { ds with
                  bat := bat
                  freeSpaceMap := allocateNew freed startingDiskBlockNum N entry
                  storeFile := r.2.writeBAT bat })

/-- `deleteBlocks`. -/
def deleteBlocks (ds : DiskStorage) (key : Bytes) : Except StorageError Unit × DiskStorage :=
  match ds.findEntry sha256_32 key with
  | none => (.error (.noEntryForDelete key), ds)
  | some (i, e) =>
      (.ok (),
        { ds with
          bat := { numEntries := ds.bat.numEntries - 1, table := ds.bat.table.eraseIdx i }
          freeSpaceMap :=
            ds.freeSpaceMap.freeNBlocks e.startingDiskBlockNum (ds.getNumDiskBlocks e.numBytes) })

/-! ## Opening a store -/

def magicNumber : UInt32 := 0xABABABAB

/-- `initialiseHeader`. -/
def initialiseHeader (diskBlockSize maxDataSize : UInt32) : Header :=
  let batOffset : UInt32 := 24
  let numBlocks := ceilDiv maxDataSize diskBlockSize
  let batSize : UInt32 := 4 + numBlocks * 62
  let blockStoreOffset : UInt32 := 24 + batSize
  ⟨magicNumber, batOffset, batSize, diskBlockSize, maxDataSize, blockStoreOffset⟩

/-- `createStoreFile`: an empty file, and a zero byte at its last position. -/
def createStoreFile (ds : DiskStorage) : Except StorageError Unit × DiskStorage :=
  let f := { ds.storeFile with bytes := [] }.openFile
  if f.isOpen then
    (.ok (),
      { ds with storeFile := ((f.seek (ds.totalFileSize - 1).toNat).write [0]).close })
  else (.error .createStoreFile, { ds with storeFile := f })

/-- `populateFreeSpaceMapFromFile`. -/
def populateFreeSpaceMapFromFile (ds : DiskStorage) : Except StorageError Unit × DiskStorage :=
  if ds.freeSpaceMap.blockCapacity ≠ ds.getNumDiskBlocks ds.header.maxDataSize then
    (.error .assertBlockCapacity, ds)
  else
    let fsm := (ds.bat.table.take ds.bat.numEntries.toNat).foldl
      (fun fsm e =>
        (fsm.allocateNBlocks e.startingDiskBlockNum (ds.getNumDiskBlocks e.numBytes)).2)
      ds.freeSpaceMap
    (.ok (), { ds with freeSpaceMap := fsm })

/-- The members of a new object, before `initialiseStorage`. -/
def fresh (junk : Junk) (bytes : Bytes) (outcomes : List Outcome) (keyLengthMax : UInt32) :
    DiskStorage where
  header := junk.header
  bat := ⟨0, []⟩
  freeSpaceMap := FreeSpaceMap.initialise 0
  storeFile := ⟨false, false, 0, bytes, outcomes⟩
  keyLengthMax := keyLengthMax

/-- `initialiseStorage` for an existing store file. -/
def initialiseFromFile (junk : Junk) (maxDataSize : UInt32) (ds : DiskStorage) :
    Except StorageError Unit × DiskStorage :=
  let h := ds.storeFile.readHeader ds.header
  let b := h.2.readBAT junk.entryKey ds.bat
  populateFreeSpaceMapFromFile
    { ds with
      header := h.1
      bat := b.1
      storeFile := b.2
      freeSpaceMap := FreeSpaceMap.initialise (h.1.getNumDiskBlocks maxDataSize) }

/-- `initialiseStorage` for a new store file. -/
def initialiseNew (diskBlockSize maxDataSize : UInt32) (ds : DiskStorage) :
    Except StorageError Unit × DiskStorage :=
  match ds.createStoreFile with
  | (.error err, ds) => (.error err, ds)
  | (.ok (), ds) =>
      let header := initialiseHeader diskBlockSize maxDataSize
      (.ok (),
        { ds with
          header := header
          storeFile := ds.storeFile.writeHeader header
          freeSpaceMap := FreeSpaceMap.initialise (header.getNumDiskBlocks maxDataSize) })

/-- The constructor. `onDisk` is the store file found at its path, if there is one. -/
def construct (junk : Junk) (onDisk : Option Bytes) (outcomes : List Outcome)
    (diskBlockSize maxDataSize : UInt32) (removeExistingStore : Bool) (keyLengthMax : UInt32) :
    Except StorageError Unit × DiskStorage :=
  match onDisk, removeExistingStore with
  | some bytes, false =>
      initialiseFromFile junk maxDataSize (fresh junk bytes outcomes keyLengthMax)
  | _, _ => initialiseNew diskBlockSize maxDataSize (fresh junk [] outcomes keyLengthMax)

end DiskStorage

end RackKey
