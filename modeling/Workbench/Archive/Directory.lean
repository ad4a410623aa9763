import Workbench.Archive.Record
import Workbench.Text.Bytes

/-!
Reading the directory of a ZIP archive. The record behind the directory is sought from the end of
the bytes, and it says how long the directory before it is. Bytes in front of an archive shift all
offsets, and bytes behind it do not matter. Large archives have a large form of the record, which is
found by another record right before the small one.
-/

namespace Workbench.Archive

/-- Offsets are numbers of 64 bits. -/
def offsetLimit : Nat := 0x10000000000000000

/-- A file can be read from offsets below this one. -/
def seekLimit : Nat := 0x8000000000000000

/-- A comment behind an archive is shorter than this. -/
def commentLimit : Nat := 0x10000

/-! ### The record behind the directory -/

/-- The last position from `first` to `last` where the signature of the record stands. -/
def endPosition? (first last : Nat) : (position : Nat) → List UInt8 → Option Nat
  | _, [] => none
  | position, byte :: bytes =>
    match endPosition? first last (position + 1) bytes with
    | some later => some later
    | none =>
      if first ≤ position ∧ position ≤ last ∧
          (numberBytes 4 endSignature).isPrefixOf (byte :: bytes) then some position
      else none

/-- The record behind a directory, and where it stands. -/
structure EndRecord where
  position : Nat
  part : Nat
  directoryPart : Nat
  entriesHere : Nat
  entries : Nat
  directorySize : Nat
  directoryOffset : Nat
  commentLength : Nat
  deriving Repr

namespace EndRecord

/-- Reads the record at a position, with its whole comment. -/
def read? (bytes : List UInt8) (position : Nat) : Option EndRecord := do
  let (fields, rest) ← numbers? endSizes (bytes.drop position)
  match fields with
  | [_, part, directoryPart, entriesHere, entries, size, offset, commentLength] =>
    let _ ← bytes? commentLength rest
    return ⟨position, part, directoryPart, entriesHere, entries, size, offset, commentLength⟩
  | _ => none

def find? (bytes : List UInt8) : Option EndRecord :=
  let length := bytes.length
  if length < endLength then none
  else
    (endPosition? (length - (endLength + commentLimit - 1)) (length - endLength) 0 bytes).bind
      (read? bytes)

def isTooSmall (r : EndRecord) : Bool :=
  r.part == 0xFFFF || r.directoryPart == 0xFFFF || r.entriesHere == 0xFFFF ||
    r.entries == 0xFFFF || r.directorySize == 0xFFFFFFFF || r.directoryOffset == 0xFFFFFFFF

end EndRecord

/-! ### The large form -/

/-- Says in which part and where the large form of the record is. -/
structure Locator where
  part : Nat
  offset : Nat
  deriving Repr

/-- The locator before a record, if there is one. Its place is counted from the end of the bytes. -/
def locator? (bytes : List UInt8) (r : EndRecord) : Option Locator := do
  let behind := locatorLength + endLength + r.commentLength
  if bytes.length < behind then none
  else
    let (fields, _) ← numbers? locatorSizes (bytes.drop (bytes.length - behind))
    match fields with
    | [signature, part, offset, _] =>
      if signature = locatorSignature then some ⟨part, offset⟩ else none
    | _ => none

/-- Where a directory is: how far offsets are shifted, where it starts, and how many entries it
has. -/
structure DirectoryPlace where
  shift : Nat
  start : Nat
  count : Nat
  deriving Repr

/-- The first of so many positions where the large form stands. -/
def largePosition? (position : Nat) : (tries : Nat) → List UInt8 → Option Nat
  | 0, _ => none
  | _ + 1, [] => none
  | tries + 1, byte :: bytes =>
    if (numberBytes 4 largeEndSignature).isPrefixOf (byte :: bytes) then some position
    else largePosition? (position + 1) tries bytes

/-- The search for the large form ends so many bytes before the small one. -/
def largeLength : Nat := 60

/-- The directory that the large form tells of. -/
def largePlace? (bytes : List UInt8) (r : EndRecord) (l : Locator) : Option DirectoryPlace :=
  if !r.isTooSmall && r.part != l.part then none
  else if r.position < largeLength then none
  else do
    let last := r.position - largeLength
    let position ← largePosition? l.offset (last + 1 - l.offset) (bytes.drop l.offset)
    let (fields, _) ← numbers? largeEndSizes (bytes.drop position)
    match fields with
    | [_, _, _, _, part, directoryPart, _, entries, _, offset] =>
      let shift := position - l.offset
      if part = directoryPart ∧ offset + shift < offsetLimit then
        some ⟨shift, offset + shift, entries⟩
      else none
    | _ => none

/-- The directory that the small form tells of. -/
def smallPlace? (r : EndRecord) : Option DirectoryPlace :=
  if r.directorySize + r.directoryOffset ≤ r.position then
    let shift := r.position - r.directorySize - r.directoryOffset
    some ⟨shift, r.directoryOffset + shift, r.entriesHere⟩
  else none

/-- The directory of an archive of one part. -/
def place? (bytes : List UInt8) (r : EndRecord) : Option DirectoryPlace :=
  if !r.isTooSmall && r.part != r.directoryPart then none
  else match locator? bytes r with
    | none => smallPlace? r
    | some l => largePlace? bytes r l

/-! ### Entries -/

/-- What the extra field of an entry may change. -/
structure Extra where
  size : Nat
  storedSize : Nat
  offset : Nat
  method : Nat
  encrypted : Bool := false

/-- The number that stands for one that did not fit. -/
def unfit : Nat := 0xFFFFFFFF

/-- The method of encrypted entries. -/
def encryptedMethod : Nat := 99

def large? (n : Nat) (bytes : List UInt8) : Option (Nat × Nat × List UInt8) :=
  if n = unfit then (number? 8 bytes).map fun (n, rest) => (n, 8, rest) else some (n, 0, bytes)

/-- Reads the sizes and the offset that did not fit, as far as the field goes; second come the bytes
read, or nothing if the field ended too soon. -/
def readLarge (x : Extra) (bytes : List UInt8) : Extra × Option Nat :=
  match large? x.size bytes with
  | none => (x, none)
  | some (size, a, bytes) =>
    let x := { x with size }
    match large? x.storedSize bytes with
    | none => (x, none)
    | some (storedSize, b, bytes) =>
      let x := { x with storedSize }
      match large? x.offset bytes with
      | none => (x, none)
      | some (offset, c, _) => ({ x with offset }, some (a + b + c))

/-- Reads the parts of an extra field. A part that ends too soon ends the reading; an unknown way of
encryption is refused. -/
def readExtra? : (fuel : Nat) → Extra → List UInt8 → Option Extra
  | 0, x, _ => some x
  | fuel + 1, x, bytes =>
    match numbers? [2, 2] bytes with
    | some ([kind, length], rest) =>
      if kind = 0x0001 then
        match readLarge x rest with
        | (x, none) => some x
        | (x, some count) => readExtra? fuel x (rest.drop (max count length))
      else if kind = 0x9901 then
        if length ≠ 7 then none
        else match numbers? [2, 2, 1, 2] rest with
          | some ([version, vendor, strength, method], rest) =>
            if vendor = 0x4541 ∧ (version = 1 ∨ version = 2) ∧ 1 ≤ strength ∧ strength ≤ 3 then
              readExtra? fuel { x with method, encrypted := true } (rest.drop length)
            else none
          | _ => some x
      else readExtra? fuel x (rest.drop length)
    | _ => some x

def entryName (flags : Nat) (name : List UInt8) : String :=
  if flags / utf8Flag % 2 = 1 then Text.decodeLossy name else Text.decodeCodePage name

def entry? (shift : Nat) (bytes : List UInt8) : Option (String × List UInt8) := do
  let (fields, rest) ← numbers? entrySizes bytes
  match fields with
  | [signature, _, _, flags, method, _, _, _, storedSize, size, nameLength, extraLength,
      commentLength, _, _, _, offset] =>
    if signature ≠ entrySignature then none
    else
      let (name, rest) ← bytes? nameLength rest
      let (extra, rest) ← bytes? extraLength rest
      let (_, rest) ← bytes? commentLength rest
      let x ← readExtra? extra.length { size, storedSize, offset, method } extra
      if x.method = encryptedMethod ∧ !x.encrypted then none
      else if x.offset + shift < offsetLimit then return (entryName flags name, rest)
      else none
  | _ => none

def entries? (shift : Nat) : (count : Nat) → List UInt8 → Option (List String)
  | 0, _ => some []
  | count + 1, bytes => do
    let (name, rest) ← entry? shift bytes
    let names ← entries? shift count rest
    return name :: names

/-- The names of the entries of an archive, if the bytes are one. -/
def names? (bytes : List UInt8) : Option (List String) := do
  let place ← (EndRecord.find? bytes).bind (place? bytes)
  if place.start < seekLimit then entries? place.shift place.count (bytes.drop place.start)
  else none

end Workbench.Archive
