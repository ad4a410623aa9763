/-!
The records of ZIP archives. A record is a list of numbers, each of a fixed size with the lowest
byte first; the first number is a signature.
-/

namespace Workbench.Archive

def number? : (size : Nat) → List UInt8 → Option (Nat × List UInt8)
  | 0, bytes => some (0, bytes)
  | _ + 1, [] => none
  | size + 1, byte :: bytes => do
    let (high, rest) ← number? size bytes
    return (high * 256 + byte.toNat, rest)

def numberBytes : (size n : Nat) → List UInt8
  | 0, _ => []
  | size + 1, n => (n % 256).toUInt8 :: numberBytes size (n / 256)

def numbers? : (sizes : List Nat) → List UInt8 → Option (List Nat × List UInt8)
  | [], bytes => some ([], bytes)
  | size :: sizes, bytes => do
    let (n, rest) ← number? size bytes
    let (ns, rest) ← numbers? sizes rest
    return (n :: ns, rest)

def numbersBytes (sizes ns : List Nat) : List UInt8 :=
  (sizes.zip ns).flatMap fun (size, n) => numberBytes size n

def bytes? (count : Nat) (bytes : List UInt8) : Option (List UInt8 × List UInt8) :=
  let taken := bytes.take count
  if taken.length = count then some (taken, bytes.drop count) else none

/-! ### Signatures and sizes -/

/-- Starts the header in front of the bytes of an entry. -/
def localSignature : Nat := 0x04034b50

/-- Starts the header of an entry in the directory. -/
def entrySignature : Nat := 0x02014b50

/-- Starts the record behind the directory. -/
def endSignature : Nat := 0x06054b50

/-- Starts the large form of the record behind the directory. -/
def largeEndSignature : Nat := 0x06064b50

/-- Starts the record that says where the large form is. -/
def locatorSignature : Nat := 0x07064b50

/-- Signature, version, flags, method, time, date, checksum, two sizes, lengths of name and extra
field. -/
def localSizes : List Nat := [4, 2, 2, 2, 2, 2, 4, 4, 4, 2, 2]

/-- Signature, two versions, flags, method, time, date, checksum, two sizes, lengths of name, extra
field and comment, part, attributes inside and outside, offset. -/
def entrySizes : List Nat := [4, 2, 2, 2, 2, 2, 2, 4, 4, 4, 2, 2, 2, 2, 2, 4, 4]

/-- Signature, part, part of the directory, entries here and in all, size and offset of the
directory, length of the comment. -/
def endSizes : List Nat := [4, 2, 2, 2, 2, 4, 4, 2]

/-- The bytes of a record behind the directory without its comment. -/
def endLength : Nat := 22

/-- Signature, size, two versions, part, part of the directory, entries here and in all, size and
offset of the directory. -/
def largeEndSizes : List Nat := [4, 8, 2, 2, 4, 4, 8, 8, 8, 8]

/-- Signature, part, offset, number of parts. -/
def locatorSizes : List Nat := [4, 4, 8, 4]

/-- The bytes of the record that says where the large form is. -/
def locatorLength : Nat := 20

/-- The flag of names in UTF-8. -/
def utf8Flag : Nat := 0x0800

/-! ### Writing -/

/-- Entries are dated at the first day that the format knows. -/
def firstDate : Nat := 0x21

/-- The version of the format that plain entries need. -/
def plainVersion : Nat := 20

def plainFile : Nat := 0x81a40000

def nameFlags (name : List UInt8) : Nat := if name.all (· < 0x80) then 0 else utf8Flag

def localEntry (name : List UInt8) : List UInt8 :=
  numbersBytes localSizes
    [localSignature, plainVersion, nameFlags name, 0, 0, firstDate, 0, 0, 0, name.length, 0] ++ name

def directoryEntry (name : List UInt8) (offset : Nat) : List UInt8 :=
  numbersBytes entrySizes
    [entrySignature, plainVersion, plainVersion, nameFlags name, 0, 0, firstDate, 0, 0, 0,
      name.length, 0, 0, 0, 0, plainFile, offset] ++ name

/-- The directory of empty entries, the first of which stands at the given offset. -/
def directory (offset : Nat) : List (List UInt8) → List UInt8
  | [] => []
  | name :: names =>
    directoryEntry name offset ++ directory (offset + (localEntry name).length) names

/-- The archive of empty entries with the given names. -/
def ofNames (names : List (List UInt8)) : List UInt8 :=
  let entries := names.flatMap localEntry
  let headers := directory 0 names
  entries ++ headers ++
    numbersBytes endSizes
      [endSignature, 0, 0, names.length, names.length, headers.length, entries.length, 0]

end Workbench.Archive
