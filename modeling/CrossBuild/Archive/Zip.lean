import CrossBuild.Archive.Crc32

/-!
# Zip archives

Archives whose members are stored as they are. Each member has a header before its content, and at
the end stands a directory of all members with an end record. Reading goes by the directory.
-/

namespace CrossBuild.Zip

open Bytes (littleEndian)

/-- A member: its name, which ends with a slash for a directory, and its content. -/
structure Member where
  name : String
  content : Bytes
  deriving DecidableEq, Repr

/-- Why an archive, or one of its members, cannot be read. -/
inductive Fault
  | noArchive
  | shortDirectory
  | directoryMark
  | shortHeader
  | headerMark
  | nameDiffers (inDirectory : String) (inHeader : Bytes)
  | checksum (name : String)
  deriving DecidableEq, Repr

def Fault.message : Fault → String
  | .noArchive => "File is not a zip file"
  | .shortDirectory => "Truncated central directory"
  | .directoryMark => "Bad magic number for central directory"
  | .shortHeader => "Truncated file header"
  | .headerMark => "Bad magic number for file header"
  | .nameDiffers inDirectory inHeader =>
    "File name in directory " ++ Text.quoted inDirectory ++ " and header " ++
      Text.quotedBytes inHeader ++ " differ."
  | .checksum name => "Bad CRC-32 for file " ++ Text.quoted name

/-! ## Writing -/

def headerMark : Bytes := [0x50, 0x4B, 3, 4]

def directoryMark : Bytes := [0x50, 0x4B, 1, 2]

def endMark : Bytes := [0x50, 0x4B, 5, 6]

/-- The flags of a name: whether it is in UTF-8 and not in ASCII. -/
def nameFlags (name : String) : Nat :=
  if name.toList.all fun c => c.toNat < 0x80 then 0 else 0x800

/-- What header and directory say of a member: the version needed, the flags, no compression, the
first moment of 1980, the checksum, both sizes, and the lengths of the name and of nothing more. -/
def facts (m : Member) : Bytes :=
  let size := littleEndian 4 m.content.length
  littleEndian 2 20 ++ littleEndian 2 (nameFlags m.name) ++ littleEndian 2 0 ++
    littleEndian 2 0 ++ littleEndian 2 0x21 ++
    littleEndian 4 (Crc32.checksum m.content).toNat ++ size ++ size ++
    littleEndian 2 (Bytes.ofString m.name).length ++ littleEndian 2 0

/-- A member with its header. -/
def headed (m : Member) : Bytes :=
  headerMark ++ facts m ++ Bytes.ofString m.name ++ m.content

/-- The directory entry of a member whose header stands at `offset`. -/
def directoryEntry (m : Member) (offset : Nat) : Bytes :=
  directoryMark ++ [20, 3] ++ facts m ++ littleEndian 2 0 ++ littleEndian 2 0 ++
    littleEndian 2 0 ++ littleEndian 4 0 ++ littleEndian 4 offset ++ Bytes.ofString m.name

/-- The directory of members whose headers start at `offset`. -/
def directory (offset : Nat) : List Member → Bytes
  | [] => []
  | m :: rest => directoryEntry m offset ++ directory (offset + (headed m).length) rest

/-- The archive of some members. -/
def encode (members : List Member) : Bytes :=
  let contents := members.flatMap headed
  let directory := directory 0 members
  let count := littleEndian 2 members.length
  contents ++ directory ++ endMark ++ littleEndian 2 0 ++ littleEndian 2 0 ++ count ++ count ++
    littleEndian 4 directory.length ++ littleEndian 4 contents.length ++ littleEndian 2 0

/-! ## Reading -/

/-- The number in `width` bytes at an offset. -/
def numberAt (bytes : Bytes) (offset width : Nat) : Nat :=
  Bytes.toNat ((bytes.drop offset).take width)

/-- The characters of the old encoding of names above ASCII. -/
def highCharacters : List Char :=
  "ÇüéâäàåçêëèïîìÄÅÉæÆôöòûùÿÖÜ¢£¥₧ƒáíóúñÑªº¿⌐¬½¼¡«»░▒▓│┤╡╢╖╕╣║╗╝╜╛┐".toList ++
    "└┴┬├─┼╞╟╚╔╩╦╠═╬╧╨╤╥╙╘╒╓╫╪┘┌█▄▌▐▀αßΓπΣσµτΦΘΩδ∞φε∩≡±≥≤⌠⌡÷≈°∙·√ⁿ²■\u00A0".toList

/-- The name in some bytes, up to a null character; without the flag it is in the old encoding. -/
def decodeName (flags : Nat) (bytes : Bytes) : String :=
  let old (b : UInt8) : Char :=
    if b.toNat < 0x80 then Char.ofNat b.toNat else highCharacters.getD (b.toNat - 0x80) ' '
  match (flags / 0x800) % 2, Utf8.decode bytes with
  | 1, .ok cs => String.ofList cs
  | _, _ => String.ofList (bytes.map old)

/-- The end record: the size of the directory, its offset, and where the record stands. -/
structure EndRecord where
  size : Nat
  offset : Nat
  place : Nat

/-- The length of an end record without a comment. -/
def endLength : Nat := 22

/-- How far from the end an end record can start: its length and that of the longest comment. -/
def endReach : Nat := 65536 + endLength

/-- Where the last end mark starts in bytes that begin at `place`; `found` is the one before. -/
def lastMark? (place : Nat) (found : Option Nat) : Bytes → Option Nat
  | [] => found
  | b :: tail =>
    lastMark? (place + 1) (if endMark.isPrefixOf (b :: tail) then some place else found) tail

/-- The end record, which has to be complete. A record without a comment at the very end comes
first. -/
def endRecord? (bytes : Bytes) : Option EndRecord := do
  let length := bytes.length
  guard (endLength ≤ length)
  let last := bytes.drop (length - endLength)
  let place ←
    if endMark.isPrefixOf last && last.drop 20 == [0, 0] then some (length - endLength)
    else
      let start := length - endReach
      lastMark? start none (bytes.drop start)
  guard (place + endLength ≤ length)
  return ⟨numberAt bytes (place + 12) 4, numberAt bytes (place + 16) 4, place⟩

/-- An entry of the directory. -/
structure Entry where
  /-- The name as it is written. -/
  written : String
  /-- The name up to a null character. -/
  name : String
  flags : Nat
  checksum : Nat
  stored : Nat
  size : Nat
  offset : Nat
  deriving DecidableEq, Repr

/-- The entries of a directory of `left` bytes. Offsets are counted from `shift`. Every entry
shortens the bytes, so their number bounds that of the entries. -/
def entriesWithin (shift : Nat) : Nat → Nat → Bytes → Except Fault (List Entry)
  | 0, _, _ => .ok []
  | _, 0, _ => .ok []
  | fuel + 1, left, bytes =>
    if bytes.length < 46 ∨ left < 46 then .error .shortDirectory
    else if !directoryMark.isPrefixOf bytes then .error .directoryMark
    else
      let flags := numberAt bytes 8 2
      let nameLength := numberAt bytes 28 2
      let length := 46 + nameLength + numberAt bytes 30 2 + numberAt bytes 32 2
      let written := decodeName flags ((bytes.drop 46).take nameLength)
      let entry : Entry := {
        written, flags
        name := String.ofList (written.toList.takeWhile (· != '\x00'))
        checksum := numberAt bytes 16 4
        stored := numberAt bytes 20 4
        size := numberAt bytes 24 4
        offset := numberAt bytes 42 4 + shift }
      match entriesWithin shift fuel (left - length) (bytes.drop length) with
      | .ok rest => .ok (entry :: rest)
      | .error e => .error e

/-- The entries of an archive, in the order of its directory. -/
def entries (bytes : Bytes) : Except Fault (List Entry) :=
  match endRecord? bytes with
  | none => .error .noArchive
  | some r =>
    let start := r.place - r.size
    entriesWithin (start - r.offset) bytes.length r.size ((bytes.drop start).take r.size)

/-- Whether a file is an archive: it has an end record. -/
def isArchive (bytes : Bytes) : Bool :=
  (endRecord? bytes).isSome

/-- How many bytes of a member are written at once. -/
def blockLength : Nat := 65536

/-- The content of a member. If its checksum is wrong, what was written before that was found
out comes with the fault: all whole blocks before the last byte. -/
def content (bytes : Bytes) (e : Entry) : Except (Fault × Option Bytes) Bytes :=
  let header := bytes.drop e.offset
  if header.length < 30 then .error (.shortHeader, none)
  else if !headerMark.isPrefixOf header then .error (.headerMark, none)
  else
    let nameLength := numberAt header 26 2
    let name := (header.drop 30).take nameLength
    if decodeName e.flags name != e.written then .error (.nameDiffers e.written name, none)
    else
      let content := (header.drop (30 + nameLength + numberAt header 28 2)).take e.stored
      if (Crc32.checksum content).toNat = e.checksum then .ok content
      else
        let kept := (content.length - 1) / blockLength * blockLength
        .error (.checksum e.name, some (content.take kept))

end CrossBuild.Zip
