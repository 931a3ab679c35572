import Onvm.Types

/-! Ids as text: `hex::decode`, and the readers of `types.rs` over `parse_prefixed_hex_id`, which cuts
the trimmed text at byte 4. -/

namespace Onvm

open ByteString

structure BlobId where
  bytes : Bytes32
deriving DecidableEq

def BlobId.toObjectId (b : BlobId) : ObjectId := ⟨b.bytes⟩

/-- Unicode white space, as `str::trim` removes it. -/
def isWhiteSpace (c : Char) : Bool :=
  let k := c.toNat
  (9 ≤ k && k ≤ 13) || k == 0x20 || k == 0x85 || k == 0xA0 || k == 0x1680 || (0x2000 ≤ k && k ≤ 0x200A) ||
    k == 0x2028 || k == 0x2029 || k == 0x202F || k == 0x205F || k == 0x3000

def trim (cs : List Char) : List Char :=
  ((cs.dropWhile isWhiteSpace).reverse.dropWhile isWhiteSpace).reverse

def hexValue (c : Char) : Option Nat :=
  let k := c.toNat
  if 48 ≤ k ∧ k ≤ 57 then some (k - 48)
  else if 97 ≤ k ∧ k ≤ 102 then some (k - 87)
  else if 65 ≤ k ∧ k ≤ 70 then some (k - 55)
  else none

def hexDecode : List Char → Option Bytes
  | [] => some []
  | [_] => none
  | a :: b :: cs => do
    let hi ← hexValue a
    let lo ← hexValue b
    let rest ← hexDecode cs
    some (UInt8.ofNat (16 * hi + lo) :: rest)

def hexDecodeBytes (text : Bytes) : Option Bytes := hexDecode (text.map fun b => Char.ofNat b.toNat)

inductive IdPrefix
  | blob
  | program
deriving DecidableEq

/-- `get(..n)` and `get(n..)`: the text cut at a byte offset, if that does not split a character. -/
def byteSplit : Nat → List Char → Option (List Char × List Char)
  | 0, cs => some ([], cs)
  | _ + 1, [] => none
  | n + 1, c :: cs =>
    if c.utf8Size ≤ n + 1 then (byteSplit (n + 1 - c.utf8Size) cs).map fun r => (c :: r.1, r.2) else none

/-- `hex::decode` of the bytes of a text. -/
def decodeHex (cs : List Char) : Option Bytes := hexDecodeBytes (cs.flatMap String.utf8EncodeChar)

def IdPrefix.text : IdPrefix → List Char
  | blob => ['b', 'l', 'o', 'b']
  | program => ['p', 'r', 'o', 'g']

namespace IdText

def findPrefix (trimmed : List Char) : Option IdPrefix × List Char :=
  match byteSplit 4 trimmed with
  | some (candidate, rest) =>
    if candidate.map Char.toLower = IdPrefix.blob.text then (some .blob, rest)
    else if candidate.map Char.toLower = IdPrefix.program.text then (some .program, rest)
    else (none, trimmed)
  | none => (none, trimmed)

variable (hexError : List Char → String)

def parsePrefixedHexId (input : String) : Except String (Option IdPrefix × Bytes32) :=
  let trimmed := trim input.toList
  if trimmed.isEmpty then .error "id cannot be empty"
  else
    let found := findPrefix trimmed
    let hexPart := trim found.2
    match decodeHex hexPart with
    | none => .error ("invalid hex: " ++ hexError hexPart)
    | some bytes =>
      if h : bytes.length = 32 then .ok (found.1, ⟨bytes, h⟩)
      else .error ("invalid id length: expected 32 bytes, got " ++ toString bytes.length)

def parseUnless (other : IdPrefix) (message : String) (input : String) : Except String Bytes32 :=
  match parsePrefixedHexId hexError input with
  | .error e => .error e
  | .ok (found, bytes) => if found = some other then .error message else .ok bytes

def parseBlobIdStr (input : String) : Except String BlobId :=
  (parseUnless hexError .program "expected blob id, got program id prefix" input).map BlobId.mk

def parseProgramIdStr (input : String) : Except String ProgramId :=
  (parseUnless hexError .blob "expected program id, got blob id prefix" input).map ProgramId.mk

end IdText

end Onvm
