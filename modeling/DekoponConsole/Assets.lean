/-
  The asset inventory of one agent entry (`session/assets.rs`).

  The byte total and the ids are machine integers: `bytes` wraps at `2 ^ 64` as
  `usize` does (`wrappingAdd`, `wrappingSub`), and the id counter refuses to.
  What the inventory asks of a blob outside it (whether it is pinned, whether
  it could be created) is an argument of the operation.
-/
import DekoponConsole.External

namespace DekoponConsole

def maxBytes : ℕ := 64 * 1024 * 1024
def maxItems : ℕ := 16
def maxEncoded : ℕ := 1024 * 1024
def maxDecoded : ℕ := 512 * 1024

/-- `usize` addition. -/
def wrappingAdd (a b : ℕ) : ℕ := (a + b) % u64Size

/-- `usize` subtraction. -/
def wrappingSub (a b : ℕ) : ℕ := (a + (u64Size - b % u64Size)) % u64Size

/-- `u64::checked_add`. -/
def checkedAdd (a b : ℕ) : Option ℕ := if a + b < u64Size then some (a + b) else none

structure Inventory where
  nextId : ℕ
  bytes : ℕ
  items : Std.TreeMap ℕ (AssetRow × DiskBlob)

def Inventory.default : Inventory := ⟨0, 0, ∅⟩

namespace Inventory

/-- `ConsoleAssets::insert`. -/
def insert (inv : Inventory) (blob : DiskBlob) (contentType : String) (encoding : AssetEncoding)
    (origin : String) : Except BlobError ℕ × Inventory :=
  let len := blob.len
  if inv.items.size ≥ maxItems || len > maxBytes || inv.bytes > maxBytes - len then
    (.error .capacity, inv)
  else
    match checkedAdd inv.nextId 1 with
    | none => (.error .capacity, inv)
    | some id =>
      (.ok id, {
        nextId := id
        bytes := wrappingAdd inv.bytes len
        items := inv.items.insert id ({
          id := id
          contentType := contentType
          encoding := encoding
          bytes := some len
          origin := origin
          sent := false }, blob) })

/-- A character of either part of a MIME type. -/
def isMimeChar (c : Char) : Bool :=
  c.isAlphanum || ['!', '#', '$', '&', '^', '_', '.', '+', '-'].contains c

/-- The `valid_mime` test of `attach_base64`. -/
def validMime (mime : String) : Bool :=
  byteLen mime.toList ≤ 127 && !mime.toList.isEmpty &&
    mime.toList.all (fun c => c.toNat < 0x80) &&
    match splitOnce mime '/' with
    | some (kind, subtype) =>
      !kind.toList.isEmpty && !subtype.toList.isEmpty &&
        (kind.toList ++ subtype.toList).all isMimeChar
    | none => false

/-- `ConsoleAssets::attach_base64`; `create` is the answer of
    `DiskBlob::from_bytes`. -/
def attachBase64 (exts : Externals) (create : List UInt8 → Except BlobError DiskBlob)
    (inv : Inventory) (mime encoded : String) : Except String ℕ × Inventory :=
  if !validMime mime then (.error "invalid MIME type", inv)
  else if byteLen encoded.toList > maxEncoded then (.error "encoded asset exceeds 1 MiB", inv)
  else
    match exts.base64Decode encoded with
    | .error error => (.error ("invalid standard base64: " ++ error), inv)
    | .ok bytes =>
      if bytes.length > maxDecoded then (.error "decoded asset exceeds 512 KiB", inv)
      else
        match create bytes with
        | .error error => (.error (exts.blobErrorToString error), inv)
        | .ok blob =>
          let r := inv.insert blob mime .identity "console"
          (r.1.mapError exts.blobErrorToString, r.2)

/-- `fetch_for_capability`; `none` is the refusal `UnknownAsset`. -/
def fetchForCapability (inv : Inventory) (id : ℕ) : Option (String × DiskBlob) :=
  inv.items[id]?.map fun item => (item.1.contentType, item.2)

/-- `ChatAssetSource::rows`. -/
def rows (inv : Inventory) : List AssetRow := inv.items.toList.map fun item => item.2.1

/-- `GeneratedAssetStore::register`; `descriptor` is the answer of
    `DiskBlob::from_descriptor`. -/
def register (descriptor : Except BlobError DiskBlob) (inv : Inventory) (metadata : NewAsset) :
    Except BlobError ℕ × Inventory :=
  if metadata.bytes > maxBytes then (.error .tooLarge, inv)
  else
    match descriptor with
    | .error error => (.error error, inv)
    | .ok blob => inv.insert blob metadata.contentType metadata.encoding "provider"

/-- `GeneratedAssetStore::remove`; `pinned` is the blob's `is_pinned`. -/
def remove (pinned : DiskBlob → Bool) (inv : Inventory) (id : ℕ) :
    Except BlobError Unit × Inventory :=
  match inv.items[id]? with
  | none => (.error .unknown, inv)
  | some (_, blob) =>
    if pinned blob then (.error .capacity, inv)
    else
      match inv.items[id]? with
      | none => (.error .unknown, inv)
      | some (_, blob) =>
        (.ok (), {
          inv with
          bytes := wrappingSub inv.bytes blob.len
          items := inv.items.erase id })

end Inventory

end DekoponConsole
