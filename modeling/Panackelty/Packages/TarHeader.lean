import Panackelty.Packages.Problem

/-!
# Tar headers

`packages/tar_header.panack`: the fields of a 512-byte header, PAX records, and the paths that an
archive may use.  Text is given by its UTF-8 bytes; the characters that the code looks for are
ASCII, so that a test on characters is a test on bytes. -/

namespace Panackelty.Packages

open Str

/-- The kinds of entries. -/
inductive TarKind where
  | file
  | directory
  | pax
  deriving DecidableEq

/-- `TarHeader`. -/
structure TarHeader where
  path : Bytes
  size : ℕ
  kind : TarKind
  deriving DecidableEq

/-- `byte_buffer.slice`. -/
def tarSlice (data : Bytes) (start stop : ℕ) : Bytes := (data.take stop).drop start

/-- `tar_zero`. -/
def tarZero (data : Bytes) : Bool := data.all fun b => b == 0

/-- `data.at(index)` of a block. -/
def tarByte (data : Bytes) (index : ℕ) : ℕ := (data.getD index 0).toNat

/-- `tar_text`: a field that ends with its first zero byte and has only zeros after it. -/
def tarText (data : Bytes) (start stop : ℕ) (field : String) : Except PackageProblem Bytes :=
  let text := tarSlice data start stop
  let value := text.takeWhile fun b => b != 0
  if !tarZero (text.drop value.length) then
    .error (problemLabel (archiveProblem .archiveInvalid
      "a tar header contains unexpected data after the end of a text field")
      "Archive field" (asciiBytes field))
  else if !validUtf8 value then
    .error (problemLabel (archiveProblem
      (if field = "format identifier" then .archiveInvalid else .archivePathInvalid)
      "an archive header's text field is not valid UTF-8 text")
      "Archive field" (asciiBytes field))
  else .ok value

/-- The loop of `tar_number`. -/
def tarDigits (base : ℕ) : Bytes → ℕ → Bool → Bool → Except PackageProblem ℕ
  | [], value, _, _ => .ok value
  | b :: rest, value, began, ended =>
    if b.toNat = 0 ∨ b.toNat = 32 then tarDigits base rest value began (ended || began)
    else if 48 ≤ b.toNat ∧ b.toNat < 48 + base ∧ ended = false then
      if value * base + (b.toNat - 48) > 268435456 then
        .error (archiveProblem .archiveNumberLimit
          "a numeric archive field exceeds Panack's supported maximum of 268435456")
      else tarDigits base rest (value * base + (b.toNat - 48)) true ended
    else
      .error (archiveProblem .archiveInvalid "an archive number contains invalid digits or spacing")

/-- `tar_number`. -/
def tarNumber (data : Bytes) (start stop base : ℕ) : Except PackageProblem ℕ :=
  tarDigits base (tarSlice data start stop) 0 false false

/-! ## Paths -/

/-- `PackagePathProblem`. -/
structure PackagePathProblem where
  message : String
  correction : String
  deriving DecidableEq

/-- The segments between the slashes of a path. -/
def segments (path : Bytes) : List Bytes := path.splitOn 47

/-- The last of the bytes that no path may have, with its problem. -/
def forbiddenByte (value : Bytes) : Option PackagePathProblem :=
  value.foldl (fun found b =>
    if b.toNat = 0 then
      some ⟨"the path contains a NUL character", "Remove the NUL character from the path."⟩
    else if b.toNat = 92 then
      some ⟨"the path uses a backslash", "Use forward slashes between directory names."⟩
    else if b.toNat = 58 then
      some ⟨"the path contains a colon",
        "Rename the path without the colon and update references to that path."⟩
    else found) none

/-- What is wrong with a path before its segments are joined; a later test replaces the problem of
an earlier one. -/
def pathProblem (value : Bytes) : Option PackagePathProblem :=
  if (segments value).contains (asciiBytes "..") then
    some ⟨"the path contains a parent-directory component ('..')",
      "Use paths relative to the package directory without parent-directory components ('..')."⟩
  else
    match forbiddenByte value with
    | some problem => some problem
    | none =>
      if value = [] then some ⟨"the path is empty", "Give each entry a valid relative path."⟩
      else if value.head? = some 47 then
        some ⟨"the path is absolute",
          "Use paths relative to the package directory instead of absolute paths."⟩
      else none

/-- The segments that stay: not empty and not a single dot. -/
def keptSegments (value : Bytes) : List Bytes :=
  (segments value).filter fun segment => segment != [] && segment != asciiBytes "."

/-- `normalize_package_path`. -/
def normalizePackagePath (value : Bytes) : Except PackagePathProblem Bytes :=
  match pathProblem value with
  | some problem => .error problem
  | none =>
    let result := [47].intercalate (keptSegments value)
    if result = [] then
      .error ⟨"the path does not name a file or directory",
        "Give each entry a valid relative path."⟩
    else if result.length > 4096 then
      .error ⟨"the path exceeds Panack's 4096-byte limit",
        "Shorten the path and update references to that path."⟩
    else .ok result

/-- `tar_normalize_path`. -/
def tarNormalizePath (value : Bytes) : Except PackageProblem Bytes :=
  match normalizePackagePath value with
  | .ok normalized => .ok normalized
  | .error problem =>
    .error (problemLabel (explainProblem (archiveProblem .archivePathInvalid problem.message) ""
      (problem.correction ++
        " Recreate the archive after correcting the path. " ++
        "If you do not maintain this package, ask the package maintainer for a corrected archive."))
      "Archive entry" value)

/-! ## Headers -/

/-- The name of a header, after its prefix. -/
def joinPrefix (start name : Bytes) : Bytes := if start = [] then name else start ++ 47 :: name

/-- The name of an entry type that is not supported. -/
def entryDescription (kind : ℕ) : String :=
  if kind = 49 then "hard link"
  else if kind = 50 then "symbolic link"
  else if kind = 51 then "character device"
  else if kind = 52 then "block device"
  else if kind = 54 then "FIFO (named pipe)"
  else if kind = 103 then "global PAX metadata"
  else if kind = 76 then "GNU long filename"
  else if kind = 75 then "GNU long link target"
  else "unrecognised type byte " ++ toString kind

/-- `unsupported_entry`. -/
def unsupportedEntry (data : Bytes) (kind : ℕ) : PackageProblem :=
  let problem := problemLabel (archiveProblem .archiveUnsupported
    "the archive contains an unsupported entry type") "Tar entry type"
    (asciiBytes (entryDescription kind))
  match tarText data 0 100 "filename", tarText data 345 500 "filename prefix" with
  | .ok name, .ok start => problemLabel problem "Archive entry" (joinPrefix start name)
  | _, _ => problem

/-- The checksum of the bytes of a header counts the field that holds it as spaces. -/
def tarChecksum (data : Bytes) : ℕ :=
  (data.zipIdx.map fun (byte, index) => if 148 ≤ index ∧ index < 156 then 32 else byte.toNat).sum

/-- The kind of a type byte. -/
def tarKind (typeByte : ℕ) : Option TarKind :=
  if typeByte = 0 ∨ typeByte = 48 then some .file
  else if typeByte = 53 then some .directory
  else if typeByte = 120 then some .pax
  else none

/-- A problem of a numeric field names the field. -/
def inField (field : String) (result : Except PackageProblem ℕ) : Except PackageProblem ℕ :=
  result.mapError fun problem => problemLabel problem "Archive field" (asciiBytes field)

/-- `parse_tar_header`. -/
def parseTarHeader (data : Bytes) : Except PackageProblem TarHeader := do
  if data.length ≠ 512 then
    throw (archiveProblem .archiveIncomplete "a tar header is incomplete")
  let expected ← inField "header checksum" (tarNumber data 148 156 8)
  if expected ≠ tarChecksum data then
    throw (archiveProblem .archiveInvalid "a tar header's checksum does not match the header data")
  let magic ← tarText data 257 263 "format identifier"
  if magic ≠ asciiBytes "ustar" then
    throw (archiveProblem .archiveUnsupported "the archive does not use a supported tar format")
  match tarKind (tarByte data 156) with
  | none => throw (unsupportedEntry data (tarByte data 156))
  | some kind =>
    let name ← tarText data 0 100 "filename"
    let start ← tarText data 345 500 "filename prefix"
    let size ← inField "entry size" (tarNumber data 124 136 8)
    if kind = .directory ∧ size ≠ 0 then
      throw (archiveProblem .archiveInvalid
        "the archive contains file data for an entry marked as a directory")
    return ⟨joinPrefix start name, size, kind⟩

/-! ## PAX records -/

/-- `PaxHeader`. -/
structure PaxHeader where
  path : Option Bytes
  size : Option ℕ
  deriving DecidableEq

/-- One record as the loop of `parse_pax` takes it: its field name, its value and the rest. -/
def paxRecord (data : Bytes) : Except PackageProblem (Bytes × Bytes × Bytes) := do
  let digits := data.takeWhile fun b => decide (48 ≤ b.toNat ∧ b.toNat ≤ 57)
  if digits = [] ∨ data.getD digits.length 0 ≠ 32 then
    throw (archiveProblem .archiveInvalid "a PAX metadata record has an invalid length")
  let length ← tarDigits 10 digits 0 false false
  if length < 4 ∨ length > data.length ∨ length ≤ digits.length + 1 then
    throw (archiveProblem .archiveInvalid
      "a PAX metadata record declares a length that does not fit its data")
  if tarByte data (length - 1) ≠ 10 then
    throw (archiveProblem .archiveInvalid
      "a PAX metadata record is missing its terminating newline")
  let text := tarSlice data (digits.length + 1) (length - 1)
  let key := text.takeWhile fun b => b != 61
  if key.length = text.length then
    throw (archiveProblem .archiveInvalid
      "a PAX metadata record is missing the '=' between its field name and value")
  let value := text.drop (key.length + 1)
  if !validUtf8 key || !validUtf8 value then
    throw (archiveProblem .archiveInvalid "PAX metadata contains text that is not valid UTF-8")
  return (key, value, data.drop length)

/-- The fields that are read and ignored. -/
def paxIgnored : List Bytes :=
  ["mtime", "atime", "ctime", "uid", "gid", "uname", "gname"].map asciiBytes

/-- What one record adds. -/
def paxField (seen : List Bytes) (header : PaxHeader) (key value : Bytes) :
    Except PackageProblem PaxHeader :=
  if seen.contains key then
    .error (problemLabel (archiveProblem .archiveInvalid "PAX metadata repeats a field name")
      "PAX field" key)
  else if key = asciiBytes "path" then .ok { header with path := some value }
  else if key = asciiBytes "size" then
    if value = [] || !value.all (fun b => decide (48 ≤ b.toNat ∧ b.toNat ≤ 57)) then
      .error (archiveProblem .archiveInvalid "the PAX size field must contain decimal digits only")
    else
      match tarDigits 10 value 0 false false with
      | .error problem => .error problem
      | .ok number => .ok { header with size := some number }
  else if paxIgnored.contains key then .ok header
  else
    .error (problemLabel (archiveProblem .archiveUnsupported
      "the archive uses an unsupported PAX metadata field") "PAX field" key)

/-- The loop of `parse_pax`; every record has at least four bytes. -/
def paxLoop : ℕ → Bytes → List Bytes → PaxHeader → Except PackageProblem PaxHeader
  | 0, _, _, header => .ok header
  | fuel + 1, data, seen, header =>
    if data = [] then .ok header
    else
      match paxRecord data with
      | .error problem => .error problem
      | .ok (key, value, rest) =>
        match paxField seen header key value with
        | .error problem => .error problem
        | .ok header => paxLoop fuel rest (key :: seen) header

/-- `parse_pax`. -/
def parsePax (data : Bytes) : Except PackageProblem PaxHeader :=
  (paxLoop data.length data [] ⟨none, none⟩).mapError fun problem =>
    explainProblem problem "PAX metadata describes the file that follows it in the archive."
      problem.help

end Panackelty.Packages
