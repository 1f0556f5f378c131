import Panackelty.Packages.Stage

/-!
# Unpacking an archive

`packages/tar_stream.panack`: the archive comes in pieces, and what has been read of it so far is a
`TarStream`.  A piece is read in rounds; a round takes bytes for the header, the metadata, the file
or the padding that the stream is in.  The folder of `packages/case_fold.panack` is a parameter: its
table of case mappings is data, and nothing here depends on what it maps.

A problem ends the unpacking and the stage is removed, so a round that fails returns no stage.
-/

namespace Panackelty.Packages

/-! ## Case folding -/

/-- `CaseFolder`. -/
structure CaseFolder where
  keys : List Bytes
  values : List Bytes
  deriving DecidableEq

/-- The characters of a text, each with its bytes. -/
def textCharacters (text : Bytes) : List Bytes :=
  (text.foldr (fun b (pending, done) =>
    if b.toNat &&& 0xc0 = 0x80 then (b :: pending, done) else ([], (b :: pending) :: done))
    (([] : Bytes), ([] : List Bytes))).2

/-- The search of `fold_path` for the first key that is not below the character. -/
def foldSearch (keys : List Bytes) (character : Bytes) : ℕ → ℕ → ℕ → ℕ
  | 0, low, _ => low
  | fuel + 1, low, high =>
    if low < high then
      let middle := (low + high) / 2
      if keys.getD middle [] < character then foldSearch keys character fuel (middle + 1) high
      else foldSearch keys character fuel low middle
    else low

/-- One character of `fold_path`. -/
def foldCharacter (folder : CaseFolder) (character : Bytes) : Bytes :=
  let low := foldSearch folder.keys character folder.keys.length 0 folder.keys.length
  if low < folder.keys.length ∧ folder.keys.getD low [] = character then folder.values.getD low []
  else character

/-- `fold_path`. -/
def foldPath (folder : CaseFolder) (value : Bytes) : Bytes :=
  (textCharacters value).flatMap (foldCharacter folder)

/-! ## The index of an archive -/

/-- `ArchiveEntry`. -/
structure ArchiveEntry where
  path : Bytes
  size : ℕ
  directory : Bool
  explicit : Bool
  deriving DecidableEq

/-- `ArchiveIndex`. -/
structure ArchiveIndex where
  entries : List ArchiveEntry
  keys : List (Bytes × ℕ)
  folder : CaseFolder
  deriving DecidableEq

/-- `path.from_text`. -/
def pathFromText (value : Bytes) : Option Bytes :=
  if value = [] ∨ 0 ∈ value then none else some value

/-- What a new entry puts into the stage: a directory, an empty file, or nothing yet. -/
def createEntry (stage : Stage) (name : Bytes) (size : ℕ) (directory : Bool) :
    Except PackageProblem Stage :=
  match pathFromText name with
  | none =>
    .error (archiveProblem .archivePathInvalid
      "an archive path cannot be represented on this system")
  | some relative =>
    let created :=
      if directory then stageDirectory stage relative
      else if size = 0 then stageWrite stage relative [] 0
      else .ok stage
    created.mapError fun code =>
      problemLabel (packageProblem .filesystem
        ("Cannot create an archive entry in the temporary package directory: " ++ hostDetail code))
        "Archive entry" name

/-- `add_archive_entry`. -/
def addArchiveEntry (stage : Stage) (index : ArchiveIndex) (name : Bytes) (size : ℕ)
    (directory explicit : Bool) : Except PackageProblem (ArchiveIndex × Stage) :=
  let key := foldPath index.folder name
  match index.keys.lookup key with
  | some position =>
    let entry := index.entries.getD position ⟨[], 0, false, false⟩
    if entry.path ≠ name then
      .error (problemLabel (problemLabel (archiveProblem .archivePathConflict
        "two archive paths differ only in letter case") "First archive path" entry.path)
        "Conflicting archive path" name)
    else if entry.directory ≠ directory then
      .error (problemLabel (archiveProblem .archivePathConflict
        "the archive uses the same path for both a file and a directory") "Archive entry" name)
    else if !entry.directory || (entry.explicit && explicit) then
      .error (problemLabel (archiveProblem .archivePathConflict
        "the archive contains the same path more than once") "Archive entry" name)
    else if explicit && !entry.explicit then
      .ok ({ index with entries := index.entries.set position ⟨name, size, directory, true⟩ },
        stage)
    else .ok (index, stage)
  | none =>
    if index.entries.length ≥ 16384 then
      .error (archiveProblem .archiveEntryLimit <|
        "the files and directories, including implicit parent directories, " ++
        "exceed Panack's limit of 16,384 filesystem entries")
    else
      match createEntry stage name size directory with
      | .error problem => .error problem
      | .ok stage =>
        .ok ({ index with
          entries := index.entries ++ [⟨name, size, directory, explicit⟩]
          keys := (key, index.entries.length) :: index.keys }, stage)

/-- The paths of the directories that a path lies in, the outermost first. -/
def parents (path : Bytes) : List Bytes :=
  ((List.range path.length).filter fun index => path.getD index 0 == 47).map path.take

/-- The loop of `prepare_archive_entry` over the directories of the entry. -/
def addParents (stage : Stage) (index : ArchiveIndex) :
    List Bytes → Except PackageProblem (ArchiveIndex × Stage)
  | [] => .ok (index, stage)
  | parent :: rest =>
    match addArchiveEntry stage index parent 0 true false with
    | .error problem => .error problem
    | .ok (index, stage) => addParents stage index rest

/-- `prepare_archive_entry`. -/
def prepareArchiveEntry (stage : Stage) (index : ArchiveIndex) (header : TarHeader) :
    Except PackageProblem (ArchiveIndex × Stage) :=
  match addParents stage index (parents header.path) with
  | .error problem => .error problem
  | .ok (index, stage) =>
    addArchiveEntry stage index header.path header.size (header.kind == .directory) true

/-! ## The stream -/

/-- What the next bytes are. -/
inductive TarMode where
  | header
  | pax
  | file
  | padding
  | finished
  deriving DecidableEq

/-- `TarStream`. -/
structure TarStream where
  index : ArchiveIndex
  mode : TarMode
  buffer : Bytes
  current : TarHeader
  remaining : ℕ
  padding : ℕ
  headers : ℕ
  zeroHeaders : ℕ
  pax : Option PaxHeader
  rootSeen : Bool
  deriving DecidableEq

/-- `tar_stream_new`. -/
def tarStreamNew (folder : CaseFolder) : TarStream :=
  ⟨⟨[], [], folder⟩, .header, [], ⟨[], 0, .file⟩, 0, 0, 0, 0, none, false⟩

/-- What a header is for, once the metadata before it is applied. -/
def effectiveHeader (pax : Option PaxHeader) (header : TarHeader) : TarHeader :=
  match pax with
  | none => header
  | some metadata => ⟨metadata.path.getD header.path, metadata.size.getD header.size, header.kind⟩

/-- The directory that the archive itself is. -/
def isRoot (header : TarHeader) : Bool :=
  header.kind == .directory &&
    (header.path == Str.asciiBytes "." || header.path == Str.asciiBytes "./")

/-- The data of the entry is to come, where there is any. -/
def TarStream.expect (state : TarStream) (mode : TarMode) (header : TarHeader) : TarStream :=
  { state with
    mode := if header.size = 0 then .header else mode
    current := header
    remaining := header.size
    padding := (512 - header.size % 512) % 512 }

/-- A header that describes a file or a directory. -/
def takeEntry (stage : Stage) (state : TarStream) (header : TarHeader) :
    Except PackageProblem (TarStream × Stage) :=
  if isRoot header then
    if state.rootSeen then
      .error (archiveProblem .archivePathConflict
        "the archive lists its top-level directory more than once")
    else if header.size ≠ 0 then
      .error (archiveProblem .archiveInvalid "the top-level directory entry contains file data")
    else .ok ({ state with rootSeen := true }.expect .header header, stage)
  else
    match tarNormalizePath header.path with
    | .error problem => .error problem
    | .ok name =>
      if header.kind = .directory ∧ header.size ≠ 0 then
        .error (archiveProblem .archiveInvalid
          "the archive contains file data for an entry marked as a directory")
      else
        match prepareArchiveEntry stage state.index { header with path := name } with
        | .error problem => .error problem
        | .ok (index, stage) =>
          .ok ({ state with index }.expect .file { header with path := name }, stage)

/-- A header that is not empty. -/
def takeHeader (stage : Stage) (state : TarStream) (header : TarHeader) :
    Except PackageProblem (TarStream × Stage) :=
  if header.kind = .pax then
    if state.pax ≠ none then
      .error (archiveProblem .archiveInvalid <|
        "a PAX metadata entry is followed by another metadata entry " ++
        "instead of the file it describes")
    else if header.size > 65536 then
      .error (archiveProblem .archiveMetadataLimit
        "a PAX metadata entry exceeds Panack's 64 KiB limit")
    else if header.size = 0 then
      .error (archiveProblem .archiveInvalid "a PAX metadata entry is empty")
    else .ok (state.expect .pax header, stage)
  else takeEntry stage { state with pax := none } (effectiveHeader state.pax header)

/-- A block of 512 bytes where a header is expected. -/
def takeBlock (stage : Stage) (state : TarStream) (block : Bytes) :
    Except PackageProblem (TarStream × Stage) :=
  if tarZero block then
    .ok ({ state with
      buffer := []
      zeroHeaders := state.zeroHeaders + 1
      mode := if state.zeroHeaders + 1 = 2 then .finished else .header }, stage)
  else if state.zeroHeaders ≠ 0 then
    .error (archiveProblem .archiveIncomplete
      "the end marker is incomplete; two empty 512-byte blocks are required")
  else if state.headers ≥ 16384 then
    .error (archiveProblem .archiveHeaderLimit
      "the archive exceeds Panack's limit of 16,384 tar headers")
  else
    match parseTarHeader block with
    | .error problem => .error problem
    | .ok header =>
      takeHeader stage { state with buffer := [], headers := state.headers + 1 } header

/-- A piece of the file that is being read. -/
def writePiece (stage : Stage) (current : TarHeader) (offset : ℕ) (piece : Bytes) :
    Except PackageProblem Stage :=
  match pathFromText current.path with
  | none =>
    .error (archiveProblem .archivePathInvalid
      "an archive entry path cannot be represented on this system")
  | some relative =>
    (stageWrite stage relative piece offset).mapError fun code =>
      problemLabel (packageProblem .filesystem
        ("Cannot write an extracted package file: " ++ hostDetail code)) "Archive entry"
          current.path

/-- Where the stream is after the data of an entry. -/
def TarStream.afterData (state : TarStream) : TarStream :=
  { state with mode := if state.padding = 0 then .header else .padding }

/-- One round of `tar_stream_feed`: the stream, the stage and the input that is left. -/
def feedStep (stage : Stage) (state : TarStream) (input : Bytes) :
    Except PackageProblem (TarStream × Stage × Bytes) :=
  match state.mode with
  | .finished =>
    if !tarZero input then
      .error (archiveProblem .archiveInvalid
        "the archive contains unexpected data after its end marker")
    else .ok (state, stage, [])
  | .header =>
    let needed := 512 - state.buffer.length
    let buffer := state.buffer ++ input.take needed
    let rest := input.drop needed
    if buffer.length = 512 then
      match takeBlock stage state buffer with
      | .error problem => .error problem
      | .ok (state, stage) => .ok (state, stage, rest)
    else .ok ({ state with buffer }, stage, rest)
  | .padding =>
    let piece := input.take state.padding
    if !tarZero piece then
      .error (archiveProblem .archiveInvalid
        "the archive contains nonzero data where padding is required")
    else
      let padding := state.padding - piece.length
      .ok ({ state with padding, mode := if padding = 0 then .header else .padding }, stage,
        input.drop state.padding)
  | .pax =>
    let piece := input.take state.remaining
    let rest := input.drop state.remaining
    let remaining := state.remaining - piece.length
    if remaining = 0 then
      match parsePax (state.buffer ++ piece) with
      | .error problem => .error problem
      | .ok metadata =>
        .ok (TarStream.afterData { state with buffer := [], remaining, pax := some metadata },
          stage,
          rest)
    else .ok ({ state with buffer := state.buffer ++ piece, remaining }, stage, rest)
  | .file =>
    let piece := input.take state.remaining
    let rest := input.drop state.remaining
    match writePiece stage state.current (state.current.size - state.remaining) piece with
    | .error problem => .error problem
    | .ok stage =>
      let remaining := state.remaining - piece.length
      if remaining = 0 then .ok (TarStream.afterData { state with remaining }, stage, rest)
      else .ok ({ state with remaining }, stage, rest)

/-- The loop of `tar_stream_feed`.  Every round takes a byte. -/
def feedLoop : ℕ → Stage → TarStream → Bytes → Except PackageProblem (TarStream × Stage)
  | 0, stage, state, _ => .ok (state, stage)
  | fuel + 1, stage, state, input =>
    if input = [] then .ok (state, stage)
    else
      match feedStep stage state input with
      | .error problem => .error problem
      | .ok (state, stage, rest) => feedLoop fuel stage state rest

/-- `tar_stream_feed`. -/
def tarStreamFeed (stage : Stage) (state : TarStream) (input : Bytes) :
    Except PackageProblem (TarStream × Stage) :=
  feedLoop input.length stage state input

/-- The manifest is there, as a file. -/
def hasManifest (entries : List ArchiveEntry) : Bool :=
  entries.any fun entry => entry.path == Str.asciiBytes "panack.json" && !entry.directory

/-- `tar_stream_finish`. -/
def tarStreamFinish (state : TarStream) : Except PackageProblem (List ArchiveEntry) :=
  if state.pax ≠ none then
    .error (archiveProblem .archiveInvalid
      "the archive ends with PAX metadata that has no following file")
  else if state.mode ≠ .finished then
    .error (archiveProblem .archiveIncomplete
      "the archive ended before its contents and end marker were complete")
  else if hasManifest state.index.entries then .ok state.index.entries
  else
    .error (explainProblem (packageProblem .manifestMissing
      "Cannot use the archive because the archive has no panack.json at its top level.")
      ("Panack expects panack.json at the archive's top level, " ++
        "alongside the package's source directory.")
      ("If you maintain this package, recreate the archive with that layout. " ++
      "Otherwise, ask the package maintainer for a corrected archive.\n\n" ++
      "See the package manifest specification:\n"
        ++ manifestSpecification))

/-- The pieces of an archive, one after the other. -/
def feedAll : Stage → TarStream → List Bytes → Except PackageProblem (TarStream × Stage)
  | stage, state, [] => .ok (state, stage)
  | stage, state, piece :: pieces =>
    match tarStreamFeed stage state piece with
    | .error problem => .error problem
    | .ok (state, stage) => feedAll stage state pieces

/-- An archive that comes in these pieces: its entries and what is in the stage. -/
def unpack (folder : CaseFolder) (pieces : List Bytes) :
    Except PackageProblem (List ArchiveEntry × Stage) :=
  match feedAll [] (tarStreamNew folder) pieces with
  | .error problem => .error problem
  | .ok (state, stage) =>
    match tarStreamFinish state with
    | .error problem => .error problem
    | .ok entries => .ok (entries, stage)

end Panackelty.Packages
