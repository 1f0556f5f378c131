import Panackelty.Text

/-!
# Problems of the package tool

`packages/diagnostic.panack`: a problem is data until it is shown.  The code says where it was
detected, and the phase, the reason and the help follow from the code unless the place of detection
knows better.  Fixed texts are given as they are; the values that come from packages are bytes.
-/

namespace Panackelty.Packages

/-- The codes of the problems that unpacking and checking a package can report. -/
inductive ProblemCode where
  | archiveInvalid
  | archiveIncomplete
  | archiveUnsupported
  | archivePathInvalid
  | archivePathConflict
  | archiveMetadataLimit
  | archiveNumberLimit
  | archiveEntryLimit
  | archiveHeaderLimit
  | filesystem
  | manifestMissing
  deriving DecidableEq

/-- `ProblemContext`. -/
structure ProblemContext where
  label : String
  value : Bytes
  deriving DecidableEq

/-- `PackageProblem`; its code decides about the texts. -/
structure PackageProblem where
  code : ProblemCode
  message : String
  phase : String
  reason : String
  help : String
  contexts : List ProblemContext
  deriving DecidableEq

/-- `manifest_specification`. -/
def manifestSpecification : String :=
  "https://github.com/sproates/panackelty/blob/main/docs/design/MODULE_PACKAGE_DESIGN.md" ++
    "#package-roots-manifest-and-source-distribution"

namespace ProblemCode

/-- The phase in which a code is detected. -/
def phase : ProblemCode → String
  | filesystem => "accessing files"
  | manifestMissing => "finding panack.json"
  | archiveInvalid | archiveIncomplete | archiveUnsupported | archivePathInvalid
  | archivePathConflict | archiveMetadataLimit | archiveNumberLimit | archiveEntryLimit |
      archiveHeaderLimit =>
    "unpacking the archive"

/-- The reason that a code gives. -/
def reason : ProblemCode → String
  | archiveUnsupported =>
    "Panack accepts POSIX ustar archives containing ordinary files, directories and supported " ++
      "per-file PAX metadata."
  | archivePathInvalid | archivePathConflict =>
    "Panack cannot create a portable package directory from the reported paths."
  | archiveMetadataLimit => "PAX metadata describes an archive entry."
  | archiveNumberLimit | archiveEntryLimit | archiveHeaderLimit =>
    "Panack has stopped extraction because the reported archive limit was exceeded."
  | filesystem => "The required filesystem operation failed."
  | manifestMissing =>
    "Panack needs panack.json to read the package's name, version and dependencies."
  | archiveInvalid | archiveIncomplete => "Panack has stopped extraction."

/-- The help that a code gives. -/
def help : ProblemCode → String
  | archiveUnsupported =>
    "If you maintain this package, recreate the archive using the supported format and entries. " ++
      "Otherwise, ask the package maintainer for a compatible archive."
  | archivePathInvalid | archivePathConflict =>
    "If you maintain this package, correct the reported paths and recreate the archive. " ++
      "Otherwise, ask the package maintainer for a corrected archive."
  | archiveMetadataLimit =>
    "Ask the package maintainer to reduce that metadata and recreate the archive."
  | archiveNumberLimit | archiveEntryLimit | archiveHeaderLimit =>
    "If you maintain this package, reduce the reported value or count and recreate the archive. " ++
      "Otherwise, ask the package maintainer for an archive within Panack's limits."
  | filesystem =>
    "Correct the reported filesystem problem, then retry your command. Check access using the " ++
      "account running Panack."
  | manifestMissing =>
    "Check the dependency path in the declaring manifest. If the path is wrong, correct the " ++
      "path. If the path is right, restore the missing panack.json or obtain a complete copy of " ++
      "the package."
  | archiveInvalid | archiveIncomplete =>
    "Obtain a valid copy of the archive and retry your command. If a fresh copy produces the " ++
      "same error, ask the package maintainer to recreate the archive. A replacement must still " ++
      "match the checksums in an existing lockfile."

end ProblemCode

/-- `package_problem`. -/
def packageProblem (code : ProblemCode) (message : String) : PackageProblem :=
  ⟨code, message, code.phase, code.reason, code.help, []⟩

/-- `explain_problem`. -/
def explainProblem (problem : PackageProblem) (reason help : String) : PackageProblem :=
  { problem with reason, help }

/-- `problem_label`: the latest label comes first. -/
def problemLabel (problem : PackageProblem) (label : String) (value : Bytes) : PackageProblem :=
  { problem with contexts := ⟨label, value⟩ :: problem.contexts }

/-- The codes of the host errors of files and stages. -/
inductive HostCode where
  | invalidPath
  | invalidParent
  | filesystemError
  deriving DecidableEq

/-- `host_detail`. -/
def hostDetail : HostCode → String
  | .invalidPath => "the path is not valid for this operation (invalid_path)"
  | .invalidParent => "the parent directory could not be opened safely (invalid_parent)"
  | .filesystemError =>
    "the filesystem operation failed; no more specific cause was reported (filesystem_error)"

/-- `archive_problem`. -/
def archiveProblem (code : ProblemCode) (detail : String) : PackageProblem :=
  packageProblem code ("Cannot unpack the archive because " ++ detail ++ ".")

end Panackelty.Packages
