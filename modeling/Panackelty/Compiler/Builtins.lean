import Panackelty.Builtins

/-!
# The compiler's tables of builtins

`is_builtin` of `compiler/resolver.panack`, `is_impure_builtin` of `compiler/purity.panack` and
`builtin_arity` of `compiler/checker.panack`: chains of comparisons of a name with literals, kept as
lists in the order of the source.
-/

namespace Panackelty.Compiler

/-- A name that is one of some literals. -/
def isOneOf (names : List BuiltinName) (name : Str) : Bool :=
  (BuiltinName.find name.bytes).any fun b => names.contains b

/-- The names of `is_builtin`. -/
def builtinNames : List BuiltinName :=
  [ .httpBytesSlice, .httpBody, .httpBodySize, .httpBodyAppend, .httpConnectionContinue,
    .httpListenOrdinary, .httpListenContextual, .httpClose, .httpDestroy, .httpConnectionWriter,
    .httpConnectionRoutes, .httpConnectionFallback, .httpConnectionAdmit, .httpConnectionInvoke,
    .httpWriterGetStatus, .httpWriterGetHeaders, .httpWriterReject, .httpWriterStatus,
    .httpWriterHeaders, .httpWriterCommit, .httpStateCreate, .httpStateContext,
    .httpStateSetupError, .httpStateFailSetup, .httpStateRegister, .asyncFakeRead, .tcpExchange,
    .httpTransportExchange, .tcpServe, .tcpService, .tcpServeStream, .tcpServerReadChunk,
    .fsReadBeneath, .hostArgumentsAsync, .hostStdoutAsync, .hostStderrAsync, .hostExitAsync,
    .fsReadBeneathAsync, .fsRootIdentityAsync, .fsDirectoriesOverlap, .fsRead, .fsWrite,
    .fsMetadata, .fsList, .fsCreateDirectory, .fsRemoveFile, .fsRemoveDirectory, .httpStreamOpen,
    .httpStreamRead, .httpStreamClose, .fsReadLink, .fsStageSymlink, .fsStageBegin, .fsStagePath,
    .fsStageDirectory, .fsStageWrite, .fsStagePublish, .fsStageClose, .digestSha256Open,
    .digestUpdate, .digestFinish, .digestClose, .gzipOpen, .gzipStep, .gzipClose, .fsReadChunk,
    .fsAtomicWrite, .fsTempFile, .fsTempDirectory, .hostDecodeUtf8, .hostSleep, .processRun,
    .processRunIsolated, .pathFromText, .pathFromNative, .pathToText, .pathNativeBytes,
    .pathDisplay, .pathAbsolute, .pathAppend, .pathDirectory, .pathFilename, .pathCurrent,
    .durationNanoseconds, .durationTicks, .durationFromSeconds, .instantNow, .instantAdd,
    .instantDifference, .instantBefore, .dollarUnit, .nat, .dec, .quotient, .print, .readLine,
    .readFile, .writeFile, .len, .append, .concat, .slice, .startsWith, .startsWithAt, .reverse,
    .isDigit, .isLetter, .isWhitespace, .map, .mapPut, .mapHas, .mapGet, .set, .setAdd, .setHas,
    .dollarIntrinsicCall, .dollarIntrinsicMap, .dollarIntrinsicReduce, .bytes, .byteAppend,
    .bytesConcat, .byteLen, .byteGet, .utf8Encode, .utf8Decode, .readBytes, .writeBytes,
    .natFromStr, .commandArgs, .environmentHas, .environmentGet, .eprint, .processExit,
    .pathResolve, .pathParent, .pathJoin, .pathSuffix, .pathWithSuffix, .pathIsAbsolute,
    .fileExists, .runBytecode, .runBytecodeArgs
  ]

/-- `is_builtin`. -/
def isBuiltin (name : Str) : Bool := isOneOf builtinNames name

/-- The names of `is_impure_builtin`. -/
def impureBuiltinNames : List BuiltinName :=
  [ .httpBody, .httpBodySize, .httpBodyAppend, .httpConnectionContinue, .httpListenOrdinary,
    .httpListenContextual, .httpClose, .httpDestroy, .httpConnectionWriter, .httpConnectionRoutes,
    .httpConnectionFallback, .httpConnectionAdmit, .httpConnectionInvoke, .httpWriterGetStatus,
    .httpWriterGetHeaders, .httpWriterReject, .httpWriterStatus, .httpWriterHeaders,
    .httpWriterCommit, .httpStateCreate, .httpStateSetupError, .httpStateFailSetup,
    .httpStateRegister, .asyncFakeRead, .tcpExchange, .httpTransportExchange, .tcpServe,
    .tcpService, .tcpServeStream, .tcpServerReadChunk, .fsReadBeneath, .hostArgumentsAsync,
    .hostStdoutAsync, .hostStderrAsync, .hostExitAsync, .fsReadBeneathAsync, .fsRootIdentityAsync,
    .fsDirectoriesOverlap, .fsRead, .fsWrite, .fsMetadata, .fsList, .fsCreateDirectory,
    .fsRemoveFile, .fsRemoveDirectory, .httpStreamOpen, .httpStreamRead, .httpStreamClose,
    .fsReadLink, .fsStageSymlink, .fsStageBegin, .fsStagePath, .fsStageDirectory, .fsStageWrite,
    .fsStagePublish, .fsStageClose, .digestSha256Open, .digestUpdate, .digestFinish, .digestClose,
    .gzipOpen, .gzipStep, .gzipClose, .fsReadChunk, .fsAtomicWrite, .fsTempFile, .fsTempDirectory,
    .hostSleep, .processRun, .processRunIsolated, .instantNow, .print, .readLine, .readFile,
    .writeFile, .readBytes, .writeBytes, .commandArgs, .environmentHas, .environmentGet, .eprint,
    .processExit, .pathResolve, .fileExists, .runBytecode, .runBytecodeArgs
  ]

/-- `is_impure_builtin`. -/
def isImpureBuiltin (name : Str) : Bool := isOneOf impureBuiltinNames name

/-- The first group that has the name gives the arity. -/
def arityOf : (groups : List (List BuiltinName × ℕ)) → (default : ℕ) → Str → ℕ
  | [], default, _ => default
  | (names, arity) :: groups, default, name =>
    if isOneOf names name then arity else arityOf groups default name

/-- `builtin_legacy_arity`: a name without a row has arity three. -/
def builtinLegacyArity (name : Str) : ℕ :=
  arityOf
    [ ([.fsReadChunk], 3), ([.fsAtomicWrite], 2), ([.digestSha256Open], 0), ([.digestUpdate], 2),
      ([.digestFinish], 1), ([.digestClose], 1), ([.httpStreamOpen], 6),
      ([.httpStreamRead, .httpStreamClose], 1), ([.gzipOpen], 1), ([.gzipStep], 3),
      ([.gzipClose], 1), ([.fsStageBegin], 1), ([.fsStagePath], 1), ([.fsStageDirectory], 2),
      ([.fsReadLink], 2), ([.fsStageSymlink], 3), ([.fsStageWrite], 4), ([.fsStagePublish], 3),
      ([.fsStageClose], 1), ([.httpTransportExchange, .dollarHttpTransportExchange], 6),
      ([.tcpServe, .dollarTcpServe], 4), ([.tcpExchange, .dollarTcpExchange], 5),
      ([.asyncFakeRead], 1), ([.fsReadBeneath, .fsReadBeneathAsync], 3),
      ([.fsRead, .fsDirectoriesOverlap], 2), ([.fsWrite], 2), ([.fsMetadata], 1), ([.fsList], 1),
      ([.fsCreateDirectory], 1), ([.fsRemoveFile], 1), ([.fsRemoveDirectory], 1),
      ([.fsTempFile], 1), ([.fsTempDirectory], 1), ([.hostDecodeUtf8], 1), ([.hostSleep], 1),
      ([.processRun, .processRunIsolated], 7),
      ([.pathFromText, .pathFromNative, .pathToText, .pathNativeBytes, .pathDisplay,
        .pathAbsolute, .pathDirectory, .pathFilename, .durationNanoseconds, .durationTicks,
        .durationFromSeconds], 1),
      ([.pathAppend, .instantAdd, .instantDifference, .instantBefore], 2),
      ([.pathCurrent, .instantNow], 0), ([.dollarUnit], 0), ([.nat, .dec], 1), ([.quotient], 2),
      ([.readLine, .map, .set, .bytes, .commandArgs], 0),
      ([.print, .readFile, .len, .reverse, .isDigit, .isLetter, .isWhitespace, .byteLen,
        .utf8Encode, .utf8Decode, .readBytes, .natFromStr, .environmentHas, .environmentGet,
        .eprint, .processExit, .pathResolve, .pathParent, .pathSuffix, .pathIsAbsolute,
        .fileExists, .runBytecode], 1),
      ([.writeFile, .append, .concat, .startsWith, .mapHas, .mapGet, .dollarIntrinsicMap, .setAdd,
        .setHas, .byteAppend, .bytesConcat, .byteGet, .writeBytes, .pathJoin, .pathWithSuffix,
        .runBytecodeArgs], 2) ]
    3 name

/-- `builtin_service_arity`. -/
def builtinServiceArity (name : Str) : ℕ :=
  arityOf [ ([.httpTransportExchange, .dollarHttpTransportExchange], 6),
      ([.tcpServeStream, .dollarTcpServeStream], 5),
      ([.fsRootIdentityAsync, .tcpServerReadChunk, .dollarTcpServerReadChunk], 1) ]
    (builtinLegacyArity name) name

/-- `builtin_host_arity`. -/
def builtinHostArity (name : Str) : ℕ :=
  arityOf [ ([.hostArgumentsAsync], 0), ([.hostExitAsync, .hostStdoutAsync, .hostStderrAsync], 1) ]
    (builtinServiceArity name) name

/-- `builtin_arity`. -/
def builtinArity (name : Str) : ℕ := arityOf [([.tcpService], 6)] (builtinHostArity name) name

end Panackelty.Compiler
