import Panackelty.Builtins
import Panackelty.Vm.Program

/-!
# `vm/builtins.c`: the registry of builtins

One row for each builtin: its arity, its purity and the function that implements it.  That a builtin
is an async service or changes local state is decided by the implementing function.
-/

namespace Panackelty.Vm

/-- The functions that implement builtins. -/
inductive Handler where
  | builtinsHttpConnectionCall | asyncServiceOnly | builtinsHttpWriterCall | builtinsHttpStateCall
  | hostCapabilityCall | filesystemStageCall | digestCall | httpStreamCall | gzipStreamCall
  | hostTypeCall | builtinsNumericCall | hostCall | builtinsTextCall | builtinsCollectionsCall
  | builtinsVmCall
  deriving DecidableEq

/-- A row of `BUILTINS`. -/
structure Builtin where
  arity : ℕ
  pure : Bool
  call : Handler
  deriving DecidableEq

/-- `BUILTINS`. -/
def builtinRow : BuiltinName → Option Builtin
  | .httpBytesSlice => some ⟨3, true, .builtinsHttpConnectionCall⟩
  | .httpBody | .httpBodySize => some ⟨1, false, .builtinsHttpConnectionCall⟩
  | .httpBodyAppend => some ⟨4, false, .builtinsHttpConnectionCall⟩
  | .httpConnectionContinue => some ⟨1, false, .asyncServiceOnly⟩
  | .httpListenOrdinary | .httpListenContextual => some ⟨2, false, .asyncServiceOnly⟩
  | .httpClose | .httpDestroy => some ⟨1, false, .asyncServiceOnly⟩
  | .httpConnectionInvoke => some ⟨4, false, .asyncServiceOnly⟩
  | .httpConnectionWriter | .httpConnectionRoutes | .httpConnectionFallback
  | .httpConnectionAdmit => some ⟨1, false, .builtinsHttpConnectionCall⟩
  | .httpWriterGetStatus | .httpWriterGetHeaders | .httpWriterReject =>
    some ⟨1, false, .builtinsHttpWriterCall⟩
  | .httpWriterStatus | .httpWriterHeaders | .httpWriterCommit =>
    some ⟨2, false, .builtinsHttpWriterCall⟩
  | .httpStateCreate => some ⟨3, false, .builtinsHttpStateCall⟩
  | .httpStateContext => some ⟨1, true, .builtinsHttpStateCall⟩
  | .httpStateSetupError | .httpStateFailSetup => some ⟨1, false, .builtinsHttpStateCall⟩
  | .httpStateRegister => some ⟨4, false, .builtinsHttpStateCall⟩
  | .tcpService => some ⟨6, false, .asyncServiceOnly⟩
  | .hostArgumentsAsync => some ⟨0, false, .asyncServiceOnly⟩
  | .hostStdoutAsync | .hostStderrAsync | .hostExitAsync | .asyncFakeRead =>
    some ⟨1, false, .asyncServiceOnly⟩
  | .dollarTcpExchange => some ⟨5, false, .asyncServiceOnly⟩
  | .dollarHttpTransportExchange => some ⟨6, false, .asyncServiceOnly⟩
  | .dollarTcpServe => some ⟨4, false, .asyncServiceOnly⟩
  | .dollarTcpServeStream => some ⟨5, false, .asyncServiceOnly⟩
  | .dollarTcpServerReadChunk | .fsRootIdentityAsync => some ⟨1, false, .asyncServiceOnly⟩
  | .fsReadBeneathAsync => some ⟨3, false, .asyncServiceOnly⟩
  | .fsReadBeneath => some ⟨3, false, .hostCapabilityCall⟩
  | .fsDirectoriesOverlap | .fsRead | .fsWrite => some ⟨2, false, .hostCapabilityCall⟩
  | .fsMetadata | .fsList | .fsCreateDirectory | .fsRemoveFile | .fsRemoveDirectory =>
    some ⟨1, false, .hostCapabilityCall⟩
  | .fsStageBegin | .fsStagePath => some ⟨1, false, .filesystemStageCall⟩
  | .fsStageDirectory => some ⟨2, false, .filesystemStageCall⟩
  | .fsStageWrite => some ⟨4, false, .filesystemStageCall⟩
  | .fsStageSymlink => some ⟨3, false, .filesystemStageCall⟩
  | .fsReadLink => some ⟨2, false, .filesystemStageCall⟩
  | .fsStagePublish => some ⟨3, false, .filesystemStageCall⟩
  | .fsStageClose => some ⟨1, false, .filesystemStageCall⟩
  | .digestSha256Open => some ⟨0, false, .digestCall⟩
  | .digestUpdate => some ⟨2, false, .digestCall⟩
  | .digestFinish | .digestClose => some ⟨1, false, .digestCall⟩
  | .httpStreamOpen => some ⟨6, false, .httpStreamCall⟩
  | .httpStreamRead | .httpStreamClose => some ⟨1, false, .httpStreamCall⟩
  | .gzipOpen => some ⟨1, false, .gzipStreamCall⟩
  | .gzipStep => some ⟨3, false, .gzipStreamCall⟩
  | .gzipClose => some ⟨1, false, .gzipStreamCall⟩
  | .fsReadChunk => some ⟨3, false, .filesystemStageCall⟩
  | .fsAtomicWrite => some ⟨2, false, .filesystemStageCall⟩
  | .fsTempFile | .fsTempDirectory => some ⟨1, false, .hostCapabilityCall⟩
  | .hostDecodeUtf8 => some ⟨1, true, .hostCapabilityCall⟩
  | .hostSleep => some ⟨1, false, .hostCapabilityCall⟩
  | .processRun | .processRunIsolated => some ⟨7, false, .hostCapabilityCall⟩
  | .pathFromText | .pathFromNative | .pathToText | .pathNativeBytes | .pathDisplay
  | .pathAbsolute => some ⟨1, true, .hostTypeCall⟩
  | .pathAppend => some ⟨2, true, .hostTypeCall⟩
  | .pathDirectory | .pathFilename => some ⟨1, true, .hostTypeCall⟩
  | .pathCurrent => some ⟨0, true, .hostTypeCall⟩
  | .durationNanoseconds | .durationTicks | .durationFromSeconds => some ⟨1, true, .hostTypeCall⟩
  | .instantNow => some ⟨0, false, .hostTypeCall⟩
  | .instantAdd | .instantDifference | .instantBefore => some ⟨2, true, .hostTypeCall⟩
  | .dollarUnit => some ⟨0, true, .builtinsNumericCall⟩
  | .nat | .dec => some ⟨1, true, .builtinsNumericCall⟩
  | .quotient => some ⟨2, true, .builtinsNumericCall⟩
  | .print => some ⟨1, false, .hostCall⟩
  | .readLine => some ⟨0, false, .hostCall⟩
  | .readFile => some ⟨1, false, .hostCall⟩
  | .writeFile => some ⟨2, false, .hostCall⟩
  | .len => some ⟨1, true, .builtinsTextCall⟩
  | .append => some ⟨2, true, .builtinsCollectionsCall⟩
  | .concat => some ⟨2, true, .builtinsTextCall⟩
  | .slice => some ⟨3, true, .builtinsTextCall⟩
  | .startsWith => some ⟨2, true, .builtinsTextCall⟩
  | .startsWithAt => some ⟨3, true, .builtinsTextCall⟩
  | .reverse | .isDigit | .isLetter | .isWhitespace => some ⟨1, true, .builtinsTextCall⟩
  | .map => some ⟨0, true, .builtinsCollectionsCall⟩
  | .mapPut => some ⟨3, true, .builtinsCollectionsCall⟩
  | .mapHas | .mapGet => some ⟨2, true, .builtinsCollectionsCall⟩
  | .dollarMethodPut => some ⟨3, true, .builtinsCollectionsCall⟩
  | .dollarMethodHas | .dollarMethodGet => some ⟨2, true, .builtinsCollectionsCall⟩
  | .set => some ⟨0, true, .builtinsCollectionsCall⟩
  | .setAdd | .setHas | .dollarMethodAdd => some ⟨2, true, .builtinsCollectionsCall⟩
  | .bytes => some ⟨0, true, .builtinsCollectionsCall⟩
  | .byteAppend | .bytesConcat => some ⟨2, true, .builtinsTextCall⟩
  | .byteLen => some ⟨1, true, .builtinsTextCall⟩
  | .byteGet => some ⟨2, true, .builtinsTextCall⟩
  | .utf8Encode | .utf8Decode => some ⟨1, true, .builtinsTextCall⟩
  | .readBytes => some ⟨1, false, .hostCall⟩
  | .writeBytes => some ⟨2, false, .hostCall⟩
  | .natFromStr => some ⟨1, true, .builtinsTextCall⟩
  | .commandArgs => some ⟨0, false, .hostCall⟩
  | .environmentHas | .environmentGet | .eprint | .processExit | .pathResolve =>
    some ⟨1, false, .hostCall⟩
  | .pathParent => some ⟨1, true, .hostCall⟩
  | .pathJoin => some ⟨2, true, .hostCall⟩
  | .pathSuffix => some ⟨1, true, .hostCall⟩
  | .pathWithSuffix => some ⟨2, true, .hostCall⟩
  | .pathIsAbsolute => some ⟨1, true, .hostCall⟩
  | .fileExists => some ⟨1, false, .hostCall⟩
  | .runBytecode => some ⟨1, false, .builtinsVmCall⟩
  | .runBytecodeArgs => some ⟨2, false, .builtinsVmCall⟩
  | _ => none

/-- `builtin`. -/
def builtin (name : CString) : Option Builtin := (BuiltinName.find name.bytes).bind builtinRow

/-- `builtin_is_async`. -/
def builtinIsAsync (entry : Option Builtin) : Bool :=
  entry.any fun row => row.call == .asyncServiceOnly

/-- `builtin_is_local_state`. -/
def builtinIsLocalState (entry : Option Builtin) : Bool :=
  entry.any fun row => row.call == .builtinsHttpStateCall || row.call == .builtinsHttpWriterCall ||
    row.call == .builtinsHttpConnectionCall

theorem builtinRow_async {b : BuiltinName} {row : Builtin} (h : builtinRow b = some row)
    (hasync : builtinIsAsync (some row)) :
    row.pure = false ∧ builtinIsLocalState (some row) = false := by
  cases b <;> cases h <;> first | exact ⟨rfl, rfl⟩ | exact absurd hasync (by decide)

end Panackelty.Vm
