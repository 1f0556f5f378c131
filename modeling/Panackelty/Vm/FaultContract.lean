import Panackelty.Vm.FaultClasses
import Panackelty.Vm.ServerContract

/-!
# A trap in a routed handler

`tcp_server_advance` runs one instruction of a handler and looks at what has become of it.  A trap
whose fault is the request's ends the request; any other trap ends the server, with all its
connections.

* `NextOperation`: the next instruction of a frame is an operation on given operands.
* `advance_trap`: the execution traps with the trap of the operation, and changes nothing outside.
* `RequestEnded`: the request is over, its response stands, and everything else goes on.
* `request_ended_iff`: which operations keep a bad operand to its request.
-/

namespace Panackelty.Vm

open List Execution
open Option (bind_some)
open Registers (pop)

variable {H B : Type} {row : Builtin} {writer : HttpWriter} {k : ℕ}

/-! ## One instruction -/

/-- The services call the builtins of the language. -/
def Services.Language (S : Services H) : Prop :=
  ∀ (b : BuiltinName) (tests : List (ValueKind → Bool)) (a : List Value) (host : H),
    signature b = some tests → S.builtinCall b a host = ((languageCall b a).mapError some, host)

/-- The instruction of an operation that is no call. -/
def Operation.instruction : Operation → Option Instruction
  | .unary code => some (.unary code)
  | .binary code => some (.binary code)
  | .index => some .indexGet
  | .builtin _ => none

/-- The next instruction of a frame is an operation, and its operands are on the stack. -/
inductive NextOperation : Operation → List Value → Frame → Prop
  | operator {op : Operation} {values rest : List Value} {frame : Frame} {instruction : Instruction}
      (hop : op.instruction = some instruction)
      (hins : frame.function.ins[frame.registers.pc]? = some instruction)
      (hstack : frame.registers.stack = values.reverse ++ rest) : NextOperation op values frame
  | call {b : BuiltinName} {row : Builtin} {name : CString} {values rest : List Value}
      {frame : Frame} (hentry : builtinEntry name = some (b, row))
      (hlength : values.length = row.arity)
      (hins : frame.function.ins[frame.registers.pc]? = some (.call name row.arity))
      (hstack : frame.registers.stack = values.reverse ++ rest) :
      NextOperation (.builtin b) values frame
  | callValue {b : BuiltinName} {row : Builtin} {data : Bytes} {values rest : List Value}
      {frame : Frame} (hentry : builtinEntry (CString.ofBytes data) = some (b, row))
      (hwhole : data.contains 0 = false) (hlength : values.length = row.arity)
      (hins : frame.function.ins[frame.registers.pc]? = some (.callValue row.arity))
      (hstack : frame.registers.stack = values.reverse ++ .str data :: rest) :
      NextOperation (.builtin b) values frame

section Builtins

variable {b : BuiltinName} {tests : List (ValueKind → Bool)}

theorem language_row (h : signature b = some tests) (hrow : builtinRow b = some row) :
    row.pure = true ∧ builtinIsAsync (some row) = false ∧
      builtinIsLocalState (some row) = false := by
  cases b <;> first | (cases hrow; exact ⟨rfl, rfl, rfl⟩) | cases h

theorem executionBuiltin_language (S : Services H) (p : Program) (h : signature b = some tests)
    (entry : Builtin) (a : List Value) (s : Execution H) :
    executionBuiltin S p b entry a s = ordinaryBuiltin S b entry a s := by
  cases b <;> first | rfl | cases h

theorem serverBuiltinCall_language (S : Services B) (h : signature b = some tests)
    (a : List Value) (host : ServerHost B) :
    serverBuiltinCall S b a host = host.own (S.builtinCall b a) := by
  cases b <;> first | rfl | cases h

theorem Services.Language.forServer {S : Services B} (h : S.Language) (O : Os B) :
    (S.forServer O).Language := by
  intro b tests a host hb
  show serverBuiltinCall S b a host = _
  rw [serverBuiltinCall_language S hb, ServerHost.own, h b tests a host.base hb]

end Builtins

section Instruction

variable {S : Services H} {p : Program} {op : Operation} {values rest : List Value} {t : Trap}

theorem operate_trap {instr : Instruction} (hop : op.instruction = some instr)
    (htyped : op.Typed values) (heval : op.eval values = .error t) {r : Registers}
    (hstk : r.stack = values.reverse ++ rest) (render : Value → Bytes) (heap : Heap) :
    operate render instr r heap = .error t := by
  have hacc := htyped.accepts
  cases op with
  | unary code =>
    cases hop
    rcases values with _ | ⟨a, _ | ⟨b, values⟩⟩
    · cases hacc
    · have hpop : r.pop = .ok (a, { r with stack := rest }) := by
        rw [pop, hstk]
        rfl
      have hval : unaryValue code a = .error t := heval
      simp only [operate, hpop, bind, Except.bind, hval]
    · cases hacc
  | binary code =>
    cases hop
    rcases values with _ | ⟨a, _ | ⟨b, _ | ⟨c, values⟩⟩⟩
    · cases hacc
    · cases hacc
    · have hpop : r.pop = .ok (b, { r with stack := a :: rest }) := by
        rw [pop, hstk]
        rfl
      have hnext : ({ r with stack := a :: rest } : Registers).pop =
          .ok (a, { r with stack := rest }) := rfl
      have hval : binaryValueClassified code a b = .error t := heval
      simp only [operate, hpop, bind, Except.bind, hnext, hval]
    · cases hacc
  | index =>
    cases hop
    rcases values with _ | ⟨a, _ | ⟨b, _ | ⟨c, values⟩⟩⟩
    · cases hacc
    · cases hacc
    · have hpop : r.pop = .ok (b, { r with stack := a :: rest }) := by
        rw [pop, hstk]
        rfl
      have hnext : ({ r with stack := a :: rest } : Registers).pop =
          .ok (a, { r with stack := rest }) := rfl
      have hval : indexGet a b = .error t := heval
      simp only [operate, hpop, bind, Except.bind, hnext, hval]
    · cases hacc
  | builtin b => cases hop

/-- An execution that has trapped, and done nothing else. -/
structure Trapped (t : Trap) (before after : Execution H) : Prop where
  error : after.error = some t
  status : after.status = before.status
  host : after.host = before.host

theorem Trapped.of_setRegisters {s s' : Execution H} {regs : Registers}
    (h : Trapped t (s.setRegisters regs) s') : Trapped t s s' := by
  refine ⟨h.error, h.status.trans (s.setRegisters_status regs), h.host.trans ?_⟩
  unfold setRegisters
  split <;> rfl

theorem Trapped.of_frames {s s' : Execution H} {frames : List Frame}
    (h : Trapped t { s with frames } s') : Trapped t s s' := ⟨h.error, h.status, h.host⟩

theorem builtinRow_of_entry {name : CString} {b : BuiltinName}
    (h : builtinEntry name = some (b, row)) : builtinRow b = some row := by
  unfold builtinEntry at h
  cases hfind : BuiltinName.find name.bytes with
  | none =>
    rw [hfind] at h
    cases h
  | some b' =>
    rw [hfind] at h
    simp only [bind_some, Option.map_eq_some_iff, Prod.mk.injEq] at h
    obtain ⟨row', hrow, rfl, rfl⟩ := h
    exact hrow

theorem Operation.Typed.signature {b : BuiltinName} (h : (Operation.builtin b).Typed values) :
    ∃ tests, signature b = some tests := by
  have hacc : (Vm.signature b).any (fun tests => hasKinds tests values) = true := h.accepts
  cases hsig : Vm.signature b with
  | none =>
    rw [hsig] at hacc
    cases hacc
  | some tests => exact ⟨tests, rfl⟩

/-- A call of a builtin of the language traps as the builtin does. -/
theorem invoke_trap (hS : S.Language) {b : BuiltinName}
    (htyped : (Operation.builtin b).Typed values)
    (heval : (Operation.builtin b).eval values = .error t) (hrow : builtinRow b = some row)
    {s : Execution H} (hstat : s.status = .yielded) :
    Trapped t s (invoke S p b row values s).pushValue := by
  obtain ⟨tests, hsig⟩ := htyped.signature
  have hpure := (language_row hsig hrow).1
  have hcall : S.builtinCall b values s.host = (.error (some t), s.host) := by
    have hlanguage : languageCall b values = .error t := heval
    rw [hS b tests values s.host hsig, hlanguage]
    rfl
  have hinvoked : executionBuiltin S p b row values s =
      ({ s with error := some t } : Execution H).novalue := by
    rw [executionBuiltin_language S p hsig, ordinaryBuiltin, if_pos (by simp [hpure]), hcall]
    rfl
  have hstate : (invoke S p b row values s).pushValue = (invoke S p b row values s).execution := by
    unfold invoke Invoked.pushValue
    simp only [hinvoked, novalue, hstat]
    rfl
  rw [hstate]
  unfold invoke
  simp only [hinvoked, novalue]
  exact ⟨rfl, rfl, rfl⟩

theorem verifyCallEdge_language (caller : Function) :
    verifyCallEdge caller none true false false false = true := by
  unfold verifyCallEdge
  cases caller.pure <;> simp

theorem popMany_reverse {r : Registers} (hstk : r.stack = values.reverse ++ rest) :
    r.popMany values.length = .ok (values, { r with stack := rest }) := by
  have hlen : values.length = values.reverse.length := (length_reverse ..).symm
  unfold Registers.popMany
  rw [hstk, if_neg (by simp), hlen, take_left, drop_left, reverse_reverse]

theorem dispatch_trap (hS : S.Language) (htyped : op.Typed values)
    (heval : op.eval values = .error t) {frame : Frame} {frames : List Frame} {s : Execution H}
    (hfrs : s.frames = frame :: frames) (hnext : NextOperation op values frame)
    (hstat : s.status = .yielded) : Trapped t s (dispatch S p s) := by
  cases hnext with
  | @operator _ _ rest _ instruction hop hins hstk =>
    have hoperate := operate_trap (r := { frame.registers with pc := frame.registers.pc + 1 })
      hop htyped heval hstk S.render s.heap
    unfold dispatch
    simp only [hfrs, hins]
    cases op with
    | builtin b => cases hop
    | _ =>
      cases hop
      simp only [perform, operated, hoperate]
      exact ⟨rfl, rfl, rfl⟩
  | @call b row name _ rest _ hent hlen hins hstk =>
    have hrow := builtinRow_of_entry hent
    obtain ⟨tests, hsig⟩ := htyped.signature
    obtain ⟨hpure, hasync, hlocal⟩ := language_row hsig hrow
    have hpop := popMany_reverse (r := { frame.registers with pc := frame.registers.pc + 1 }) hstk
    rw [hlen] at hpop
    unfold dispatch
    simp only [hfrs, hins, perform, call, hpop, hent, hpure, hasync, hlocal,
      verifyCallEdge_language, and_self, if_true]
    refine Trapped.of_frames (Trapped.of_setRegisters (invoke_trap hS htyped heval hrow ?_))
    exact (setRegisters_status _ _).trans hstat
  | @callValue b row data _ rest _ hent hwhole hlen hins hstk =>
    have hrow := builtinRow_of_entry hent
    obtain ⟨tests, hsig⟩ := htyped.signature
    obtain ⟨hpure, hasync, hlocal⟩ := language_row hsig hrow
    have hpop := popMany_reverse (r := { frame.registers with pc := frame.registers.pc + 1 }) hstk
    rw [hlen] at hpop
    unfold dispatch
    simp only [hfrs, hins, perform, callValue, hpop, pop, hent, hpure, hasync,
      hlocal, verifyCallEdge_language, hwhole, ne_eq, not_true_eq_false, if_false, Bool.not_false,
      Bool.and_self, if_true]
    refine Trapped.of_frames (Trapped.of_setRegisters (invoke_trap hS htyped heval hrow ?_))
    exact (setRegisters_status _ _).trans hstat

/-- One instruction of a running execution: the trap is there, and nothing outside has changed. -/
theorem advance_trap (hS : S.Language) (htyped : op.Typed values)
    (heval : op.eval values = .error t) {frame : Frame} {frames : List Frame} {s : Execution H}
    (hfrs : s.frames = frame :: frames) (hnext : NextOperation op values frame)
    (hstat : s.status = .yielded) (herr : s.error = none) :
    (advance S p 1 s).error = some t ∧ (advance S p 1 s).status = .trapped ∧
      (advance S p 1 s).host = s.host := by
  have htrap := @dispatch_trap H S p op values t hS htyped heval frame frames s hfrs hnext hstat
  have hresm : s.resumeShutdown S = s := by
    unfold resumeShutdown
    rw [hstat]
  have hloop : ∃ s', dispatchLoop S p 1 s = s' ∧ Trapped t s s' := by
    refine ⟨_, rfl, ?_⟩
    unfold dispatchLoop
    rw [if_neg (by simp [hstat, herr])]
    simp only [dispatchLoop]
    split_ifs
    · exact ⟨htrap.error, htrap.status, htrap.host⟩
    · exact htrap
  obtain ⟨s', heq, htrap'⟩ := hloop
  have hadv : advance S p 1 s = s'.finish := by
    unfold advance
    simp only [hresm, hstat, ne_eq, not_true_eq_false, if_false, heq]
  rw [hadv]
  unfold finish
  simp only [htrap'.error, Option.isSome_some, if_true, reduceCtorEq, or_self, if_false, true_and]
  exact htrap'.host

end Instruction

/-! ## The server -/

namespace Server

variable {s : Server B} {i : ℕ} {client : Client B} {op : Operation} {values : List Value}
    {t : Trap}

theorem completeWriter_clients (s : Server B) (i : ℕ) :
    (s.completeWriter i).clients = s.clients := by
  unfold completeWriter
  repeat' split
  all_goals rfl

theorem clearClient_clients (s : Server B) (i : ℕ) :
    (s.clearClient i).clients = s.clients.set i .cleared := by
  cases hcli : s.clients[i]? with
  | none =>
    have hsame : s.clearClient i = s := by simp only [clearClient, hcli]
    rw [hsame, set_eq_of_length_le (getElem?_eq_none_iff.mp hcli)]
  | some client => simp only [clearClient, hcli]

theorem finishClient_clients (s : Server B) (i : ℕ) (error : Option String) :
    (s.finishClient i error).clients = s.clients.set i .cleared := by
  have hleave : ∀ s₀ : Server B, s₀.clients = s.clients →
      (s₀.release i).clients = s.clients.set i .cleared :=
    fun s₀ hclis => (s₀.clearClient_clients i).trans (by rw [hclis])
  unfold finishClient
  split
  · cases error <;> exact hleave _ rfl
  · unfold report
    split <;> exact hleave _ rfl

/-- A client of a routed server runs its handler, whose next instruction is an operation. -/
structure RunsOperation (s : Server B) (i : ℕ) (client : Client B) (op : Operation)
    (values : List Value) : Prop where
  routed : s.config.routed = true
  slot : s.clients[i]? = some client
  state : client.state = .run
  settled : client.wait.fakePending = false
  writer : ∃ k writer, s.writerOf client = some (k, writer)
  execution : ∃ e frame frames, client.execution = some e ∧ e.status = .yielded ∧
    e.error = none ∧ e.frames = frame :: frames ∧ NextOperation op values frame

/-- The response of a request that has failed: what is under way already, what the handler has
committed, or the generic one. -/
def failedResponse (s : Server B) (client : Client B) : Option Bytes :=
  client.response.or <| (s.writerOf client).bind fun found =>
    if found.2.completed then found.2.wire else some httpInternalError

/-- The slot of a request that has failed: its response is left to be written, unless all of it has
been sent. -/
def failedClient (s : Server B) (client : Client B) : Client B :=
  if (s.failedResponse client).elim 0 length = client.sent then .cleared
  else Client.setState .write { client with execution := none, response := s.failedResponse client }

/-- The fields that say whether a server goes on. -/
def standing (s : Server B) : Bool × Option String × Bool × Bool :=
  (s.done, s.error, s.listener, s.stopping)

/-- The request of one client is over, and the server goes on as it was. -/
structure RequestEnded (s : Server B) (i : ℕ) (client : Client B) (s' : Server B) : Prop where
  standing : s'.standing = s.standing
  others : ∀ j, j ≠ i → s'.clients[j]? = s.clients[j]?
  ended : s'.clients[i]? = some (s.failedClient client)

/-- What `runHandler` leaves of a server whose handler traps. -/
structure HandlerTrapped (s : Server B) (i : ℕ) (client : Client B) (t : Trap) (s' : Server B) :
    Prop where
  standing : s'.standing = s.standing
  config : s'.config = s.config
  world : s'.world = s.world
  others : ∀ j, j ≠ i → s'.clients[j]? = s.clients[j]?
  slot : ∃ e, e.error = some t ∧ e.status = .trapped ∧
    s'.clients[i]? = some { client with execution := some e }

theorem runHandler_trapped {O : Os B} {S : Services B} {p : Program} (hS : S.Language)
    (h : s.RunsOperation i client op values) (htyped : op.Typed values)
    (heval : op.eval values = .error t) :
    s.HandlerTrapped i client t (s.runHandler O S p i) := by
  obtain ⟨e, frame, frames, he, hstat, herr, hfrs, hnext⟩ := h.execution
  have hadv := @advance_trap (ServerHost B) (S.forServer O) p op values t
    (hS.forServer O) htyped heval frame frames
    { e with host := ⟨client.wait, client.httpConnection, s.world, s.base⟩ } hfrs hnext hstat herr
  obtain ⟨hterror, htstatus, hhost⟩ := hadv
  have hrun : s.runHandler O S p i = s.child i (Vm.advance (S.forServer O) p 1) := by
    unfold runHandler
    simp only [h.slot, h.settled, Bool.false_eq_true, if_false]
  have hchild : (s.clients[i]?).bind (fun client => client.execution.map fun e => (client, e)) =
      some (client, e) := by
    rw [h.slot, bind_some, he]
    rfl
  rw [hrun]
  unfold child
  simp only [hchild]
  refine ⟨rfl, rfl, ?_, fun j hj => ?_, ⟨_, hterror, htstatus, ?_⟩⟩
  · exact congrArg ServerHost.world hhost
  · exact getElem?_modify_ne _ _ (Ne.symm hj)
  rw [getElem?_modify_eq, h.slot, hhost]
  rfl

theorem completeWriter_standing (s : Server B) (i : ℕ) :
    (s.completeWriter i).standing = s.standing := by
  unfold completeWriter
  repeat' split
  all_goals rfl

theorem httpAttachResponse_standing (s : Server B) (i : ℕ) :
    (s.httpAttachResponse i).standing = s.standing := by
  unfold httpAttachResponse
  repeat' split
  all_goals rfl

theorem finishClient_standing (s : Server B) (i : ℕ) (error : Option String) :
    (s.finishClient i error).standing = s.standing := by
  have hclear : ∀ s : Server B, (s.clearClient i).standing = s.standing := by
    intro s
    unfold clearClient
    split <;> rfl
  unfold finishClient
  split_ifs
  · refine (hclear _).trans ?_
    unfold count
    split <;> rfl
  · refine (hclear _).trans ?_
    unfold report
    split <;> rfl

/-- After `completeWriter` the writer of a client holds its response, made by the handler or not. -/
theorem writerOf_completeWriter (hslot : s.clients[i]? = some client)
    (hwtr : s.writerOf client = some (k, writer)) :
    ∃ writer', (s.completeWriter i).writerOf client = some (k, writer') ∧ writer'.completed = true ∧
      writer'.wire = if writer.completed then writer.wire else some httpInternalError := by
  have hfound : (s.clients[i]?).bind s.writerOf = some (k, writer) := by
    rw [hslot]
    exact hwtr
  unfold completeWriter
  simp only [hfound]
  split_ifs with hcompl
  · exact ⟨writer, hwtr, hcompl, rfl⟩
  -- the writer is at the same place, with the generic response
  refine ⟨{ writer with wire := some httpInternalError, completed := true }, ?_, rfl, rfl⟩
  unfold writerOf at hwtr ⊢
  rcases hconn : client.httpConnection with _ | a
  · rw [hconn] at hwtr
    cases hwtr
  rw [hconn, bind_some] at hwtr
  rw [bind_some]
  obtain ⟨conn, hget, hrest⟩ := Option.bind_eq_some_iff.mp hwtr
  obtain ⟨found, hwget, hpair⟩ := Option.map_eq_some_iff.mp hrest
  cases hpair
  have hsame : (s.world.modifyWriter conn.writer fun writer =>
      { writer with wire := some httpInternalError, completed := true }).connections =
        s.world.connections := rfl
  rw [hsame, hget, bind_some]
  show ((s.world.writers.modify conn.writer _)[conn.writer]?).map _ = _
  rw [getElem?_modify_eq, hwget]
  rfl

/-- The slot of a client whose writer is complete, once its response is attached. -/
theorem httpAttachResponse_completed (hslot : s.clients[i]? = some client)
    (hwtr : s.writerOf client = some (k, writer)) (hcompl : writer.completed) :
    (s.httpAttachResponse i).clients[i]? =
        some { client with response := client.response.or writer.wire } ∧
      ∀ j, j ≠ i → (s.httpAttachResponse i).clients[j]? = s.clients[j]? := by
  unfold httpAttachResponse
  simp only [hslot, hwtr]
  rcases hresp : client.response with _ | response
  · simp only [hcompl, if_true]
    constructor
    · show (s.clients.modify i _)[i]? = _
      rw [getElem?_modify_eq, hslot]
      rfl
    · exact fun j hj => getElem?_modify_ne _ _ (Ne.symm hj)
  refine ⟨?_, fun j _ => rfl⟩
  rw [hslot, ← hresp]
  cases client
  subst hresp
  rfl

/-- `http_finish_execution` for a client whose writer is complete. -/
theorem httpFinishExecution_completed (hslot : s.clients[i]? = some client)
    (hwtr : s.writerOf client = some (k, writer)) (hcompl : writer.completed) :
    (s.httpFinishExecution i).standing = s.standing ∧
      (∀ j, j ≠ i → (s.httpFinishExecution i).clients[j]? = s.clients[j]?) ∧
      (s.httpFinishExecution i).clients[i]? =
        some (if (client.response.or writer.wire).elim 0 length = client.sent then .cleared
          else Client.setState .write
            { client with execution := none, response := client.response.or writer.wire }) := by
  obtain ⟨hatt, hoths⟩ := httpAttachResponse_completed hslot hwtr hcompl
  have hstand := s.httpAttachResponse_standing i
  unfold httpFinishExecution
  simp only [hatt]
  generalize s.httpAttachResponse i = s₁ at hatt hoths hstand
  -- the execution is gone from the slot
  have hdet : (s₁.detachExecution i
      { client with response := client.response.or writer.wire }).clients =
        s₁.clients.modify i fun client => { client with execution := none } := rfl
  have hstood : (s₁.detachExecution i
      { client with response := client.response.or writer.wire }).standing = s₁.standing := rfl
  generalize s₁.detachExecution i { client with response := client.response.or writer.wire } = s₂
    at hdet hstood
  have hlen : i < s₁.clients.length := (List.getElem?_eq_some_iff.mp hatt).1
  split_ifs with hsent
  · refine ⟨(finishClient_standing s₂ i none).trans (hstood.trans hstand), fun j hj => ?_, ?_⟩
    · rw [finishClient_clients, getElem?_set_ne (Ne.symm hj), hdet,
        getElem?_modify_ne _ _ (Ne.symm hj), hoths j hj]
    · rw [finishClient_clients, getElem?_set_self]
      rw [hdet, length_modify]
      exact hlen
  · refine ⟨hstood.trans hstand, fun j hj => ?_, ?_⟩
    · show (s₂.clients.modify i _)[j]? = _
      rw [getElem?_modify_ne _ _ (Ne.symm hj), hdet,
        getElem?_modify_ne _ _ (Ne.symm hj), hoths j hj]
    · show (s₂.clients.modify i _)[i]? = _
      rw [getElem?_modify_eq, hdet, getElem?_modify_eq, hatt]
      rfl

theorem trap_done (s : Server B) (error : String) : (s.trap error).done = true := by
  have hclear : ∀ (slots : List ℕ) (s : Server B), (slots.foldl clearClient s).done = s.done := by
    intro slots
    induction slots with
    | nil => exact fun s => rfl
    | cons j slots ih =>
      intro s
      rw [foldl_cons, ih]
      unfold clearClient
      split <;> rfl
  unfold trap closeAll
  generalize range serverConcurrency = slots
  exact hclear slots _

section Settle

variable {O : Os B} {S : Services B} {p : Program} {s' : Server B}

theorem HandlerTrapped.ended (h : s.HandlerTrapped i client t s')
    (hwtr : ∃ k writer, s.writerOf client = some (k, writer)) :
    s.RequestEnded i client (s'.httpHandlerFinished O i true) := by
  obtain ⟨k, writer, hwtr⟩ := hwtr
  obtain ⟨e, herr, hstat, hslot⟩ := h.slot
  have hexec : (s'.clients[i]?).bind Client.execution = some e := by
    rw [hslot]
    rfl
  unfold httpHandlerFinished
  simp only [hexec, if_true]
  generalize Str.asciiBytes ((e.error.map Trap.error).getD "HTTP request failed") = message
  have hwtr' : (s'.log O message).writerOf { client with execution := some e } =
      some (k, writer) := by
    rw [← hwtr]
    unfold writerOf log
    rw [h.world]
  obtain ⟨writer', hcomplete, hcompl, hwire⟩ :=
    writerOf_completeWriter (s := s'.log O message) hslot hwtr'
  have hclis : ((s'.log O message).completeWriter i).clients = s'.clients :=
    completeWriter_clients _ i
  obtain ⟨hstand, hoths, hended⟩ := httpFinishExecution_completed
    (by rw [hclis]; exact hslot) hcomplete hcompl
  have hresp : s.failedResponse client = client.response.or writer'.wire := by
    unfold failedResponse
    rw [hwtr, bind_some, hwire]
  refine ⟨?_, fun j hj => ?_, ?_⟩
  · rw [hstand, completeWriter_standing]
    exact h.standing
  · rw [hoths j hj, hclis, h.others j hj]
  · rw [hended, failedClient, hresp]

/-- The kind of the fault decides between the request and the server. -/
theorem HandlerTrapped.settle (h : s.HandlerTrapped i client t s')
    (hrouted : s.config.routed)
    (hstate : client.state = .run) :
    (t.fault = .request → s'.settleHandler O i = s'.httpHandlerFinished O i true) ∧
      (t.fault ≠ .request → (s'.settleHandler O i).done = true) := by
  obtain ⟨e, herr, hstat, hslot⟩ := h.slot
  have hfound : (s'.clients[i]?).bind (fun client => client.execution.map fun e => (client, e)) =
      some ({ client with execution := some e }, e) := by
    rw [hslot]
    rfl
  have hrun : ¬(({ client with execution := some e } : Client B).state ≠ .run) := not_not.mpr hstate
  unfold settleHandler
  simp only [hfound, if_neg hrun, hstat, h.config, hrouted, herr, Option.any_some, Bool.true_and]
  constructor
  · intro hfault
    rw [if_pos (by rw [hfault]; rfl)]
  · intro hfault
    rw [if_neg (by simpa using hfault)]
    exact trap_done _ _

/-- A trap because of the value of an operand ends only its request exactly where the operation
classifies its faults. -/
theorem request_ended_iff (hS : S.Language) (hdone : s.done = false)
    (h : s.RunsOperation i client op values) (htyped : op.Typed values)
    (heval : op.eval values = .error t) :
    s.RequestEnded i client ((s.runHandler O S p i).settleHandler O i) ↔
      op.unclassified = false ∧ op.misaligned values = false := by
  have htrap := @runHandler_trapped B s i client op values t O S p hS h htyped heval
  obtain ⟨hreq, hfatal⟩ := htrap.settle (O := O) h.routed h.state
  rw [← trap_fault_iff htyped heval]
  constructor
  · intro hended
    by_contra hfault
    have hsame : ((s.runHandler O S p i).settleHandler O i).done = s.done :=
      congrArg Prod.fst hended.standing
    rw [hfatal hfault, hdone] at hsame
    cases hsame
  · intro hfault
    rw [hreq hfault]
    exact htrap.ended h.writer

end Settle

end Server

/-! ## A handler that divides one by zero -/

/-- Services that have the builtins of the language, and nothing else. -/
def languageServices : Services Unit :=
  { quietServices with builtinCall := fun b a host => ((languageCall b a).mapError some, host) }

/-- The operands of the division. -/
def oneAndZero : List Value := [.nat (NatBig.ofNat 1), .nat (NatBig.ofNat 0)]

/-- A handler that divides one by zero. -/
def dividingHandler (division : Instruction) : Function :=
  ⟨CString.ascii "handler", false, true, false, [CString.ascii "connection"],
    [.const (.nat (Big.ofNat 1)), .const (.nat (Big.ofNat 0)), division, .ret]⟩

/-- The verified program of the handler. -/
def dividingProgram (division : Instruction) : Program :=
  ⟨[dividingHandler division,
    ⟨CString.ascii "main", false, false, false, [], [.const .void, .ret]⟩], true⟩

/-- The configuration that `tcp_server_start_http` makes. -/
def dividingConfig (division : Instruction) : ServerConfig where
  handler := dividingHandler division
  context := some (.httpState 0)
  limits := httpLimits
  outbound := false
  streaming := true
  continuous := true
  routed := true
  filesystemEnabled := false
  consoleEnabled := false

/-- A world with one server handle, which listens. -/
def listeningWorld : World :=
  ⟨[⟨.listening, false, .void, .void, .void, none, [], 0, none, none⟩], [], [],
    ⟨false, [], [], [], false, 0⟩⟩

/-- One connection is accepted, and its handler has come to the division. -/
def dividingServer (division : Instruction) : Server Unit :=
  let s := Server.startMode eagerOs (dividingConfig division)
    (.str (Str.asciiBytes "127.0.0.1")) 8080 listeningWorld ()
  let s := s.poll eagerOs languageServices (dividingProgram division) 0
  s.advance eagerOs languageServices (dividingProgram division) 2

/-- The client of the connection. -/
def dividingClient (division : Instruction) : Client Unit :=
  (dividingServer division).clients.headD .cleared

theorem reachable_dividingServer (division : Instruction) :
    (serverMachine eagerOs languageServices (dividingProgram division)).Reachable
      (dividingServer division) := by
  have hP := @stepClosed_reachable Unit eagerOs languageServices (dividingProgram division)
  have hstart := Library.Machine.Reachable.initial
    (M := serverMachine eagerOs languageServices (dividingProgram division))
    ⟨dividingConfig division, .str (Str.asciiBytes "127.0.0.1"), 8080, listeningWorld, (), rfl⟩
  unfold dividingServer
  exact hP.advance 2 (hP.poll 0 hstart)

theorem runsOperation_remainder : (dividingServer (.binary 4)).RunsOperation 0
    (dividingClient (.binary 4)) (.binary 4) oneAndZero where
  routed := rfl
  slot := rfl
  state := rfl
  settled := rfl
  writer := ⟨_, _, rfl⟩
  execution := ⟨_, _, _, rfl, rfl, rfl, rfl, @NextOperation.operator _ _ [] _ _ rfl rfl rfl⟩

/-- The division by a call. -/
def quotientCall : Instruction := .call (CString.ascii "quotient") 2

theorem runsOperation_quotient : (dividingServer quotientCall).RunsOperation 0
    (dividingClient quotientCall) (.builtin .quotient) oneAndZero where
  routed := rfl
  slot := rfl
  state := rfl
  settled := rfl
  writer := ⟨_, _, rfl⟩
  execution := ⟨_, _, _, rfl, rfl, rfl, rfl,
    @NextOperation.call .quotient ⟨2, true, .builtinsNumericCall⟩ _ _ [] _ (by decide +kernel)
      rfl rfl rfl⟩

theorem typed_oneAndZero :
    (Operation.binary 4).Typed oneAndZero ∧ (Operation.builtin .quotient).Typed oneAndZero := by
  have htext : ∀ v ∈ oneAndZero, v.ValidText := by
    intro v hv
    simp only [oneAndZero, mem_cons, not_mem_nil, or_false] at hv
    rcases hv with rfl | rfl
    · exact trivial
    · exact trivial
  exact ⟨⟨by decide +kernel, htext⟩, ⟨by decide +kernel, htext⟩⟩

/-- The remainder of a division by zero ends its request, and the server goes on. -/
theorem request_ended_remainder :
    (dividingServer (.binary 4)).RequestEnded 0 (dividingClient (.binary 4))
      (((dividingServer (.binary 4)).runHandler eagerOs languageServices
        (dividingProgram (.binary 4)) 0).settleHandler eagerOs 0) :=
  (Server.request_ended_iff (fun _ _ _ _ _ => rfl) (by decide +kernel) runsOperation_remainder
    typed_oneAndZero.1 rfl).mpr ⟨rfl, rfl⟩

/-- The quotient of a division by zero ends the server. -/
theorem quotient_ends_server : (∃ p, verify p = .ok (dividingProgram quotientCall)) ∧
    (serverMachine eagerOs languageServices (dividingProgram quotientCall)).Reachable
        (dividingServer quotientCall) ∧
      (dividingServer quotientCall).done = false ∧
      (dividingServer quotientCall).RunsOperation 0 (dividingClient quotientCall)
        (.builtin .quotient) oneAndZero ∧
      (Operation.builtin .quotient).Typed oneAndZero ∧
      (((dividingServer quotientCall).runHandler eagerOs languageServices
        (dividingProgram quotientCall) 0).settleHandler eagerOs 0).done = true ∧
      (((dividingServer quotientCall).runHandler eagerOs languageServices
        (dividingProgram quotientCall) 0).settleHandler eagerOs 0).error =
          some "VM trap: division by zero" :=
  ⟨⟨⟨(dividingProgram quotientCall).functions, false⟩, by decide +kernel⟩,
    reachable_dividingServer _, by decide +kernel, runsOperation_quotient, typed_oneAndZero.2,
    by decide +kernel, by decide +kernel⟩

end Panackelty.Vm
