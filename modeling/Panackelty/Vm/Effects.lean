import Panackelty.Vm.Execute
import Panackelty.Vm.VerifierAgreement

/-!
# Effects in a run

What the effect marks of functions promise about every run.  A frame that is not the innermost one
is in a call; the call that a frame is in decides what the frame above it can be, and what builtin
the innermost frame can execute.  Both are an invariant of the whole state, kept by every
instruction and by every entry point.

* `Pending`, `Legal`, `Sound`: the invariant, of two frames, of an executed builtin, of a state.
* `sound_perform`, `sound_respond`, `sound_run`: one instruction, one entry point, a whole run.
-/

namespace Panackelty.Vm

open Bool Status Execution

variable {H : Type}

/-! ## The invariant -/

/-- An `AWAIT`. -/
def Instruction.awaits : Instruction → Bool
  | .awaitCall _ _ | .awaitValue _ => true
  | _ => false

/-- The call that a frame is in was made by an `AWAIT` instruction.  The program counter is past the
call. -/
def Frame.awaiting (frame : Frame) : Bool :=
  (frame.function.ins[frame.registers.pc - 1]?).any Instruction.awaits

/-- The frame above a frame that is in a call. -/
structure Pending (callee caller : Frame) : Prop where
  awaited : caller.awaiting = true → caller.function.isAsync = true ∧ caller.function.pure = false ∧
    callee.function.isAsync = true
  direct : caller.awaiting = false → callee.function.isAsync = false ∧
    (caller.function.pure = true → callee.function.pure = true)

/-- The builtins that can leave an execution waiting. -/
def MayWait (b : BuiltinName) : Prop := builtinIsAsync (builtinRow b) = true ∨ b = .print

/-- A builtin that was executed was allowed in its frame. -/
structure Legal (c : Call) : Prop where
  row : builtinRow c.builtin = some c.entry
  linked : c.frames.IsChain Pending
  edge : ∃ caller ∈ c.frames.head?, verifyCallEdge caller.function none c.entry.pure
    (builtinIsAsync (some c.entry)) (builtinIsLocalState (some c.entry)) caller.awaiting = true
  waits : c.waits = true → MayWait c.builtin

/-- The frames are linked by their calls, what was executed was allowed, and a waiting execution
waits for the builtin that it executed last. -/
structure Sound (s : Execution H) : Prop where
  linked : s.frames.IsChain Pending
  calls : ∀ c ∈ s.calls, Legal c
  waiting : s.status = .waiting → ∃ c, s.calls.head? = some c ∧ c.waits = true ∧ c.frames = s.frames

variable {s s' : Execution H}

/-- The invariant reads nothing of the innermost frame but its function. -/
theorem isChain_pending_replace {frame frame' : Frame} {frames : List Frame}
    (h : (frame :: frames).IsChain Pending) (hfn : frame'.function = frame.function) :
    (frame' :: frames).IsChain Pending := by
  rw [List.isChain_cons] at h ⊢
  refine ⟨fun caller hcall => ?_, h.2⟩
  have hpend := h.1 caller hcall
  exact ⟨fun ha => hfn ▸ hpend.awaited ha, fun ha => hfn ▸ hpend.direct ha⟩

theorem Sound.congr (h : Sound s) (hfrs : s'.frames = s.frames) (hcalls : s'.calls = s.calls)
    (hstat : s'.status = s.status) : Sound s' :=
  ⟨hfrs ▸ h.linked, hcalls ▸ h.calls, fun hwait => by
    rw [hfrs, hcalls]
    exact h.waiting (hstat ▸ hwait)⟩

theorem Sound.of_eq (h : Sound s) (hfrs : s'.frames = s.frames) (hcalls : s'.calls = s.calls)
    (hstat : s'.status ≠ .waiting) : Sound s' :=
  ⟨hfrs ▸ h.linked, hcalls ▸ h.calls, fun hwait => absurd hwait hstat⟩

theorem Sound.of_nil (h : Sound s) (hfrs : s'.frames = []) (hcalls : s'.calls = s.calls)
    (hstat : s'.status ≠ .waiting) : Sound s' :=
  ⟨hfrs ▸ .nil, hcalls ▸ h.calls, fun hwait => absurd hwait hstat⟩

theorem Sound.fail (h : Sound s) (hs : s.status ≠ .waiting) (failure : Failure) :
    Sound (s.fail failure) :=
  h.of_eq rfl rfl hs

theorem Sound.trap (h : Sound s) (hs : s.status ≠ .waiting) (error : String) :
    Sound (s.trap error) :=
  h.of_eq rfl rfl hs

theorem isChain_setRegisters (h : s.frames.IsChain Pending) (regs : Registers) :
    (s.setRegisters regs).frames.IsChain Pending := by
  cases hfrs : s.frames with
  | nil =>
    rw [setRegisters, hfrs]
    exact h
  | cons frame frames =>
    rw [s.setRegisters_frames hfrs]
    rw [hfrs] at h
    exact isChain_pending_replace h rfl

theorem isChain_push (h : s.frames.IsChain Pending) (v : Value) :
    (s.push v).frames.IsChain Pending := by
  unfold push
  split
  · exact h
  · exact isChain_setRegisters h _

theorem Sound.setRegisters (h : Sound s) (hs : s.status ≠ .waiting) (regs : Registers) :
    Sound (s.setRegisters regs) :=
  ⟨isChain_setRegisters h.linked regs, s.setRegisters_calls regs ▸ h.calls,
    fun hwait => absurd hwait (s.setRegisters_status regs ▸ hs)⟩

theorem Sound.push (h : Sound s) (hs : s.status ≠ .waiting) (v : Value) : Sound (s.push v) :=
  ⟨isChain_push h.linked v, s.push_calls v ▸ h.calls,
    fun hwait => absurd hwait (s.push_status v ▸ hs)⟩

theorem Sound.framePush (h : Sound s) (hs : s.status ≠ .waiting) {fn : Function}
    (hpend : ∀ callee caller, callee.function = fn → caller ∈ s.frames.head? →
      Pending callee caller) (args : List Value) : Sound (s.framePush fn args) := by
  have hstat : (s.framePush fn args).status ≠ .waiting := by simpa using hs
  obtain hfrs | ⟨frame, hfn, hfrs⟩ := s.framePush_frames fn args
  · exact h.of_eq hfrs (s.framePush_calls _ _) hstat
  refine ⟨?_, s.framePush_calls _ _ ▸ h.calls, fun hwait => absurd hwait hstat⟩
  rw [hfrs, List.isChain_cons]
  exact ⟨fun caller hcall => hpend frame caller hfn hcall, h.linked⟩

/-! ## Builtins -/

/-- A builtin that pushes no frame; it leaves the execution waiting only under a condition. -/
structure Quiet (waits : Prop) (s s' : Execution H) : Prop where
  frames : s'.frames = s.frames
  calls : s'.calls = s.calls
  status : s'.status = s.status ∨ s'.status = .exited ∨ (s'.status = .waiting ∧ waits)

variable {waits : Prop}

theorem Quiet.of_eq (hfrs : s'.frames = s.frames) (hcalls : s'.calls = s.calls)
    (hstat : s'.status = s.status) : Quiet waits s s' :=
  ⟨hfrs, hcalls, .inl hstat⟩

/-- What the builtin starts from may differ in what the invariant does not read. -/
theorem Quiet.after {s₀ : Execution H} (h : Quiet waits s₀ s') (hfrs : s₀.frames = s.frames)
    (hcalls : s₀.calls = s.calls) (hstat : s₀.status = s.status) : Quiet waits s s' :=
  ⟨h.frames.trans hfrs, h.calls.trans hcalls, hstat ▸ h.status⟩

theorem Quiet.mono {waits' : Prop} (h : Quiet waits s s') (himp : waits → waits') :
    Quiet waits' s s' :=
  ⟨h.frames, h.calls, h.status.imp_right (.imp_right (.imp_right himp))⟩

theorem Quiet.trap (error : String) : Quiet waits s (s.trap error) := .of_eq rfl rfl rfl

theorem Quiet.finishCall (out : Except Failure Value × H) :
    Quiet waits s (s.finishCall out).execution := by
  obtain ⟨_ | _, host⟩ := out
  · exact .of_eq rfl rfl rfl
  · exact .of_eq rfl rfl rfl

theorem Quiet.finishWait (hwaits : waits) (refused : String) {waiting : Execution H → Execution H}
    (hfrs : ∀ s, (waiting s).frames = s.frames) (hcalls : ∀ s, (waiting s).calls = s.calls)
    (out : Except Failure Unit × H) : Quiet waits s (s.finishWait refused waiting out) := by
  obtain ⟨(_ | trap) | _, host⟩ := out
  · exact .of_eq rfl rfl rfl
  · exact .of_eq rfl rfl rfl
  · exact ⟨hfrs _, hcalls _, .inr (.inr ⟨rfl, hwaits⟩)⟩

theorem Quiet.finishStart (hwaits : waits) {waiting : Execution H → Execution H}
    (hfrs : ∀ s, (waiting s).frames = s.frames) (hcalls : ∀ s, (waiting s).calls = s.calls)
    (out : Bool × H) : Quiet waits s (s.finishStart waiting out) := by
  obtain ⟨_ | _, host⟩ := out
  · exact .of_eq rfl rfl rfl
  · exact ⟨hfrs _, hcalls _, .inr (.inr ⟨rfl, hwaits⟩)⟩

theorem Quiet.guarded (enabled : Bool) (unavailable : String) {service : Execution H → Execution H}
    (hserv : Quiet waits s (service s)) :
      Quiet waits s (s.guarded enabled unavailable service) := by
  unfold Execution.guarded
  split_ifs
  · exact .trap unavailable
  · exact hserv

section Builtins

variable (S : Services H) (p : Program) (args : List Value)

theorem quiet_serviceCall (hwaits : waits) : Quiet waits s (serviceCall S p args s) := by
  have hwait : ∀ host : H, Quiet waits s { s with host, server := true, status := .waiting } :=
    fun _ => ⟨rfl, rfl, .inr (.inr ⟨rfl, hwaits⟩)⟩
  unfold serviceCall
  split_ifs
  · exact .trap _
  split
  · exact .trap _
  split
  · exact .trap _
  split_ifs
  · exact .trap _
  split
  · exact .of_eq rfl rfl rfl
  simp only
  split_ifs
  · exact hwait _
  split
  · exact hwait _
  · exact .of_eq rfl rfl rfl

theorem quiet_serverCallMode (hwaits : waits) (streaming : Bool) :
    Quiet waits s (serverCallMode S p args streaming s) := by
  unfold serverCallMode
  split
  · exact .trap _
  split
  · exact .trap _
  split
  · exact .of_eq rfl rfl rfl
  · exact ⟨rfl, rfl, .inr (.inr ⟨rfl, hwaits⟩)⟩

theorem quiet_httpListen (contextual : Bool) :
    Quiet waits s (httpListen S p args contextual s).execution := by
  unfold httpListen
  split
  · exact .trap _
  split_ifs
  · exact .trap _
  simp only
  split
  · exact .of_eq rfl rfl rfl
  · exact (Quiet.finishCall _).after rfl rfl rfl

theorem quiet_httpShutdown (hwaits : waits) (destroy : Bool) :
    Quiet waits s (httpShutdown S args destroy s).execution := by
  unfold httpShutdown
  simp only
  split
  · split_ifs
    · exact ⟨rfl, rfl, .inr (.inr ⟨rfl, hwaits⟩)⟩
    · exact .of_eq rfl rfl rfl
  · exact .of_eq rfl rfl rfl
  · exact .trap _

theorem quiet_processExit (limit : ℕ) : Quiet waits s (processExit args limit s) := by
  unfold processExit
  split
  · exact .trap _
  split_ifs
  · exact .of_eq rfl rfl rfl
  · exact ⟨rfl, rfl, .inr (.inl rfl)⟩

theorem quiet_serverReadChunk (hwaits : waits) : Quiet waits s (serverReadChunk S args s) := by
  unfold serverReadChunk
  split
  · exact .trap _
  split_ifs
  · exact .trap _
  refine .finishWait hwaits _ ?_ ?_ _
  · exact fun _ => rfl
  · exact fun _ => rfl

theorem quiet_asyncFakeRead (hwaits : waits) : Quiet waits s (asyncFakeRead S args s) := by
  unfold asyncFakeRead
  split
  · simp only
    split_ifs
    · exact ⟨rfl, rfl, .inr (.inr ⟨rfl, hwaits⟩)⟩
    · exact .trap _
    refine .finishWait hwaits _ ?_ ?_ _
    · exact fun _ => rfl
    · exact fun _ => rfl
  · exact .trap _

theorem quiet_consoleWrite (hwaits : waits) (stderr : Bool) :
    Quiet waits s (consoleWrite S args stderr s) := by
  refine @Quiet.after H s _ waits { s with consoleWrite := false }
    (.finishWait hwaits _ ?_ ?_ _) rfl rfl rfl
  · exact fun _ => rfl
  · exact fun _ => rfl

theorem quiet_rootRead (hwaits : waits) (ident : Bool) :
    Quiet waits s (rootRead S args ident s) := by
  refine @Quiet.after H s _ waits { s with rootRead := false }
    (.finishWait hwaits _ ?_ ?_ _) rfl rfl rfl
  · exact fun _ => rfl
  · exact fun _ => rfl

theorem quiet_tcpExchange (hwaits : waits) : Quiet waits s (tcpExchange S args s) := by
  refine @Quiet.after H s _ waits { s with tcp := false } (.finishStart hwaits ?_ ?_ _) rfl rfl rfl
  · exact fun _ => rfl
  · exact fun _ => rfl

theorem quiet_httpTransportExchange (hwaits : waits) :
    Quiet waits s (httpTransportExchange S args s) := by
  refine @Quiet.after H s _ waits { s with http := false } (.finishStart hwaits ?_ ?_ _) rfl rfl rfl
  · exact fun _ => rfl
  · exact fun _ => rfl

/-- Of the builtins without a branch of their own only `print` waits. -/
theorem quiet_ordinaryBuiltin (b : BuiltinName) (entry : Builtin) :
    Quiet (b = .print) s (ordinaryBuiltin S b entry args s).execution := by
  unfold ordinaryBuiltin
  split_ifs with _ _ hprint
  · exact .finishCall _
  · exact .trap _
  · exact .finishWait hprint.2 _ (fun _ => rfl) (fun _ => rfl) _
  · exact .trap _
  · exact .finishCall _

end Builtins

theorem httpConnectionHandler_effect {S : Services H} {p : Program} {args call : List Value}
    {host : H} {handler : Function}
    (h : httpConnectionHandler S p args host = .ok (handler, call)) :
    handler.isAsync = true ∧ handler.pure = false := by
  unfold httpConnectionHandler at h
  split at h
  · cases h
  split_ifs at h
  simp only at h
  split at h
  · cases h
  · split at h
    · split_ifs at h with heff
      cases h
      simp only [Bool.and_eq_true, Bool.not_eq_eq_eq_not, Bool.not_true] at heff
      exact heff.1
    · cases h
  · cases h

/-- What a builtin can do to the frames: nothing, or push the handler of a connection. -/
theorem executionBuiltin_spec (S : Services H) (p : Program) (b : BuiltinName) (entry : Builtin)
    (args : List Value) (s : Execution H) :
    Quiet (MayWait b) s (executionBuiltin S p b entry args s).execution ∨
      (builtinIsAsync (builtinRow b) = true ∧ ∃ handler call, handler.isAsync = true ∧
        (executionBuiltin S p b entry args s).execution = s.framePush handler call) := by
  unfold executionBuiltin
  split
  · left
    split
    · exact ⟨rfl, rfl, .inr (.inr ⟨rfl, .inl rfl⟩)⟩
    · exact .of_eq rfl rfl rfl
  · exact .inl (quiet_httpListen S p args false)
  · exact .inl (quiet_httpListen S p args true)
  · exact .inl (quiet_httpShutdown S args (.inl rfl) false)
  · exact .inl (quiet_httpShutdown S args (.inl rfl) true)
  · unfold httpConnectionInvoke
    split
    · exact .inl (.of_eq rfl rfl rfl)
    · rename_i handler call hhdl
      exact .inr ⟨rfl, handler, call, (httpConnectionHandler_effect hhdl).1, rfl⟩
  · exact .inl (quiet_serviceCall S p args (.inl rfl))
  · left
    split_ifs
    · exact .trap _
    · exact .finishCall _
  · left
    split_ifs
    · exact quiet_processExit args 255
    split
    · exact .trap _
    split_ifs
    · exact .of_eq rfl rfl rfl
    · exact (Quiet.finishCall _).after rfl rfl rfl
  · exact .inl (.guarded _ _ (quiet_consoleWrite S args (.inl rfl) false))
  · exact .inl (.guarded _ _ (quiet_consoleWrite S args (.inl rfl) true))
  · exact .inl (.guarded _ _ (quiet_rootRead S args (.inl rfl) false))
  · exact .inl (.guarded _ _ (quiet_rootRead S args (.inl rfl) true))
  · exact .inl (quiet_serverCallMode S p args (.inl rfl) false)
  · exact .inl (quiet_serverCallMode S p args (.inl rfl) true)
  · exact .inl (quiet_serverReadChunk S args (.inl rfl))
  · exact .inl (.guarded _ _ (quiet_tcpExchange S args (.inl rfl)))
  · exact .inl (.guarded _ _ (quiet_httpTransportExchange S args (.inl rfl)))
  · exact .inl (quiet_asyncFakeRead S args (.inl rfl))
  · left
    split_ifs
    · exact quiet_processExit args sizeMax
    · exact (quiet_ordinaryBuiltin S args _ entry).mono .inr
  · exact .inl ((quiet_ordinaryBuiltin S args _ entry).mono .inr)

/-! ## Calls -/

theorem Frame.awaiting_setRegisters (frame : Frame) {registers : Registers}
    (h : registers.pc = frame.registers.pc) :
    Frame.awaiting { frame with registers } = frame.awaiting := by
  simp only [Frame.awaiting, h]

theorem pending_of_edge {callee caller : Frame}
    (h : verifyCallEdge caller.function (some callee.function) false false false caller.awaiting =
      true) : Pending callee caller := by
  constructor
  · intro hawait
    simp only [verifyCallEdge, hawait, if_true, and_eq_true, not_eq_eq_eq_not, Bool.not_true] at h
    exact ⟨h.1.1, h.1.2, h.2⟩
  intro hawait
  simp only [verifyCallEdge, hawait, false_eq_true, if_false] at h
  split_ifs at h with hpure
  · simp only [Bool.and_eq_true, Bool.not_eq_eq_eq_not, Bool.not_true] at h
    exact ⟨h.1, fun _ => h.2⟩
  · simp only [Bool.and_eq_true, Bool.not_eq_eq_eq_not, Bool.not_true] at h
    exact ⟨h.1, fun htrue => absurd htrue hpure⟩

theorem awaited_of_edge {caller : Frame} {isPure isLocal : Bool}
    (h : verifyCallEdge caller.function none isPure true isLocal caller.awaiting) :
    caller.awaiting = true ∧ caller.function.isAsync = true ∧ caller.function.pure = false := by
  cases hawait : caller.awaiting with
  | true =>
    simp only [verifyCallEdge, hawait, if_true, and_eq_true, not_eq_eq_eq_not, Bool.not_true] at h
    exact ⟨rfl, h.1.1, h.1.2⟩
  | false =>
    simp only [verifyCallEdge, hawait, false_eq_true, if_false] at h
    split_ifs at h
    · simp at h
    · simp at h

variable {S : Services H} {p : Program}

theorem Sound.pushValue {invoked : Invoked H} (h : Sound invoked.execution) :
    Sound invoked.pushValue := by
  unfold Invoked.pushValue
  split
  · rename_i hyld
    have hs : invoked.execution.status ≠ .waiting := by
      simp only [and_eq_true, beq_iff_eq] at hyld
      rw [hyld.2]
      exact noConfusion
    split
    · exact h.push hs _
    split
    · exact h.fail hs none
    · exact h
  · exact h

variable {b : BuiltinName} {entry : Builtin}

theorem sound_invoke (h : Sound s) (hs : s.status = .yielded)
    (hrow : builtinRow b = some entry) {caller : Frame} (hcall : caller ∈ s.frames.head?)
    (hedge : verifyCallEdge caller.function none entry.pure (builtinIsAsync (some entry))
      (builtinIsLocalState (some entry)) caller.awaiting = true) (args : List Value) :
    Sound (invoke S p b entry args s).execution := by
  have hnot : s.status ≠ .waiting := hs ▸ noConfusion
  rcases executionBuiltin_spec S p b entry args s with hquiet | ⟨hasync, handler, call, hhdl, hpush⟩
  · refine ⟨hquiet.frames ▸ h.linked, ?_, fun hwait => ⟨_, rfl, beq_iff_eq.mpr hwait,
      hquiet.frames.symm⟩⟩
    rintro c (_ | ⟨_, hc⟩)
    · refine ⟨hrow, h.linked, ⟨caller, hcall, hedge⟩, fun hwaits => ?_⟩
      obtain heq | heq | ⟨-, hmay⟩ := hquiet.status
      · exact absurd (heq ▸ beq_iff_eq.mp hwaits) hnot
      · exact absurd (heq ▸ beq_iff_eq.mp hwaits) noConfusion
      · exact hmay
    · exact h.calls c (hquiet.calls ▸ hc)
  · rw [hrow] at hasync
    rw [hasync] at hedge
    obtain ⟨hawait, heff⟩ := awaited_of_edge hedge
    have hpushed : Sound (s.framePush handler call) := by
      refine h.framePush hnot (fun callee other hfn hoth => ?_) call
      cases Option.mem_unique hcall hoth
      exact ⟨fun _ => ⟨heff.1, heff.2, hfn ▸ hhdl⟩,
        fun hdirect => absurd hawait (eq_false_iff.mp hdirect)⟩
    have hstat : (s.framePush handler call).status = .yielded := by rw [s.framePush_status, hs]
    simp only [invoke, hpush, hstat]
    refine ⟨hpushed.linked, ?_, fun hwait => noConfusion hwait⟩
    rintro c (_ | ⟨_, hc⟩)
    · refine ⟨hrow, h.linked, ⟨caller, hcall, ?_⟩, fun hwaits => ?_⟩
      · rw [hasync]
        exact hedge
      · exact absurd (beq_iff_eq.mp hwaits) noConfusion
    · exact hpushed.calls c hc

theorem builtinEntry_row {name : CString}
    (h : builtinEntry name = some (b, entry)) : builtinRow b = some entry := by
  unfold builtinEntry at h
  cases hfind : BuiltinName.find name.bytes with
  | none =>
    rw [hfind] at h
    cases h
  | some other =>
    simp only [hfind, Option.bind_some, Option.map_eq_some_iff, Prod.mk.injEq] at h
    obtain ⟨row, hrow, rfl, rfl⟩ := h
    exact hrow

section Calls

variable {caller : Frame} {frames : List Frame} (h : Sound s) (hs : s.status = .yielded)
  (hfrs : s.frames = caller :: frames)

include h hs hfrs

/-- A builtin in the frame of its caller, whose arguments have been popped. -/
theorem sound_callBuiltin {registers : Registers} (hpc : registers.pc = caller.registers.pc)
    {name : CString} (hent : builtinEntry name = some (b, entry))
    (hedge : verifyCallEdge caller.function none entry.pure (builtinIsAsync (some entry))
      (builtinIsLocalState (some entry)) caller.awaiting = true) (args : List Value) :
    Sound (invoke S p b entry args (s.setRegisters registers)).pushValue := by
  have hnot : s.status ≠ .waiting := hs ▸ noConfusion
  have hcall : { caller with registers } ∈ (s.setRegisters registers).frames.head? := by
    rw [s.setRegisters_frames hfrs]
    rfl
  refine (sound_invoke (h.setRegisters hnot registers) ((s.setRegisters_status registers).trans hs)
    (builtinEntry_row hent) hcall ?_ args).pushValue
  rw [caller.awaiting_setRegisters hpc]
  exact hedge

/-- A function in the frame of its caller, whose arguments have been popped. -/
theorem sound_callFunction {regs : Registers} (hpc : regs.pc = caller.registers.pc)
    {called : Function} (hedge : verifyCallEdge caller.function (some called) false false false
      caller.awaiting = true) (args : List Value) :
    Sound ((s.setRegisters regs).framePush called args) := by
  have hnot : s.status ≠ .waiting := hs ▸ noConfusion
  refine (h.setRegisters hnot regs).framePush
    (fun hwait => hnot (s.setRegisters_status regs ▸ hwait)) ?_ args
  rintro callee other rfl hoth
  rw [s.setRegisters_frames hfrs] at hoth
  cases hoth
  refine pending_of_edge ?_
  rw [caller.awaiting_setRegisters hpc]
  exact hedge

theorem sound_call (name : CString) (arity : ℕ) :
    Sound (call S p name arity caller.awaiting caller s) := by
  have hnot : s.status ≠ .waiting := hs ▸ noConfusion
  unfold call
  split
  · exact h.fail hnot _
  rename_i args regs hpop
  have hpc := Registers.popMany_pc hpop
  have hset : Sound (s.setRegisters regs) ∧ (s.setRegisters regs).status ≠ .waiting :=
    ⟨h.setRegisters hnot regs, s.setRegisters_status regs ▸ hnot⟩
  split
  · rename_i hent
    split_ifs with hedge
    · exact sound_callBuiltin h hs hfrs hpc hent hedge.2 args
    · exact hset.1.trap hset.2 _
  split
  · split_ifs with hedge
    · exact sound_callFunction h hs hfrs hpc hedge.2 args
    · exact hset.1.trap hset.2 _
  · exact hset.1.trap hset.2 _

theorem sound_callValue (arity : ℕ) : Sound (callValue S p arity caller.awaiting caller s) := by
  have hnot : s.status ≠ .waiting := hs ▸ noConfusion
  unfold callValue
  split
  · exact h.fail hnot _
  rename_i args between hpops
  split
  · exact h.fail hnot _
  · rename_i data regs hpop
    have hpc := (Registers.pop_pc hpop).trans (Registers.popMany_pc hpops)
    have hset : Sound (s.setRegisters regs) ∧ (s.setRegisters regs).status ≠ .waiting :=
      ⟨h.setRegisters hnot regs, s.setRegisters_status regs ▸ hnot⟩
    simp only
    split
    · rename_i hent
      split
      · exact hset.1.trap hset.2 _
      split
      · rename_i hedge
        exact sound_callBuiltin h hs hfrs hpc hent (and_eq_true_iff.mp hedge).2 args
      · exact hset.1.trap hset.2 _
    · split
      · split
        · exact hset.1.trap hset.2 _
        split
        · rename_i hedge
          exact sound_callFunction h hs hfrs hpc (and_eq_true_iff.mp hedge).2 args
        · exact hset.1.trap hset.2 _
      · exact hset.1.trap hset.2 _
  · exact h.trap hnot _

theorem sound_returnFrom : Sound (returnFrom caller s) := by
  have hnot : s.status ≠ .waiting := hs ▸ noConfusion
  unfold returnFrom
  split
  · exact h.fail hnot _
  split_ifs
  · exact h.trap hnot _
  have hlink : frames.IsChain Pending := by
    have hchain := h.linked
    rw [hfrs] at hchain
    exact hchain.tail
  simp only [hfrs, List.tail_cons]
  cases frames with
  | nil => exact ⟨.nil, h.calls, fun hwait => noConfusion hwait⟩
  | cons frame frames =>
    have htail : Sound { s with frames := frame :: frames } :=
      ⟨hlink, h.calls, fun hwait => absurd hwait hnot⟩
    exact htail.push hnot _

/-! ## Instructions -/

theorem sound_perform {instr : Instruction} (hawt : caller.awaiting = instr.awaits) :
    Sound (perform S p instr caller s) := by
  have hnot : s.status ≠ .waiting := hs ▸ noConfusion
  have hop : Sound (operated S instr caller.registers s) := by
    unfold operated
    split
    · exact h.fail hnot _
    · exact (h.setRegisters hnot _).congr rfl rfl rfl
  have hcall := fun name arity => @sound_call H s S p caller frames h hs hfrs name arity
  have hval := fun arity => @sound_callValue H s S p caller frames h hs hfrs arity
  rw [hawt] at hcall hval
  cases instr with
  | call name arity | awaitCall name arity => exact hcall name arity
  | callValue arity | awaitValue arity => exact hval arity
  | ret => exact sound_returnFrom h hs hfrs
  | _ => exact hop

end Calls

theorem sound_dispatch (h : Sound s) (hs : s.status = .yielded) : Sound (dispatch S p s) := by
  unfold dispatch
  split
  · exact h
  rename_i frame frames hfrs
  split
  · exact h.trap (hs ▸ noConfusion) _
  rename_i instr hins
  -- after the fetch the frame is in its instr
  have hlink := h.linked
  rw [hfrs] at hlink
  have hfetched : Sound { s with frames := { frame with registers :=
      { frame.registers with pc := frame.registers.pc + 1 } } :: frames } :=
    ⟨isChain_pending_replace hlink rfl, h.calls, fun hwait => absurd hwait (hs ▸ noConfusion)⟩
  refine sound_perform hfetched hs rfl ?_
  simp [Frame.awaiting, hins]

theorem sound_dispatchLoop (h : Sound s) (budget : ℕ) : Sound (dispatchLoop S p budget s) := by
  induction budget generalizing s with
  | zero => exact h
  | succ budget ih =>
    unfold dispatchLoop
    split
    · exact h
    rename_i hgo
    have hnext := @sound_dispatch H s S p h (not_not.mp (not_or.mp hgo).2)
    simp only
    split
    · exact hnext.congr rfl rfl rfl
    · exact ih hnext

/-! ## Entry points -/

theorem sound_finish (h : Sound s) : Sound s.finish := by
  unfold finish
  cases s.error with
  | none =>
    simp only [Option.isSome_none, false_eq_true, if_false]
    split
    · exact h
    · rename_i hended
      exact h.of_nil rfl rfl fun hwait => hended (.inr hwait)
  | some trap => exact h.of_nil rfl rfl noConfusion

theorem sound_resumeShutdown (h : Sound s) : Sound (s.resumeShutdown S) := by
  unfold resumeShutdown
  split
  · split
    · exact h
    · exact ⟨isChain_push h.linked _, s.push_calls _ ▸ h.calls, noConfusion⟩
  · exact h

theorem sound_advance (h : Sound s) (budget : ℕ) : Sound (advance S p budget s) := by
  unfold advance
  simp only
  split
  · exact sound_resumeShutdown h
  · exact sound_finish (sound_dispatchLoop (sound_resumeShutdown h) budget)

theorem Sound.settle (h : Sound s) (error : Option Trap) (res : Option Value) :
    Sound (s.settle error res) := by
  unfold Execution.settle
  split
  · exact ⟨isChain_push h.linked _, s.push_calls _ ▸ h.calls, noConfusion⟩
  · exact h.of_nil rfl rfl noConfusion
  · exact h.of_nil rfl rfl noConfusion

theorem sound_completeRead (h : Sound s) (res : Option Value) : Sound (s.completeRead res) := by
  have hread : Sound { s with waitingRead := false } := h.congr rfl rfl rfl
  unfold completeRead
  split
  · exact h
  split
  · exact hread.settle _ _
  split
  · exact hread.settle _ _
  · exact hread.settle _ _

/-- A poll leaves the execution as it is, or completes it. -/
theorem Sound.poll {α : Type} (h : Sound s) (service : Bool) {complete : α → Execution H}
    (hcompl : ∀ result, Sound (complete result)) (out : Option α) :
    Sound (s.poll service complete out) := by
  rcases out with _ | result
  · exact h
  unfold Execution.poll
  simp only
  split
  · exact hcompl result
  · exact h

theorem sound_pollTcp (h : Sound s) (out : Option (Option Value)) : Sound (s.pollTcp out) := by
  refine h.poll s.tcp (fun res => sound_completeRead ?_ res) out
  exact h.congr rfl rfl rfl

theorem sound_pollHttp (h : Sound s) (out : Option (Option Value)) : Sound (s.pollHttp out) := by
  refine h.poll s.http (fun res => sound_completeRead ?_ res) out
  exact h.congr rfl rfl rfl

theorem sound_pollConsole (h : Sound s) (out : Option (Option Value)) :
    Sound (s.pollConsole out) := by
  refine h.poll s.consoleWrite (fun res => Sound.settle ?_ s.error res) out
  exact h.congr rfl rfl rfl

theorem sound_pollFilesystem (h : Sound s) (out : Option (Option Trap × Option Value)) :
    Sound (s.pollFilesystem out) := by
  refine h.poll s.rootRead (fun res => Sound.settle ?_ res.1 res.2) out
  exact h.congr rfl rfl rfl

theorem sound_pumpServer (h : Sound s) (out : Option (Option Trap × Option Value)) :
    Sound (s.pumpServer out) := by
  refine h.poll s.server (fun res => Sound.settle ?_ res.1 res.2) out
  exact h.congr rfl rfl rfl

theorem sound_respond (h : Sound s) (input : Input H) : Sound (respond S p s input) := by
  have henable : ∀ s', Sound s' → Sound (s.enable s') := fun s' hs' => by
    unfold enable
    split
    · exact hs'
    · exact h
  cases input with
  | advance budget => exact sound_advance h budget
  | completePrint error =>
    simp only [respond, completePrint]
    split
    · exact h
    · exact h.settle _ _
  | completeRead res => exact sound_completeRead h res
  | pollTcp out => exact sound_pollTcp h out
  | pollHttp out => exact sound_pollHttp h out
  | pollConsole out => exact sound_pollConsole h out
  | pollFilesystem out => exact sound_pollFilesystem h out
  | pollNetwork polls =>
    simp only [respond, pollNetwork]
    split_ifs
    · exact sound_pollConsole h _
    · exact sound_pollFilesystem h _
    · exact sound_pollTcp h _
    · exact sound_pollHttp h _
    · exact h
  | pumpServer out => exact sound_pumpServer h out
  | enableServerReads =>
    simp only [respond]
    split
    · exact henable _ (h.congr rfl rfl rfl)
    · exact h
  | enableTcp | enableConsole | enableFilesystem | enableServer =>
      exact henable _ (h.congr rfl rfl rfl)
  | host state => exact h.congr rfl rfl rfl

theorem sound_create (mode : Mode) (fn : Function) (args : List Value) (host : H) :
    Sound (create mode fn args host) := by
  refine Sound.framePush ⟨.nil, fun c hc => (by cases hc), noConfusion⟩ noConfusion ?_ _
  intro callee caller _ hcall
  cases hcall

theorem sound_run (h : Sound s) (inputs : List (Input H)) : Sound (run S p inputs s) := by
  induction inputs generalizing s with
  | nil => exact h
  | cons input inputs ih => exact ih (sound_respond h input)

end Panackelty.Vm
