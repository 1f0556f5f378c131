import Panackelty.Library.Machine
import Panackelty.Vm.Effects

/-!
# What an execution waits for

The kind of a wait is spread over seven fields of an execution, and every completion entry point
reads some of them.  A wait of each kind has its own setting of the fields, which the builtin that
registers it makes; while nothing is awaited all of them are clear.

* `WaitKind`, `Flags`, `waitKind`: the kinds, the fields, and the kind that a builtin registers.
* `Leaves`: what a builtin does to the fields; `Dispatched`: what an instruction does.
* `Standing`: the invariant; `waits`: the waits that were registered so far.
-/

namespace Panackelty.Vm

open Execution

variable {H : Type}

/-! ## Kinds -/

/-- What a wait is for. -/
inductive WaitKind where
  | print | read | tcp | http | console | filesystem | server | close
  deriving DecidableEq, Repr

/-- The fields that say what is awaited. -/
structure Flags where
  read : Bool
  tcp : Bool
  http : Bool
  server : Bool
  filesystem : Bool
  console : Bool
  close : Bool
  deriving DecidableEq, Repr

/-- Nothing is awaited. -/
def Flags.idle : Flags := ⟨false, false, false, false, false, false, false⟩

/-- The setting of the fields for a wait; a pending `print` has none of its own. -/
def WaitKind.flags : WaitKind → Flags
  | .print => .idle
  | .read => { Flags.idle with read := true }
  | .tcp => { Flags.idle with read := true, tcp := true }
  | .http => { Flags.idle with read := true, http := true }
  | .console => { Flags.idle with console := true }
  | .filesystem => { Flags.idle with filesystem := true }
  | .server => { Flags.idle with server := true }
  | .close => { Flags.idle with close := true }

/-- The fields that a wait sets. -/
def Execution.flags (s : Execution H) : Flags :=
  ⟨s.waitingRead, s.tcp, s.http, s.server, s.rootRead, s.consoleWrite, s.httpWaiting.isSome⟩

/-- The wait that a builtin registers. -/
def waitKind : BuiltinName → Option WaitKind
  | .print => some .print
  | .asyncFakeRead | .dollarTcpServerReadChunk | .httpConnectionContinue => some .read
  | .dollarTcpExchange => some .tcp
  | .dollarHttpTransportExchange => some .http
  | .hostStdoutAsync | .hostStderrAsync => some .console
  | .fsReadBeneathAsync | .fsRootIdentityAsync => some .filesystem
  | .dollarTcpServe | .dollarTcpServeStream | .tcpService => some .server
  | .httpClose | .httpDestroy => some .close
  | _ => none

namespace Execution

variable (s : Execution H)

@[simp] theorem setRegisters_flags (regs : Registers) : (s.setRegisters regs).flags = s.flags := by
  unfold setRegisters
  split <;> rfl

@[simp] theorem setRegisters_error (regs : Registers) : (s.setRegisters regs).error = s.error := by
  unfold setRegisters
  split <;> rfl

@[simp] theorem push_flags (v : Value) : (s.push v).flags = s.flags := by
  unfold push
  split
  · rfl
  · exact s.setRegisters_flags _

@[simp] theorem framePush_flags (fn : Function) (arguments : List Value) :
    (s.framePush fn arguments).flags = s.flags := by
  unfold framePush
  split_ifs
  · rfl
  · rfl
  · rfl

end Execution

theorem flags_eq {s : Execution H} {k : WaitKind} (h : s.flags = k.flags) :
    s.waitingRead = k.flags.read ∧ s.tcp = k.flags.tcp ∧ s.http = k.flags.http ∧
      s.server = k.flags.server ∧ s.rootRead = k.flags.filesystem ∧
      s.consoleWrite = k.flags.console ∧ s.httpWaiting.isSome = k.flags.close := by
  rw [← h]
  exact ⟨rfl, rfl, rfl, rfl, rfl, rfl, rfl⟩

/-! ## Builtins -/

/-- An execution in the middle of its loop: nothing is awaited. -/
structure Running (s : Execution H) : Prop where
  status : s.status = .yielded
  error : s.error = none
  flags : s.flags = .idle

/-- What a builtin leaves of a running execution: it waits with the fields of its kind, or the
fields are as they were. -/
def Leaves (kind : Option WaitKind) (s : Execution H) : Prop :=
  (s.status ≠ .waiting ∧ s.flags = .idle) ∨
    (s.status = .waiting ∧ s.error = none ∧ ∃ k ∈ kind, s.flags = k.flags)

variable {s s' : Execution H} {kind : Option WaitKind} {k : WaitKind}

theorem Running.not_waiting (h : Running s) : s.status ≠ .waiting := h.status ▸ Status.noConfusion

theorem Running.leaves (h : Running s) (hstat : s'.status = s.status) (hflg : s'.flags = s.flags) :
    Leaves kind s' :=
  .inl ⟨hstat ▸ h.not_waiting, hflg.trans h.flags⟩

theorem Running.fail (h : Running s) (failure : Failure) : Leaves kind (s.fail failure) :=
  h.leaves rfl rfl

theorem Running.trap (h : Running s) (error : String) : Leaves kind (s.trap error) := h.fail _

theorem Running.finishCall (h : Running s) (out : Except Failure Value × H) :
    Leaves kind (s.finishCall out).execution := by
  obtain ⟨_ | _, host⟩ := out
  · exact h.leaves rfl rfl
  · exact h.leaves rfl rfl

variable {f : Flags → Flags}

theorem Running.wait (h : Running s) (hk : k ∈ kind) (hstat : s'.status = .waiting)
    (herr : s'.error = s.error) (hflg : s'.flags = f s.flags)
    (hf : f .idle = k.flags) : Leaves kind s' :=
  .inr ⟨hstat, herr.trans h.error, k, hk, by rw [hflg, h.flags, hf]⟩

theorem Running.finishWait (h : Running s) (hk : k ∈ kind) (refused : String)
    {waiting : Execution H → Execution H}
    (hflg : ∀ s, (waiting s).flags = f s.flags) (herr : ∀ s, (waiting s).error = s.error)
    (hf : f .idle = k.flags) (out : Except Failure Unit × H) :
    Leaves kind (s.finishWait refused waiting out) := by
  obtain ⟨(_ | trap) | _, host⟩ := out
  · exact h.leaves rfl rfl
  · exact h.leaves rfl rfl
  · exact h.wait hk rfl (herr _) (hflg _) hf

theorem Running.finishStart (h : Running s) (hk : k ∈ kind) {waiting : Execution H → Execution H}
    (hflg : ∀ s, (waiting s).flags = f s.flags)
    (herr : ∀ s, (waiting s).error = s.error) (hf : f .idle = k.flags) (out : Bool × H) :
    Leaves kind (s.finishStart waiting out) := by
  obtain ⟨_ | _, host⟩ := out
  · exact h.leaves rfl rfl
  · exact h.wait hk rfl (herr _) (hflg _) hf

theorem Running.guarded (h : Running s) (enabled : Bool) (unavailable : String)
    {service : Execution H → Execution H} (hserv : Leaves kind (service s)) :
    Leaves kind (s.guarded enabled unavailable service) := by
  unfold Execution.guarded
  split_ifs
  · exact h.trap unavailable
  · exact hserv

theorem Running.cleared (h : Running s) (hstat : s'.status = s.status) (herr : s'.error = s.error)
    (hflg : s'.flags = f s.flags) (hf : f .idle = .idle) : Running s' :=
  ⟨hstat.trans h.status, herr.trans h.error, by rw [hflg, h.flags, hf]⟩

section Builtins

variable (S : Services H) (p : Program) (arguments : List Value)

theorem Running.serviceCall (h : Running s) (hk : .server ∈ kind) :
    Leaves kind (serviceCall S p arguments s) := by
  have hclear : ∀ host : H, Running { s with host, server := false } := fun _ =>
    h.cleared rfl rfl (f := fun flags => { flags with server := false }) rfl rfl
  have hwait : ∀ host : H, Leaves kind { s with host, server := true, status := .waiting } :=
    fun _ => h.wait hk rfl rfl (f := fun flags => { flags with server := true }) rfl rfl
  unfold Vm.serviceCall
  split_ifs
  · exact h.trap _
  split
  · exact h.trap _
  split
  · exact h.trap _
  split_ifs
  · exact h.trap _
  split
  · exact (hclear _).fail none
  simp only
  split_ifs
  · exact hwait _
  split
  · exact hwait _
  · exact (hclear _).trap _

theorem Running.serverCallMode (h : Running s) (hk : .server ∈ kind) (streaming : Bool) :
    Leaves kind (serverCallMode S p arguments streaming s) := by
  unfold Vm.serverCallMode
  split
  · exact h.trap _
  split
  · exact h.trap _
  split
  · refine Running.fail ?_ none
    exact h.cleared rfl rfl (f := fun flags => { flags with server := false }) rfl rfl
  · exact h.wait hk rfl rfl (f := fun flags => { flags with server := true }) rfl rfl

theorem Running.httpListen (h : Running s) (contextual : Bool) :
    Leaves kind (httpListen S p arguments contextual s).execution := by
  unfold Vm.httpListen
  split
  · exact h.trap _
  split_ifs
  · exact h.trap _
  simp only
  split
  · exact h.leaves rfl rfl
  · refine Running.finishCall ?_ _
    exact ⟨h.status, h.error, h.flags⟩

theorem Running.httpShutdown (h : Running s) (hk : .close ∈ kind) (destroy : Bool) :
    Leaves kind (httpShutdown S arguments destroy s).execution := by
  unfold Vm.httpShutdown
  simp only
  split
  · split_ifs
    · exact h.wait hk rfl rfl (f := fun flags => { flags with close := true }) rfl rfl
    · exact h.leaves rfl rfl
  · exact h.leaves rfl rfl
  · exact h.trap _

theorem Running.processExit (h : Running s) (limit : ℕ) :
    Leaves kind (processExit arguments limit s) := by
  unfold Vm.processExit
  split
  · exact h.trap _
  split_ifs
  · exact h.leaves rfl rfl
  · exact .inl ⟨Status.noConfusion, h.flags⟩

theorem Running.serverReadChunk (h : Running s) (hk : .read ∈ kind) :
    Leaves kind (serverReadChunk S arguments s) := by
  unfold Vm.serverReadChunk
  split
  · exact h.trap _
  split_ifs
  · exact h.trap _
  refine h.finishWait hk _ (f := fun flags => { flags with read := true }) ?_ ?_ rfl _
  · exact fun _ => rfl
  · exact fun _ => rfl

theorem Running.asyncFakeRead (h : Running s) (hk : .read ∈ kind) :
    Leaves kind (asyncFakeRead S arguments s) := by
  unfold Vm.asyncFakeRead
  split
  · simp only
    split_ifs
    · exact h.wait hk rfl rfl (f := fun flags => { flags with read := true }) rfl rfl
    · exact h.trap _
    refine h.finishWait hk _ (f := fun flags => { flags with read := true }) ?_ ?_ rfl _
    · exact fun _ => rfl
    · exact fun _ => rfl
  · exact h.trap _

theorem Running.consoleWrite (h : Running s) (hk : .console ∈ kind) (stderr : Bool) :
    Leaves kind (consoleWrite S arguments stderr s) := by
  have hclear : Running { s with consoleWrite := false } :=
    h.cleared rfl rfl (f := fun flags => { flags with console := false }) rfl rfl
  refine hclear.finishWait hk _ (f := fun flags => { flags with console := true }) ?_ ?_ rfl _
  · exact fun _ => rfl
  · exact fun _ => rfl

theorem Running.rootRead (h : Running s) (hk : .filesystem ∈ kind) (ident : Bool) :
    Leaves kind (rootRead S arguments ident s) := by
  have hclear : Running { s with rootRead := false } :=
    h.cleared rfl rfl (f := fun flags => { flags with filesystem := false }) rfl rfl
  refine hclear.finishWait hk _ (f := fun flags => { flags with filesystem := true }) ?_ ?_ rfl _
  · exact fun _ => rfl
  · exact fun _ => rfl

theorem Running.tcpExchange (h : Running s) (hk : .tcp ∈ kind) :
    Leaves kind (tcpExchange S arguments s) := by
  have hclear : Running { s with tcp := false } :=
    h.cleared rfl rfl (f := fun flags => { flags with tcp := false }) rfl rfl
  refine hclear.finishStart hk (f := fun flags => { flags with tcp := true, read := true }) ?_ ?_
    rfl _
  · exact fun _ => rfl
  · exact fun _ => rfl

theorem Running.httpTransportExchange (h : Running s) (hk : .http ∈ kind) :
    Leaves kind (httpTransportExchange S arguments s) := by
  have hclear : Running { s with http := false } :=
    h.cleared rfl rfl (f := fun flags => { flags with http := false }) rfl rfl
  refine hclear.finishStart hk (f := fun flags => { flags with http := true, read := true }) ?_ ?_
    rfl _
  · exact fun _ => rfl
  · exact fun _ => rfl

theorem Running.ordinaryBuiltin (h : Running s) {b : BuiltinName}
    (hk : b = .print → .print ∈ kind) (entry : Builtin) :
    Leaves kind (ordinaryBuiltin S b entry arguments s).execution := by
  unfold Vm.ordinaryBuiltin
  split_ifs with _ _ hprint
  · exact h.finishCall _
  · exact h.trap _
  · exact h.finishWait (hk hprint.2) _ (f := id) (fun _ => rfl) (fun _ => rfl) rfl _
  · exact h.trap _
  · exact h.finishCall _

theorem Running.executionBuiltin (h : Running s) (b : BuiltinName) (entry : Builtin) :
    Leaves (waitKind b) (executionBuiltin S p b entry arguments s).execution := by
  unfold Vm.executionBuiltin
  split
  · split
    · exact h.wait rfl rfl rfl (f := fun flags => { flags with read := true }) rfl rfl
    · exact h.leaves rfl rfl
  · exact h.httpListen S p arguments false
  · exact h.httpListen S p arguments true
  · exact h.httpShutdown S arguments rfl false
  · exact h.httpShutdown S arguments rfl true
  · unfold Vm.httpConnectionInvoke
    split
    · exact h.leaves rfl rfl
    · exact h.leaves (s.framePush_status _ _) (s.framePush_flags _ _)
  · exact h.serviceCall S p arguments rfl
  · split_ifs
    · exact h.trap _
    · exact h.finishCall _
  · split_ifs
    · exact h.processExit arguments 255
    split
    · exact h.trap _
    split_ifs
    · exact h.leaves rfl rfl
    · refine Running.finishCall ?_ _
      exact ⟨h.status, h.error, h.flags⟩
  · exact h.guarded _ _ (h.consoleWrite S arguments rfl false)
  · exact h.guarded _ _ (h.consoleWrite S arguments rfl true)
  · exact h.guarded _ _ (h.rootRead S arguments rfl false)
  · exact h.guarded _ _ (h.rootRead S arguments rfl true)
  · exact h.serverCallMode S p arguments rfl false
  · exact h.serverCallMode S p arguments rfl true
  · exact h.serverReadChunk S arguments rfl
  · exact h.guarded _ _ (h.tcpExchange S arguments rfl)
  · exact h.guarded _ _ (h.httpTransportExchange S arguments rfl)
  · exact h.asyncFakeRead S arguments rfl
  · split_ifs
    · exact h.processExit arguments sizeMax
    · exact h.ordinaryBuiltin S arguments (fun hprint => BuiltinName.noConfusion hprint) entry
  · exact h.ordinaryBuiltin S arguments (fun hprint => hprint ▸ rfl) entry

end Builtins

/-! ## Instructions -/

/-- What an instruction does to a running execution: it executes a builtin, from a state that
differs in the registers only, or it changes neither the record nor the fields. -/
def Dispatched (S : Services H) (p : Program) (s s' : Execution H) : Prop :=
  (s'.status ≠ .waiting ∧ s'.calls = s.calls ∧ s'.flags = s.flags) ∨
    ∃ s₀ b entry arguments, Running s₀ ∧ s₀.calls = s.calls ∧
      s' = (invoke S p b entry arguments s₀).pushValue

theorem Running.setRegisters (h : Running s) (regs : Registers) : Running (s.setRegisters regs) :=
  ⟨(s.setRegisters_status _).trans h.status, (s.setRegisters_error _).trans h.error,
    (s.setRegisters_flags _).trans h.flags⟩

/-- The value of a builtin changes neither the status nor the record nor the fields. -/
theorem Invoked.pushValue_eq (invoked : Invoked H) :
    invoked.pushValue.status = invoked.execution.status ∧
      invoked.pushValue.calls = invoked.execution.calls ∧
      invoked.pushValue.flags = invoked.execution.flags := by
  unfold Invoked.pushValue
  split
  · split
    · exact ⟨invoked.execution.push_status _, invoked.execution.push_calls _,
        invoked.execution.push_flags _⟩
    · split
      · exact ⟨rfl, rfl, rfl⟩
      · exact ⟨rfl, rfl, rfl⟩
  · exact ⟨rfl, rfl, rfl⟩

theorem Leaves.pushValue {invoked : Invoked H} (h : Leaves kind invoked.execution) :
    Leaves kind invoked.pushValue := by
  obtain ⟨hstat, -, hflg⟩ := invoked.pushValue_eq
  rcases h with ⟨hnot, hidle⟩ | ⟨hwait, herr, hk⟩
  · exact .inl ⟨hstat ▸ hnot, hflg.trans hidle⟩
  · have heq : invoked.pushValue = invoked.execution := by simp [Invoked.pushValue, hwait]
    exact heq ▸ .inr ⟨hwait, herr, hk⟩

section Dispatch

variable {S : Services H} {p : Program}

theorem Running.plain (h : Running s) (hstat : s'.status = s.status) (hcalls : s'.calls = s.calls)
    (hflg : s'.flags = s.flags) : Dispatched S p s s' :=
  .inl ⟨hstat ▸ h.not_waiting, hcalls, hflg⟩

theorem Dispatched.after {s₀ : Execution H} (h : Dispatched S p s₀ s') (hcalls : s₀.calls = s.calls)
    (hflg : s₀.flags = s.flags) : Dispatched S p s s' := by
  unfold Dispatched at h ⊢
  rwa [hcalls, hflg] at h

theorem executionBuiltin_calls (b : BuiltinName) (entry : Builtin) (arguments : List Value) :
    (executionBuiltin S p b entry arguments s).execution.calls = s.calls := by
  rcases executionBuiltin_spec S p b entry arguments s with hquiet | ⟨-, handler, call, -, hpush⟩
  · exact hquiet.calls
  · rw [hpush, s.framePush_calls]

theorem Running.invoke (h : Running s) (b : BuiltinName) (entry : Builtin)
    (arguments : List Value) :
    Dispatched S p s (invoke S p b entry arguments s).pushValue :=
  .inr ⟨s, b, entry, arguments, h, rfl, rfl⟩

theorem Running.framePush (h : Running s) (fn : Function) (arguments : List Value) :
    Dispatched S p s (s.framePush fn arguments) :=
  h.plain (s.framePush_status _ _) (s.framePush_calls _ _) (s.framePush_flags _ _)

section Calls

variable (h : Running s) {caller : Frame}

include h

theorem Running.call (name : CString) (arity : ℕ) (awaited : Bool) :
    Dispatched S p s (call S p name arity awaited caller s) := by
  unfold Vm.call
  split
  · exact h.plain rfl rfl rfl
  rename_i regs _
  refine Dispatched.after ?_ (s.setRegisters_calls regs) (s.setRegisters_flags regs)
  have hset := h.setRegisters regs
  split
  · split_ifs
    · exact hset.invoke _ _ _
    · exact hset.plain rfl rfl rfl
  split
  · split_ifs
    · exact hset.framePush _ _
    · exact hset.plain rfl rfl rfl
  · exact hset.plain rfl rfl rfl

theorem Running.callValue (arity : ℕ) (awaited : Bool) :
    Dispatched S p s (callValue S p arity awaited caller s) := by
  unfold Vm.callValue
  split
  · exact h.plain rfl rfl rfl
  split
  · exact h.plain rfl rfl rfl
  · rename_i data regs _
    refine Dispatched.after ?_ (s.setRegisters_calls regs) (s.setRegisters_flags regs)
    have hset := h.setRegisters regs
    simp only
    split
    · split
      · exact hset.plain rfl rfl rfl
      split
      · exact hset.invoke _ _ _
      · exact hset.plain rfl rfl rfl
    · split
      · split
        · exact hset.plain rfl rfl rfl
        split
        · exact hset.framePush _ _
        · exact hset.plain rfl rfl rfl
      · exact hset.plain rfl rfl rfl
  · exact h.plain rfl rfl rfl

theorem Running.returnFrom : Dispatched S p s (returnFrom caller s) := by
  unfold Vm.returnFrom
  split
  · exact h.plain rfl rfl rfl
  split
  · exact h.plain rfl rfl rfl
  simp only
  split
  · exact .inl ⟨Status.noConfusion, rfl, rfl⟩
  refine h.plain ?_ ?_ ?_
  · exact push_status _ _
  · exact push_calls _ _
  · exact push_flags _ _

theorem Running.perform (instr : Instruction) : Dispatched S p s (perform S p instr caller s) := by
  have hop : Dispatched S p s (operated S instr caller.registers s) := by
    unfold operated
    split
    · exact h.plain rfl rfl rfl
    refine h.plain ?_ ?_ ?_
    · exact s.setRegisters_status _
    · exact s.setRegisters_calls _
    · exact s.setRegisters_flags _
  cases instr with
  | call name arity => exact h.call name arity false
  | awaitCall name arity => exact h.call name arity true
  | callValue arity => exact h.callValue arity false
  | awaitValue arity => exact h.callValue arity true
  | ret => exact h.returnFrom
  | _ => exact hop

end Calls

theorem Running.dispatch (h : Running s) : Dispatched S p s (dispatch S p s) := by
  unfold Vm.dispatch
  split
  · exact h.plain rfl rfl rfl
  split
  · exact h.plain rfl rfl rfl
  refine Dispatched.after (Running.perform ?_ _) ?_ ?_
  · exact ⟨h.status, h.error, h.flags⟩
  · rfl
  · rfl

/-! ## The loop -/

/-- The waits that were registered, the latest first. -/
def Execution.waits (s : Execution H) : List Call := s.calls.filter Call.waits

/-- Between instructions and between entry points: clear fields while nothing is awaited, the fields
of the latest builtin while it is awaited. -/
structure Standing (s : Execution H) : Prop where
  idle : s.status ≠ .waiting → s.flags = .idle
  waiting : s.status = .waiting → s.error = none ∧
    ∃ c, s.calls.head? = some c ∧ c.waits = true ∧ ∃ k ∈ waitKind c.builtin, s.flags = k.flags

/-- The call that a waiting execution waits for. -/
def Execution.pending (s : Execution H) : Option Call :=
  if s.status = .waiting then s.calls.head? else none

/-- How the waits of a later state follow from those of an earlier one that was not waiting. -/
def Execution.Continues (s s' : Execution H) : Prop := s'.waits = s'.pending.toList ++ s.waits

theorem Standing.running (h : Standing s) (hs : s.status = .yielded) (herr : s.error = none) :
    Running s :=
  ⟨hs, herr, h.idle (hs ▸ Status.noConfusion)⟩

theorem Running.invoke_leaves (h : Running s) (b : BuiltinName) (entry : Builtin)
    (arguments : List Value) : Leaves (waitKind b) (Vm.invoke S p b entry arguments s).pushValue ∧
      (Vm.invoke S p b entry arguments s).pushValue.calls = ⟨b, entry, s.frames,
        (Vm.invoke S p b entry arguments s).pushValue.status == .waiting⟩ :: s.calls := by
  obtain ⟨hstat, hcalls, -⟩ := (Vm.invoke S p b entry arguments s).pushValue_eq
  have hleaves : Leaves (waitKind b) (Vm.invoke S p b entry arguments s).execution :=
    h.executionBuiltin S p arguments b entry
  refine ⟨hleaves.pushValue, ?_⟩
  rw [hcalls, hstat]
  exact congrArg _ (executionBuiltin_calls b entry arguments)

theorem Dispatched.standing (h : Dispatched S p s s') (hs : Running s) : Standing s' := by
  rcases h with ⟨hnot, -, hflg⟩ | ⟨s₀, b, entry, arguments, hs₀, -, rfl⟩
  · exact ⟨fun _ => hflg.trans hs.flags, fun hwait => absurd hwait hnot⟩
  obtain ⟨⟨hnot, hflg⟩ | ⟨hwait, herr, hk⟩, hcalls⟩ :=
    @Running.invoke_leaves H s₀ S p hs₀ b entry arguments
  · exact ⟨fun _ => hflg, fun hwait => absurd hwait hnot⟩
  · rw [hwait] at hcalls
    refine ⟨fun hnot => absurd hwait hnot, fun _ =>
      ⟨herr, ⟨b, entry, s₀.frames, true⟩, ?_, rfl, hk⟩⟩
    rw [hcalls]
    rfl

theorem Dispatched.continues (h : Dispatched S p s s') : s.Continues s' := by
  unfold Execution.Continues pending waits
  rcases h with ⟨hnot, hcalls, -⟩ | ⟨s₀, b, entry, arguments, hs₀, hcalls, rfl⟩
  · simp [hnot, hcalls]
  · rw [(@Running.invoke_leaves H s₀ S p hs₀ b entry arguments).2, hcalls, List.filter_cons]
    cases hstat : (Vm.invoke S p b entry arguments s₀).pushValue.status <;> simp

theorem dispatchLoop_of_waiting (hs : s.status = .waiting) (budget : ℕ) :
    dispatchLoop S p budget s = s := by
  cases budget with
  | zero => rfl
  | succ budget => simp [dispatchLoop, hs]

theorem dispatchLoop_standing (h : Standing s) (hs : s.status ≠ .waiting) (budget : ℕ) :
    Standing (dispatchLoop S p budget s) ∧ s.Continues (dispatchLoop S p budget s) := by
  have hrefl : s.Continues s := by simp [Execution.Continues, pending, hs]
  induction budget generalizing s with
  | zero => exact ⟨h, hrefl⟩
  | succ budget ih =>
    unfold dispatchLoop
    split
    · exact ⟨h, hrefl⟩
    rename_i hgo
    rw [not_or, not_not, Bool.not_eq_true, Option.isSome_eq_false_iff, Option.isNone_iff_eq_none]
      at hgo
    have hrun := h.running hgo.2 hgo.1
    have hdisp := @Running.dispatch H s S p hrun
    have hstand := hdisp.standing hrun
    have hcont := hdisp.continues
    simp only
    split
    · exact ⟨⟨hstand.idle, hstand.waiting⟩, hcont⟩
    by_cases hwait : (dispatch S p s).status = .waiting
    · rw [dispatchLoop_of_waiting hwait]
      exact ⟨hstand, hcont⟩
    have hnext : (dispatch S p s).Continues (dispatch S p s) := by
      simp [Execution.Continues, pending, hwait]
    have hwaits : (dispatch S p s).waits = s.waits := by
      simpa [Execution.Continues, pending, hwait] using hcont
    obtain ⟨hlast, hlater⟩ := ih hstand hwait hnext
    refine ⟨hlast, ?_⟩
    rwa [Execution.Continues, hwaits] at hlater

theorem finish_of_waiting (h : Standing s) (hs : s.status = .waiting) : s.finish = s := by
  simp [finish, hs, (h.waiting hs).1]

theorem finish_of_not_waiting (hs : s.status ≠ .waiting) :
    s.finish.status ≠ .waiting ∧ s.finish.flags = s.flags ∧ s.finish.calls = s.calls := by
  unfold finish
  simp only
  split_ifs <;> first
    | exact ⟨hs, rfl, rfl⟩
    | exact ⟨Status.noConfusion, rfl, rfl⟩

theorem Standing.finish (h : Standing s) : Standing s.finish := by
  by_cases hwait : s.status = .waiting
  · rw [finish_of_waiting h hwait]
    exact h
  · obtain ⟨hnot, hflg, -⟩ := finish_of_not_waiting hwait
    exact ⟨fun _ => hflg.trans (h.idle hwait), fun hw => absurd hw hnot⟩

theorem standing_create (mode : Mode) (fn : Function) (arguments : List Value) (host : H) :
    Standing (create mode fn arguments host) := by
  refine ⟨fun _ => framePush_flags _ _ _, fun hwait => ?_⟩
  have hstat : (create mode fn arguments host).status = .yielded :=
    framePush_status _ _ _
  cases hstat.symm.trans hwait

end Dispatch

end Panackelty.Vm
