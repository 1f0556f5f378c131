import Panackelty.Vm.Waits

/-!
# What an execution does to its host

An instruction reaches the host through the services only.  A relation that all services keep holds
between the host before an instruction and after it, the callbacks for waits apart: where one of
them accepts, the execution is left waiting for it.

* `Services.Keep`: a relation on hosts that the services keep.
* `Registered`: a wait that a callback has accepted.
* `Serves`: what an instruction does; `advance_host`: for a whole `vm_execution_advance`.
-/

namespace Panackelty.Vm

open Execution

variable {H : Type}

/-- A relation on hosts that every service keeps; of the callbacks for waits, those that refuse. -/
structure Services.Keep (S : Services H) (R : H → H → Prop) : Prop where
  refl : ∀ host, R host host
  trans : ∀ {a b c}, R a b → R b c → R a c
  builtinCall : ∀ b arguments host, R host (S.builtinCall b arguments host).2
  hostCall : ∀ b arguments host, R host (S.hostCall b arguments host).2
  readWait : ∀ v host {failure host'}, S.readWait v host = (.error failure, host') → R host host'
  printWait : ∀ v host {failure host'}, S.printWait v host = (.error failure, host') → R host host'
  httpContinue : ∀ v host, R host (S.httpContinue v host).2
  httpListen : ∀ v f contextual network filesystem console host,
    R host (S.httpListen v f contextual network filesystem console host).2
  stopSignals : ∀ host, R host (S.stopSignals host).2
  requestClose : ∀ v destroy host, R host (S.requestClose v destroy host).2
  serviceStart : ∀ f context address port limits network host,
    R host (S.serviceStart f context address port limits network host).2
  serviceReady : ∀ f context console signals host,
    R host (S.serviceReady f context console signals host).2
  serverStart : ∀ f context address port limits network host,
    R host (S.serverStart f context address port limits network host).2
  serverEnable : ∀ filesystem console host, R host (S.serverEnable filesystem console host)
  consoleWriteStart : ∀ v stderr host, R host (S.consoleWriteStart v stderr host).2
  rootReadStart : ∀ arguments identity host, R host (S.rootReadStart arguments identity host).2
  tcpExchangeStart : ∀ arguments host, R host (S.tcpExchangeStart arguments host).2
  httpTransportStart : ∀ arguments host, R host (S.httpTransportStart arguments host).2

/-- The services that an execution was created with. -/
def Execution.mode (s : Execution H) : Mode := ⟨s.embedded, s.hostCall, s.printWait, s.readWait⟩

/-- A callback for waits has accepted, and the execution waits for it. -/
def Registered (S : Services H) (s s' : Execution H) : Prop :=
  s'.status = .waiting ∧ ∃ v, (s.readWait = true ∧ S.readWait v s.host = (.ok (), s'.host) ∧
      s'.flags = { s.flags with read := true }) ∨
    (s.printWait = true ∧ S.printWait v s.host = (.ok (), s'.host) ∧ s'.flags = s.flags)

/-- What an instruction does to the host. -/
structure Serves (S : Services H) (R : H → H → Prop) (s s' : Execution H) : Prop where
  mode : s'.mode = s.mode
  host : R s.host s'.host ∨ Registered S s s'

namespace Execution

variable (s : Execution H)

@[simp] theorem setRegisters_mode (regs : Registers) : (s.setRegisters regs).mode = s.mode := by
  unfold setRegisters
  split <;> rfl

@[simp] theorem setRegisters_host (regs : Registers) : (s.setRegisters regs).host = s.host := by
  unfold setRegisters
  split <;> rfl

@[simp] theorem push_mode (v : Value) : (s.push v).mode = s.mode := by
  unfold push
  split
  · rfl
  · exact s.setRegisters_mode _

@[simp] theorem push_host (v : Value) : (s.push v).host = s.host := by
  unfold push
  split
  · rfl
  · exact s.setRegisters_host _

@[simp] theorem framePush_mode (fn : Function) (arguments : List Value) :
    (s.framePush fn arguments).mode = s.mode := by
  unfold framePush
  split_ifs <;> rfl

@[simp] theorem framePush_host (fn : Function) (arguments : List Value) :
    (s.framePush fn arguments).host = s.host := by
  unfold framePush
  split_ifs <;> rfl

@[simp] theorem finish_mode : s.finish.mode = s.mode := by
  unfold finish
  simp only
  split_ifs <;> rfl

theorem finish_error (h : s.finish.status = .yielded) : s.finish.error = none := by
  unfold finish at h ⊢
  cases herr : s.error with
  | none =>
    simp only [herr, Option.isSome_none, Bool.false_eq_true, if_false]
    split_ifs
    · exact herr
    · rfl
  | some trap => simp [herr] at h

@[simp] theorem finish_host : s.finish.host = s.host := by
  unfold finish
  simp only
  split_ifs <;> rfl

@[simp] theorem settle_host (error : Option Trap) (res : Option Value) :
    (s.settle error res).host = s.host := by
  unfold settle
  split
  · exact s.push_host _
  · rfl
  · rfl

@[simp] theorem completeRead_host (res : Option Value) : (s.completeRead res).host = s.host := by
  unfold completeRead
  simp only
  split
  · rfl
  split
  · simp
  split
  · simp
  · simp

theorem poll_host {α : Type} (service : Bool) {complete : α → Execution H}
    (hcompl : ∀ res, (complete res).host = s.host) (out : Option α) :
    (s.poll service complete out).host = s.host := by
  unfold poll
  split
  · split
    · exact hcompl _
    · rfl
  · rfl

@[simp] theorem pollNetwork_host (polls : Polls) : (s.pollNetwork polls).host = s.host := by
  unfold pollNetwork
  split_ifs
  · exact s.poll_host _ (fun _ => by simp) _
  · exact s.poll_host _ (fun _ => by simp) _
  · exact s.poll_host _ (fun _ => by simp) _
  · exact s.poll_host _ (fun _ => by simp) _
  · rfl

end Execution

section Builtins

variable {S : Services H} {R : H → H → Prop} {s s' s₀ : Execution H}

theorem Services.Keep.same (hR : S.Keep R) (hmode : s'.mode = s.mode) (hhost : s'.host = s.host) :
    Serves S R s s' :=
  ⟨hmode, .inl (hhost ▸ hR.refl s.host)⟩

theorem Services.Keep.trap (hR : S.Keep R) (error : String) : Serves S R s (s.trap error) :=
  hR.same rfl rfl

theorem Serves.of_host (hmode : s'.mode = s.mode) (hhost : R s.host s'.host) : Serves S R s s' :=
  ⟨hmode, .inl hhost⟩

/-- What the instruction starts from may differ in what is not read. -/
theorem Serves.after (h : Serves S R s₀ s') (hmode : s₀.mode = s.mode) (hhost : s₀.host = s.host)
    (hflg : s₀.flags = s.flags) : Serves S R s s' := by
  have hread : s₀.readWait = s.readWait := congrArg Mode.readWait hmode
  have hprint : s₀.printWait = s.printWait := congrArg Mode.printWait hmode
  refine ⟨h.mode.trans hmode, ?_⟩
  have hstep := h.host
  unfold Registered at hstep ⊢
  rwa [hread, hprint, hhost, hflg] at hstep

theorem Serves.finishCall {out : Except Failure Value × H} (h : R s.host out.2) :
    Serves S R s (s.finishCall out).execution := by
  obtain ⟨_ | _, host⟩ := out
  · exact .of_host rfl h
  · exact .of_host rfl h

variable {waiting : Execution H → Execution H}

/-- A wait for a service that is not a callback; a field was cleared before. -/
theorem Serves.finishWait {refused : String}
    (hbase : s₀.mode = s.mode) (hmode : ∀ s, (waiting s).mode = s.mode)
    (hhost : ∀ s, (waiting s).host = s.host) {out : Except Failure Unit × H}
    (h : R s.host out.2) : Serves S R s (s₀.finishWait refused waiting out) := by
  obtain ⟨(_ | trap) | _, host⟩ := out
  · exact .of_host hbase h
  · exact .of_host hbase h
  refine .of_host ((hmode _).trans hbase) ?_
  show R s.host (waiting { s₀ with host }).host
  rw [hhost]
  exact h

theorem Serves.finishStart (hbase : s₀.mode = s.mode)
    (hmode : ∀ s, (waiting s).mode = s.mode) (hhost : ∀ s, (waiting s).host = s.host)
    {out : Bool × H} (h : R s.host out.2) : Serves S R s (s₀.finishStart waiting out) := by
  obtain ⟨_ | _, host⟩ := out
  · exact .of_host hbase h
  refine .of_host ((hmode _).trans hbase) ?_
  show R s.host (waiting { s₀ with host }).host
  rw [hhost]
  exact h

theorem Serves.register {refused : String}
    {out : Except Failure Unit × H} (hmode : ∀ s, (waiting s).mode = s.mode)
    (hrefuse : ∀ {failure host}, out = (.error failure, host) → R s.host host)
    (hacc : ∀ {host}, out = (.ok (), host) →
      Registered S s { waiting { s with host } with status := .waiting }) :
    Serves S R s (s.finishWait refused waiting out) := by
  obtain ⟨(_ | trap) | _, host⟩ := out
  · exact .of_host rfl (hrefuse rfl)
  · exact .of_host rfl (hrefuse rfl)
  · exact ⟨hmode _, .inr (hacc rfl)⟩

theorem Serves.guarded (hR : S.Keep R) (enabled : Bool) (unavailable : String)
    {service : Execution H → Execution H} (hserv : Serves S R s (service s)) :
    Serves S R s (s.guarded enabled unavailable service) := by
  unfold Execution.guarded
  split_ifs
  · exact hR.trap unavailable
  · exact hserv

theorem kept {α : Type} {out : α × H} {a : α} {host host' : H} (h : R host out.2)
    (heq : out = (a, host')) : R host host' := by
  subst heq
  exact h

variable (hR : S.Keep R) (p : Program) (arguments : List Value)

include hR

theorem serves_serviceCall : Serves S R s (serviceCall S p arguments s) := by
  unfold serviceCall
  split_ifs
  · exact hR.trap _
  split
  · exact hR.trap _
  split
  · exact hR.trap _
  split_ifs
  · exact hR.trap _
  split
  · rename_i hstart
    exact .of_host rfl (kept (hR.serviceStart _ _ _ _ _ _ _) hstart)
  rename_i hstart
  have hsrv := hR.trans (kept (hR.serviceStart _ _ _ _ _ _ _) hstart)
    (hR.serverEnable (!s.embedded || s.filesystemEnabled) (!s.embedded || s.consoleEnabled) _)
  simp only
  split_ifs
  · exact .of_host rfl hsrv
  split
  · rename_i hready
    exact .of_host rfl (hR.trans hsrv (kept (hR.serviceReady _ _ _ _ _) hready))
  · rename_i hready
    exact .of_host rfl (hR.trans hsrv (kept (hR.serviceReady _ _ _ _ _) hready))

theorem serves_serverCallMode (streaming : Bool) :
    Serves S R s (serverCallMode S p arguments streaming s) := by
  unfold serverCallMode
  split
  · exact hR.trap _
  split
  · exact hR.trap _
  split
  · rename_i hstart
    exact .of_host rfl (kept (hR.serverStart _ _ _ _ _ _ _) hstart)
  · rename_i hstart
    exact .of_host rfl (hR.trans (kept (hR.serverStart _ _ _ _ _ _ _) hstart)
      (hR.serverEnable _ _ _))

theorem serves_httpListen (contextual : Bool) :
    Serves S R s (httpListen S p arguments contextual s).execution := by
  unfold httpListen
  split
  · exact hR.trap _
  split_ifs
  · exact hR.trap _
  have hlisten := fun v worker network filesystem console =>
    hR.httpListen v worker contextual network filesystem console s.host
  simp only
  split
  · rename_i hstop
    exact .of_host rfl (hR.trans (hlisten _ _ _ _ _) (kept (hR.stopSignals _) hstop))
  · rename_i hstop
    refine Serves.after (Serves.finishCall ?_) rfl rfl rfl
    exact hR.trans (hlisten _ _ _ _ _) (kept (hR.stopSignals _) hstop)

theorem serves_httpShutdown (destroy : Bool) :
    Serves S R s (httpShutdown S arguments destroy s).execution := by
  unfold httpShutdown
  simp only
  split
  · rename_i hclose
    split_ifs
    · exact .of_host rfl (kept (hR.requestClose _ _ _) hclose)
    · exact .of_host rfl (kept (hR.requestClose _ _ _) hclose)
  · rename_i hclose
    exact .of_host rfl (kept (hR.requestClose _ _ _) hclose)
  · exact hR.trap _

theorem serves_processExit (limit : ℕ) : Serves S R s (processExit arguments limit s) := by
  unfold processExit
  split
  · exact hR.trap _
  split_ifs
  · exact hR.same rfl rfl
  · exact hR.same rfl rfl

theorem serves_serverReadChunk : Serves S R s (serverReadChunk S arguments s) := by
  unfold serverReadChunk
  split
  · exact hR.trap _
  split_ifs with hlim
  · exact hR.trap _
  have hread : s.readWait := by
    simp only [not_or, Bool.not_eq_true, Bool.not_eq_false'] at hlim
    exact hlim.2.2.2.1
  refine .register ?_ ?_ ?_
  · exact fun _ => rfl
  · exact hR.readWait _ _
  · exact fun h => ⟨rfl, _, .inl ⟨hread, h, rfl⟩⟩

theorem serves_asyncFakeRead : Serves S R s (asyncFakeRead S arguments s) := by
  unfold asyncFakeRead
  split
  · simp only
    split_ifs with _ hread
    · exact hR.same rfl rfl
    · exact hR.trap _
    rw [Bool.not_eq_true, Bool.not_eq_false'] at hread
    refine .register ?_ ?_ ?_
    · exact fun _ => rfl
    · exact hR.readWait _ _
    · exact fun h => ⟨rfl, _, .inl ⟨hread, h, rfl⟩⟩
  · exact hR.trap _

theorem serves_ordinaryBuiltin (b : BuiltinName) (entry : Builtin) :
    Serves S R s (ordinaryBuiltin S b entry arguments s).execution := by
  unfold ordinaryBuiltin
  split_ifs with _ _ hprint
  · exact .finishCall (hR.builtinCall _ _ _)
  · exact hR.trap _
  · refine .register ?_ ?_ ?_
    · exact fun _ => rfl
    · exact hR.printWait _ _
    · exact fun h => ⟨rfl, _, .inr ⟨hprint.1, h, rfl⟩⟩
  · exact hR.trap _
  · exact .finishCall (hR.hostCall _ _ _)

theorem serves_consoleWrite (stderr : Bool) : Serves S R s (consoleWrite S arguments stderr s) := by
  have hbase : mode { s with consoleWrite := false } = s.mode := rfl
  refine .finishWait hbase ?_ ?_ (hR.consoleWriteStart _ _ _)
  · exact fun _ => rfl
  · exact fun _ => rfl

theorem serves_rootRead (ident : Bool) : Serves S R s (rootRead S arguments ident s) := by
  have hbase : mode { s with rootRead := false } = s.mode := rfl
  refine .finishWait hbase ?_ ?_ (hR.rootReadStart _ _ _)
  · exact fun _ => rfl
  · exact fun _ => rfl

theorem serves_tcpExchange : Serves S R s (tcpExchange S arguments s) := by
  have hbase : mode { s with tcp := false } = s.mode := rfl
  refine .finishStart hbase ?_ ?_ (hR.tcpExchangeStart _ _)
  · exact fun _ => rfl
  · exact fun _ => rfl

theorem serves_httpTransportExchange : Serves S R s (httpTransportExchange S arguments s) := by
  have hbase : mode { s with http := false } = s.mode := rfl
  refine .finishStart hbase ?_ ?_ (hR.httpTransportStart _ _)
  · exact fun _ => rfl
  · exact fun _ => rfl

theorem serves_executionBuiltin (b : BuiltinName) (entry : Builtin) :
    Serves S R s (executionBuiltin S p b entry arguments s).execution := by
  unfold executionBuiltin
  split
  · split
    · rename_i hcont
      exact .of_host rfl (kept (hR.httpContinue _ _) hcont)
    · rename_i hcont
      exact .of_host rfl (kept (hR.httpContinue _ _) hcont)
  · exact serves_httpListen hR p arguments false
  · exact serves_httpListen hR p arguments true
  · exact serves_httpShutdown hR arguments false
  · exact serves_httpShutdown hR arguments true
  · unfold httpConnectionInvoke
    split
    · exact hR.same rfl rfl
    · exact hR.same (s.framePush_mode _ _) (s.framePush_host _ _)
  · exact serves_serviceCall hR p arguments
  · split_ifs
    · exact hR.trap _
    · exact .finishCall (hR.builtinCall _ _ _)
  · split_ifs
    · exact serves_processExit hR arguments 255
    split
    · exact hR.trap _
    split_ifs
    · exact hR.same rfl rfl
    · exact Serves.after (Serves.finishCall (hR.builtinCall _ _ _)) rfl rfl rfl
  · exact .guarded hR _ _ (serves_consoleWrite hR arguments false)
  · exact .guarded hR _ _ (serves_consoleWrite hR arguments true)
  · exact .guarded hR _ _ (serves_rootRead hR arguments false)
  · exact .guarded hR _ _ (serves_rootRead hR arguments true)
  · exact serves_serverCallMode hR p arguments false
  · exact serves_serverCallMode hR p arguments true
  · exact serves_serverReadChunk hR arguments
  · exact .guarded hR _ _ (serves_tcpExchange hR arguments)
  · exact .guarded hR _ _ (serves_httpTransportExchange hR arguments)
  · exact serves_asyncFakeRead hR arguments
  · split_ifs
    · exact serves_processExit hR arguments sizeMax
    · exact serves_ordinaryBuiltin hR arguments _ entry
  · exact serves_ordinaryBuiltin hR arguments _ entry

end Builtins

/-! ## Instructions -/

section Dispatch

variable {S : Services H} {R : H → H → Prop} {s s' : Execution H} {p : Program}

theorem Invoked.pushValue_host (invoked : Invoked H) :
    invoked.pushValue.host = invoked.execution.host ∧
      invoked.pushValue.mode = invoked.execution.mode := by
  unfold Invoked.pushValue
  split
  · split
    · exact ⟨invoked.execution.push_host _, invoked.execution.push_mode _⟩
    split
    · exact ⟨rfl, rfl⟩
    · exact ⟨rfl, rfl⟩
  · exact ⟨rfl, rfl⟩

theorem resumeShutdown_host (s : Execution H) : (s.resumeShutdown S).host = s.host := by
  unfold resumeShutdown
  split
  · split
    · rfl
    · exact s.push_host _
  · rfl

theorem serves_setRegisters (regs : Registers)
    (h : Serves S R (s.setRegisters regs) s') : Serves S R s s' :=
  h.after (s.setRegisters_mode _) (s.setRegisters_host _) (s.setRegisters_flags _)

variable (hR : S.Keep R)

include hR

theorem serves_invoke (b : BuiltinName) (entry : Builtin) (arguments : List Value) :
    Serves S R s (invoke S p b entry arguments s).pushValue := by
  have hsrv := @serves_executionBuiltin H S R s hR p arguments b entry
  obtain ⟨hstat, -, hflg⟩ := (invoke S p b entry arguments s).pushValue_eq
  obtain ⟨hhost, hmode⟩ := (invoke S p b entry arguments s).pushValue_host
  refine ⟨hmode.trans hsrv.mode, ?_⟩
  have hstep := hsrv.host
  unfold Registered at hstep ⊢
  rw [hhost, hstat, hflg]
  exact hstep

theorem serves_framePush (fn : Function) (arguments : List Value) :
    Serves S R s (s.framePush fn arguments) :=
  hR.same (s.framePush_mode _ _) (s.framePush_host _ _)

theorem serves_call (name : CString) (arity : ℕ) (awaited : Bool) (caller : Frame) :
    Serves S R s (call S p name arity awaited caller s) := by
  unfold call
  split
  · exact hR.same rfl rfl
  rename_i regs _
  refine serves_setRegisters regs ?_
  split
  · split_ifs
    · exact serves_invoke hR _ _ _
    · exact hR.trap _
  split
  · split_ifs
    · exact serves_framePush hR _ _
    · exact hR.trap _
  · exact hR.trap _

theorem serves_callValue (arity : ℕ) (awaited : Bool) (caller : Frame) :
    Serves S R s (callValue S p arity awaited caller s) := by
  unfold callValue
  split
  · exact hR.same rfl rfl
  split
  · exact hR.same rfl rfl
  · rename_i regs _
    refine serves_setRegisters regs ?_
    simp only
    split
    · split
      · exact hR.trap _
      split
      · exact serves_invoke hR _ _ _
      · exact hR.trap _
    · split
      · split
        · exact hR.trap _
        split
        · exact serves_framePush hR _ _
        · exact hR.trap _
      · exact hR.trap _
  · exact hR.trap _

theorem serves_returnFrom (frame : Frame) : Serves S R s (returnFrom frame s) := by
  unfold returnFrom
  split
  · exact hR.same rfl rfl
  split
  · exact hR.trap _
  simp only
  split
  · exact hR.same rfl rfl
  · exact hR.same (push_mode _ _) (push_host _ _)

theorem serves_perform (instr : Instruction) (frame : Frame) :
    Serves S R s (perform S p instr frame s) := by
  have hop : Serves S R s (operated S instr frame.registers s) := by
    unfold operated
    split
    · exact hR.same rfl rfl
    · exact hR.same (s.setRegisters_mode _) (s.setRegisters_host _)
  cases instr with
  | call name arity => exact serves_call hR name arity false frame
  | awaitCall name arity => exact serves_call hR name arity true frame
  | callValue arity => exact serves_callValue hR arity false frame
  | awaitValue arity => exact serves_callValue hR arity true frame
  | ret => exact serves_returnFrom hR frame
  | _ => exact hop

theorem serves_dispatch : Serves S R s (dispatch S p s) := by
  unfold dispatch
  split
  · exact hR.same rfl rfl
  split
  · exact hR.trap _
  · exact (serves_perform hR _ _).after rfl rfl rfl

/-- One instruction of a running execution: the fields of its wait, and what it did to the host. -/
theorem Running.advance_one (h : Running s) :
    Standing (advance S p 1 s) ∧ Serves S R s (advance S p 1 s) ∧
      ((advance S p 1 s).status = .yielded → (advance S p 1 s).error = none) := by
  have hresm : s.resumeShutdown S = s := by
    unfold resumeShutdown
    rw [h.status]
  have hloop : (advance S p 1 s) = (dispatchLoop S p 1 s).finish := by
    unfold advance
    simp [hresm, h.status]
  have hstand := (@dispatchLoop_standing H s S p
    ⟨fun _ => h.flags, fun hw => absurd hw h.not_waiting⟩ h.not_waiting 1).1
  have hsrv : Serves S R s (dispatchLoop S p 1 s) := by
    have hdisp := @serves_dispatch H S R s p hR
    unfold dispatchLoop
    rw [if_neg (by simp [h.status, h.error])]
    simp only
    split
    · exact ⟨hdisp.mode, hdisp.host⟩
    · exact hdisp
  rw [hloop]
  refine ⟨hstand.finish, ⟨(finish_mode _).trans hsrv.mode, ?_⟩, finish_error _⟩
  rcases hsrv.host with hkeep | hregd
  · left
    rw [finish_host]
    exact hkeep
  · right
    rw [finish_of_waiting hstand hregd.1]
    exact hregd

variable (hread : ∀ v host, R host (S.readWait v host).2)
  (hprint : ∀ v host, R host (S.printWait v host).2)

include hread hprint

theorem dispatch_host (s : Execution H) : R s.host (dispatch S p s).host := by
  rcases (@serves_dispatch H S R s p hR).host with hkeep | ⟨-, v, ⟨-, hwait, -⟩ | ⟨-, hwait, -⟩⟩
  · exact hkeep
  · exact kept (hread v s.host) hwait
  · exact kept (hprint v s.host) hwait

theorem dispatchLoop_host (budget : ℕ) (s : Execution H) :
    R s.host (dispatchLoop S p budget s).host := by
  induction budget generalizing s with
  | zero => exact hR.refl s.host
  | succ budget ih =>
    have hdisp := @dispatch_host H S R p hR hread hprint s
    unfold dispatchLoop
    split
    · exact hR.refl s.host
    simp only
    split
    · exact hdisp
    · exact hR.trans hdisp (ih _)

theorem advance_host (budget : ℕ) (s : Execution H) : R s.host (advance S p budget s).host := by
  have hresm := @resumeShutdown_host H S s
  unfold advance
  simp only
  split
  · rw [hresm]
    exact hR.refl s.host
  · rw [finish_host, ← hresm]
    exact dispatchLoop_host hR hread hprint budget _

end Dispatch

end Panackelty.Vm
