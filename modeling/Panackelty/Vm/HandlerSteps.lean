import Panackelty.Vm.HostSteps
import Panackelty.Vm.TcpServer

/-!
# What a handler does to its client and to the world

The execution of a handler reaches the world and its own client through seven of its services, and
the rest of the system through all others.

* `HandlerRelation`: a relation on hosts that all of them keep; it holds between the host before a
  `vm_execution_advance` and after it.
* `ServerHost.Handled`: the state of the client moves from running to a wait, or not at all.
-/

namespace Panackelty.Vm

variable {B : Type}

/-- A relation that the services of a handler keep, those on its connection apart. -/
structure HostRelation (O : Os B) (R : ServerHost B → ServerHost B → Prop) : Prop where
  refl : ∀ h, R h h
  trans : ∀ {a b c}, R a b → R b c → R a c
  base : ∀ h base, R h { h with base }
  stateCall : ∀ b arguments h, R h (h.onWorld (httpStateCall b arguments)).2
  writerCall : ∀ b arguments h, R h (h.onWorld (httpWriterCall b arguments)).2
  listen : ∀ v worker contextual outbound filesystem console h,
    R h (httpRuntimeListen O v worker contextual outbound filesystem console h).2
  close : ∀ a destroy h, R h (h.onWorld (httpRuntimeRequestClose a destroy)).2
  interim : ∀ v h, R h (tcpServerHttpContinue v h).2
  read : ∀ v h, R h (serverReadWait v h).2

/-- A relation that the services of a handler keep. -/
structure HandlerRelation (O : Os B) (R : ServerHost B → ServerHost B → Prop) : Prop
    extends HostRelation O R where
  connectionCall : ∀ b arguments h, R h (h.onWorld (httpConnectionCall h.current b arguments)).2

variable {O : Os B} {R R' : ServerHost B → ServerHost B → Prop}

namespace HostRelation

theorem own (hR : HostRelation O R) {α : Type} (h : ServerHost B) (service : B → α × B) :
    R h (h.own service).2 :=
  hR.base h _

/-- A builtin, for a builtin on connections if that keeps the relation. -/
theorem builtinCall (hR : HostRelation O R) (S : Services B) {b : BuiltinName}
    {args : List Value} {h : ServerHost B}
    (hconn : R h (h.onWorld (httpConnectionCall h.current b args)).2) :
    R h (serverBuiltinCall S b args h).2 := by
  unfold serverBuiltinCall
  split
  · exact hR.stateCall b args h
  · exact hR.writerCall b args h
  · exact hconn
  · exact hR.own h _

theorem keep (hR : HostRelation O R) (S : Services B)
    {call : BuiltinName → List Value → ServerHost B → Except Failure Value × ServerHost B}
    (hcall : ∀ b args h, R h (call b args h).2) :
    ({ S.forServer O with builtinCall := call } : Services (ServerHost B)).Keep R where
  refl := hR.refl
  trans := hR.trans
  builtinCall := hcall
  hostCall _ _ h := hR.own h _
  readWait v h _ _ hwait := kept (hR.read v h) hwait
  printWait v h _ _ hwait := kept (hR.own h (S.printWait v)) hwait
  httpContinue := hR.interim
  httpListen v worker contextual network filesystem console h :=
    hR.listen v worker contextual network filesystem console h
  stopSignals h := hR.own h _
  requestClose v destroy h := by
    cases v with
    | httpState a => exact hR.close a destroy h
    | _ => exact hR.refl h
  serviceStart _ _ _ _ _ _ h := hR.own h _
  serviceReady _ _ _ _ h := hR.own h _
  serverStart _ _ _ _ _ _ h := hR.own h _
  serverEnable _ _ h := hR.base h _
  consoleWriteStart _ _ h := hR.own h _
  rootReadStart _ _ h := hR.own h _
  tcpExchangeStart _ h := hR.own h _
  httpTransportStart _ h := hR.own h _

end HostRelation

namespace HandlerRelation

theorem keep (hR : HandlerRelation O R) (S : Services B) : (S.forServer O).Keep R :=
  hR.toHostRelation.keep S fun b args h => hR.builtinCall S (hR.connectionCall b args h)

theorem advance (hR : HandlerRelation O R) (S : Services B) (p : Program) (budget : ℕ)
    (e : Execution (ServerHost B)) : R e.host (Vm.advance (S.forServer O) p budget e).host :=
  advance_host (hR.keep S) hR.read (fun v h => hR.own h (S.printWait v)) budget e

end HandlerRelation

/-! ## The client -/

/-- What a handler can do to its client: it registers a read, or the interim response. -/
structure ServerHost.Handled (h h' : ServerHost B) : Prop where
  current : h'.current = h.current
  interimSent : h'.client.interimSent = h.client.interimSent
  state : h'.client.state = h.client.state ∨ h.client.state = .run ∧
    (h'.client.state = .streamRead ∨ h'.client.state = .interimWrite ∧ h.client.interimSent = 0)

namespace ServerHost.Handled

variable {a b c : ServerHost B}

theorem of_client (hcur : b.current = a.current) (hcli : b.client = a.client) : a.Handled b :=
  ⟨hcur, congrArg ClientWait.interimSent hcli, .inl (congrArg ClientWait.state hcli)⟩

theorem trans (hab : a.Handled b) (hbc : b.Handled c) : a.Handled c where
  current := hbc.current.trans hab.current
  interimSent := hbc.interimSent.trans hab.interimSent
  state := by
    rcases hab.state with hsame | ⟨hrun, hnext⟩
    · rw [← hsame, ← hab.interimSent]
      exact hbc.state
    rcases hbc.state with hsame | ⟨hrun', -⟩
    · rw [hsame]
      exact .inr ⟨hrun, hnext⟩
    · rcases hnext with hnext | ⟨hnext, -⟩ <;> rw [hnext] at hrun' <;> cases hrun'

/-- A slot is taken before a handler's turn exactly if it is after. -/
theorem free_iff (h : a.Handled b) : b.client.state = .free ↔ a.client.state = .free := by
  rcases h.state with hsame | ⟨hrun, hnext | ⟨hnext, -⟩⟩
  · rw [hsame]
  · simp [hrun, hnext]
  · simp [hrun, hnext]

end ServerHost.Handled

theorem httpRuntimeListen_client (O : Os B) (v : Value) (worker : Function)
    (contextual outbound filesystem console : Bool) (h : ServerHost B) :
    (httpRuntimeListen O v worker contextual outbound filesystem console h).2.current = h.current ∧
      (httpRuntimeListen O v worker contextual outbound filesystem console h).2.client =
        h.client := by
  unfold httpRuntimeListen
  repeat' split
  all_goals exact ⟨rfl, rfl⟩

theorem handled_interim (v : Value) (h : ServerHost B) :
    h.Handled (tcpServerHttpContinue v h).2 := by
  unfold tcpServerHttpContinue
  split
  · exact .of_client rfl rfl
  split
  · exact .of_client rfl rfl
  rename_i hallowed
  simp only [not_or, Bool.not_eq_false, not_not] at hallowed
  exact ⟨rfl, rfl, .inr ⟨hallowed.2.1, .inr ⟨rfl, hallowed.2.2⟩⟩⟩

theorem handled_read (v : Value) (h : ServerHost B) : h.Handled (serverReadWait v h).2 := by
  unfold serverReadWait
  split
  · exact ⟨rfl, rfl, .inl rfl⟩
  split
  · split
    · exact .of_client rfl rfl
    rename_i hallowed
    simp only [not_or, not_not] at hallowed
    exact ⟨rfl, rfl, .inr ⟨hallowed.2.2, .inl rfl⟩⟩
  · exact .of_client rfl rfl

theorem handled_relation (O : Os B) : HandlerRelation O ServerHost.Handled where
  refl _ := .of_client rfl rfl
  trans := .trans
  base _ _ := .of_client rfl rfl
  stateCall _ _ _ := .of_client rfl rfl
  writerCall _ _ _ := .of_client rfl rfl
  connectionCall _ _ _ := .of_client rfl rfl
  listen v worker contextual outbound filesystem console h :=
    have hsame := httpRuntimeListen_client O v worker contextual outbound filesystem console h
    .of_client hsame.1 hsame.2
  close _ _ _ := .of_client rfl rfl
  interim := handled_interim
  read := handled_read

end Panackelty.Vm
