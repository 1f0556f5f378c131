import Panackelty.Vm.Effects

/-!
# What effect marks promise

The promises of a verified program about its runs and about its chains of calls, from the invariant
of runs and the tests of the verifier.

* `VerifiedProgram`: a program that the verifier has accepted.
* `PureContract`: under a frame of a pure function nothing impure is executed and nothing waits.
* `SuspendContract`: a wait for an async service has only async frames below it, all awaiting.
* `Reaches`: the builtins at the end of a chain of calls that are not awaited.
-/

namespace Panackelty.Vm

open Bytecode.Contract (Callee)
open List CString

variable {f : Function} {frames : List Frame}

/-- A program that `verify` has accepted, with its local effects. -/
structure VerifiedProgram where
  source : Program
  program : Program
  verified : verify source = .ok program

/-- A host that has nothing to offer but its builtins. -/
def quietServices : Services Unit where
  render _ := []
  builtinCall _ _ host := (.ok .unit, host)
  hostCall _ _ host := (.error none, host)
  readWait _ host := (.error none, host)
  printWait _ host := (.error none, host)
  httpContinue _ host := (.error none, host)
  httpListen _ _ _ _ _ _ host := (.error none, host)
  stopSignals host := (true, host)
  httpRuntimeActive _ := false
  requestClose _ _ host := (false, host)
  resource _ _ := false
  liveConnection _ _ := .error outOfMemory
  serviceStart _ _ _ _ _ _ host := (false, host)
  serviceReady _ _ _ _ host := (false, host)
  serverStart _ _ _ _ _ _ host := (false, host)
  serverEnable _ _ host := host
  serverDone _ := true
  consoleWriteStart _ _ host := (.error none, host)
  rootReadStart _ _ host := (.error none, host)
  tcpExchangeStart _ host := (false, host)
  httpTransportStart _ host := (false, host)

variable {H : Type}

/-! ## Pure functions -/

/-- Above a frame of a pure function are only frames of pure functions. -/
def PureAbove (frames : List Frame) : Prop :=
  ∀ above frame below, frames = above ++ frame :: below → frame.function.pure = true →
    ∀ callee ∈ above, callee.function.pure = true

/-- The promise of `pure`: in the stack, in every executed builtin, and in a wait. -/
structure PureContract (s : Execution H) : Prop where
  frames : PureAbove s.frames
  calls : ∀ c ∈ s.calls, builtinRow c.builtin = some c.entry ∧ PureAbove c.frames ∧
    ((∃ frame ∈ c.frames, frame.function.pure = true) → c.entry.pure = true ∧ c.waits = false)
  waiting : s.status = .waiting → ∀ frame ∈ s.frames, frame.function.pure = false

theorem Pending.pure {callee caller : Frame} (h : Pending callee caller)
    (hpure : caller.function.pure) : callee.function.pure = true := by
  cases hawait : caller.awaiting with
  | true =>
    have hnot := (h.awaited hawait).2.1
    cases hpure.symm.trans hnot
  | false => exact (h.direct hawait).2 hpure

theorem pairwise_pure (h : frames.IsChain Pending) :
    frames.Pairwise fun callee caller => caller.function.pure = true →
      callee.function.pure = true := by
  have htrans : IsTrans Frame fun callee caller =>
      caller.function.pure = true → callee.function.pure = true :=
    ⟨fun _ _ _ hab hbc hc => hab (hbc hc)⟩
  exact (h.imp fun _ _ hpend => hpend.pure).pairwise

theorem pureAbove_of_isChain (h : frames.IsChain Pending) : PureAbove frames := by
  rintro above frame below rfl hpure callee hcal
  exact (pairwise_append.mp (pairwise_pure h)).2.2 callee hcal frame mem_cons_self hpure

theorem head_pure (h : frames.IsChain Pending) {top : Frame} (htop : top ∈ frames.head?)
    {frame : Frame} (hframe : frame ∈ frames) (hpure : frame.function.pure) :
    top.function.pure = true := by
  cases frames with
  | nil => cases htop
  | cons first frames =>
    cases htop
    rcases mem_cons.mp hframe with rfl | hmem
    · exact hpure
    · exact (pairwise_cons.mp (pairwise_pure h)).1 frame hmem hpure

theorem MayWait.impure {b : BuiltinName} {entry : Builtin} (h : MayWait b)
    (hrow : builtinRow b = some entry) : entry.pure = false := by
  rcases h with hasync | rfl
  · rw [hrow] at hasync
    exact (builtinRow_async hrow hasync).1
  · cases hrow
    rfl

theorem Legal.pure {c : Call} (h : Legal c) {frame : Frame} (hframe : frame ∈ c.frames)
    (hpure : frame.function.pure) : c.entry.pure = true ∧ c.waits = false := by
  obtain ⟨caller, hcall, hedge⟩ := h.edge
  have hcallerPure := head_pure h.linked hcall hframe hpure
  have hent : c.entry.pure := by
    cases hawait : caller.awaiting with
    | true => simp [verifyCallEdge, hawait, hcallerPure] at hedge
    | false =>
      simp only [verifyCallEdge, hawait, hcallerPure, Bool.false_eq_true, if_false, if_true,
        Bool.and_eq_true] at hedge
      exact hedge.2
  refine ⟨hent, Bool.eq_false_iff.mpr fun hwaits => ?_⟩
  have himp := (h.waits hwaits).impure h.row
  cases hent.symm.trans himp

/-- In every run of a verified program, from `main` or any other function, over any inputs: above a
frame of a pure function are only pure functions, a builtin that is executed under one is pure and
does not wait, and an execution with one does not wait.  An advance may have any budget, so this is
said of the state after every single instruction.  The checks at run time are enough for it: the
proof uses nothing of the verification. -/
theorem pureContract_run (V : VerifiedProgram) (S : Services H) (mode : Mode) (function : Function)
    (arguments : List Value) (host : H) (inputs : List (Input H)) :
    PureContract (run S V.program inputs (create mode function arguments host)) := by
  have hsnd := @sound_run H _ S V.program (sound_create mode function arguments host) inputs
  refine ⟨pureAbove_of_isChain hsnd.linked, fun c hc => ?_, fun hwait frame hframe => ?_⟩
  · have hlegal := hsnd.calls c hc
    exact ⟨hlegal.row, pureAbove_of_isChain hlegal.linked,
      fun ⟨frame, hframe, hpure⟩ => hlegal.pure hframe hpure⟩
  obtain ⟨c, hhead, hwaits, hfrs⟩ := hsnd.waiting hwait
  have hlegal := hsnd.calls c (mem_of_mem_head? hhead)
  refine Bool.eq_false_iff.mpr fun hpure => ?_
  have hnot := (hlegal.pure (hfrs ▸ hframe) hpure).2
  cases hwaits.symm.trans hnot

/-! ## Async functions -/

/-- The promise of `async` about an execution that is waiting: the frames below an async service are
async and all in an `AWAIT`.  What is no async service is `print`, which an embedder may leave
pending as well. -/
def SuspendContract (s : Execution H) : Prop :=
  s.status = .waiting → ∃ c, s.calls.head? = some c ∧ c.frames = s.frames ∧
    builtinRow c.builtin = some c.entry ∧
    (builtinIsAsync (some c.entry) = true →
      ∀ frame ∈ s.frames, frame.function.isAsync = true ∧ frame.awaiting = true) ∧
    (builtinIsAsync (some c.entry) = false → c.builtin = .print)

theorem awaiting_of_isChain (h : frames.IsChain Pending) {top : Frame} (htop : top ∈ frames.head?)
    (hasync : top.function.isAsync) (hawait : top.awaiting) :
    ∀ frame ∈ frames, frame.function.isAsync = true ∧ frame.awaiting = true := by
  induction frames generalizing top with
  | nil => cases htop
  | cons first frames ih =>
    cases htop
    obtain ⟨hpend, htail⟩ := isChain_cons.mp h
    rintro frame (_ | ⟨_, hmem⟩)
    · exact ⟨hasync, hawait⟩
    rcases frames with _ | ⟨caller, frames⟩
    · cases hmem
    have hlink := hpend caller rfl
    cases hcall : caller.awaiting with
    | true => exact ih htail rfl (hlink.awaited hcall).1 hcall frame hmem
    | false =>
      have hnot := (hlink.direct hcall).1
      cases hasync.symm.trans hnot

theorem suspendContract_of_sound {s : Execution H} (h : Sound s) : SuspendContract s := by
  intro hwait
  obtain ⟨c, hhead, hwaits, hfrs⟩ := h.waiting hwait
  have hlegal := h.calls c (mem_of_mem_head? hhead)
  refine ⟨c, hhead, hfrs, hlegal.row, fun hasync => ?_, fun hnot => ?_⟩
  · obtain ⟨caller, hcall, hedge⟩ := hlegal.edge
    rw [hasync] at hedge
    obtain ⟨hawait, hcallerAsync, -⟩ := awaited_of_edge hedge
    rw [← hfrs]
    exact awaiting_of_isChain hlegal.linked hcall hcallerAsync hawait
  · refine (hlegal.waits hwaits).resolve_left fun hasync => ?_
    rw [hlegal.row, hnot] at hasync
    cases hasync

/-! ## Chains of calls -/

/-- A builtin at the end of a chain of direct calls, none of them awaited. -/
inductive Reaches (p : Program) : Function → Builtin → Prop
  | builtin {f : Function} {name : CString} {arity : ℕ} {entry : Builtin} :
    .call name arity ∈ f.ins → builtin name = some entry → Reaches p f entry
  | step {f g : Function} {name : CString} {arity : ℕ} {entry : Builtin} :
    .call name arity ∈ f.ins → builtin name = none → functionOf p name = some g →
    Reaches p g entry → Reaches p f entry

namespace VerifiedProgram

variable (V : VerifiedProgram)

/-- The lookup by binary search finds what the verifier has found. -/
theorem functionOf_eq {p : Program} (hsort : SortedFunctions p.functions) (order : Bool)
    (name : CString) :
    functionOf { p with verifiedFunctionOrder := order } name = functionOf p name := by
  have hidx : programFunction { p with verifiedFunctionOrder := order } name =
      programFunction p name := by
    rw [programFunction_eq_findIdx? hsort, programFunction_eq_findIdx?]
    exact hsort
  simp only [functionOf, hidx]

theorem call_edge (hf : f ∈ V.program.functions) {name : CString} {arity : ℕ}
    (hcall : .call name arity ∈ f.ins) :
    ∃ c, calleeOf V.program name = some c ∧ calleeEdge f c false = true := by
  obtain ⟨-, hsort, hfns, hprog⟩ := (verify_eq_ok_iff rfl).mp V.verified
  rw [hprog] at hf ⊢
  have hver := (hfns f hf).instructions _ hcall
  obtain ⟨c, hc, -, hedge⟩ := verifyCall_eq_none_iff.mp hver
  refine ⟨c, ?_, hedge⟩
  rw [← hc, calleeOf, calleeOf, functionOf_eq hsort]

theorem mem_of_functionOf {p : Program} {name : CString} {g : Function}
    (h : functionOf p name = some g) : g ∈ p.functions := by
  obtain ⟨k, -, hk⟩ := Option.bind_eq_some_iff.mp h
  exact mem_of_getElem? hk

end VerifiedProgram

/-- A function whose effect is one of the marks. -/
def Function.confined (f : Function) : Prop :=
  f.isAsync = true ∨ f.localEffect = true ∨ f.pure = true

/-- What a confined function calls without `AWAIT` is pure or local. -/
theorem confined_edge (hf : f.confined) {c : Callee} (hedge : calleeEdge f c false) :
    c.isPure = true ∨ c.isLocal = true := by
  simp only [calleeEdge, Bool.false_eq_true, if_false] at hedge
  split_ifs at hedge with hpure
  · exact .inl (Bool.and_eq_true_iff.mp hedge).2
  have hmark : (f.isAsync || f.localEffect) = true := by
    rcases hf with h | h | h
    · simp [h]
    · simp [h]
    · exact absurd h hpure
  simpa [hmark] using (Bool.and_eq_true_iff.mp hedge).2

theorem confined_reaches (V : VerifiedProgram) {entry : Builtin} (h : Reaches V.program f entry)
    (hf : f ∈ V.program.functions) (hconfined : f.confined) :
    entry.pure = true ∨ builtinIsLocalState (some entry) = true := by
  induction h with
  | builtin hcall hent =>
    obtain ⟨c, hc, hedge⟩ := V.call_edge hf hcall
    rw [calleeOf, hent] at hc
    cases hc
    exact confined_edge hconfined hedge
  | step hcall hnone hg _ ih =>
    obtain ⟨c, hc, hedge⟩ := V.call_edge hf hcall
    simp only [calleeOf, hnone, hg, Option.map_some, Option.some.injEq] at hc
    subst hc
    refine ih (VerifiedProgram.mem_of_functionOf hg) ?_
    rcases confined_edge hconfined hedge with hpure | hlocal
    · exact .inr (.inr hpure)
    · exact .inr (.inl hlocal)

/-- The two promises of async effects.  In every run, an execution that waits for an async service
has only async frames and all of them in an `AWAIT`; and no chain of direct calls without `AWAIT`
leads from an async or local-effect function to a builtin that is neither pure nor a change of local
state. -/
theorem asyncContract (V : VerifiedProgram) :
    (∀ (H : Type) (S : Services H) (mode : Mode) (function : Function) (arguments : List Value)
      (host : H) (inputs : List (Input H)),
      SuspendContract (run S V.program inputs (create mode function arguments host))) ∧
    ∀ f ∈ V.program.functions, f.isAsync = true ∨ f.localEffect = true →
      ∀ entry, Reaches V.program f entry →
        entry.pure = true ∨ builtinIsLocalState (some entry) = true := by
  constructor
  · intro H S mode function arguments host inputs
    exact suspendContract_of_sound (sound_run (sound_create mode function arguments host) inputs)
  · intro f hf hmark entry hrch
    exact confined_reaches V hrch hf (hmark.imp_right .inl)

/-- An async `main` that calls a function of local effect and awaits a worker. -/
def readerMain : Function :=
  ⟨ascii "main", false, true, false, [],
    [.call (ascii "setup") 0, .pop, .awaitCall (ascii "worker") 0, .pop,
      .call (ascii "$unit") 0, .ret]⟩

/-- A change of local state. -/
def readerSetup (localEffect : Bool) : Function :=
  ⟨ascii "setup", false, false, localEffect, [],
    [.const .void, .call (ascii "http_state_fail_setup") 1, .ret]⟩

/-- A function that waits for a read. -/
def readerWorker : Function :=
  ⟨ascii "worker", false, true, false, [],
    [.const (.bool false), .awaitCall (ascii "async_fake_read") 1, .ret]⟩

/-- The program of `readerMain`. -/
def readerProgram : VerifiedProgram where
  source := ⟨[readerMain, readerSetup false, readerWorker], false⟩
  program := ⟨[readerMain, readerSetup true, readerWorker], true⟩
  verified := by decide +kernel

/-- The reader after ten instructions. -/
def readerState : Execution Unit :=
  run quietServices readerProgram.program [.advance 10]
    (create ⟨false, false, false, false⟩ readerMain [] ())

/-- The reader waits in its worker, and `main` reaches a change of local state. -/
theorem asyncContract_reader : (readerState.status = .waiting ∧ readerState.frames.length = 2 ∧
      ∀ frame ∈ readerState.frames, frame.function.isAsync = true ∧ frame.awaiting = true) ∧
    ∃ entry, Reaches readerProgram.program readerMain entry ∧ entry.pure = false ∧
      (entry.pure = true ∨ builtinIsLocalState (some entry) = true) := by
  have hstat : readerState.status = .waiting := by decide +kernel
  have hasync : readerState.calls.head?.map (fun c => builtinIsAsync (some c.entry)) =
      some true := by
    decide +kernel
  constructor
  · obtain ⟨c, hhead, -, -, hfrs, -⟩ := (asyncContract readerProgram).1 Unit quietServices
      ⟨false, false, false, false⟩ readerMain [] () [.advance 10] hstat
    refine ⟨hstat, by decide +kernel, hfrs ?_⟩
    have hhead' : readerState.calls.head? = some c := hhead
    rw [hhead'] at hasync
    exact Option.some.inj hasync
  · have hrch : Reaches readerProgram.program readerMain ⟨1, false, .builtinsHttpStateCall⟩ := by
      refine .step (g := readerSetup true) mem_cons_self (by decide +kernel) (by decide +kernel)
        (.builtin (mem_cons_of_mem _ mem_cons_self) (by decide +kernel))
    exact ⟨_, hrch, rfl, (asyncContract readerProgram).2 readerMain mem_cons_self (.inl rfl) _ hrch⟩

end Panackelty.Vm
