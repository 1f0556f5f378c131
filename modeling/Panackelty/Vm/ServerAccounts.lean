import Mathlib.Logic.Relation
import Panackelty.Vm.Accounts
import Panackelty.Vm.HandlerSteps

/-!
# The accounts of the TCP server

Every function of the server is a sequence of moves of its accounts: most change nothing in them, a
client that leaves gives its slot back, and a trap or a failure is a crash.

* `Server.account`, `Server.Moves`: the accounts of a server, and what happens to them.
* `moves_apply`: every step of the server is a sequence of moves.
* `ServerContract`: what the accounts promise; `serverContract_run`: in every run of the server.
-/

namespace Panackelty.Vm

open Relation (ReflTransGen)
open List Option Client

variable {B : Type}

/-- The number of the connection in a slot. -/
def Client.holder (client : Client B) : Option ℕ :=
  if client.state = .free then none else some client.outcome

theorem Client.holder_congr {client client' : Client B}
    (hstate : client'.state = .free ↔ client.state = .free)
    (hout : client'.outcome = client.outcome) : client'.holder = client.holder := by
  unfold holder
  rw [hout]
  simp only [hstate]

theorem Client.holder_occupied {client client' : Client B} (hstate : client.state ≠ .free)
    (hstate' : client'.state ≠ .free) (hout : client'.outcome = client.outcome) :
    client'.holder = client.holder :=
  holder_congr (by simp [hstate, hstate']) hout

namespace Server

variable (s : Server B) {s' : Server B} {i : ℕ}

/-- The counts of a server. -/
def account : Account where
  continuous := s.config.continuous
  clients := s.limits.clients
  concurrency := s.limits.concurrency
  slots := s.clients.map holder
  outcomes := s.outcomes
  admitted := s.admitted
  active := s.active
  succeeded := s.succeeded
  failed := s.failed
  stopping := s.stopping
  done := s.done
  error := s.error
  result := s.result

/-- What happens to the accounts between two states. -/
def Moves (s s' : Server B) : Prop := ReflTransGen Account.Move s.account s'.account

/-- The slot is taken. -/
def Held (i : ℕ) : Prop := ∃ k, s.account.slots[i]? = some (some k)

variable {s}

theorem held_iff : s.Held i ↔ s.stateOf i ≠ .free := by
  show (∃ k, (s.clients.map holder)[i]? = some (some k)) ↔ _
  rw [getElem?_map]
  unfold stateOf
  cases s.clients[i]? with
  | none => simp
  | some client =>
    simp only [Option.map_some, some.injEq, elim_some, holder]
    split_ifs with hfree
    · simp [hfree]
    · simpa using hfree

theorem Held.client (h : s.Held i) :
    ∃ client, s.clients[i]? = some client ∧ client.state ≠ .free := by
  rw [held_iff] at h
  unfold stateOf at h
  cases hcli : s.clients[i]? with
  | none => simp [hcli] at h
  | some client => exact ⟨client, rfl, by simpa [hcli] using h⟩

theorem held_of_client {client : Client B} (hcli : s.clients[i]? = some client)
    (hstate : client.state ≠ .free) : s.Held i := by
  rw [held_iff]
  simpa [stateOf, hcli] using hstate

theorem Held.congr (h : s.Held i) (hacct : s'.account = s.account) : s'.Held i := by
  unfold Held
  rw [hacct]
  exact h

theorem slot_of_client {client : Client B} (hcli : s.clients[i]? = some client)
    (hstate : client.state ≠ .free) : s.account.slots[i]? = some (some client.outcome) := by
  show (s.clients.map holder)[i]? = _
  rw [getElem?_map, hcli, map_some, holder, if_neg hstate]

namespace Moves

variable {s'' : Server B}

theorem of_eq (h : s'.account = s.account) : s.Moves s' := by
  unfold Moves
  rw [h]

theorem refl : s.Moves s := of_eq rfl

theorem trans (h : s.Moves s') (h' : s'.Moves s'') : s.Moves s'' := ReflTransGen.trans h h'

theorem single (h : s.account.Move s'.account) : s.Moves s' := ReflTransGen.single h

theorem after (h : s'.Moves s'') (hacct : s'.account = s.account) : s.Moves s'' :=
  (of_eq hacct).trans h

end Moves

/-! ## Clients -/

theorem account_modifyClient {f : Client B → Client B}
    (h : ∀ client, s.clients[i]? = some client → (f client).holder = client.holder) :
    (s.modifyClient i f).account = s.account := by
  have hslots : (s.clients.modify i f).map holder = s.clients.map holder := by
    apply ext_getElem?
    intro j
    rw [getElem?_map, getElem?_map, getElem?_modify]
    split_ifs with hij
    · subst hij
      cases hcli : s.clients[i]? with
      | none => rfl
      | some client => simpa using h client hcli
    · simp
  exact congrArg (fun slots => { s.account with slots }) hslots

theorem account_clearClient :
    (s.clearClient i).account = { s.account with slots := s.account.slots.set i none } := by
  unfold clearClient
  split
  · rename_i hnone
    have hle : (s.clients.map holder).length ≤ i := by
      simpa using getElem?_eq_none_iff.mp hnone
    exact congrArg (fun slots => { s.account with slots }) (set_eq_of_length_le hle).symm
  · exact congrArg (fun slots => { s.account with slots }) map_set

theorem account_release : (s.release i).account =
    { s.account with slots := s.account.slots.set i none, active := s.active - 1 } :=
  congrArg (fun account => { account with active := s.active - 1 }) account_clearClient

theorem account_clear (slots : List ℕ) (s : Server B) :
    ∃ left, left.length = s.account.slots.length ∧
      (∀ j k, left[j]? = some (some k) → j ∉ slots ∧ s.account.slots[j]? = some (some k)) ∧
      (slots.foldl clearClient s).account = { s.account with slots := left } := by
  induction slots generalizing s with
  | nil => exact ⟨s.account.slots, rfl, fun j k h => ⟨not_mem_nil, h⟩, rfl⟩
  | cons i slots ih =>
    obtain ⟨left, hlen, hleft, hacct⟩ := ih (s.clearClient i)
    rw [account_clearClient] at hlen hleft hacct
    refine ⟨left, by simpa using hlen, ?_, hacct⟩
    intro j k hheld
    obtain ⟨hnot, hslot⟩ := hleft j k hheld
    rw [getElem?_set] at hslot
    split_ifs at hslot with hij
    · cases hslot
    · exact ⟨by simp [hnot, Ne.symm hij], hslot⟩

theorem account_closeAll (s : Server B) : ∃ slots, slots.length = s.account.slots.length ∧
      (∀ i < serverConcurrency, ∀ k, slots[i]? ≠ some (some k)) ∧
      s.closeAll.account = { s.account with slots, active := 0 } := by
  obtain ⟨left, hlen, hleft, hacct⟩ :=
    account_clear (range serverConcurrency) { s with ready := none, listener := false }
  refine ⟨left, hlen, ?_, ?_⟩
  · intro i hi k hheld
    exact (hleft i k hheld).1 (mem_range.mpr hi)
  have hact : ∀ x : Server B, account { x with active := 0 } = { x.account with active := 0 } :=
    fun _ => rfl
  unfold closeAll
  rw [hact, hacct]
  rfl

/-- A crash: the error or the result is set, and everything is closed. -/
theorem move_crash {error : Option String} {result : Option Value}
    (hbrk : error.isSome = true ∨ isErrorResult result = true) :
    s.account.Move (closeAll { s with error, result, done := true }).account := by
  obtain ⟨slots, hlen, hfree, hacct⟩ := account_closeAll { s with error, result, done := true }
  rw [hacct]
  exact .crash hlen hfree hbrk

theorem moves_trap (error : String) : s.Moves (s.trap error) := .single (move_crash (.inl rfl))

theorem moves_fail (error : String) : s.Moves (s.fail error) :=
  .single (move_crash (.inr rfl))

theorem moves_report {client : Client B} (hcli : s.clients[i]? = some client)
    (hstate : client.state ≠ .free) (hfin : s.config.continuous = false) (outcome : Value) :
    s.Moves ((s.report i outcome).release i) := by
  have hreport : s.report i outcome =
      { s with outcomes := s.outcomes.set client.outcome (some outcome) } := by
    simp only [report, hcli]
  rw [hreport]
  refine .single ?_
  rw [account_release]
  exact .report outcome hfin (slot_of_client hcli hstate)

theorem moves_finishClient (h : s.Held i) (error : Option String) :
    s.Moves (s.finishClient i error) := by
  obtain ⟨client, hcli, hstate⟩ := h.client
  have hslot := slot_of_client hcli hstate
  unfold finishClient
  split_ifs with hcont
  · refine .single ?_
    rw [account_release]
    cases error with
    | some error => exact .failure hcont hslot
    | none => exact .success hcont hslot
  · exact moves_report hcli hstate (by simpa using hcont) _

theorem finishClient_done (error : Option String) : (s.finishClient i error).done = s.done := by
  have hclear : ∀ s : Server B, (s.clearClient i).done = s.done := by
    intro s
    unfold clearClient
    split <;> rfl
  unfold finishClient
  split_ifs
  · refine (hclear _).trans ?_
    unfold count
    split <;> rfl
  · refine (hclear _).trans ?_
    unfold report
    split <;> rfl

theorem account_of_held (h : s.Held i) {f : Client B → Client B}
    (hstate : ∀ client, (f client).state ≠ .free)
    (hout : ∀ client, (f client).outcome = client.outcome) :
    (s.modifyClient i f).account = s.account := by
  obtain ⟨client, hcli, hoccupied⟩ := h.client
  refine account_modifyClient ?_
  intro client' hcli'
  cases hcli.symm.trans hcli'
  exact holder_occupied hoccupied (hstate client) (hout client)

theorem account_child {f : Execution (ServerHost B) → Execution (ServerHost B)}
    (h : ∀ e, (f e).host.client.state = .free ↔ e.host.client.state = .free) :
    (s.child i f).account = s.account := by
  unfold child
  split
  · rfl
  rename_i client e hfound
  obtain ⟨client₀, hcli, hexec⟩ := bind_eq_some_iff.mp hfound
  obtain ⟨e₀, -, hpair⟩ := map_eq_some_iff.mp hexec
  cases hpair
  refine (account_modifyClient (s := { s with world := _, base := _ }) ?_ :)
  intro client' hcli'
  cases hcli.symm.trans hcli'
  exact holder_congr (h _) rfl

/-! ## HTTP responses -/

theorem account_httpAttachResponse (i : ℕ) : (s.httpAttachResponse i).account = s.account := by
  unfold httpAttachResponse
  repeat' split
  all_goals first
    | rfl
    | exact account_modifyClient fun _ _ => rfl

theorem account_completeWriter (i : ℕ) : (s.completeWriter i).account = s.account := by
  unfold completeWriter
  repeat' split
  all_goals rfl

section Calls

variable (O : Os B) (S : Services B) (p : Program)

theorem account_httpDeadlineResponse : (s.httpDeadlineResponse O i).account = s.account := by
  unfold httpDeadlineResponse
  split
  · rfl
  simp only
  split
  · exact account_httpAttachResponse i
  refine Eq.trans ?_ (account_httpAttachResponse i)
  refine account_modifyClient ?_
  exact fun _ _ => rfl

theorem account_detachExecution (i : ℕ) (client : Client B) :
    (s.detachExecution i client).account = s.account :=
  account_modifyClient (s := { s with world := _ }) fun _ _ => rfl

theorem moves_httpFinishExecution (h : s.Held i) : s.Moves (s.httpFinishExecution i) := by
  have hatt := @account_httpAttachResponse B s i
  unfold httpFinishExecution
  simp only
  split
  · exact .of_eq hatt
  rename_i client hcli
  have hdetach := (account_detachExecution i client).trans hatt
  split_ifs
  · exact (moves_finishClient (h.congr hdetach) none).after hdetach
  refine .of_eq (Eq.trans (account_of_held (h.congr hdetach) ?_ ?_) hdetach)
  · exact fun _ => by simp [setState, state]
  · exact fun _ => rfl

theorem moves_httpHandlerFinished (h : s.Held i) (trapped : Bool) :
    s.Moves (s.httpHandlerFinished O i trapped) := by
  have hfin : ∀ s₀ : Server B, s₀.account = s.account →
      s.Moves ((s₀.completeWriter i).httpFinishExecution i) := by
    intro s₀ hsame
    have hacct := (@account_completeWriter B s₀ i).trans hsame
    exact (moves_httpFinishExecution (h.congr hacct)).after hacct
  unfold httpHandlerFinished
  split
  · exact .refl
  split
  · exact hfin _ rfl
  split
  · split
    · split
      · exact hfin _ rfl
      · exact moves_trap _
    · split
      · refine hfin _ ?_
        split <;> rfl
      · exact moves_trap _
    · exact moves_trap _
  · exact moves_trap _

/-! ## Deadlines -/

theorem moves_stopAt (now : ℕ) : s.Moves (s.stopAt now) := by
  unfold stopAt
  split
  · exact .refl
  · exact .single .stop

theorem moves_expireClient (now : ℕ) :
    s.Moves (s.expireClient O now i) ∧ (s.expireClient O now i).done = s.done := by
  unfold expireClient
  split
  · exact ⟨.refl, rfl⟩
  rename_i client hcli
  split_ifs with hfree hdl hrouted hdrain
  · exact ⟨.refl, rfl⟩
  · have hacct := @account_httpDeadlineResponse B s i O
    refine ⟨(moves_finishClient ((held_of_client hcli hfree).congr hacct) _).after hacct, ?_⟩
    exact (finishClient_done _).trans (congrArg Account.done hacct)
  · exact ⟨moves_finishClient (held_of_client hcli hfree) _, finishClient_done _⟩
  · exact ⟨moves_finishClient (held_of_client hcli hfree) _, finishClient_done _⟩
  · exact ⟨.refl, rfl⟩

theorem moves_expireClients (now : ℕ) (slots : List ℕ) (s : Server B) :
    s.Moves (slots.foldl (fun s i => s.expireClient O now i) s) ∧
      (slots.foldl (fun s i => s.expireClient O now i) s).done = s.done := by
  induction slots generalizing s with
  | nil => exact ⟨.refl, rfl⟩
  | cons i slots ih =>
    obtain ⟨hmoves, hdone⟩ := @moves_expireClient B s i O now
    obtain ⟨hrest, hrestDone⟩ := ih (s.expireClient O now i)
    exact ⟨hmoves.trans hrest, hrestDone.trans hdone⟩

theorem moves_expireAdmission (now : ℕ) :
    s.Moves (s.expireAdmission now) ∧ (s.expireAdmission now).done = s.done := by
  unfold expireAdmission
  split
  · refine ⟨moves_stopAt _, ?_⟩
    unfold stopAt
    split <;> rfl
  · exact ⟨.refl, rfl⟩

/-- A look at the clock; while the server goes on, it is not done. -/
theorem moves_deadlines :
    s.Moves (s.deadlines O).2 ∧ ((s.deadlines O).1.isSome = true →
      (s.deadlines O).2.done = false) := by
  unfold deadlines
  split
  · exact ⟨.refl, fun h => by simp at h⟩
  rename_i hdone
  rw [Bool.not_eq_true] at hdone
  split
  · exact ⟨(moves_fail _).after rfl, fun h => by simp at h⟩
  rename_i now base hclock
  obtain ⟨hadmission, hadmissionDone⟩ := @moves_expireAdmission B { s with base } now
  obtain ⟨hclis, hclientsDone⟩ := moves_expireClients O now
    (range (expireAdmission { s with base } now).limits.concurrency)
    (expireAdmission { s with base } now)
  have hgoing := (hclientsDone.trans hadmissionDone).trans hdone
  have hmoves := (hadmission.after (s := s) rfl).trans hclis
  simp only
  split_ifs with hover
  · refine ⟨hmoves.trans (.single ?_), fun h => by simp at h⟩
    exact .conclude hgoing hover.1 hover.2
  · exact ⟨hmoves, fun _ => hgoing⟩

/-! ## Sockets -/

theorem free_slot (hsnd : s.account.Sound) (hdone : s.done = false)
    (hslot : (s.clients.take s.limits.concurrency).findIdx (fun client => client.state == .free) <
      s.limits.concurrency) :
    s.account.slots[(s.clients.take s.limits.concurrency).findIdx
      fun client => client.state == .free]? = some none := by
  have hlen : s.clients.length = serverConcurrency := by simpa [account] using hsnd.length
  have hcapacity : s.limits.concurrency ≤ serverConcurrency := (hsnd.going hdone).2
  have htake : (s.clients.take s.limits.concurrency).length = s.limits.concurrency := by
    rw [length_take]
    omega
  have hlt := hslot.trans_eq htake.symm
  have hfree := findIdx_getElem (w := hlt)
  show (s.clients.map holder)[_]? = some none
  rw [getElem?_map, getElem?_eq_getElem (by omega), map_some]
  rw [getElem_take, beq_iff_eq] at hfree
  rw [holder, if_pos hfree]

theorem account_admitAt (i fd now : ℕ) : (s.admitAt i fd now).account = { s.account with
      slots := s.account.slots.set i (some s.admitted)
      admitted := s.admitted + 1
      active := s.active + 1 } := by
  have hslots : ∀ client : Client B, client.holder = some s.admitted →
      (s.clients.set i client).map holder = s.account.slots.set i (some s.admitted) := by
    intro client hcli
    rw [map_set, hcli]
    rfl
  refine congrArg (fun slots => { s.account with
    slots, admitted := s.admitted + 1, active := s.active + 1 }) (hslots _ ?_)
  unfold holder
  rw [if_neg]
  cases s.config.streaming <;> simp [state]

theorem account_stopAt (now : ℕ) : (s.stopAt now).account =
    { s.account with stopping := true } := by
  unfold stopAt
  split
  · rename_i hstop
    rw [← hstop]
    rfl
  · rfl

theorem account_finish_stop (h : s.Held i) (error : Option String) (now : ℕ) :
    ((s.finishClient i error).stopAt now).account =
      ((s.stopAt now).finishClient i error).account := by
  obtain ⟨client, hcli, -⟩ := h.client
  rw [account_stopAt]
  unfold finishClient stopAt
  split_ifs with hcont hstop hstop
  · rw [account_release]
    cases error <;> simp only [count, account, hstop]
  · rw [account_release, account_release]
    cases error <;> rfl
  · rw [account_release]
    simp only [report, hcli, account, hstop]
  · rw [account_release, account_release]
    simp only [report, hcli]
    rfl

/-- The finish of a client changes neither the limits nor the number of connections. -/
theorem finishClient_admitted (error : Option String) : (s.finishClient i error).config = s.config ∧
      (s.finishClient i error).admitted = s.admitted := by
  unfold finishClient release clearClient count report
  repeat' split
  all_goals exact ⟨rfl, rfl⟩

theorem account_finish_stopIfLast (h : s.Held i) (error : Option String) (now : ℕ) :
    ((s.finishClient i error).stopIfLast now).account =
      ((s.stopIfLast now).finishClient i error).account := by
  obtain ⟨hconfig, hadm⟩ := @finishClient_admitted B s i error
  unfold stopIfLast limits
  rw [hconfig, hadm]
  split
  · exact account_finish_stop h error now
  · rfl

theorem moves_admitAt (hdone : s.done = false) (hstop : s.stopping = false)
    (hadm : s.admitted ≠ sizeMax) (hi : i < s.limits.concurrency)
    (hfree : s.account.slots[i]? = some none) (fd now : ℕ) :
    s.Moves ((s.admitAt i fd now).stopIfLast now) := by
  have hmove := Account.Move.admission hdone hstop hadm hi hfree
  have hacct := @account_admitAt B s i fd now
  have hflag : (!s.account.continuous && s.account.admitted + 1 == s.account.clients) =
    (!(s.admitAt i fd now).config.continuous &&
      (s.admitAt i fd now).admitted == (s.admitAt i fd now).limits.clients) := rfl
  rw [hflag] at hmove
  refine .single ?_
  unfold stopIfLast
  split_ifs with hlast
  · rw [hlast] at hmove
    rw [account_stopAt, hacct]
    exact hmove
  · rw [Bool.not_eq_true] at hlast
    rw [hlast, ← hstop] at hmove
    rw [hacct]
    exact hmove

theorem held_admitAt (hfree : s.account.slots[i]? = some none) (fd now : ℕ) :
    (s.admitAt i fd now).Held i := by
  unfold Held
  rw [account_admitAt]
  exact ⟨s.admitted, List.getElem?_set_self (List.getElem?_eq_some_iff.mp hfree).1⟩

theorem moves_admitConnection (hdone : s.done = false) (hstop : s.stopping = false)
    (hadm : s.admitted ≠ sizeMax) (hi : i < s.limits.concurrency)
    (hfree : s.account.slots[i]? = some none) (fd now : ℕ) (configured : Bool) :
    s.Moves (s.admitConnection i fd now configured) := by
  have hadmit := moves_admitAt hdone hstop hadm hi hfree fd now
  have hheld := held_admitAt hfree fd now
  cases configured with
  | true => exact hadmit
  | false =>
    have hheld' : ((s.admitAt i fd now).stopIfLast now).Held i := by
      unfold stopIfLast
      split
      · unfold Held
        rw [account_stopAt]
        exact hheld
      · exact hheld
    refine hadmit.trans ((moves_finishClient hheld' (some "TCP client socket failed")).trans ?_)
    exact .of_eq (account_finish_stopIfLast hheld _ now)

theorem moves_acceptClient (hsnd : s.account.Sound) (hdone : s.done = false) (now : ℕ) :
    s.Moves (s.acceptClient O now) := by
  unfold acceptClient
  split
  · exact .refl
  rename_i hgoing
  split_ifs with hadm
  · exact moves_fail _
  have hstop : s.stopping = false := by
    cases hstop : s.stopping with
    | false => rfl
    | true => simp [hstop] at hgoing
  simp only
  split
  · exact .of_eq rfl
  · exact (moves_fail _).after rfl
  rename_i fd base hacc
  split
  · exact .of_eq rfl
  rename_i hfull
  have hroom := Nat.lt_of_not_le hfull
  exact (moves_admitConnection (s := { s with base := (O.configure fd base).2 }) hdone
    hstop hadm hroom (free_slot hsnd hdone hroom) fd now _).after rfl

theorem moves_readClient (h : s.Held i) (fd : ℕ) : s.Moves (s.readClient O i fd) := by
  have hbase : ∀ base, Held { s with base } i := fun _ => h
  unfold readClient
  split
  · exact .of_eq rfl
  · exact (moves_finishClient (hbase _) _).after rfl
  · refine .of_eq (account_of_held (hbase _) ?_ ?_)
    · exact fun _ => by simp [setState, state]
    · exact fun _ => rfl
  simp only
  split
  · exact (moves_finishClient (hbase _) _).after rfl
  · refine .of_eq (account_modifyClient (s := { s with base := _ }) ?_)
    exact fun _ _ => rfl

theorem moves_completeStreamRead (h : s.Held i) (res : Value) :
    s.Moves (s.completeStreamRead i res) := by
  have hrun : (s.modifyClient i fun client =>
      { client with wait := { client.wait with state := .run, readLimit := 0 } }).account =
        s.account := by
    refine account_of_held h ?_ ?_
    · exact fun _ => by simp [state]
    · exact fun _ => rfl
  unfold completeStreamRead
  simp only
  split
  · refine .of_eq ((account_child ?_).trans hrun)
    intro e
    rw [Execution.completeRead_host]
  · exact (moves_trap _).after hrun

theorem moves_readStreamChunk (h : s.Held i) (fd : ℕ) : s.Moves (s.readStreamChunk O i fd) := by
  have hread : ∀ s₀ : Server B, s₀.account = s.account → ∀ res,
      s.Moves (s₀.completeStreamRead i res) :=
    fun s₀ hsame res => (moves_completeStreamRead (h.congr hsame) res).after hsame
  have heof : ∀ base, (modifyClient { s with base } i fun client =>
      { client with streamEof := true }).account = s.account :=
    fun base => account_modifyClient (s := { s with base }) fun _ _ => rfl
  unfold readStreamChunk
  split
  · exact .refl
  split
  · exact hread s rfl _
  split
  · exact .of_eq rfl
  · rename_i base _
    exact hread { s with base } rfl _
  · exact hread _ (heof _) _
  rename_i data base _ _
  simp only
  split
  · exact hread _ (heof base) _
  refine hread _ ?_ _
  split
  · rfl
  · refine account_modifyClient (s := { s with base }) ?_
    exact fun _ _ => rfl

theorem moves_writeInterim (h : s.Held i) (fd : ℕ) : s.Moves (s.writeInterim O i fd) := by
  have hbase : ∀ base, Held { s with base } i := fun _ => h
  unfold writeInterim
  split
  · exact .refl
  simp only
  split
  · exact (moves_finishClient (hbase _) _).after rfl
  rename_i client hcli n hcnt
  have hsent : ∀ base (data : Bytes), (modifyClient { s with base } i fun client =>
      { client with
        wait := { client.wait with interimSent := client.wait.interimSent + n }
        wire := client.wire ++ data }).account = s.account :=
    fun base data => account_modifyClient (s := { s with base }) fun _ _ => rfl
  split
  · exact (moves_completeStreamRead (h.congr (hsent _ _)) _).after (hsent _ _)
  · exact .of_eq (hsent _ _)

theorem moves_flushed (h : s.Held i) : s.Moves (s.flushed i) := by
  unfold flushed
  split
  · exact .of_eq (account_modifyClient fun _ _ => rfl)
  · exact moves_finishClient h _

theorem moves_writeClient (h : s.Held i) (fd : ℕ) : s.Moves (s.writeClient O i fd) := by
  have hbase : ∀ base, Held { s with base } i := fun _ => h
  unfold writeClient
  split
  · exact .refl
  simp only
  split
  · exact moves_flushed h
  split
  · exact (moves_finishClient (hbase _) _).after rfl
  rename_i n hcnt
  have hsent : ∀ base (data : Bytes), (modifyClient { s with base } i fun client =>
      { client with sent := client.sent + n, wire := client.wire ++ data }).account = s.account :=
    fun base data => account_modifyClient (s := { s with base }) fun _ _ => rfl
  split
  · exact (moves_flushed (h.congr (hsent _ _))).after (hsent _ _)
  · exact .of_eq (hsent _ _)

/-- What is ready at a client: its response is written, and then it may be served as well. -/
theorem moves_serveClient {client : Client B} (hcli : s.clients[i]? = some client)
    (entry : PollEntry) (revents : Revents) (fd : ℕ) :
    s.Moves (s.serveClient O entry revents i fd client) := by
  unfold serveClient
  split
  · exact .refl
  rename_i hsame
  simp only [not_or] at hsame
  have hheld := held_of_client hcli hsame.2.2
  have hwrite : s.Moves (if s.config.routed && client.response.isSome && revents.output then
      s.writeClient O i fd else s) := by
    split
    · exact moves_writeClient O hheld fd
    · exact .refl
  simp only
  refine hwrite.trans ?_
  generalize (if s.config.routed && client.response.isSome && revents.output then
    s.writeClient O i fd else s) = s₁
  split
  · exact .refl
  rename_i hopen
  simp only [not_or] at hopen
  have hheld₁ := held_iff.mpr hopen.1
  split
  · exact moves_finishClient hheld₁ _
  split
  · exact moves_readClient O hheld₁ fd
  · exact moves_readStreamChunk O hheld₁ fd
  · exact moves_writeInterim O hheld₁ fd
  · split
    · exact .refl
    · exact moves_writeClient O hheld₁ fd
  · exact .refl

theorem moves_serve (hsnd : s.account.Sound) (hdone : s.done = false) (now : ℕ)
    (entry : PollEntry) (revents : Revents) : s.Moves (s.serve O now entry revents) := by
  unfold serve
  split
  · exact .refl
  split
  · split_ifs
    · exact .refl
    · exact moves_fail _
    · exact moves_acceptClient O hsnd hdone now
  split
  · exact .refl
  rename_i client fd hfound
  obtain ⟨client₀, hcli, hfd⟩ := bind_eq_some_iff.mp hfound
  obtain ⟨fd₀, -, hpair⟩ := map_eq_some_iff.mp hfd
  cases hpair
  exact moves_serveClient O hcli entry revents fd

theorem moves_await (entries : List PollEntry) (wait : ℕ) : s.Moves (s.await O entries wait).2 := by
  unfold await
  split
  · exact .of_eq rfl
  · exact (moves_fail _).after rfl
  · exact .of_eq rfl

/-! ## Handlers -/

theorem account_advance (budget : ℕ) :
    (s.child i (Vm.advance (S.forServer O) p budget)).account = s.account :=
  account_child fun e => ((handled_relation O).advance S p budget e).free_iff

theorem account_pollNetwork (polls : Execution.Polls) :
    (s.child i (Execution.pollNetwork polls)).account = s.account :=
  account_child fun e => by rw [Execution.pollNetwork_host]

theorem account_survey : (s.survey O S p i).account = s.account := by
  have hatt : (if s.config.routed then s.httpAttachResponse i else s).account = s.account := by
    split
    · exact account_httpAttachResponse i
    · rfl
  unfold survey
  split
  · rfl
  simp only
  generalize (if s.config.routed then s.httpAttachResponse i else s) = s₁ at hatt ⊢
  split
  · refine (account_advance O S p 0).trans ((account_pollNetwork _).trans ?_)
    exact hatt
  · exact hatt

theorem moves_equipHandler (h : s.Held i) (conn : Option ℕ) (e : Execution (ServerHost B)) :
    s.Moves (s.equipHandler i conn e) := by
  unfold equipHandler
  split
  · refine (moves_trap _).after (account_modifyClient ?_)
    exact fun _ _ => rfl
  · refine .of_eq (account_of_held h ?_ ?_)
    · exact fun _ => by simp [setState, state]
    · exact fun _ => rfl

theorem moves_startHandler (h : s.Held i) : s.Moves (s.startHandler i) := by
  have hheld : ∀ world, Held { s with world } i := fun _ => h
  unfold startHandler
  split
  · exact .refl
  simp only
  split
  · refine (moves_trap _).after ?_
    exact account_modifyClient (s := { s with world := _ }) fun _ _ => rfl
  · exact (moves_equipHandler (hheld _) _ _).after rfl

theorem account_runHandler : (s.runHandler O S p i).account = s.account := by
  refine (account_advance O S p 1).trans ?_
  split
  · split
    · refine (account_child ?_).trans (account_modifyClient fun _ _ => rfl)
      intro e
      rw [Execution.completeRead_host]
    · rfl
  · rfl

theorem moves_handlerResult (h : s.Held i) : s.Moves (s.handlerResult O i) := by
  obtain ⟨client, hcli, hstate⟩ := h.client
  unfold handlerResult
  split
  · exact moves_httpHandlerFinished O h false
  split
  · split
    · exact moves_trap _
    split
    · split
      · split_ifs with hcont
        · exact moves_finishClient h _
        · exact moves_report hcli hstate (by simpa using hcont) _
      split
      · split
        · exact moves_finishClient h _
        refine .of_eq (account_of_held h ?_ ?_)
        · exact fun _ => by simp [setState, state]
        · exact fun _ => rfl
      · exact .refl
    · exact .refl
  · exact moves_trap _

theorem moves_handlerExit (h : s.Held i) (exitStatus : ℕ) :
    s.Moves (s.handlerExit i exitStatus) := by
  have hheld : ∀ world, Held { s with world } i := fun _ => h
  unfold handlerExit
  simp only
  refine Moves.trans ?_ (.of_eq rfl)
  split
  · exact (moves_httpFinishExecution (hheld _)).after rfl
  · exact (moves_finishClient (hheld _) _).after rfl

theorem moves_settleHandler : s.Moves (s.settleHandler O i) := by
  unfold settleHandler
  split
  · exact .refl
  rename_i client e hfound
  obtain ⟨client₀, hcli, hexec⟩ := bind_eq_some_iff.mp hfound
  obtain ⟨e₀, -, hpair⟩ := map_eq_some_iff.mp hexec
  cases hpair
  split
  · exact .refl
  rename_i hrun
  have hheld : s.Held i := held_of_client hcli (by rw [not_not] at hrun; simp [hrun])
  split
  · exact .refl
  · exact .refl
  · exact moves_handlerResult O hheld
  · split
    · exact moves_handlerExit hheld _
    · exact moves_trap _
  · split
    · exact moves_httpHandlerFinished O hheld true
    · exact moves_trap _

/-! ## Readiness -/

theorem account_onReady (f : Execution (ServerHost B) → Execution (ServerHost B)) :
    (s.onReady f).account = s.account := by
  unfold onReady
  split <;> rfl

theorem account_pollReady : (s.pollReady O).account = s.account :=
  account_onReady (s := { s with base := _ }) _

theorem moves_readyResult (e : Execution (ServerHost B)) : s.Moves (s.readyResult e) := by
  unfold readyResult
  split
  · rename_i name payload hres
    split
    · split
      · rename_i herr
        refine .single (@move_crash _ s s.error _ (.inr ?_))
        rw [hres, herr]
        rfl
      · exact moves_trap _
    · split
      · exact .of_eq rfl
      · exact moves_trap _
    · exact moves_trap _
  · exact moves_trap _

theorem moves_startReady (ready : ServerReady B) : s.Moves (s.startReady ready) := by
  unfold startReady
  simp only
  split
  · exact moves_trap _
  · exact .of_eq rfl

theorem moves_advanceReady (budget : ℕ) : s.Moves (s.advanceReady O S p budget) := by
  unfold advanceReady
  split
  · exact .refl
  rename_i ready _
  have hstart : s.Moves (if ready.execution.isSome then s else s.startReady ready) := by
    split
    · exact .refl
    · exact moves_startReady ready
  simp only
  refine hstart.trans ?_
  generalize (if ready.execution.isSome then s else s.startReady ready) = s₁
  split
  · exact .refl
  have hadv := (account_onReady (s := s₁.pollReady O)
    (Vm.advance (S.forServer O) p budget)).trans (account_pollReady O)
  split
  · exact .of_eq hadv
  split
  · exact (moves_readyResult _).after hadv
  · exact .of_eq hadv
  · exact .of_eq hadv
  · exact (moves_trap _).after hadv

/-! ## Runs -/

/-- Every step of the server is a sequence of moves of its accounts. -/
theorem moves_apply (hsnd : s.account.Sound) (step : ServerStep B)
    (hdone : s.done = false ∨ step.passive = true) : s.Moves (s.apply O S p step) := by
  cases step with
  | deadlines => exact (moves_deadlines O).1
  | survey i => exact .of_eq (account_survey O S p)
  | await entries wait => exact moves_await O entries wait
  | serve now entry revents =>
    have hdone := hdone.resolve_right (by simp [ServerStep.passive])
    exact moves_serve O hsnd hdone now entry revents
  | pollReady => exact .of_eq (account_pollReady O)
  | advanceReady budget => exact moves_advanceReady O S p budget
  | startHandler i =>
    show s.Moves (if s.stateOf i = .start then s.startHandler i else s)
    split
    · rename_i hstart
      exact moves_startHandler (held_iff.mpr (by simp [hstart]))
    · exact .refl
  | runHandler i =>
    show s.Moves (if s.stateOf i = .run then s.runHandler O S p i else s)
    split
    · exact .of_eq (account_runHandler O S p)
    · exact .refl
  | settleHandler i => exact moves_settleHandler O
  | stopAt now => exact moves_stopAt now
  | setReadyHandler handler context console =>
    show s.Moves (s.setReadyHandler handler context console).2
    unfold setReadyHandler
    split
    · exact .refl
    · exact .of_eq rfl
  | enable filesystem console | cursors nextIo nextHandler | others world base => exact .of_eq rfl

end Calls

theorem Moves.sound (h : s.Moves s') (hsnd : s.account.Sound) : s'.account.Sound :=
  ReflTransGen.head_induction_on (motive := fun a _ => a.Sound → s'.account.Sound) h id
    (fun hmove _ ih ha => ih (ha.move hmove)) hsnd

theorem Moves.outcome (h : s.Moves s') (hsnd : s.account.Sound) {k : ℕ} {v : Value}
    (hk : s.outcomes[k]? = some (some v)) : s'.outcomes[k]? = some (some v) :=
  ReflTransGen.head_induction_on
    (motive := fun a _ => a.Sound → a.outcomes[k]? = some (some v) →
      s'.outcomes[k]? = some (some v))
    h (fun _ hk => hk) (fun hmove _ ih ha hk => ih (ha.move hmove) (ha.outcome_stays hmove hk))
    hsnd hk

end Server

end Panackelty.Vm
