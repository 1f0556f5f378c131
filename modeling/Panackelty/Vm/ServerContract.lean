import Panackelty.Vm.EffectContract
import Panackelty.Vm.ServerRuns

/-!
# The contract of the TCP server

In every run of the server the number of active clients is the number of slots taken, within the
limit.  Until the server traps or fails, every connection of a finite server is in one slot or has
its one outcome, at its own index, and the counters of a continuous server add up; the result of a
finite server lists the outcomes of all its connections.

A trap or a failure is different: `close_all` gives up every client, and the connections it takes
away are neither reported nor counted.

* `ServerContract`: the contract; `serverContract_run`: it holds in every run.
* `accounts_lost`: a handler that traps takes the accounts with it.
-/

namespace Panackelty.Vm

open List Server
open CString (ascii)

variable {B : Type}

namespace Server

variable (s : Server B)

/-- How many slots are taken. -/
def occupied : ℕ := s.clients.countP fun client => client.state != .free

/-- How many slots the connection with this number has. -/
def inSlots (k : ℕ) : ℕ :=
  s.clients.countP fun client => client.state != .free && client.outcome == k

/-- The server has trapped, or its result is an `Error`. -/
def broken : Bool := s.error.isSome || isErrorResult s.result

end Server

/-- What a server owes its connections. -/
structure ServerContract (s : Server B) : Prop where
  active : s.active = s.occupied
  bounded : s.active ≤ s.limits.concurrency
  /-- A connection of a finite server is in one slot, or it has its outcome. -/
  outcome : s.config.continuous = false → s.broken = false → ∀ k,
    s.inSlots k + (if (s.outcomes[k]?).any Option.isSome then 1 else 0) =
      if k < s.admitted then 1 else 0
  /-- The result of a finite server has the outcomes of its connections, in order. -/
  listed : s.config.continuous = false → s.broken = false → s.done = true →
    ∃ values : List Value, s.result = some (okValue (.array values)) ∧
      values.length = s.admitted ∧ values.map some = s.outcomes.take s.admitted
  counted : s.config.continuous = true → s.broken = false →
    s.admitted = s.succeeded + s.failed + s.active

theorem occupied_account (s : Server B) : Library.occupied s.account.slots = s.occupied := by
  show (s.clients.map Client.holder).countP Option.isSome = _
  rw [countP_map]
  refine countP_congr ?_
  intro client _
  simp only [Function.comp_apply, Client.holder, bne_iff_ne]
  split_ifs with hfree <;> simp [hfree]

theorem count_account (s : Server B) (k : ℕ) : s.account.slots.count (some k) = s.inSlots k := by
  show (s.clients.map Client.holder).countP (· == some k) = _
  rw [countP_map]
  refine countP_congr ?_
  intro client _
  simp only [Function.comp_apply, Client.holder, Bool.and_eq_true, bne_iff_ne, beq_iff_eq]
  split_ifs with hfree <;> simp [hfree]

theorem Account.Sound.contract {s : Server B} (h : s.account.Sound) : ServerContract s where
  active := h.active.trans (occupied_account s)
  bounded := h.active.trans_le (Library.occupied_le h.within)
  outcome hfin hbrk k := by
    rw [← count_account]
    exact h.finite hfin hbrk k
  listed hfin hbrk hdone := h.listed hfin hbrk hdone
  counted hcont hbrk := h.counted hcont hbrk

/-! ## The start -/

variable {O : Os B} {S : Services B} {p : Program}

theorem sound_closeAll {s : Server B} {error : Option String} {result : Option Value}
    (hslots : s.clients.length = serverConcurrency) (hplc : s.outcomes.length = serverClients)
    (hadm : s.admitted ≤ sizeMax) (hbrk : error.isSome = true ∨ isErrorResult result = true) :
    (closeAll { s with error, result, done := true }).account.Sound := by
  obtain ⟨slots, hlen, hfree, hacct⟩ :=
    account_closeAll { s with error, result, done := true }
  rw [hacct]
  have hlen : slots.length = serverConcurrency := by simpa [Server.account, hslots] using hlen
  exact Account.sound_crash hlen hplc hadm hfree hbrk

theorem limits_of_startCheck {handler : Function} {context : Option Value} {addr : Value}
    {port : ℕ} {limits : ServerLimits} {streaming continuous : Bool} {text : Bytes}
    (h : startCheck handler context addr port limits streaming continuous = .ok text) :
    limits.concurrency ≤ serverConcurrency ∧
      (continuous = false → 0 < limits.clients ∧ limits.clients ≤ serverClients) := by
  unfold startCheck at h
  split at h
  · cases h
  split at h
  · split at h
    · cases h
    rename_i hlims
    simp only [not_or, not_and, not_lt] at hlims
    refine ⟨hlims.2.2.2.2.1, fun hfin => ?_⟩
    obtain ⟨hzero, hclis, -⟩ := hlims.2.2.1 hfin
    exact ⟨Nat.pos_of_ne_zero hzero, hclis⟩
  · cases h

theorem sound_fresh {config : ServerConfig} {world : World} {base : B}
    (hconc : config.limits.concurrency ≤ serverConcurrency) (hclis : config.continuous = false →
      0 < config.limits.clients ∧ config.limits.clients ≤ serverClients) :
    (fresh config world base).account.Sound := by
  have hslots : (fresh config world base).account.slots =
      replicate serverConcurrency none := map_replicate
  have hrep : ∀ k, (fresh config world base).account.reported k = false := by
    intro k
    show ((replicate serverClients (none : Option Value))[k]?).any Option.isSome = false
    rw [getElem?_replicate]
    split_ifs <;> rfl
  exact
    { length := by rw [hslots, length_replicate]
      places := length_replicate
      active := by
        rw [hslots]
        exact (Library.occupied_replicate _).symm
      within := by
        intro i k hheld
        rw [hslots, getElem?_replicate] at hheld
        split_ifs at hheld
        cases hheld
      admitted_le := Nat.zero_le _
      going := fun _ => ⟨rfl, hconc⟩
      finished := fun _ => rfl
      admission := fun hfin _ =>
        ⟨Nat.zero_le _, (hclis hfin).2, fun _ => (hclis hfin).1⟩
      finite := by
        intro _ _ k
        rw [Library.count_eq_zero_of_occupied (by rw [hslots]; exact Library.occupied_replicate _),
          hrep]
        rfl
      counted := fun _ _ => rfl
      concluded := fun hover => absurd hover (by simp [Server.account, fresh]) }

theorem sound_startMode (O : Os B) (config : ServerConfig) (addr : Value) (port : ℕ)
    (world : World) (base : B) : (startMode O config addr port world base).account.Sound := by
  have hcrash : ∀ (base : B) error result, error.isSome = true ∨ isErrorResult result = true →
      (closeAll { fresh config world base with error, result, done := true }).account.Sound :=
    fun base error result hbrk => sound_closeAll length_replicate length_replicate
      (Nat.zero_le _) hbrk
  unfold startMode
  split
  · exact hcrash base _ none (.inl rfl)
  · exact hcrash base none _ (.inr rfl)
  rename_i hcheck
  split
  · exact hcrash _ none _ (.inr rfl)
  obtain ⟨hconc, hclis⟩ := limits_of_startCheck hcheck
  exact @sound_fresh B config world base hconc hclis

/-! ## Runs -/

theorem account_sound_run : (serverMachine O S p).Invariant fun s => s.account.Sound where
  initial s hs := by
    obtain ⟨config, addr, port, world, base, rfl⟩ := hs
    exact sound_startMode O config addr port world base
  step s step s' hs hstep := by
    obtain ⟨hallowed, rfl⟩ := hstep
    exact (moves_apply O S p hs step hallowed).sound hs

/-- In every run the contract holds, and an outcome that was given stays. -/
theorem serverContract_run {s : Server B} (h : (serverMachine O S p).Reachable s) :
    ServerContract s ∧ ∀ step s', (serverMachine O S p).step s step s' →
      ∀ (k : ℕ) (v : Value), s.outcomes[k]? = some (some v) → s'.outcomes[k]? = some (some v) := by
  have hsnd := account_sound_run.reachable h
  refine ⟨hsnd.contract, ?_⟩
  intro step s' hstep k v hk
  obtain ⟨hallowed, rfl⟩ := hstep
  exact (moves_apply O S p hsnd step hallowed).outcome hsnd hk

/-! ## Examples -/

/-- A system where a client is always waiting, sends nothing and takes everything. -/
def eagerOs : Os Unit where
  clock _ := (some 0, ())
  listen _ _ _ _ := (.ok 0, ())
  accept _ := (.accepted 7, ())
  configure _ _ := (true, ())
  recv _ _ _ := (.received [], ())
  send _ data _ := (.sent data.length, ())
  poll entries _ _ := (.ready (entries.map fun _ => ⟨true, true, false, false, false⟩), ())
  network _ := (⟨none, none, none, none⟩, ())
  log _ _ := ()

/-- A world with nothing in it. -/
def emptyWorld : World := ⟨[], [], [], ⟨false, [], [], [], false, 0⟩⟩

/-- A handler that answers with its request, or fails to match. -/
def echoHandler (whole : Bool) : Function :=
  ⟨ascii "handler", false, true, false, [ascii "request"],
    if whole then [.load (ascii "request"), .makeVariant (ascii "Result") (ascii "Ok") 1, .ret]
    else [.matchFail, .const .void, .ret]⟩

/-- A finite server, or a continuous one, whose handler has a stream. -/
def echoConfig (whole continuous : Bool) : ServerConfig where
  handler := echoHandler whole
  context := if continuous then some .void else none
  limits := ⟨1, 1, 16, 16, 1000, 1000, 1000⟩
  outbound := false
  streaming := continuous
  continuous := continuous
  routed := false
  filesystemEnabled := false
  consoleEnabled := false

/-- The verified program of the handler. -/
def echoProgram (whole : Bool) : Program :=
  ⟨[echoHandler whole, ⟨ascii "main", false, false, false, [], [.const .void, .ret]⟩], true⟩

/-- One connection is accepted, read and handled. -/
def echoServer (whole continuous : Bool) : Server Unit :=
  let s := Server.startMode eagerOs (echoConfig whole continuous)
    (.str (Str.asciiBytes "127.0.0.1")) 8080 emptyWorld ()
  let s := (s.poll eagerOs quietServices (echoProgram whole) 0).poll eagerOs quietServices
    (echoProgram whole) 0
  (s.advance eagerOs quietServices (echoProgram whole) 8).poll eagerOs quietServices
    (echoProgram whole) 0

theorem reachable_echoServer (whole continuous : Bool) :
    (serverMachine eagerOs quietServices (echoProgram whole)).Reachable
      (echoServer whole continuous) := by
  have hP := @stepClosed_reachable Unit eagerOs quietServices (echoProgram whole)
  have hstart := Library.Machine.Reachable.initial
    (M := serverMachine eagerOs quietServices (echoProgram whole))
    ⟨echoConfig whole continuous, .str (Str.asciiBytes "127.0.0.1"), 8080, emptyWorld, (), rfl⟩
  exact hP.poll 0 (hP.advance 8 (hP.poll 0 (hP.poll 0 hstart)))

/-- A server whose only connection has been answered. -/
theorem serverContract_echoServer : (∃ p, verify p = .ok (echoProgram true)) ∧
    (echoServer true false).done = true ∧ (echoServer true false).broken = false ∧
      (echoServer true false).admitted = 1 ∧ ServerContract (echoServer true false) :=
  ⟨⟨⟨(echoProgram true).functions, false⟩, by decide +kernel⟩, by decide +kernel, by decide +kernel,
    by decide +kernel, (serverContract_run (reachable_echoServer true false)).1⟩

/-- A handler that traps takes its server with it: the connection has been admitted, but it has no
slot, no outcome, and neither counter has it. -/
theorem accounts_lost : (∃ p, verify p = .ok (echoProgram false)) ∧
    (∃ s, (serverMachine eagerOs quietServices (echoProgram false)).Reachable s ∧
      s.config.continuous = false ∧ s.admitted = 1 ∧ s.inSlots 0 = 0 ∧
        (s.outcomes[0]?).any Option.isSome = false) ∧
    ∃ s, (serverMachine eagerOs quietServices (echoProgram false)).Reachable s ∧
      s.config.continuous = true ∧ s.config.streaming = true ∧ s.admitted = 1 ∧
        s.succeeded + s.failed + s.active = 0 :=
  ⟨⟨⟨(echoProgram false).functions, false⟩, by decide +kernel⟩,
    ⟨_, reachable_echoServer false false, by decide +kernel⟩,
    ⟨_, reachable_echoServer false true, by decide +kernel⟩⟩

end Panackelty.Vm
