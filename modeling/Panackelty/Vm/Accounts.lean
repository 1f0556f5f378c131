import Panackelty.Library.Slots
import Panackelty.Vm.TcpServerCalls

/-!
# The accounts of a server

What a server owes its connections, without sockets and handlers: a connection takes a slot under
its number, and gives it back with an outcome or to a counter.  A server that traps or fails gives
up all slots at once, and its accounts are not balanced any more.

* `Account`: the slots, the outcomes and the counters; `Account.Move`: what can happen to them.
* `Account.Sound`: the accounts are balanced, and every move keeps them so.
* `Sound.listed`: the result of a finite server lists the outcomes of all its connections.
-/

namespace Panackelty.Vm

open Library (occupied)
open List

/-- A result that is an `Error`. -/
def isErrorResult : Option Value → Bool
  | some (.variant name _) => name == Str.asciiBytes "Error"
  | _ => false

/-- What a server counts. -/
structure Account where
  continuous : Bool
  /-- The limits on connections, in all and at a time. -/
  clients : ℕ
  concurrency : ℕ
  /-- The number of the connection in each slot. -/
  slots : List (Option ℕ)
  outcomes : List (Option Value)
  admitted : ℕ
  active : ℕ
  succeeded : ℕ
  failed : ℕ
  stopping : Bool
  done : Bool
  error : Option String
  result : Option Value

namespace Account

/-- The server has trapped or failed. -/
def broken (a : Account) : Bool := a.error.isSome || isErrorResult a.result

/-- There is an outcome for the connection. -/
def reported (a : Account) (k : ℕ) : Bool := (a.outcomes[k]?).any Option.isSome

/-- The result that a server comes to. -/
def summary (a : Account) : Value :=
  if a.continuous then
    okValue (.record (Str.asciiBytes "TcpServiceSummary")
      [Str.asciiBytes "accepted", Str.asciiBytes "succeeded", Str.asciiBytes "failed"]
      [valueSize a.admitted, valueSize a.succeeded, valueSize a.failed])
  else okValue (.array ((a.outcomes.take a.admitted).filterMap id))

/-- A counter that stops at its limit. -/
def bump (n : ℕ) : ℕ := if n < sizeMax then n + 1 else n

/-- How a server may change its counts. -/
inductive Move (a : Account) : Account → Prop
  | stop : Move a { a with stopping := true }
  /-- A connection takes a free slot; the last one of a finite server stops it. -/
  | admission {i : ℕ} (hdone : a.done = false) (hstopping : a.stopping = false)
      (hadmitted : a.admitted ≠ sizeMax) (hi : i < a.concurrency)
        (hfree : a.slots[i]? = some none) :
      Move a { a with
        slots := a.slots.set i (some a.admitted)
        admitted := a.admitted + 1
        active := a.active + 1
        stopping := !a.continuous && a.admitted + 1 == a.clients }
  | report {i k : ℕ} (v : Value) (hfinite : a.continuous = false)
      (hheld : a.slots[i]? = some (some k)) :
      Move a { a with
        outcomes := a.outcomes.set k (some v), slots := a.slots.set i none, active := a.active - 1 }
  | success {i k : ℕ} (hcontinuous : a.continuous) (hheld : a.slots[i]? = some (some k)) :
      Move a { a with
        succeeded := bump a.succeeded, slots := a.slots.set i none, active := a.active - 1 }
  | failure {i k : ℕ} (hcontinuous : a.continuous) (hheld : a.slots[i]? = some (some k)) :
      Move a { a with
        failed := bump a.failed, slots := a.slots.set i none, active := a.active - 1 }
  /-- A trap or a failure: the slots are given up without any report. -/
  | crash {slots : List (Option ℕ)} {error : Option String} {result : Option Value}
      (hlength : slots.length = a.slots.length)
      (hfree : ∀ i < serverConcurrency, ∀ k, slots[i]? ≠ some (some k))
      (hbroken : error.isSome = true ∨ isErrorResult result = true) :
      Move a { a with slots, active := 0, done := true, error, result }
  | conclude (hdone : a.done = false) (hstopping : a.stopping) (hactive : a.active = 0) :
      Move a { a with done := true, result := some a.summary }

/-! ## The invariant -/

/-- The accounts are balanced. -/
structure Sound (a : Account) : Prop where
  length : a.slots.length = serverConcurrency
  places : a.outcomes.length = serverClients
  active : a.active = occupied a.slots
  within : ∀ i k, a.slots[i]? = some (some k) → i < a.concurrency
  admitted_le : a.admitted ≤ sizeMax
  going : a.done = false → a.broken = false ∧ a.concurrency ≤ serverConcurrency
  finished : a.done = true → a.active = 0
  admission : a.continuous = false → a.broken = false →
    a.admitted ≤ a.clients ∧ a.clients ≤ serverClients ∧
      (a.stopping = false → a.admitted < a.clients)
  /-- A connection of a finite server is in one slot, or has its outcome. -/
  finite : a.continuous = false → a.broken = false → ∀ k,
    a.slots.count (some k) + (if a.reported k then 1 else 0) = if k < a.admitted then 1 else 0
  counted : a.continuous = true → a.broken = false → a.admitted = a.succeeded + a.failed + a.active
  concluded : a.done = true → a.broken = false → a.result = some a.summary

variable {a a' : Account}

theorem Sound.going_on (h : a.Sound) {i k : ℕ} (hheld : a.slots[i]? = some (some k)) :
    a.done = false := by
  cases hdone : a.done with
  | false => rfl
  | true =>
    have hpos := Library.occupied_pos hheld
    have hact := h.active
    rw [h.finished hdone] at hact
    omega

theorem occupied_crash {slots : List (Option ℕ)} (hlen : slots.length = serverConcurrency)
    (hfree : ∀ i < serverConcurrency, ∀ k, slots[i]? ≠ some (some k)) : occupied slots = 0 := by
  unfold occupied
  rw [countP_eq_zero]
  intro slot hslot
  obtain ⟨i, hi⟩ := mem_iff_getElem?.mp hslot
  have hlt : i < serverConcurrency := hlen ▸ (List.getElem?_eq_some_iff.mp hi).1
  cases slot with
  | none => simp
  | some k => exact absurd hi (hfree i hlt k)

/-- Whatever the accounts were before it, after a crash they claim nothing. -/
theorem sound_crash {slots : List (Option ℕ)} {error : Option String} {result : Option Value}
    (hlen : slots.length = serverConcurrency) (hplc : a.outcomes.length = serverClients)
    (hadm : a.admitted ≤ sizeMax) (hfree : ∀ i < serverConcurrency, ∀ k, slots[i]? ≠ some (some k))
    (hbrk : error.isSome = true ∨ isErrorResult result = true) :
    Sound { a with slots, active := 0, done := true, error, result } := by
  have hcrashed : (error.isSome || isErrorResult result) = true := by simpa using hbrk
  have hfalse : ¬ (error.isSome || isErrorResult result) = false := by simp [hcrashed]
  exact
    { length := hlen
      places := hplc
      active := (occupied_crash hlen hfree).symm
      within := fun i k hheld =>
        absurd hheld (hfree i (hlen ▸ (List.getElem?_eq_some_iff.mp hheld).1) k)
      admitted_le := hadm
      going := fun hgoing => absurd hgoing (by simp)
      finished := fun _ => rfl
      admission := fun _ hwhole => absurd hwhole hfalse
      finite := fun _ hwhole => absurd hwhole hfalse
      counted := fun _ hwhole => absurd hwhole hfalse
      concluded := fun _ hwhole => absurd hwhole hfalse }

theorem reported_set {v : Value} {k j : ℕ} (hk : k < a.outcomes.length) :
    reported { a with outcomes := a.outcomes.set k (some v) } j =
      if k = j then true else a.reported j := by
  unfold reported
  split_ifs with h
  · subst h
    simp [getElem?_set_self hk]
  · simp [getElem?_set_ne h]

/-- The number of a connection in a slot has a place for its outcome, which is empty. -/
theorem Sound.pending (h : a.Sound) (hfin : a.continuous = false) {i k : ℕ}
    (hheld : a.slots[i]? = some (some k)) : k < a.outcomes.length ∧ a.reported k = false := by
  have hbrk := (h.going (h.going_on hheld)).1
  have hbal := h.finite hfin hbrk k
  have hpos : 0 < a.slots.count (some k) := count_pos_iff.mpr (mem_of_getElem? hheld)
  obtain ⟨hle, hclis, -⟩ := h.admission hfin hbrk
  have hplc := h.places
  by_cases hadm : k < a.admitted
  · refine ⟨by omega, ?_⟩
    cases hrep : a.reported k with
    | false => rfl
    | true =>
      rw [hrep, if_pos rfl, if_pos hadm] at hbal
      omega
  · rw [if_neg hadm] at hbal
    omega

theorem Sound.give (h : a.Sound) {i k : ℕ} (hheld : a.slots[i]? = some (some k)) :
    a.active - 1 = occupied (a.slots.set i none) ∧ 0 < a.active ∧
      ∀ j k, (a.slots.set i none)[j]? = some (some k) → j < a.concurrency := by
  have hgive := Library.occupied_give hheld
  have hact := h.active
  refine ⟨by omega, by omega, ?_⟩
  intro j k' hj
  rw [getElem?_set] at hj
  split_ifs at hj with hij
  · cases hj
  · exact h.within j k' hj

theorem bump_of_lt {n : ℕ} (h : n < sizeMax) : bump n = n + 1 := if_pos h

/-- The counters of a continuous server have room for a connection that is still in its slot. -/
theorem Sound.room (h : a.Sound) (hcont : a.continuous) {i k : ℕ}
    (hheld : a.slots[i]? = some (some k)) : a.succeeded + a.failed < sizeMax := by
  have hcounted := h.counted hcont (h.going (h.going_on hheld)).1
  have hpos := (h.give hheld).2.1
  have hle := h.admitted_le
  omega

theorem Sound.counter (h : a.Sound) (hcont : a.continuous) {i k : ℕ}
    (hheld : a.slots[i]? = some (some k)) {succeeded failed : ℕ}
    (hsum : succeeded + failed = a.succeeded + a.failed + 1) :
    Sound { a with succeeded, failed, slots := a.slots.set i none, active := a.active - 1 } := by
  obtain ⟨hact, hpos, hin⟩ := h.give hheld
  have hdone := h.going_on hheld
  have hnotfinite : ¬ a.continuous = false := by simp [hcont]
  refine { h with
    length := ?_, active := hact, within := hin, finished := ?_, admission := ?_, finite := ?_
    counted := ?_, concluded := ?_ }
  · simpa using h.length
  · intro hover
    simp [hdone] at hover
  · exact fun hfin => absurd hfin hnotfinite
  · exact fun hfin => absurd hfin hnotfinite
  · intro _ hbrk
    have hcounted := h.counted hcont hbrk
    show a.admitted = succeeded + failed + (a.active - 1)
    omega
  · intro hover
    simp [hdone] at hover

theorem Sound.move (h : a.Sound) (hmove : a.Move a') : a'.Sound := by
  cases hmove with
  | stop =>
    refine { h with admission := ?_ }
    intro hfin hbrk
    obtain ⟨hle, hclis, -⟩ := h.admission hfin hbrk
    exact ⟨hle, hclis, fun hstop => by simp at hstop⟩
  | @admission i hdone hstop hadm hi hfree =>
    have htake := @Library.occupied_take ℕ a.slots i a.admitted hfree
    have hle := h.admitted_le
    have hact := h.active
    refine { h with
      length := ?_, active := ?_, within := ?_, admitted_le := ?_, finished := ?_, admission := ?_
      finite := ?_, counted := ?_, concluded := ?_ }
    · simpa using h.length
    · show a.active + 1 = occupied (a.slots.set i (some a.admitted))
      omega
    · intro j k hj
      rw [getElem?_set] at hj
      split_ifs at hj with hij
      · exact hij ▸ hi
      · exact h.within j k hj
    · show a.admitted + 1 ≤ sizeMax
      omega
    · intro hover
      simp [hdone] at hover
    · intro hfin hbrk
      obtain ⟨-, hclis, hlt⟩ := h.admission hfin hbrk
      have hlt := hlt hstop
      refine ⟨hlt, hclis, ?_⟩
      intro hgoing
      change a.continuous = false at hfin
      simp only [hfin, Bool.not_false, Bool.true_and, beq_eq_false_iff_ne] at hgoing
      show a.admitted + 1 < a.clients
      omega
    · intro hfin hbrk k
      have hbal := h.finite hfin hbrk k
      have hcnt := @Library.count_take ℕ a.slots i a.admitted _ hfree k
      show (a.slots.set i (some a.admitted)).count (some k) + (if a.reported k then 1 else 0) =
        if k < a.admitted + 1 then 1 else 0
      rw [hcnt]
      split_ifs at hbal ⊢ <;> omega
    · intro hcont hbrk
      have hcounted := h.counted hcont hbrk
      show a.admitted + 1 = a.succeeded + a.failed + (a.active + 1)
      omega
    · intro hover
      simp [hdone] at hover
  | @report i k v hfin hheld =>
    obtain ⟨hact, hpos, hin⟩ := h.give hheld
    obtain ⟨hplace, hpend⟩ := h.pending hfin hheld
    have hdone := h.going_on hheld
    refine { h with
      length := ?_, places := ?_, active := hact, within := hin, finished := ?_, finite := ?_
      counted := ?_, concluded := ?_ }
    · simpa using h.length
    · simpa using h.places
    · intro hover
      simp [hdone] at hover
    · intro _ hbrk j
      have hbal := h.finite hfin hbrk j
      have hcnt := Library.count_give hheld j
      have hrep := @reported_set a v k j hplace
      show (a.slots.set i none).count (some j) +
        (if reported { a with outcomes := a.outcomes.set k (some v) } j then 1 else 0) =
          if j < a.admitted then 1 else 0
      rw [hrep]
      by_cases hkj : k = j
      · subst hkj
        simp only [hpend, if_true] at hbal hcnt ⊢
        simpa [hcnt] using hbal
      · simpa [hkj, ← hcnt] using hbal
    · intro hcont
      exact absurd (hfin.symm.trans hcont) (by simp)
    · intro hover
      simp [hdone] at hover
  | success hcont hheld | failure hcont hheld =>
    refine h.counter hcont hheld ?_
    have hroom := h.room hcont hheld
    rw [bump_of_lt (by omega)]
    omega
  | crash hlen hfree hbrk =>
    exact sound_crash (hlen.trans h.length) h.places h.admitted_le hfree hbrk
  | conclude hdone hstop hact =>
    have hbrk := (h.going hdone).1
    refine { h with
      going := fun hgoing => absurd hgoing (by simp)
      finished := fun _ => hact
      admission := fun hfin _ => h.admission hfin hbrk
      finite := fun hfin _ => h.finite hfin hbrk
      counted := fun hcont _ => h.counted hcont hbrk
      concluded := fun _ _ => rfl }

theorem Sound.outcome_stays (h : a.Sound) (hmove : a.Move a') {k : ℕ} {v : Value}
    (hk : a.outcomes[k]? = some (some v)) : a'.outcomes[k]? = some (some v) := by
  cases hmove with
  | @report i j _ hfin hheld =>
    obtain ⟨-, hpend⟩ := h.pending hfin hheld
    have hne : j ≠ k := by
      rintro rfl
      simp [reported, hk] at hpend
    rw [getElem?_set_ne hne]
    exact hk
  | _ => exact hk

theorem map_some_filterMap {α : Type} (l : List (Option α)) (h : ∀ x ∈ l, x.isSome = true) :
    (l.filterMap id).map some = l := by
  induction l with
  | nil => rfl
  | cons x l ih =>
    obtain ⟨v, rfl⟩ := Option.isSome_iff_exists.mp (h x (mem_cons_self ..))
    have hrest := ih fun y hy => h y (mem_cons_of_mem _ hy)
    show some v :: (l.filterMap id).map some = some v :: l
    rw [hrest]

/-- The result of a finite server that has come to its end lists the outcomes of its connections. -/
theorem Sound.listed (h : a.Sound) (hfin : a.continuous = false) (hbrk : a.broken = false)
    (hdone : a.done) : ∃ vals : List Value, a.result = some (okValue (.array vals)) ∧
      vals.length = a.admitted ∧ vals.map some = a.outcomes.take a.admitted := by
  obtain ⟨hle, hclis, -⟩ := h.admission hfin hbrk
  have hplc := h.places
  have hfull : ∀ x ∈ a.outcomes.take a.admitted, x.isSome = true := by
    intro x hx
    obtain ⟨k, hk⟩ := mem_iff_getElem?.mp hx
    rw [getElem?_take] at hk
    split_ifs at hk with hlt
    have hzero := Library.count_eq_zero_of_occupied (h.active.symm.trans (h.finished hdone)) k
    have hbal := h.finite hfin hbrk k
    rw [if_pos hlt, hzero] at hbal
    have hrep : a.reported k := by
      by_contra hnone
      simp [hnone] at hbal
    simpa [reported, hk] using hrep
  have hmap := map_some_filterMap _ hfull
  refine ⟨(a.outcomes.take a.admitted).filterMap id, ?_, ?_, hmap⟩
  · rw [h.concluded hdone hbrk, summary, hfin]
    rfl
  · have hlen := congrArg List.length hmap
    rw [length_map, length_take] at hlen
    omega

end Account

end Panackelty.Vm
