import Mathlib.Data.List.Basic
import Mathlib.Tactic.Cases

/-!
# Machines that are fed in pieces

A machine reads its input in rounds: `step` takes a part of the input that is at hand and returns
what is left of it.  `feed` runs the rounds over one piece, and `feedAll` feeds one piece after the
other. A machine that is `Steady` does not care where the input is cut: a round that has used up its
piece goes on with the next one as if it had been there from the start.  `limit` bounds the pieces
for which this is known. -/

namespace Panackelty.Library

open List

variable {σ α ε : Type*} (step : σ → List α → Except ε (σ × List α))

/-- The rounds over one piece. -/
def rounds : ℕ → σ → List α → Except ε σ
  | 0, s, _ => .ok s
  | fuel + 1, s, input =>
    if input.isEmpty then .ok s
    else
      match step s input with
      | .error e => .error e
      | .ok (s, rest) => rounds fuel s rest

/-- One piece; every round takes something. -/
def feed (s : σ) (input : List α) : Except ε σ := rounds step input.length s input

/-- One piece after the other. -/
def feedAll : σ → List (List α) → Except ε σ
  | s, [] => .ok s
  | s, piece :: pieces =>
    match feed step s piece with
    | .error e => .error e
    | .ok s => feedAll s pieces

variable {step}

variable {s : σ} {input : List α}

theorem feed_error {e : ε} (hinp : input ≠ [])
    (hstep : step s input = .error e) : feed step s input = .error e := by
  obtain ⟨a, input, rfl⟩ := exists_cons_of_ne_nil hinp
  rw [feed, length_cons, rounds, hstep]
  rfl

theorem feedAll_append (pieces more : List (List α)) : feedAll step s (pieces ++ more) =
      (feedAll step s pieces).bind fun s => feedAll step s more := by
  induction pieces generalizing s with
  | nil => rfl
  | cons piece pieces ih =>
    rw [cons_append, feedAll, feedAll]
    cases feed step s piece with
    | error e => rfl
    | ok s' => exact ih

theorem rounds_invariant {good : σ → Prop}
    (hstep : ∀ {s s' input rest}, good s → input ≠ [] → step s input = .ok (s', rest) → good s')
    {fuel : ℕ} {s' : σ} (hs : good s) (h : rounds step fuel s input = .ok s') : good s' := by
  induction fuel generalizing s input with
  | zero =>
    cases h
    exact hs
  | succ fuel ih =>
    rcases input with _ | ⟨a, input⟩
    · cases h
      exact hs
    rw [rounds] at h
    cases hround : step s (a :: input) with
    | error e =>
      rw [hround] at h
      cases h
    | ok next =>
      rw [hround] at h
      exact ih (hstep hs (cons_ne_nil a input) hround) h

variable {pieces : List (List α)}

theorem feedAll_invariant {good : σ → Prop}
    (hstep : ∀ {s s' input rest}, good s → input ≠ [] → step s input = .ok (s', rest) → good s')
    {s' : σ} (hs : good s) (h : feedAll step s pieces = .ok s') : good s' := by
  induction pieces generalizing s with
  | nil =>
    cases h
    exact hs
  | cons piece pieces ih =>
    rw [feedAll] at h
    split at h
    · cases h
    rename_i next hfeed
    exact ih (rounds_invariant hstep hs hfeed) h

variable (step)

/-- A round from `s` does not care whether more is at hand. -/
structure SteadyAt (limit : ℕ) (s : σ) : Prop where
  error : ∀ {input e} (more : List α), input ≠ [] → (input ++ more).length ≤ limit →
    step s input = .error e → step s (input ++ more) = .error e
  part : ∀ {s' input rest} (more : List α), input ≠ [] → step s input = .ok (s', rest) → rest ≠ [] →
    step s (input ++ more) = .ok (s', rest ++ more)
  whole : ∀ {s' input more}, input ≠ [] → more ≠ [] → (input ++ more).length ≤ limit →
    step s input = .ok (s', []) →
      step s (input ++ more) = step s' more ∨ step s (input ++ more) = .ok (s', more)

structure Steady (good : σ → Prop) (limit : ℕ) : Prop where
  keeps : ∀ {s s' input rest}, good s → input ≠ [] → step s input = .ok (s', rest) →
    good s' ∧ rest.length < input.length
  steady : ∀ {s}, good s → SteadyAt step limit s

variable {step} in
/-- A round that takes up to `count` items is steady when taking fewer is a part of taking more. -/
theorem SteadyAt.of_taking {limit : ℕ} (count : ℕ) (act : List α → Except ε σ)
    (hstep : ∀ input, input ≠ [] →
      step s input = (act (input.take count)).map fun s => (s, input.drop count))
    (herr : ∀ {piece e} (more : List α), piece ≠ [] → piece.length < count →
      (piece ++ more).length ≤ limit → act piece = .error e → act (piece ++ more) = .error e)
    (hwhole : ∀ {piece s'} (more : List α), piece ≠ [] → piece.length < count → more ≠ [] →
      (piece ++ more).length ≤ limit → act piece = .ok s' →
      (act (piece ++ more.take (count - piece.length))).map
          (fun s => (s, more.drop (count - piece.length))) = step s' more) :
    SteadyAt step limit s := by
  have htake : ∀ {input : List α} (more : List α), input.length < count →
      (input ++ more).take count = input ++ more.take (count - input.length) ∧
        (input ++ more).drop count = more.drop (count - input.length) := fun {input} more hlt =>
    ⟨by rw [take_append, take_of_length_le (Nat.le_of_lt hlt)],
      by rw [drop_append, drop_of_length_le (Nat.le_of_lt hlt), nil_append]⟩
  have henough : ∀ {input : List α} (more : List α), count ≤ input.length →
      (input ++ more).take count = input.take count ∧
        (input ++ more).drop count = input.drop count ++ more := fun more hle =>
    ⟨take_append_of_le_length hle, drop_append_of_le_length hle⟩
  have hne : ∀ {input : List α} (more : List α), input ≠ [] → input ++ more ≠ [] :=
    fun more hinp hnil => hinp (append_eq_nil_iff.mp hnil).1
  constructor
  · intro input e more hinp hlim h
    rw [hstep input hinp] at h
    rw [hstep _ (hne more hinp)]
    have hact : act (input.take count) = .error e := by
      cases hact : act (input.take count) with
      | error e' =>
        rw [hact] at h
        cases h
        rfl
      | ok s' =>
        rw [hact] at h
        cases h
    rcases Nat.lt_or_ge input.length count with hlt | hge
    · rw [take_of_length_le (Nat.le_of_lt hlt)] at hact
      rw [(htake more hlt).1, herr _ hinp hlt ?_ hact]
      · rfl
      · rw [length_append, length_take] at *
        omega
    · rw [(henough more hge).1, hact]
      rfl
  · intro s' input rest more hinp h hrest
    rw [hstep input hinp] at h
    rw [hstep _ (hne more hinp)]
    rcases hact : act (input.take count) with e | t
    · rw [hact] at h
      cases h
    rw [hact] at h
    cases h
    have hge : count ≤ input.length := by
      by_contra hlt
      exact hrest (drop_of_length_le (by omega))
    rw [(henough more hge).1, (henough more hge).2, hact]
    rfl
  · intro s' input more hinp hmore hlim h
    rw [hstep input hinp] at h
    rw [hstep _ (hne more hinp)]
    rcases hact : act (input.take count) with e | t
    · rw [hact] at h
      cases h
    rw [hact] at h
    obtain ⟨rfl, hdrop⟩ := Prod.mk.inj (Except.ok.inj h)
    rcases Nat.lt_or_ge input.length count with hlt | hge
    · rw [take_of_length_le (Nat.le_of_lt hlt)] at hact
      rw [(htake more hlt).1, (htake more hlt).2]
      exact .inl (hwhole more hinp hlt hmore hlim hact)
    · rw [(henough more hge).1, (henough more hge).2, hact, hdrop]
      exact .inr rfl

namespace Steady

variable {step} {good : σ → Prop} {limit : ℕ} (h : Steady step good limit)
include h

theorem rounds_eq {fuel late : ℕ} (hs : good s)
    (hfuel : input.length ≤ fuel) (hlate : input.length ≤ late) :
    rounds step fuel s input = rounds step late s input := by
  induction fuel generalizing late s input with
  | zero =>
    obtain rfl := length_eq_zero_iff.mp (Nat.le_zero.mp hfuel)
    cases late <;> rfl
  | succ fuel ih =>
    rcases input with _ | ⟨a, input⟩
    · cases late <;> rfl
    rw [length_cons] at hfuel hlate
    obtain ⟨late, rfl⟩ : ∃ n, late = n + 1 := Nat.exists_eq_succ_of_ne_zero (by omega)
    rw [rounds, rounds]
    rcases hstep : step s (a :: input) with e | ⟨s', rest⟩
    · rfl
    obtain ⟨hs', hlt⟩ := h.keeps hs (cons_ne_nil a input) hstep
    rw [length_cons] at hlt
    exact ih hs' (by omega) (by omega)

theorem feed_step {s' : σ} {rest : List α} (hs : good s) (hinp : input ≠ [])
    (hstep : step s input = .ok (s', rest)) : feed step s input = feed step s' rest := by
  obtain ⟨hs', hlt⟩ := h.keeps hs hinp hstep
  obtain ⟨a, input, rfl⟩ := exists_cons_of_ne_nil hinp
  rw [length_cons] at hlt
  rw [feed, feed, length_cons, rounds, hstep]
  exact h.rounds_eq hs' (by omega) (Nat.le_refl _)

theorem feed_keeps {s' : σ} (hs : good s) (hfeed : feed step s input = .ok s') : good s' :=
  rounds_invariant (fun hgood hinp hstep => (h.keeps hgood hinp hstep).1) hs hfeed

theorem feed_append {more : List α} (hs : good s) (hlim : (input ++ more).length ≤ limit) :
    feed step s (input ++ more) = (feed step s input).bind fun s => feed step s more := by
  generalize hn : input.length = n
  induction n using Nat.strongRecOn generalizing s input with
  | _ n ih =>
    by_cases hinp : input = []
    · subst hinp
      rfl
    have hwhole : input ++ more ≠ [] := fun hnil => hinp (append_eq_nil_iff.mp hnil).1
    rcases hstep : step s input with e | result
    · rw [feed_error hwhole ((h.steady hs).error more hinp hlim hstep), feed_error hinp hstep]
      rfl
    obtain ⟨s', rest⟩ := result
    obtain ⟨hs', hlt⟩ := h.keeps hs hinp hstep
    rw [h.feed_step hs hinp hstep]
    by_cases hrest : rest = []
    · subst hrest
      show feed step s (input ++ more) = feed step s' more
      by_cases hmore : more = []
      · subst hmore
        rw [append_nil, h.feed_step hs hinp hstep]
      rcases (h.steady hs).whole hinp hmore hlim hstep with hsame | hnext
      · cases hstep' : step s' more with
        | error e =>
          rw [hstep'] at hsame
          rw [feed_error hwhole hsame, feed_error hmore hstep']
        | ok result =>
          rw [hstep'] at hsame
          rw [h.feed_step hs hwhole hsame, h.feed_step hs' hmore hstep']
      · rw [h.feed_step hs hwhole hnext]
    · rw [h.feed_step hs hwhole ((h.steady hs).part more hinp hstep hrest)]
      refine ih rest.length (by omega) hs' ?_ rfl
      rw [length_append] at hlim ⊢
      omega

theorem feed_eq_singletons (hs : good s) (hlim : input.length ≤ limit) :
    feed step s input = feedAll step s (input.map fun a => [a]) := by
  induction input generalizing s with
  | nil => rfl
  | cons a input ih =>
    rw [← singleton_append, h.feed_append hs (by rwa [singleton_append]),
      singleton_append, map_cons, feedAll]
    cases hfeed : feed step s [a] with
    | error e => rfl
    | ok s' =>
      rw [length_cons] at hlim
      exact ih (h.feed_keeps hs hfeed) (by omega)

theorem feedAll_eq_singletons (hs : good s) (hpcs : ∀ piece ∈ pieces, piece.length ≤ limit) :
    feedAll step s pieces = feedAll step s (pieces.flatten.map fun a => [a]) := by
  induction pieces generalizing s with
  | nil => rfl
  | cons piece pieces ih =>
    have hpiece := hpcs piece mem_cons_self
    rw [flatten_cons, map_append, feedAll_append, ← h.feed_eq_singletons hs hpiece, feedAll]
    cases hfeed : feed step s piece with
    | error e => rfl
    | ok s' => exact ih (h.feed_keeps hs hfeed) fun p hp => hpcs p (mem_cons_of_mem _ hp)

theorem feedAll_cuts {pieces' : List (List α)} (hs : good s)
    (hpcs : ∀ piece ∈ pieces, piece.length ≤ limit)
    (hpcs' : ∀ piece ∈ pieces', piece.length ≤ limit) (hsame : pieces.flatten = pieces'.flatten) :
    feedAll step s pieces = feedAll step s pieces' := by
  rw [h.feedAll_eq_singletons hs hpcs, h.feedAll_eq_singletons hs hpcs', hsame]

end Steady

end Panackelty.Library
