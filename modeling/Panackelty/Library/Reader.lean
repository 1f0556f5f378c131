import Mathlib.Data.List.Forall2
import Panackelty.Library.Codec

/-!
# Readers that refine a parser

A hand-written reader keeps its place and a failure mark in a state and goes on reading after a
failure, with values that nobody uses.  `Reads` says that such a reader computes what a parser
computes: from a good state it returns the parsed value and stands before the rest of the input, it
fails where the parser fails, and it never repairs a failed state.

* `ReaderState`: which states are good or failed, and the input that is left.
* `Agrees`: a reader's outcome is the outcome of a parser.
* `Reads.bind`, `Reads.map`, `Reads.check`, `Reads.many`: the rules that follow the parser
  combinators.
* `Attempt`: readers that also report failure in their result, and stop there; `Reads.attempt_bind`,
  `Reads.attempt_many` are the rules for them.
-/

namespace Panackelty.Library

open Library.Parser List.Forall₂

universe u v w x

variable {σ : Type u} {S : Type v} {α β γ δ : Type w}

/-- The states of a reader: those that are sound, those that have failed, and the input that is
left. -/
structure ReaderState (σ : Type u) (S : Type v) where
  good : S → Prop
  bad : S → Prop
  rest : S → List σ

/-- The outcome of a reader is the outcome of a parser, with values related by `R`. -/
def Agrees (V : ReaderState σ S) (R : α → β → Prop) (out : S × α) : Option (β × List σ) → Prop
  | none => V.bad out.1
  | some (b, rest) => V.good out.1 ∧ V.rest out.1 = rest ∧ R out.2 b

/-- The reader `read` computes the parser `p`. -/
structure Reads (V : ReaderState σ S) (R : α → β → Prop) (read : S → S × α) (p : Parser σ β) :
    Prop where
  stuck : ∀ s, V.bad s → V.bad (read s).1
  agrees : ∀ s, V.good s → Agrees V R (read s) (p (V.rest s))

namespace Reads

variable {V : ReaderState σ S} {R : α → β → Prop} {Q : γ → δ → Prop}

theorem pure {a : α} {b : β} (h : R a b) : Reads V R (fun s => (s, a)) (pure b) where
  stuck _ hs := hs
  agrees _ hs := ⟨hs, rfl, h⟩

variable {read : S → S × α}

theorem fail (h : ∀ s, V.bad (read s).1) : Reads V R read fun _ => none where
  stuck s _ := h s
  agrees s _ := h s

variable {p : Parser σ β}

/-- The parser fails and so does the reader, or both go on before the same rest. -/
theorem outcome (h : Reads V R read p) {s : S}
    (hs : V.good s) : (p (V.rest s) = none ∧ V.bad (read s).1) ∨
      ∃ b, p (V.rest s) = some (b, V.rest (read s).1) ∧ V.good (read s).1 ∧ R (read s).2 b := by
  have hagree := h.agrees s hs
  cases hp : p (V.rest s) with
  | none =>
    rw [hp] at hagree
    exact .inl ⟨rfl, hagree⟩
  | some out =>
    rw [hp] at hagree
    exact .inr ⟨out.1, congrArg some (Prod.ext rfl hagree.2.1.symm), hagree.1, hagree.2.2⟩

/-- Sequence: the second reader may use a meaningless value after a failure. -/
theorem bind {f : S → S × α} {g : α → S → S × γ} {q : β → Parser σ δ}
    (hf : Reads V R f p) (hg : ∀ a b, R a b → Reads V Q (g a) (q b))
    (hstuck : ∀ a s, V.bad s → V.bad (g a s).1) :
    Reads V Q (fun s => g (f s).2 (f s).1) (bind p q) where
  stuck s hs := hstuck _ _ (hf.stuck s hs)
  agrees s hs := by
    rcases hf.outcome hs with ⟨hp, hbad⟩ | ⟨b, hp, hgood, hR⟩
    · rw [Parser.bind_none hp]
      exact hstuck _ _ hbad
    · rw [Parser.bind_some hp]
      exact (hg _ b hR).agrees _ hgood

theorem bind_eq {f : S → S × α} {g : α → S → S × γ} {p : Parser σ α} {q : α → Parser σ δ}
    (hf : Reads V Eq f p) (hg : ∀ a, Reads V Q (g a) (q a)) :
    Reads V Q (fun s => g (f s).2 (f s).1) (Parser.bind p q) :=
  bind hf (fun a _ h => h ▸ hg a) fun a => (hg a).stuck

theorem with_ok {c : Codec σ α} (h : Reads V Eq read c.parse) :
    Reads V (fun a b => a = b ∧ c.Ok b) read c.parse where
  stuck := h.stuck
  agrees s hs := by
    rcases h.outcome hs with ⟨hp, hbad⟩ | ⟨b, hp, hgood, hR⟩
    · rw [hp]
      exact hbad
    · rw [hp]
      exact ⟨hgood, rfl, hR, (c.print_parse hp).2⟩

theorem congr {p' : Parser σ β} (h : Reads V R read p) (heq : p' = p) : Reads V R read p' :=
  heq ▸ h

theorem check (h : Reads V R read p) {m : α → S → S}
    {f : β → Option δ} {k : α → γ} (hstuck : ∀ a s, V.bad s → V.bad (m a s))
    (hmark : ∀ a b, R a b → f b = none → ∀ s, V.bad (m a s))
    (hk : ∀ a b d, R a b → f b = some d → (∀ s, m a s = s) ∧ Q (k a) d) :
    Reads V Q (fun s => (m (read s).2 (read s).1, k (read s).2)) (pmap p f) where
  stuck s hs := hstuck _ _ (h.stuck s hs)
  agrees s hs := by
    rcases h.outcome hs with ⟨hp, hbad⟩ | ⟨b, hp, hgood, hR⟩
    · rw [Parser.pmap, hp]
      exact hstuck _ _ hbad
    rw [Parser.pmap, hp]
    cases hf : f b with
    | none =>
      simp only [hf, Option.map_none]
      exact hmark _ b hR hf _
    | some d =>
      simp only [hf, Option.map_some]
      obtain ⟨hsame, hQ⟩ := hk _ b d hR hf
      rw [hsame]
      exact ⟨hgood, rfl, hQ⟩

theorem map (h : Reads V R read p) {f : α → γ} {g : β → δ} (hfg : ∀ a b, R a b → Q (f a) (g b)) :
    Reads V Q (fun s => ((read s).1, f (read s).2)) (pmap p fun b => some (g b)) :=
  h.check (m := fun _ s => s) (fun _ _ hs => hs) (fun _ _ _ hnone => by cases hnone)
    fun a b d hR hd => by
      cases hd
      exact ⟨fun _ => rfl, hfg a b hR⟩

/-- A loop that stops at the first failure computes the repeated parser. -/
theorem many {proceed : S → Bool} (hproc : ∀ s, V.good s → proceed s = true) (h : Reads V R read p)
    {loop : ℕ → S → S × List α}
    (hzero : ∀ s, loop 0 s = (s, []))
    (hsucc : ∀ n s, loop (n + 1) s = if proceed s then
      ((loop n (read s).1).1, (read s).2 :: (loop n (read s).1).2) else (s, [])) :
    ∀ n, Reads V (List.Forall₂ R) (loop n) (many p n) := by
  intro n
  induction n with
  | zero =>
    have hloop : loop 0 = fun s => (s, []) := funext hzero
    rw [hloop]
    exact pure nil
  | succ n ih =>
    refine ⟨fun s hs => ?_, fun s hs => ?_⟩
    · rw [hsucc]
      split_ifs
      · exact ih.stuck _ (h.stuck s hs)
      · exact hs
    rw [hsucc, if_pos (hproc s hs)]
    rcases h.outcome hs with ⟨hp, hbad⟩ | ⟨b, hp, hgood, hR⟩
    · rw [Parser.many, bind_none hp]
      exact ih.stuck _ hbad
    rw [Parser.many, bind_some hp]
    rcases ih.outcome hgood with ⟨hps, hbad⟩ | ⟨bs, hps, hgood', hRs⟩
    · rw [Parser.bind_none hps]
      exact hbad
    · rw [Parser.bind_some hps]
      exact ⟨hgood', rfl, cons hR hRs⟩

/-- Repetition of a reader that returns the parsed values themselves. -/
theorem many_eq {proceed : S → Bool} (hproc : ∀ s, V.good s → proceed s = true) {p : Parser σ α}
    (h : Reads V Eq read p) {loop : ℕ → S → S × List α}
    (hzero : ∀ s, loop 0 s = (s, []))
    (hsucc : ∀ n s, loop (n + 1) s = if proceed s then
      ((loop n (read s).1).1, (read s).2 :: (loop n (read s).1).2) else (s, [])) (n : ℕ) :
    Reads V Eq (loop n) (Parser.many p n) := by
  have hmany := many hproc h hzero hsucc n
  rwa [List.forall₂_eq_eq_eq] at hmany

end Reads

/-! ## Readers that report failure -/

/-- A reader that returns a value or nothing, and a state in either case. -/
def Attempt (S : Type v) (α : Type w) : Type (max v w) := S → S × Option α

namespace Attempt

/-- Stop at the first failure. -/
def bind (f : Attempt S α) (g : α → Attempt S β) : Attempt S β := fun s =>
  match f s with
  | (s, some a) => g a s
  | (s, none) => (s, none)

instance : Monad (Attempt S) where
  pure a := fun s => (s, some a)
  bind := bind

/-- Run two readers before either result is looked at. -/
def both (f : Attempt S α) (g : Attempt S β) : Attempt S (α × β) := fun s =>
  let first := f s
  let second := g first.1
  (second.1, first.2.bind fun a => second.2.map fun b => (a, b))

/-- A loop that goes on while the state allows it. -/
def repeatWhile (proceed : S → Bool) (item : Attempt S α) : ℕ → Attempt S (List α)
  | 0 => fun s => (s, some [])
  | n + 1 => fun s =>
    if proceed s then (item >>= fun a => repeatWhile proceed item n >>= fun as => pure (a :: as)) s
    else (s, none)

theorem repeatWhile_succ (proceed : S → Bool) (item : Attempt S α) (n : ℕ) (s : S) :
    repeatWhile proceed item (n + 1) s = if proceed s then
      (item >>= fun a => repeatWhile proceed item n >>= fun as => pure (a :: as)) s
    else (s, none) := rfl

end Attempt

/-- The value is there and related. -/
def Lifted (R : α → β → Prop) (o : Option α) (b : β) : Prop := ∃ a, o = some a ∧ R a b

/-- A reader never repairs a failed state. -/
def Sticky (V : ReaderState σ S) (f : Attempt S α) : Prop := ∀ s, V.bad s → V.bad (f s).1

namespace Sticky

variable {V : ReaderState σ S}

theorem pure (a : α) : Sticky V (Pure.pure a : Attempt S α) := fun _ hs => hs

theorem bind {f : Attempt S α} {g : α → Attempt S β} (hf : Sticky V f) (hg : ∀ a, Sticky V (g a)) :
    Sticky V (f >>= g) := by
  intro s hs
  have hbad := hf s hs
  show V.bad (Attempt.bind f g s).1
  rw [Attempt.bind]
  rcases hfs : f s with ⟨s', _ | a⟩
  · rw [hfs] at hbad
    exact hbad
  · rw [hfs] at hbad
    exact hg a s' hbad

theorem repeatWhile {proceed : S → Bool} {item : Attempt S α} (h : Sticky V item) :
    ∀ n, Sticky V (Attempt.repeatWhile proceed item n)
  | 0 => fun _ hs => hs
  | n + 1 => by
    intro s hs
    rw [Attempt.repeatWhile_succ]
    split_ifs
    · exact bind h (fun a => bind (repeatWhile h n) fun as => pure (a :: as)) s hs
    · exact hs

end Sticky

namespace Reads

variable {V : ReaderState σ S} {R : α → β → Prop} {Q : γ → δ → Prop}

theorem attempt_pure {a : α} {b : β} (h : R a b) :
    Reads V (Lifted R) (Pure.pure a : Attempt S α) (Parser.pure b) where
  stuck _ hs := hs
  agrees _ hs := ⟨hs, rfl, a, rfl, h⟩

theorem attempt_bind {f : Attempt S α} {g : α → Attempt S γ} {p : Parser σ β} {q : β → Parser σ δ}
    (hf : Reads V (Lifted R) f p) (hg : ∀ a b, R a b → Reads V (Lifted Q) (g a) (q b))
    (hsticky : ∀ a, Sticky V (g a)) : Reads V (Lifted Q) (f >>= g) (Parser.bind p q) where
  stuck := Sticky.bind hf.stuck hsticky
  agrees s hs := by
    show Agrees V (Lifted Q) (Attempt.bind f g s) (Parser.bind p q (V.rest s))
    rcases hf.outcome hs with ⟨hp, hbad⟩ | ⟨b, hp, hgood, a, ha, hR⟩
    · rw [Parser.bind_none hp, Attempt.bind]
      rcases hfs : f s with ⟨s', _ | a⟩
      · rw [hfs] at hbad
        exact hbad
      · rw [hfs] at hbad
        exact hsticky a s' hbad
    · rw [Parser.bind_some hp]
      have hstep : Attempt.bind f g s = g a (f s).1 := by
        rw [Attempt.bind, show f s = ((f s).1, some a) from Prod.ext rfl ha]
      rw [hstep]
      exact (hg a b hR).agrees _ hgood

theorem attempt_bind_eq {f : Attempt S α} {g : α → Attempt S γ} {p : Parser σ α}
    {q : α → Parser σ δ} (hf : Reads V (Lifted Eq) f p) (hg : ∀ a, Reads V (Lifted Q) (g a) (q a)) :
    Reads V (Lifted Q) (f >>= g) (Parser.bind p q) :=
  attempt_bind hf (fun a _ h => h ▸ hg a) fun a => (hg a).stuck

theorem attempt_with_ok {f : Attempt S α} {c : Codec σ β} (hf : Reads V (Lifted R) f c.parse) :
    Reads V (Lifted fun a b => R a b ∧ c.Ok b) f c.parse := by
  refine ⟨hf.stuck, fun s hs => ?_⟩
  rcases hf.outcome hs with ⟨hp, hbad⟩ | ⟨b, hp, hgood, a, ha, hR⟩
  · rw [hp]
    exact hbad
  · rw [hp]
    exact ⟨hgood, rfl, a, ha, hR, (c.print_parse hp).2⟩

theorem attempt_map {f : Attempt S α} {k : α → γ} {p : Parser σ β} {l : β → δ}
    (hf : Reads V (Lifted R) f p) (h : ∀ a b, R a b → Q (k a) (l b)) :
    Reads V (Lifted Q) (f >>= fun a => Pure.pure (k a)) (Parser.pmap p fun b => some (l b)) := by
  have hmap : (Parser.pmap p fun b => some (l b)) = Parser.bind p fun b => Parser.pure (l b) := by
    funext s
    cases hp : p s <;> simp [Parser.pmap, Parser.bind, Parser.pure, hp]
  rw [hmap]
  exact attempt_bind hf (fun a b hR => attempt_pure (h a b hR)) fun a => Sticky.pure (k a)

/-- Two readers of which the second runs even after the first has failed. -/
theorem attempt_both {f : Attempt S α} {g : Attempt S γ} {p : Parser σ β} {q : Parser σ δ}
    (hf : Reads V (Lifted R) f p) (hg : Reads V (Lifted Q) g q) :
    Reads V (Lifted fun a b => R a.1 b.1 ∧ Q a.2 b.2) (Attempt.both f g)
      (Parser.bind p fun b => Parser.bind q fun d => Parser.pure (b, d)) where
  stuck s hs := hg.stuck _ (hf.stuck s hs)
  agrees s hs := by
    rcases hf.outcome hs with ⟨hp, hbad⟩ | ⟨b, hp, hgood, a, ha, hR⟩
    · rw [Parser.bind_none hp]
      exact hg.stuck _ hbad
    rw [Parser.bind_some hp]
    rcases hg.outcome hgood with ⟨hq, hbad⟩ | ⟨d, hq, hgood', c, hc, hQ⟩
    · rw [Parser.bind_none hq]
      exact hbad
    · rw [Parser.bind_some hq]
      refine ⟨hgood', rfl, (a, c), ?_, hR, hQ⟩
      simp [Attempt.both, ha, hc]

theorem attempt_many {proceed : S → Bool} (hproc : ∀ s, V.good s → proceed s = true)
    {item : Attempt S α} {p : Parser σ β} (h : Reads V (Lifted R) item p) :
    ∀ n, Reads V (Lifted (List.Forall₂ R)) (Attempt.repeatWhile proceed item n) (Parser.many p n)
  | 0 => attempt_pure nil
  | n + 1 => by
    have hnext : Reads V (Lifted (List.Forall₂ R))
        (item >>= fun a => Attempt.repeatWhile proceed item n >>= fun as => Pure.pure (a :: as))
        (Parser.many p (n + 1)) := by
      refine attempt_bind h (fun a b hR => ?_)
        fun a => Sticky.bind (Sticky.repeatWhile h.stuck n) fun as => Sticky.pure _
      exact attempt_bind (attempt_many hproc h n)
        (fun as bs hRs => attempt_pure (cons hR hRs)) fun as => Sticky.pure _
    refine ⟨Sticky.repeatWhile h.stuck (n + 1), fun s hs => ?_⟩
    rw [Attempt.repeatWhile_succ, if_pos (hproc s hs)]
    exact hnext.agrees s hs

end Reads

end Panackelty.Library
