import Mathlib.Data.List.Basic
import Mathlib.Logic.Basic
import Mathlib.Tactic.Common

/-!
# Codecs of self-delimiting formats

A format is given by a parser that returns a value and the rest of the input, a printer, and the
values that the format can hold.  A `Codec` packs the three with the two laws that make them inverse
to each other, and the combinators build larger codecs from smaller ones with the laws carried
along.

* `Parser`, `Parser.bind`, `Parser.many`: parsers and how they are put together.
* `Codec`: parsing undoes printing on the values that fit, and a parsed input is the print of its
  value.
* `Codec.pair`, `Codec.pmap`, `Codec.many`, `Codec.tagged`: sequences that depend on what was read,
  partial bijections, counted repetition, and choice by a leading tag.
-/

namespace Panackelty.Library

open List

universe u v w x

variable {σ : Type u} {α : Type v} {β : Type w}

/-- A parser returns a value and the input after it. -/
abbrev Parser (σ : Type u) (α : Type v) := List σ → Option (α × List σ)

namespace Parser

/-- The parser that reads nothing. -/
def pure (a : α) : Parser σ α := fun s => some (a, s)

/-- Sequence. -/
def bind (p : Parser σ α) (q : α → Parser σ β) : Parser σ β := fun s =>
  match p s with
  | none => none
  | some (a, rest) => q a rest

/-- A fixed number of items. -/
def many (p : Parser σ α) : ℕ → Parser σ (List α)
  | 0 => pure []
  | n + 1 => bind p fun a => bind (many p n) fun as => pure (a :: as)

/-- Apply a partial function to the result. -/
def pmap (p : Parser σ α) (f : α → Option β) : Parser σ β := fun s =>
  match p s with
  | none => none
  | some (a, rest) => (f a).map fun b => (b, rest)

variable {p : Parser σ α} {q : α → Parser σ β}

theorem bind_some {s rest : List σ} {a : α} (h : p s = some (a, rest)) : bind p q s = q a rest := by
  rw [bind, h]

theorem bind_none {s : List σ} (h : p s = none) : bind p q s = none := by
  rw [bind, h]

theorem bind_eq_some {s rest : List σ} {b : β} :
    bind p q s = some (b, rest) ↔ ∃ a mid, p s = some (a, mid) ∧ q a mid = some (b, rest) := by
  rcases h : p s with _ | ⟨a, mid⟩
  · simp [bind, h]
  rw [bind_some h]
  constructor
  · intro hq
    exact ⟨a, mid, rfl, hq⟩
  · rintro ⟨a', mid', heq, hq⟩
    cases heq
    exact hq

theorem pmap_eq_some {f : α → Option β} {s rest : List σ} {b : β} :
    pmap p f s = some (b, rest) ↔ ∃ a, p s = some (a, rest) ∧ f a = some b := by
  rcases h : p s with _ | out
  · simp [pmap, h]
  simp only [pmap, h, Option.map_eq_some_iff, Prod.mk.injEq, Option.some.injEq]
  constructor
  · rintro ⟨b', hb, rfl, rfl⟩
    exact ⟨out.1, rfl, hb⟩
  · rintro ⟨a, rfl, hb⟩
    exact ⟨b, hb, rfl, rfl⟩

theorem pmap_some (p : Parser σ α) : pmap p some = p := by
  funext s
  cases h : p s <;> simp [pmap, h]

/-- A value that may be missing, without reading. -/
def ofOption : Option β → Parser σ β
  | some b => pure b
  | none => fun _ => none

theorem pmap_eq_bind (p : Parser σ α) (f : α → Option β) :
    pmap p f = bind p fun a => ofOption (f a) := by
  funext s
  cases h : p s with
  | none => simp [pmap, bind, h]
  | some out =>
    obtain ⟨a, rest⟩ := out
    cases hf : f a <;> simp [pmap, bind, h, hf, ofOption, pure]

theorem bind_eq_fail (h : ∀ a, q a = fun _ => none) : bind p q = fun _ => none := by
  funext s
  cases hp : p s <;> simp [bind, hp, h]

theorem pure_bind (a : α) (q : α → Parser σ β) : bind (pure a) q = q a := rfl

theorem bind_assoc {γ : Type x} (p : Parser σ α) (q : α → Parser σ β) (r : β → Parser σ γ) :
    bind (bind p q) r = bind p fun a => bind (q a) r := by
  funext s
  cases h : p s <;> simp [bind, h]

theorem pmap_pmap {γ : Type x} (p : Parser σ α) (f : α → Option β) (g : β → Option γ) :
    pmap (pmap p f) g = pmap p fun a => (f a).bind g := by
  funext s
  cases h : p s with
  | none => simp [pmap, h]
  | some out => cases hf : f out.1 <;> simp [pmap, h, hf]

theorem many_length {n : ℕ} {s rest : List σ} {as : List α}
    (h : many p n s = some (as, rest)) : as.length = n := by
  induction n generalizing s as rest with
  | zero =>
    cases h
    rfl
  | succ n ih =>
    obtain ⟨a, mid, _, h⟩ := bind_eq_some.mp h
    obtain ⟨as', mid', has, h⟩ := bind_eq_some.mp h
    cases h
    rw [length_cons, ih has]

end Parser

/-- A format: how its values are read and written, and which values it can hold. -/
structure Codec (σ : Type u) (α : Type v) where
  parse : Parser σ α
  print : α → List σ
  Ok : α → Prop
  parse_print : ∀ {a} rest, Ok a → parse (print a ++ rest) = some (a, rest)
  print_parse : ∀ {s a rest}, parse s = some (a, rest) → s = print a ++ rest ∧ Ok a

namespace Codec

/-- The format that holds nothing. -/
def fail : Codec σ α where
  parse _ := none
  print _ := []
  Ok _ := False
  parse_print _ h := h.elim
  print_parse h := by cases h

/-- The format of one value, written with no symbol. -/
def unit [DecidableEq α] (a : α) : Codec σ α where
  parse := Parser.pure a
  print _ := []
  Ok b := b = a
  parse_print rest h := by rw [h]; rfl
  print_parse h := by cases h; exact ⟨rfl, rfl⟩

/-- One symbol. -/
def symbol : Codec σ σ where
  parse
    | [] => none
    | x :: rest => some (x, rest)
  print x := [x]
  Ok _ := True
  parse_print _ _ := rfl
  print_parse {s a rest} h := by
    cases s with
    | nil => cases h
    | cons x s =>
      cases h
      exact ⟨rfl, trivial⟩

/-- A block of a given length. -/
def block (n : ℕ) : Codec σ (List σ) where
  parse s := if n ≤ s.length then some (s.take n, s.drop n) else none
  print b := b
  Ok b := b.length = n
  parse_print {b} rest h := by
    subst h
    simp
  print_parse {s a rest} h := by
    split_ifs at h with hle
    cases h
    exact ⟨(take_append_drop n s).symm, length_take_of_le hle⟩

/-- A format followed by one that depends on what was read. -/
def pair (c : Codec σ α) (d : α → Codec σ β) : Codec σ (α × β) where
  parse := Parser.bind c.parse fun a => Parser.bind (d a).parse fun b => Parser.pure (a, b)
  print x := c.print x.1 ++ (d x.1).print x.2
  Ok x := c.Ok x.1 ∧ (d x.1).Ok x.2
  parse_print {x} rest h := by
    rw [append_assoc, Parser.bind_some (c.parse_print _ h.1),
      Parser.bind_some ((d x.1).parse_print _ h.2)]
    rfl
  print_parse {s x rest} h := by
    obtain ⟨a, mid, ha, h⟩ := Parser.bind_eq_some.mp h
    obtain ⟨b, mid', hb, h⟩ := Parser.bind_eq_some.mp h
    cases h
    obtain ⟨hs, hoka⟩ := c.print_parse ha
    obtain ⟨hmid, hokb⟩ := (d a).print_parse hb
    exact ⟨by rw [hs, hmid, append_assoc], hoka, hokb⟩

theorem pmap_pair {γ : Type x} (c : Codec σ α) (d : α → Codec σ β) (f : α × β → Option γ) :
    Parser.pmap (c.pair d).parse f =
      Parser.bind c.parse fun a => Parser.pmap (d a).parse fun b => f (a, b) := by
  funext s
  cases hc : c.parse s with
  | none => simp [Parser.pmap, pair, Parser.bind, hc]
  | some out =>
    cases hd : (d out.1).parse out.2 <;> simp [Parser.pmap, pair, Parser.bind, Parser.pure, hc, hd]

/-- Nothing is parsed where the continuation fails for every value of the format. -/
theorem bind_eq_fail (c : Codec σ α) {q : α → Parser σ β} (h : ∀ a, c.Ok a → q a = fun _ => none) :
    Parser.bind c.parse q = fun _ => none := by
  funext s
  cases hp : c.parse s with
  | none => rw [Parser.bind_none hp]
  | some out =>
    obtain ⟨a, rest⟩ := out
    rw [Parser.bind_some hp, h a (c.print_parse hp).2]

theorem pmap_congr (c : Codec σ α) {f g : α → Option β} (h : ∀ a, c.Ok a → f a = g a) :
    Parser.pmap c.parse f = Parser.pmap c.parse g := by
  funext s
  cases hp : c.parse s with
  | none => simp [Parser.pmap, hp]
  | some out =>
    obtain ⟨a, rest⟩ := out
    simp [Parser.pmap, hp, h a (c.print_parse hp).2]

/-- A partial function on the values, with a left inverse where it is defined. -/
def pmap (c : Codec σ α) (f : α → Option β) (g : β → α)
    (h : ∀ {a b}, c.Ok a → f a = some b → g b = a) : Codec σ β where
  parse := Parser.pmap c.parse f
  print b := c.print (g b)
  Ok b := c.Ok (g b) ∧ f (g b) = some b
  parse_print {b} rest hb := by
    rw [Parser.pmap, c.parse_print rest hb.1]
    simp [hb.2]
  print_parse {s b rest} hs := by
    rw [Parser.pmap] at hs
    rcases hp : c.parse s with _ | ⟨a, mid⟩
    · simp [hp] at hs
    simp only [hp, Option.map_eq_some_iff, Prod.mk.injEq] at hs
    obtain ⟨b', hf, rfl, rfl⟩ := hs
    obtain ⟨hsplit, hok⟩ := c.print_parse hp
    have hg := h hok hf
    rw [hg]
    exact ⟨hsplit, hok, hf⟩

/-- A fixed number of items. -/
def many (c : Codec σ α) (n : ℕ) : Codec σ (List α) where
  parse := Parser.many c.parse n
  print as := as.flatMap c.print
  Ok as := as.length = n ∧ ∀ a ∈ as, c.Ok a
  parse_print {as} rest h := by
    obtain ⟨rfl, hok⟩ := h
    induction as with
    | nil => rfl
    | cons a as ih =>
      rw [length_cons, Parser.many, flatMap_cons, append_assoc,
        Parser.bind_some (c.parse_print _ (hok a mem_cons_self)),
        Parser.bind_some (ih fun x hx => hok x (mem_cons_of_mem _ hx))]
      rfl
  print_parse {s as rest} h := by
    induction n generalizing s as rest with
    | zero =>
      cases h
      simp
    | succ n ih =>
      obtain ⟨a, mid, ha, h⟩ := Parser.bind_eq_some.mp h
      obtain ⟨as', mid', has, h⟩ := Parser.bind_eq_some.mp h
      cases h
      obtain ⟨hs, hoka⟩ := c.print_parse ha
      obtain ⟨hmid, hlen, hok⟩ := ih has
      refine ⟨by rw [hs, hmid, flatMap_cons, append_assoc], by simp [hlen], ?_⟩
      intro x hx
      rcases mem_cons.mp hx with rfl | hx
      · exact hoka
      · exact hok x hx

/-- A bijection onto the values of one form. -/
def build (c : Codec σ α) (mk : α → β) (get : β → α) (h : ∀ a, get (mk a) = a) : Codec σ β :=
  c.pmap (fun a => some (mk a)) get fun {a b} _ hb => by
    cases hb
    exact h a

theorem build_ok_iff {c : Codec σ α} {mk : α → β} {get : β → α} {h : ∀ a, get (mk a) = a} {b : β} :
    (c.build mk get h).Ok b ↔ c.Ok (get b) ∧ mk (get b) = b := by
  simp [build, pmap]

/-- A count and that many items. -/
def list (count : Codec σ ℕ) (c : Codec σ α) : Codec σ (List α) :=
  (count.pair fun n => c.many n).pmap (fun x => some x.2) (fun as => (as.length, as))
    fun {a b} hok hb => by
      have hlen : a.2.length = a.1 := hok.2.1
      cases hb
      rw [hlen]

theorem list_ok_iff {count : Codec σ ℕ} {c : Codec σ α} {as : List α} :
    (count.list c).Ok as ↔ count.Ok as.length ∧ ∀ a ∈ as, c.Ok a := by
  simp [list, pmap, pair, many]

theorem pmap_list {γ : Type x} (count : Codec σ ℕ) (c : Codec σ α) (f : List α → Option γ) :
    Parser.pmap (count.list c).parse f =
      Parser.bind count.parse fun n => Parser.pmap (c.many n).parse f :=
  (Parser.pmap_pmap _ _ _).trans (pmap_pair count (fun n => c.many n) fun x => f x.2)

theorem list_parse (count : Codec σ ℕ) (c : Codec σ α) :
    (count.list c).parse = Parser.bind count.parse fun n => (c.many n).parse := by
  refine (pmap_pair count (fun n => c.many n) fun x => some x.2).trans ?_
  refine congrArg (Parser.bind count.parse) (funext fun n => funext fun s => ?_)
  cases h : (c.many n).parse s <;> simp [Parser.pmap, h]

theorem list_print (count : Codec σ ℕ) (c : Codec σ α) (as : List α) :
    (count.list c).print as = count.print as.length ++ as.flatMap c.print := rfl

/-- A leading tag that selects the format of the rest. -/
def tagged {τ : Type w} (tag : Codec σ τ) (tagOf : α → τ) (body : τ → Codec σ α)
    (h : ∀ {t a}, (body t).Ok a → tagOf a = t) : Codec σ α where
  parse := Parser.bind tag.parse fun t => (body t).parse
  print a := tag.print (tagOf a) ++ (body (tagOf a)).print a
  Ok a := tag.Ok (tagOf a) ∧ (body (tagOf a)).Ok a
  parse_print {a} rest hok := by
    rw [append_assoc, Parser.bind_some (tag.parse_print _ hok.1)]
    exact (body (tagOf a)).parse_print rest hok.2
  print_parse {s a rest} hs := by
    obtain ⟨t, mid, ht, hb⟩ := Parser.bind_eq_some.mp hs
    obtain ⟨hsplit, hokt⟩ := tag.print_parse ht
    obtain ⟨hmid, hokb⟩ := (body t).print_parse hb
    have htag := h hokb
    subst htag
    exact ⟨by rw [hsplit, hmid, append_assoc], hokt, hokb⟩

end Codec

end Panackelty.Library
