import Mathlib.Data.List.Basic
import Mathlib.Logic.Relation

/-!
# Stack heights of structured code

Code for a stack machine with jumps to absolute positions.  A fragment of code is well-formed if one
height can be given to each of its positions, so that every instruction finds what it takes and
leaves every successor at its own height.  Fragments whose jumps leave them are well-formed relative
to the heights of their exits; put together, the exits become positions of the whole.

* `StackMachine`: what an instruction takes, and where it goes with what it leaves.
* `WellStacked`: well-formed fragments; `WellStacked.single`, `WellStacked.seq`,
  `WellStacked.around`.
* `WellStacked.run`: on every path through a fragment the height depends on the position only.
-/

namespace Panackelty.Library

open List

/-- What the instructions of a stack machine do to the stack. -/
structure StackMachine (ι : Type*) where
  /-- The values that an instruction takes. -/
  pops : ι → ℕ
  /-- The positions that may follow the one at a position, with the values left there. -/
  next : ι → ℕ → List (ℕ × ℕ)
  /-- The instructions of finished code. -/
  finished : ι → Prop

variable {ι : Type*} (m : StackMachine ι)

/-! ## Positions -/

/-- Every member of a list satisfies a predicate at its position. -/
def Along {α : Type*} (P : α → ℕ → Prop) : List α → ℕ → Prop
  | [], _ => True
  | a :: l, p => P a p ∧ Along P l (p + 1)

section Along

variable {α : Type*} {P Q : α → ℕ → Prop}

theorem along_append {a b : List α} : ∀ {p : ℕ},
    Along P (a ++ b) p ↔ Along P a p ∧ Along P b (p + a.length) := by
  induction a with
  | nil => exact fun {p} => ⟨fun h => ⟨trivial, h⟩, fun h => h.2⟩
  | cons i a ih =>
    intro p
    have hp : p + (i :: a).length = p + 1 + a.length := by rw [length_cons]; omega
    rw [cons_append, hp]
    exact ⟨fun h => ⟨⟨h.1, (ih.mp h.2).1⟩, (ih.mp h.2).2⟩, fun h => ⟨h.1.1, ih.mpr ⟨h.1.2, h.2⟩⟩⟩

theorem Along.mono (hPQ : ∀ a p, P a p → Q a p) {l : List α} : ∀ {p : ℕ},
    Along P l p → Along Q l p := by
  induction l with
  | nil => exact fun _ => trivial
  | cons i a ih => exact fun h => ⟨hPQ _ _ h.1, ih h.2⟩

theorem Along.getElem {a : α} {l : List α} : ∀ {p q : ℕ}, Along P l p → l[q]? = some a →
    P a (p + q) := by
  induction l with
  | nil => exact fun _ h => by cases h
  | cons b l ih =>
    intro p q hl hq
    cases q with
    | zero =>
      cases hq
      exact hl.1
    | succ q =>
      have hpq : p + (q + 1) = p + 1 + q := by omega
      rw [hpq]
      exact ih hl.2 hq

end Along

/-! ## Heights -/

/-- An instruction fits the heights of its position and of its successors. -/
def FitsAt (H : ℕ → ℕ) (i : ι) (p : ℕ) : Prop :=
  m.pops i ≤ H p ∧ ∀ s ∈ m.next i p, H s.1 = H p - m.pops i + s.2

/-- An instruction goes to positions that satisfy a predicate. -/
def GoesTo (P : ℕ → Prop) (i : ι) (p : ℕ) : Prop := ∀ s ∈ m.next i p, P s.1

/-- The positions from one on have the heights of a list. -/
def HeightsAt (H : ℕ → ℕ) (hs : List ℕ) (p : ℕ) : Prop := Along (fun h p => H p = h) hs p

variable {m} {H : ℕ → ℕ}

theorem goesTo_mono {P Q : ℕ → Prop} (hPQ : ∀ q, P q → Q q) (i : ι) (p : ℕ) (h : GoesTo m P i p) :
    GoesTo m Q i p := fun s hs => hPQ _ (h s hs)

theorem heightsAt_head {hs : List ℕ} {p h : ℕ} (ha : HeightsAt H hs p) (hh : hs.head? = some h) :
    H p = h := by
  cases hs with
  | nil => cases hh
  | cons x hs =>
    cases hh
    exact ha.1

theorem heightsAt_getD (hs : List ℕ) (p : ℕ) : HeightsAt (fun q => hs.getD (q - p) 0) hs p := by
  have hall : ∀ (rest before : List ℕ), HeightsAt (fun q => (before ++ rest).getD (q - p) 0) rest
      (p + before.length) := by
    intro rest
    induction rest with
    | nil => exact fun _ => trivial
    | cons h rest ih =>
      intro before
      refine ⟨by simp, ?_⟩
      have h' := ih (before ++ [h])
      rw [append_assoc, length_append] at h'
      exact h'
  exact hall hs []

/-! ## Fragments -/

variable (m) in
/-- A fragment at position `p` that is entered at height `h` and left at its end at height `k`; the
exits are the other positions that it goes to, with their heights. -/
structure WellStacked (code : List ι) (p h k : ℕ) (exits : List (ℕ × ℕ)) : Prop where
  finished : ∀ i ∈ code, m.finished i
  inside : Along (GoesTo m fun q => (p ≤ q ∧ q ≤ p + code.length) ∨ ∃ x ∈ exits, x.1 = q) code p
  heights : ∃ hs : List ℕ, hs.length = code.length ∧ (hs ++ [k]).head? = some h ∧
    ∀ H, HeightsAt H (hs ++ [k]) p → (∀ x ∈ exits, H x.1 = x.2) → Along (FitsAt m H) code p

namespace WellStacked

variable {code : List ι} {p h k : ℕ} {exits : List (ℕ × ℕ)}

theorem nil (p h : ℕ) (exits : List (ℕ × ℕ)) : WellStacked m [] p h h exits :=
  ⟨fun i hi => (by cases hi), trivial, [], rfl, rfl, fun _ _ _ => trivial⟩

/-- One instruction: each successor is the next position, or an exit. -/
theorem single {i : ι} (hfin : m.finished i) (hpops : m.pops i ≤ h)
    (hnext : ∀ s ∈ m.next i p, (s.1 = p + 1 ∧ h - m.pops i + s.2 = k) ∨
      (s.1, h - m.pops i + s.2) ∈ exits) : WellStacked m [i] p h k exits := by
  refine ⟨fun j hj => mem_singleton.mp hj ▸ hfin, ⟨fun s hs => ?_, trivial⟩,
    [h], rfl, rfl, fun H hagr hexits => ⟨⟨?_, fun s hs => ?_⟩, trivial⟩⟩
  · rcases hnext s hs with ⟨hs, _⟩ | hs
    · refine .inl ?_
      rw [hs, length_singleton]
      omega
    · exact .inr ⟨_, hs, rfl⟩
  · rw [hagr.1]
    exact hpops
  · rw [hagr.1]
    rcases hnext s hs with ⟨hs, hk⟩ | hs
    · rw [hs, hk]
      exact hagr.2.1
    · exact hexits _ hs

/-- One fragment after another; exits that are the start, the middle or the end are none any more.
-/
theorem seq {a b : List ι} {l : ℕ} {exitsA exitsB : List (ℕ × ℕ)}
    (ha : WellStacked m a p h l exitsA) (hb : WellStacked m b (p + a.length) l k exitsB)
    (hexits : ∀ x ∈ exitsA ++ exitsB, x ∈ exits ∨ x = (p, h) ∨ x = (p + a.length, l) ∨
      x = (p + (a.length + b.length), k)) : WellStacked m (a ++ b) p h k exits := by
  obtain ⟨hsA, hlenA, hheadA, hfitA⟩ := ha.heights
  obtain ⟨hsB, hlenB, hheadB, hfitB⟩ := hb.heights
  have hinside : ∀ x ∈ exitsA ++ exitsB,
      (p ≤ x.1 ∧ x.1 ≤ p + (a ++ b).length) ∨ ∃ y ∈ exits, y.1 = x.1 := by
    intro x hx
    rw [length_append]
    rcases hexits x hx with hmem | rfl | rfl | rfl
    · exact .inr ⟨x, hmem, rfl⟩
    · exact .inl ⟨Nat.le_refl _, Nat.le_add_right _ _⟩
    · exact .inl ⟨Nat.le_add_right _ _, by simp⟩
    · exact .inl ⟨Nat.le_add_right _ _, Nat.le_refl _⟩
  have hhead : (hsA ++ (hsB ++ [k])).head? = some h := by
    cases hsA with
    | nil =>
      rw [nil_append] at hheadA ⊢
      cases hheadA
      exact hheadB
    | cons x hsA => exact hheadA
  refine ⟨fun i hi => ?_, along_append.mpr ⟨ha.inside.mono (goesTo_mono ?_),
    hb.inside.mono (goesTo_mono ?_)⟩,
    hsA ++ hsB, by rw [length_append, length_append, hlenA, hlenB],
    by rw [append_assoc]; exact hhead, fun H hagr hH => ?_⟩
  · rcases mem_append.mp hi with hi | hi
    · exact ha.finished i hi
    · exact hb.finished i hi
  · rintro q (hq | ⟨x, hx, rfl⟩)
    · refine .inl ?_
      rw [length_append]
      omega
    · exact hinside x (mem_append_left _ hx)
  · rintro q (hq | ⟨x, hx, rfl⟩)
    · refine .inl ?_
      rw [length_append]
      omega
    · exact hinside x (mem_append_right _ hx)
  · -- the heights of the start, the middle and the end are those of the parts
    rw [append_assoc] at hagr
    have hstart := heightsAt_head hagr hhead
    obtain ⟨hA, hB⟩ := along_append.mp hagr
    rw [hlenA] at hB
    have hmid := heightsAt_head hB hheadB
    have hend : H (p + (a.length + b.length)) = k := by
      have hk := (along_append.mp hB).2.1
      rw [hlenB, Nat.add_assoc] at hk
      exact hk
    have hall : ∀ x ∈ exitsA ++ exitsB, H x.1 = x.2 := by
      intro x hx
      rcases hexits x hx with hmem | rfl | rfl | rfl
      · exact hH x hmem
      · exact hstart
      · exact hmid
      · exact hend
    refine along_append.mpr ⟨hfitA H (along_append.mpr ⟨hA, ?_⟩) ?_, hfitB H hB ?_⟩
    · rw [hlenA]
      exact ⟨hmid, trivial⟩
    · exact fun x hx => hall x (mem_append_left _ hx)
    · exact fun x hx => hall x (mem_append_right _ hx)

theorem mono {more : List (ℕ × ℕ)} (hw : WellStacked m code p h k exits) (hsub : exits ⊆ more) :
    WellStacked m code p h k more := by
  obtain ⟨hs, hlen, hhead, hfit⟩ := hw.heights
  refine ⟨hw.finished, hw.inside.mono (goesTo_mono ?_), hs, hlen, hhead,
    fun H hagr hH => hfit H hagr fun x hx => hH x (hsub hx)⟩
  rintro q (hq | ⟨x, hx, rfl⟩)
  · exact .inl hq
  · exact .inr ⟨x, hsub hx, rfl⟩

theorem cast {p' k' : ℕ} (hw : WellStacked m code p h k exits) (hp : p = p') (hk : k = k') :
    WellStacked m code p' h k' exits := by
  subst hp hk
  exact hw

theorem append {a b : List ι} {l : ℕ} (ha : WellStacked m a p h l exits)
    (hb : WellStacked m b (p + a.length) l k exits) : WellStacked m (a ++ b) p h k exits :=
  ha.seq hb fun x hx => .inl ((mem_append.mp hx).elim id id)

/-- The second fragment may go back to the start of the first, and the first may skip the second. -/
theorem around {a b : List ι} {l tgt : ℕ} (ha : WellStacked m a p h l ((tgt, k) :: exits))
    (hb : WellStacked m b (p + a.length) l k ((p, h) :: exits))
    (htgt : tgt = p + (a.length + b.length)) : WellStacked m (a ++ b) p h k exits := by
  subst htgt
  refine ha.seq hb fun x hx => ?_
  rcases mem_append.mp hx with hx | hx
  · rcases mem_cons.mp hx with rfl | hx
    · exact .inr (.inr (.inr rfl))
    · exact .inl hx
  · rcases mem_cons.mp hx with rfl | hx
    · exact .inr (.inl rfl)
    · exact .inl hx

theorem skip {a b : List ι} {l tgt : ℕ} (ha : WellStacked m a p h l ((tgt, k) :: exits))
    (hb : WellStacked m b (p + a.length) l k exits)
    (htgt : tgt = p + (a.length + b.length)) : WellStacked m (a ++ b) p h k exits :=
  ha.around (hb.mono (subset_cons_self _ _)) htgt

/-- A fragment whose last instruction is another with the same effect. -/
theorem replace_last {i j : ι} (hw : WellStacked m (code ++ [i]) p h k exits)
    (hfin : m.finished j) (hpops : m.pops j = m.pops i) (hnext : m.next j = m.next i) :
    WellStacked m (code ++ [j]) p h k exits := by
  obtain ⟨hs, hlen, hhead, hfit⟩ := hw.heights
  have hlength : (code ++ [j]).length = (code ++ [i]).length := by simp
  refine ⟨fun c hc => ?_, ?_, hs, by rw [hlen, hlength], hhead, fun H hagr hH => ?_⟩
  · rcases mem_append.mp hc with hc | hc
    · exact hw.finished c (mem_append_left _ hc)
    · rw [mem_singleton.mp hc]
      exact hfin
  · rw [hlength, along_append]
    obtain ⟨hcode, hlast, _⟩ := along_append.mp hw.inside
    exact ⟨hcode, by rw [GoesTo, hnext]; exact hlast, trivial⟩
  obtain ⟨hcode, hlast, _⟩ := along_append.mp (hfit H hagr hH)
  refine along_append.mpr ⟨hcode, ?_, trivial⟩
  unfold FitsAt
  rw [hpops, hnext]
  exact hlast

end WellStacked

/-! ## Runs -/

variable (m) in
/-- A step of code at position `p`, between pairs of a position and a height. -/
inductive StackStep (code : List ι) (p : ℕ) : ℕ × ℕ → ℕ × ℕ → Prop
  | step {q h : ℕ} {i : ι} {s : ℕ × ℕ} : code[q]? = some i → m.pops i ≤ h → s ∈ m.next i (p + q) →
      StackStep code p (p + q, h) (s.1, h - m.pops i + s.2)

/-- On every path through a fragment without exits the height depends on the position only, and no
instruction takes more than there is. -/
theorem WellStacked.run {code : List ι} {p h k : ℕ} (hw : WellStacked m code p h k []) :
    ∃ H : ℕ → ℕ, H (p + code.length) = k ∧ ∀ q x,
      Relation.ReflTransGen (StackStep m code p) (p, h) (q, x) →
      (p ≤ q ∧ q ≤ p + code.length) ∧ x = H q ∧ ∀ i, code[q - p]? = some i → m.pops i ≤ x := by
  obtain ⟨hs, hlen, hhead, hfit⟩ := hw.heights
  let H : ℕ → ℕ := fun q => (hs ++ [k]).getD (q - p) 0
  have hagr : HeightsAt H (hs ++ [k]) p := heightsAt_getD _ p
  have hfits := hfit H hagr fun x hx => by cases hx
  have hend : H (p + code.length) = k := by
    rw [← hlen]
    exact (along_append.mp hagr).2.1
  refine ⟨H, hend, fun q x hpath => ?_⟩
  have hinv : (p ≤ q ∧ q ≤ p + code.length) ∧ x = H q := by
    generalize hstart : (p, h) = start at hpath
    generalize hstop : (q, x) = stop at hpath
    induction hpath generalizing q x with
    | refl =>
      cases hstart.trans hstop.symm
      exact ⟨⟨Nat.le_refl _, Nat.le_add_right _ _⟩, (heightsAt_head hagr hhead).symm⟩
    | tail _ hstep ih =>
      cases hstep with
      | @step q' h' i s hi hpops hs =>
        cases hstop
        obtain ⟨_, hh⟩ := ih (p + q') h' rfl
        have hfit := hfits.getElem hi
        constructor
        · rcases hw.inside.getElem hi s hs with hin | ⟨x, hx, _⟩
          · exact hin
          · cases hx
        · rw [hfit.2 s hs, hh]
  refine ⟨hinv.1, hinv.2, fun i hi => ?_⟩
  have hfit := hfits.getElem hi
  rw [Nat.add_sub_cancel' hinv.1.1] at hfit
  rw [hinv.2]
  exact hfit.1

end Panackelty.Library
