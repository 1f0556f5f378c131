import Panackelty.Library.Keyed
import Panackelty.Vm.BuiltinsText
import Panackelty.Vm.Decimals

/-!
# Maps and sets

`value_equal` is an equivalence relation on all values; the classes are the keys of maps and the
elements of sets.

* `IsMapOf`, `IsSetOf`: what the builtins say of a collection, from the operations that built it.
* `valueEqual_mapOf`, `valueEqual_setOf`: equality of collections compares the order of the keys.
-/

namespace Panackelty.Vm

open Library.Keyed List Value

/-! ## Equality of values -/

namespace Value

/-- The number that `value_equal` compares. -/
def number : Value → ℚ
  | nat n => n.big.toInt
  | int n | duration n | instant n => n.toInt
  | rat r => r.denote
  | dec d => d.denote
  | bool b => if b then 1 else 0
  | range a _ _ | iter a | httpState a | httpWriter a | httpConnection a => a
  | _ => 0

/-- The text that `value_equal` compares. -/
def text : Value → Bytes
  | path t | str t | bytes t | record t _ _ | variant t _ => t
  | _ => []

/-- The values in a value. -/
def parts : Value → List Value
  | array l | set l | map l | record _ _ l | variant _ l => l
  | _ => []

theorem sizeOf_parts {a x : Value} (h : x ∈ a.parts) : sizeOf x < sizeOf a := by
  have hlt := sizeOf_lt_of_mem h
  cases a <;> simp [parts] at h hlt ⊢ <;> omega

end Value

theorem kind_eq_of_valueEqual {a b : Value} (h : valueEqual a b) : a.kind = b.kind := by
  revert h
  fun_cases valueEqual a b <;> simp [kind]

theorem valueEqual_iff {a b : Value} : valueEqual a b = true ↔ a.kind = b.kind ∧
    a.number = b.number ∧ a.text = b.text ∧ valuesEqual a.parts b.parts = true := by
  by_cases hk : a.kind = b.kind
  · cases a <;> cases b <;> simp only [kind, reduceCtorEq] at hk
    case rat.rat r s =>
      rw [Ratio.valueEqual_iff, ← Ratio.denote_inj]
      simp [kind, number, text, parts, valuesEqual]
    case dec.dec d e =>
      rw [Decimal.valueEqual_iff]
      simp [kind, number, text, parts, valuesEqual]
    case bool.bool a b =>
      cases a <;> cases b <;> simp [valueEqual, kind, number, text, parts, valuesEqual]
    all_goals simp [valueEqual, kind, number, text, parts, valuesEqual, Big.compare_eq_zero_iff]
  · exact iff_of_false (fun h => hk (kind_eq_of_valueEqual h)) fun h => hk h.1

theorem valuesEqual_iff : ∀ {as bs : List Value},
    valuesEqual as bs = true ↔ List.Forall₂ (fun a b => valueEqual a b = true) as bs
  | [], [] | [], _ :: _ | _ :: _, [] => by simp [valuesEqual]
  | a :: as, b :: bs => by simp [valuesEqual, @valuesEqual_iff as bs]

theorem valueEqual_refl (a : Value) : valueEqual a a = true :=
  valueEqual_iff.mpr ⟨rfl, rfl, rfl, valuesEqual_iff.mpr
    (forall₂_same.mpr fun x _ => valueEqual_refl x)⟩
termination_by sizeOf a
decreasing_by exact sizeOf_parts ‹_›

theorem valueEqual_of_valueEqual {a b c : Value} (ha : valueEqual a c)
    (hb : valueEqual b c) : valueEqual a b = true := by
  rw [valueEqual_iff, valuesEqual_iff] at ha hb ⊢
  refine ⟨ha.1.trans hb.1.symm, ha.2.1.trans hb.2.1.symm, ha.2.2.1.trans hb.2.2.1.symm, ?_⟩
  refine forall₂_iff_get.mpr ⟨ha.2.2.2.length_eq.trans hb.2.2.2.length_eq.symm, ?_⟩
  intro i hi hi'
  have hc : i < c.parts.length := ha.2.2.2.length_eq ▸ hi
  have hx := ha.2.2.2.get hi hc
  exact valueEqual_of_valueEqual hx (hb.2.2.2.get hi' hc)
termination_by sizeOf a
decreasing_by exact sizeOf_parts (get_mem _ _)

instance valueSetoid : Setoid Value where
  r a b := valueEqual a b = true
  iseqv := ⟨valueEqual_refl, fun h => valueEqual_of_valueEqual (valueEqual_refl _) h,
    fun h h' => valueEqual_of_valueEqual h (valueEqual_of_valueEqual (valueEqual_refl _) h')⟩

instance (a b : Value) : Decidable (a ≈ b) :=
  inferInstanceAs (Decidable (valueEqual a b = true))

/-- A value up to `value_equal`. -/
def Value.key (a : Value) : Quotient valueSetoid := Quotient.mk _ a

theorem Value.key_eq_iff {a b : Value} : a.key = b.key ↔ valueEqual a b = true := Quotient.eq

theorem Value.decide_key_eq (a b : Value) [Decidable (a.key = b.key)] :
    decide (a.key = b.key) = valueEqual a b := by
  rw [Bool.eq_iff_iff, decide_eq_true_iff, key_eq_iff]

/-! ## Runs -/

section Runs

variable {O : Type*} {step : Value → O → Except Trap Value} {f : List O → Value}
  (hstep : ∀ l op, step (f l) op = .ok (f (l ++ [op])))

/-- The versions of a collection: every operation takes the version before it. -/
def versions {O : Type*} (step : Value → O → Except Trap Value) (v : Value) :
    List O → Except Trap (List Value)
  | [] => .ok [v]
  | op :: ops => do
    let next ← step v op
    let later ← versions step next ops
    return v :: later

include hstep

theorem versions_eq : ∀ before ops : List O,
    versions step (f before) ops = .ok (ops.inits.map fun l => f (before ++ l))
  | before, [] => by simp [versions]
  | before, op :: ops => by
    rw [versions, hstep]
    change (do let later ← versions step (f (before ++ [op])) ops; return f before :: later) = _
    rw [versions_eq (before ++ [op]) ops, inits_cons]
    simp [pure, Except.pure, bind, Except.bind, Function.comp_def]

theorem foldlM_eq : ∀ before ops : List O, ops.foldlM step (f before) = .ok (f (before ++ ops))
  | before, [] => by rw [append_nil]; rfl
  | before, op :: ops => by
    rw [foldlM_cons, hstep]
    change ops.foldlM step (f (before ++ [op])) = _
    rw [foldlM_eq (before ++ [op]) ops, append_assoc, singleton_append]

end Runs

/-! ## Maps -/

/-- A put on a map. -/
def putStep (m : Value) (op : Value × Value) : Except Trap Value := mapPut m op.1 op.2

/-- The value of the last put of an equal key. -/
def lastPut (ops : List (Value × Value)) (k : Value) : Option Value :=
  (ops.reverse.find? fun op => valueEqual op.1 k).map Prod.snd

/-- Keys and values, one after the other. -/
def flatPairs (pairs : List (Value × Value)) : List Value := pairs.flatMap fun p => [p.1, p.2]

/-- The finite map that a sequence of puts denotes, as the builtins show it. -/
structure IsMapOf (ops : List (Value × Value)) (m : Value) : Prop where
  has : ∀ k, mapHas m k = .ok (.bool (lastPut ops k).isSome) ∧ methodHas m k = mapHas m k
  get : ∀ k, mapGet m k =
    (lastPut ops k).elim (.error (request "VM trap: map key was not found")) .ok
  distinct : ∃ pairs, m = .map (flatPairs pairs) ∧
    pairs.Pairwise fun p q => valueEqual p.1 q.1 = false
  len : len m = .ok (valueSize (ops.map fun op => op.1.key).toFinset.card)

/-- The key of an entry. -/
def entryKey (op : Value × Value) : Quotient valueSetoid := op.1.key

/-- The map that a sequence of puts leaves. -/
def mapOf (ops : List (Value × Value)) : Value := .map (flatPairs (puts entryKey ops))

theorem lastPut_eq (ops : List (Value × Value)) (k : Value) :
    lastPut ops k = (last? entryKey ops k.key).map Prod.snd := by
  have h : (fun op : Value × Value => valueEqual op.1 k) = fun op => decide (entryKey op = k.key) :=
    funext fun op => (decide_key_eq op.1 k).symm
  rw [lastPut, h]
  rfl

theorem mapFind_flatPairs (k : Value) : ∀ pairs : List (Value × Value),
    mapFind k (flatPairs pairs) = lastPut pairs k
  | [] => rfl
  | p :: pairs => by
    change mapFind k (p.1 :: p.2 :: flatPairs pairs) = _
    rw [mapFind, mapFind_flatPairs k pairs, lastPut, lastPut, reverse_cons, find?_append]
    rcases pairs.reverse.find? _ with _ | q
    · by_cases h : valueEqual p.1 k = true <;> simp [h]
    · rfl

theorem mapWithout_flatPairs (k : Value) : ∀ pairs : List (Value × Value),
    mapWithout k (flatPairs pairs) = flatPairs (pairs.filter fun p => entryKey p ≠ k.key)
  | [] => rfl
  | p :: pairs => by
    change mapWithout k (p.1 :: p.2 :: flatPairs pairs) = _
    rw [mapWithout, mapWithout_flatPairs k pairs]
    by_cases h : valueEqual p.1 k = true <;> simp [h, entryKey, key_eq_iff, flatPairs]

theorem putStep_mapOf (l : List (Value × Value)) (op : Value × Value) :
    putStep (mapOf l) op = .ok (mapOf (l ++ [op])) := by
  rw [mapOf, mapOf, puts_append, put, putStep, mapPut, mapWithout_flatPairs, flatPairs,
    flatPairs, flatMap_append]
  rfl

theorem length_flatPairs (pairs : List (Value × Value)) :
    (flatPairs pairs).length = 2 * pairs.length := by
  simp [flatPairs, length_flatMap, mul_comm]

theorem isMapOf_mapOf (ops : List (Value × Value)) : IsMapOf ops (mapOf ops) := by
  have hfind : ∀ k, mapFind k (flatPairs (puts entryKey ops)) = lastPut ops k := fun k => by
    rw [mapFind_flatPairs, lastPut_eq, lastPut_eq, last?_puts]
  refine ⟨fun k => ⟨?_, rfl⟩, fun k => ?_, ⟨_, rfl, ?_⟩, ?_⟩
  · rw [mapOf, mapHas, hfind]
  · rw [mapOf, mapGet, hfind]
    rcases lastPut ops k with _ | v <;> rfl
  · refine (pairwise_map.mp (nodup_puts entryKey ops)).imp fun {p q} h => ?_
    rwa [entryKey, entryKey, ne_eq, key_eq_iff, Bool.not_eq_true] at h
  · rw [mapOf, len, length_flatPairs, Nat.mul_div_cancel_left _ two_pos, card_toFinset,
      ← length_map entryKey, map_puts]
    rfl

/-! ## Sets -/

/-- The finite set that a sequence of adds denotes, as the builtins show it. -/
structure IsSetOf (ops : List Value) (s : Value) : Prop where
  has : ∀ v, setHas s v = .ok (.bool (ops.any fun a => valueEqual a v)) ∧ methodHas s v = setHas s v
  distinct : ∃ items, s = .set items ∧ items.Pairwise fun a b => valueEqual a b = false
  len : len s = .ok (valueSize (ops.map key).toFinset.card)

/-- The set that a sequence of adds leaves. -/
def setOf (ops : List Value) : Value := .set (adds key ops)

theorem any_valueEqual (items : List Value) (v : Value) :
    (items.any fun a => valueEqual a v) = decide (v.key ∈ items.map key) := by
  rw [Bool.eq_iff_iff, any_eq_true, decide_eq_true_iff, mem_map]
  simp only [key_eq_iff]

theorem setAdd_setOf (l : List Value) (v : Value) :
    setAdd (setOf l) v = .ok (setOf (l ++ [v])) := by
  rw [setOf, setOf, adds_append, add, setAdd, any_valueEqual]
  simp

theorem isSetOf_setOf (ops : List Value) : IsSetOf ops (setOf ops) := by
  refine ⟨fun v => ⟨?_, rfl⟩, ⟨_, rfl, ?_⟩, ?_⟩
  · rw [setOf, setHas, any_valueEqual, any_valueEqual, map_adds]
    simp
  · refine (pairwise_map.mp (nodup_adds key ops)).imp fun {a b} h => ?_
    rwa [ne_eq, key_eq_iff, Bool.not_eq_true] at h
  · rw [setOf, len, ← length_map key, map_adds, length_reverse, ← card_toFinset, toFinset_reverse]

/-- Every version of a map or a set is the finite map or set of the operations up to it. -/
theorem collections_denote (ops : List (Value × Value)) (items : List Value) :
    (∃ maps, versions putStep (.map []) ops = .ok maps ∧ List.Forall₂ IsMapOf ops.inits maps) ∧
    ∃ sets, versions setAdd (.set []) items = .ok sets ∧ List.Forall₂ IsSetOf items.inits sets := by
  refine ⟨⟨_, versions_eq putStep_mapOf [] ops, ?_⟩, ⟨_, versions_eq setAdd_setOf [] items, ?_⟩⟩
  · rw [forall₂_map_right_iff, forall₂_same]
    exact fun l _ => isMapOf_mapOf l
  · rw [forall₂_map_right_iff, forall₂_same]
    exact fun l _ => isSetOf_setOf l

/-! ## Equality of collections -/

/-- The same keys with equal values. -/
def SameEntries (ops ops' : List (Value × Value)) : Prop :=
  ∀ k, Option.Rel (fun v w => valueEqual v w = true) (lastPut ops k) (lastPut ops' k)

/-- The same elements. -/
def SameElements (ops ops' : List Value) : Prop :=
  ∀ v, (∃ a ∈ ops, valueEqual a v = true) ↔ ∃ a ∈ ops', valueEqual a v = true

/-- The keys in the order of their last put. -/
def lastOrder (ops : List (Value × Value)) : List (Quotient valueSetoid) :=
  (ops.map entryKey).dedup

/-- The elements in the order of their first add. -/
def firstOrder (ops : List Value) : List (Quotient valueSetoid) :=
  (ops.map key).reverse.dedup.reverse

/-- Entries with equal keys and values. -/
def PairEqual (p q : Value × Value) : Prop :=
  valueEqual p.1 q.1 = true ∧ valueEqual p.2 q.2 = true

theorem valuesEqual_flatPairs : ∀ {ps qs : List (Value × Value)},
    valuesEqual (flatPairs ps) (flatPairs qs) = true ↔ List.Forall₂ PairEqual ps qs
  | [], [] | [], _ :: _ | _ :: _, [] => by simp [flatPairs, valuesEqual]
  | p :: ps, q :: qs => by
    change valuesEqual (p.1 :: p.2 :: flatPairs ps) (q.1 :: q.2 :: flatPairs qs) = true ↔ _
    simp [valuesEqual, @valuesEqual_flatPairs ps qs, PairEqual, and_assoc]

theorem rel_last?_iff {ops ops' : List (Value × Value)} (k : Value) :
    Option.Rel PairEqual (last? entryKey ops k.key) (last? entryKey ops' k.key) ↔
      Option.Rel (fun v w => valueEqual v w = true) (lastPut ops k) (lastPut ops' k) := by
  rw [lastPut_eq, lastPut_eq]
  rcases hp : last? entryKey ops k.key with _ | p <;>
    rcases hq : last? entryKey ops' k.key with _ | q <;> simp
  have hpk : entryKey p = k.key := by simpa using find?_some hp
  have hqk : entryKey q = k.key := by simpa using find?_some hq
  exact and_iff_right (key_eq_iff.mp (hpk.trans hqk.symm))

theorem valueEqual_mapOf (ops ops' : List (Value × Value)) :
    valueEqual (mapOf ops) (mapOf ops') = true ↔
      lastOrder ops = lastOrder ops' ∧ SameEntries ops ops' := by
  rw [mapOf, mapOf, valueEqual, valuesEqual_flatPairs,
    forall₂_iff entryKey (fun h => key_eq_iff.mpr h.1) (nodup_puts entryKey ops), map_puts,
    map_puts]
  simp only [last?_puts]
  refine and_congr_right fun _ => ⟨fun h k => (rel_last?_iff k).mp (h k.key), fun h => ?_⟩
  exact Quotient.ind fun k => (rel_last?_iff k).mpr (h k)

theorem valueEqual_setOf (ops ops' : List Value) :
    valueEqual (setOf ops) (setOf ops') = true ↔ firstOrder ops = firstOrder ops' := by
  rw [setOf, setOf, valueEqual, valuesEqual_iff, firstOrder, firstOrder, ← map_adds, ← map_adds,
    ← forall₂_eq_eq_eq, forall₂_map_left_iff, forall₂_map_right_iff]
  simp only [key_eq_iff]

theorem sameElements_of_firstOrder {ops ops' : List Value} (h : firstOrder ops = firstOrder ops') :
    SameElements ops ops' := by
  have hmem : ∀ (l : List Value) (v : Value),
      (∃ a ∈ l, valueEqual a v = true) ↔ v.key ∈ firstOrder l := fun l v => by
    simp [firstOrder, key_eq_iff]
  intro v
  rw [hmem, hmem, h]

theorem answers_iff {a b : Value} (h : rationalOperand a = false) (p : Prop) :
    Answers 5 a b p ↔ (valueEqual a b = true ↔ p) := by
  obtain ⟨answer, heq, hiff⟩ := (answers_equal h b).1
  refine ⟨?_, fun hp => ⟨answer, heq, hiff.trans hp⟩⟩
  rintro ⟨answer', heq', hiff'⟩
  cases heq.symm.trans heq'
  exact hiff.symm.trans hiff'

/-- Equality of maps and of sets is equality of what they hold exactly if the order agrees. -/
theorem collection_equality_iff_order (ops ops' : List (Value × Value))
    (items items' : List Value) :
    (∃ m m', ops.foldlM putStep (.map []) = .ok m ∧ ops'.foldlM putStep (.map []) = .ok m' ∧
      (Answers 5 m m' (SameEntries ops ops') ↔
        (SameEntries ops ops' → lastOrder ops = lastOrder ops'))) ∧
    ∃ s s', items.foldlM setAdd (.set []) = .ok s ∧ items'.foldlM setAdd (.set []) = .ok s' ∧
      (Answers 5 s s' (SameElements items items') ↔
        (SameElements items items' → firstOrder items = firstOrder items')) := by
  refine ⟨⟨_, _, foldlM_eq putStep_mapOf [] ops, foldlM_eq putStep_mapOf [] ops', ?_⟩,
    ⟨_, _, foldlM_eq setAdd_setOf [] items, foldlM_eq setAdd_setOf [] items', ?_⟩⟩
  · rw [nil_append, nil_append, answers_iff rfl, valueEqual_mapOf]
    exact ⟨fun h hsame => (h.mpr hsame).1, fun h => ⟨And.right, fun hsame => ⟨h hsame, hsame⟩⟩⟩
  · rw [nil_append, nil_append, answers_iff rfl, valueEqual_setOf]
    exact ⟨Iff.mpr, fun h => ⟨sameElements_of_firstOrder, h⟩⟩

/-- The same two keys put in either order. -/
theorem map_equality_sees_order : SameEntries [(.bool true, .unit), (.bool false, .unit)]
      [(.bool false, .unit), (.bool true, .unit)] ∧
    ∃ m m', [(.bool true, .unit), (.bool false, .unit)].foldlM putStep (.map []) = .ok m ∧
      [(.bool false, .unit), (.bool true, .unit)].foldlM putStep (.map []) = .ok m' ∧
      binaryValueClassified 5 m m' = .ok (.bool false) := by
  refine ⟨fun k => ?_, _, _, rfl, rfl, rfl⟩
  by_cases h : valueEqual (.bool true) k = true <;>
    by_cases h' : valueEqual (.bool false) k = true <;>
    simp [lastPut, h, h', valueEqual_refl]

end Panackelty.Vm
