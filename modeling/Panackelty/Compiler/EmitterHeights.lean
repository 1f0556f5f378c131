import Panackelty.Library.StackCode
import Panackelty.Compiler.Emitter

/-!
# The stack of emitted code

Every expression leaves one value on the stack and every statement none, whatever is below, and all
jumps stay inside the code of the construct that makes them.  The arguments of a construct are
emitters with that property, so each construct is looked at once.

* `instructionPops`, `instructionNext`: what `vm/execute.c` does to the stack of a frame, read off
  the source as `Vm.operate` is.
* `Nets`: an emitter leaves some values; `nets_while`, `nets_match`, …: the constructs.
* `ExprChecked`: checked trees; `nets_expression`, `nets_block`.
* `compileProgram_wellFormed`.
-/

namespace Panackelty.Compiler

open Bytecode Library Nat
open List hiding count

variable {i : Instruction} {exits : List (ℕ × ℕ)} {h p : ℕ}

/-! ## The machine -/

/-- The values that an instruction takes from the stack. -/
def instructionPops : Instruction → ℕ
  | .storeInstruction _ | .popInstruction | .unaryInstruction _ | .iterInitInstruction _
  | .fieldGetInstruction _ | .matchVariantInstruction _ _ | .jumpFalseInstruction _
  | .returnInstruction => 1
  | .binaryInstruction _ | .makeRangeInstruction | .indexGetInstruction => 2
  | .makeArrayInstruction count | .makeVariantInstruction _ _ count => count
  | .interpolateInstruction parts => parts.length - 1
  | .makeRecordInstruction _ fields => fields.length
  | .callInstruction _ arity | .awaitCallInstruction _ arity => arity
  | .callValueInstruction arity | .awaitValueInstruction arity => arity + 1
  | _ => 0

/-- Where an instruction goes with the values that it leaves; a variant leaves its payload. -/
def instructionNext (payload : Str → ℕ) : Instruction → ℕ → List (ℕ × ℕ)
  | .jumpInstruction target, _ => [(target, 0)]
  | .jumpFalseInstruction target, p => [(p + 1, 0), (target, 0)]
  | .iterNextInstruction _ _ stop, p => [(p + 1, 0), (stop, 0)]
  | .matchVariantInstruction variant failure, p => [(p + 1, payload variant), (failure, 0)]
  | .matchFailInstruction, _ | .pendingEndJumpInstruction, _ | .returnInstruction, _ => []
  | .storeInstruction _, p | .popInstruction, p | .iterInitInstruction _, p => [(p + 1, 0)]
  | _, p => [(p + 1, 1)]

/-- The positions that an instruction may jump to. -/
def jumpTargets : Instruction → List ℕ
  | .jumpInstruction target | .jumpFalseInstruction target | .iterNextInstruction _ _ target
  | .matchVariantInstruction _ target => [target]
  | _ => []

def stackMachine (payload : Str → ℕ) : StackMachine Instruction where
  pops := instructionPops
  next := instructionNext payload
  finished := fun instruction => instruction ≠ .pendingEndJumpInstruction

theorem jumpTargets_next {payload : Str → ℕ} {instr : Instruction} {target : ℕ}
    (h : target ∈ jumpTargets instr) (p : ℕ) :
    ∃ s ∈ instructionNext payload instr p, s.1 = target := by
  cases instr <;> simp [jumpTargets] at h <;> simp [instructionNext, h]

/-- An emitter leaves some values on the stack. -/
def Nets (payload : Str → ℕ) (count : ℕ) (emit : Emitter) : Prop :=
  ∀ temporary offset h, WellStacked (stackMachine payload)
    (emit temporary offset).instructions offset
    h (h + count) []

section Constructs

variable {payload : Str → ℕ}

/-! ## Instructions -/

theorem straight {i : Instruction} {p h l k count : ℕ} {exits : List (ℕ × ℕ)}
    (hnext : instructionNext payload i p = [(p + 1, count)]) (hl : l = h + instructionPops i)
    (hk : k = h + count) : WellStacked (stackMachine payload) [i] p l k exits := by
  refine .single (fun hpend => by subst hpend; cases hnext)
    (show instructionPops i ≤ l by omega) fun s hs => .inl ?_
  have hs : s ∈ instructionNext payload i p := hs
  rw [hnext, mem_singleton] at hs
  subst hs
  exact ⟨rfl, by show l - instructionPops i + count = k; omega⟩

theorem jump {p h k tgt : ℕ} : WellStacked (stackMachine payload) [.jumpInstruction tgt] p h k
    [(tgt, h)] := by
  refine .single nofun (zero_le h) fun s hs => .inr ?_
  have hs : s = (tgt, 0) := mem_singleton.mp hs
  subst hs
  exact mem_singleton_self _

/-- The instructions that go on or branch, with what they leave in the two cases. -/
theorem branch {i : Instruction} {p h l k count tgt : ℕ}
    (hnext : instructionNext payload i p = [(p + 1, count), (tgt, 0)])
    (hl : l = h + instructionPops i) (hk : k = h + count) :
    WellStacked (stackMachine payload) [i] p l k [(tgt, h)] := by
  refine .single (fun hpend => by subst hpend; cases hnext)
    (show instructionPops i ≤ l by omega) fun s hs => ?_
  have hs : s ∈ instructionNext payload i p := hs
  have hheight : l - instructionPops i = h := by omega
  rw [hnext, mem_cons, mem_singleton] at hs
  rcases hs with rfl | rfl
  · refine .inl ⟨rfl, ?_⟩
    show l - instructionPops i + count = k
    omega
  · refine .inr ?_
    show (tgt, l - instructionPops i + 0) ∈ [(tgt, h)]
    rw [hheight]
    exact mem_singleton_self _

theorem jumpFalse {p h tgt : ℕ} : WellStacked (stackMachine payload)
    [.jumpFalseInstruction tgt] p (h + 1) h [(tgt, h)] :=
  branch rfl rfl rfl

theorem pop : WellStacked (stackMachine payload) [.popInstruction] p (h + 1) h exits :=
  straight rfl rfl rfl

theorem matchFail {k : ℕ} :
    WellStacked (stackMachine payload) [.matchFailInstruction] p h k exits :=
  .single nofun (zero_le h) fun s hs => by cases hs

theorem nets_one {i : Instruction} (hpops : instructionPops i = 0)
    (hnext : ∀ p, instructionNext payload i p = [(p + 1, 1)]) :
    Nets payload 1 (emitOne i) := fun temp off h =>
  straight (hnext off) (by rw [hpops, add_zero]) rfl

/-! ## Lists -/

theorem nets_list {count : ℕ} (emitters : List Emitter)
    (h : ∀ emit ∈ emitters, Nets payload count emit) :
    Nets payload (count * emitters.length) (emitExpressionList emitters) := by
  induction emitters with
  | nil => exact fun temp off height => .nil off height []
  | cons emit rest ih =>
    intro temp off height
    have hfirst := h emit mem_cons_self temp off height
    refine hfirst.append ((ih (fun other hoth => h other (mem_cons_of_mem _ hoth)) _ _ _).cast
      rfl ?_)
    rw [length_cons, mul_succ]
    omega

theorem nets_then {parts : List Emitter} {i : Instruction} {count : ℕ}
    (hparts : ∀ emit ∈ parts, Nets payload 1 emit) (hpops : instructionPops i = parts.length)
    (hnext : ∀ p, instructionNext payload i p = [(p + 1, count)]) :
    Nets payload count (emitThen parts i) := fun temp off h =>
  (nets_list parts hparts temp off h).append (straight (hnext _) (by rw [hpops, one_mul]) rfl)

theorem forall_mem_pair {first second : Emitter} (hfirst : Nets payload 1 first)
    (hsec : Nets payload 1 second) : ∀ emit ∈ [first, second], Nets payload 1 emit := by
  intro emit hemit
  rcases mem_cons.mp hemit with rfl | hemit
  · exact hfirst
  · exact mem_singleton.mp hemit ▸ hsec

theorem nets_pair {first second : Emitter} {a b : ℕ} (hfirst : Nets payload a first)
    (hsec : Nets payload b second) : Nets payload (a + b) (emitExpressionList [first, second]) := by
  intro temp off h
  have hlast := (hsec (first temp off).nextTemporary
    (off + (first temp off).instructions.length) (h + a)).append (.nil _ _ [])
  exact ((hfirst temp off h).append hlast).cast rfl (by omega)

/-! ## Literals -/

theorem nets_string (text : Str) : Nets payload 1 (emitStringExpression text) := by
  intro temp off h
  have hloads : ∀ (names : List Str) (p height : ℕ), WellStacked (stackMachine payload)
      (names.map .loadInstruction) p height (height + names.length) [] := by
    intro names
    induction names with
    | nil => exact fun p height => .nil p height []
    | cons name names ih =>
      intro p height
      have hload : WellStacked (stackMachine payload) [.loadInstruction name] p height (height + 1)
          [] :=
        straight rfl rfl rfl
      refine (hload.append (ih _ _)).cast rfl ?_
      rw [length_cons]
      omega
  have hparts : (splitInterpolatedString (decodeStringLiteral text)).names.isEmpty = false →
      (splitInterpolatedString (decodeStringLiteral text)).parts.length - 1 =
        (splitInterpolatedString (decodeStringLiteral text)).names.length := by
    unfold splitInterpolatedString
    cases splitLoop (decodeStringLiteral text).length (decodeStringLiteral text) [] with
    | mk found last =>
      simp only
      split_ifs with hemp
      · intro hnames
        cases hnames
      · intro _
        simp
  unfold emitStringExpression
  simp only
  cases hnames : (splitInterpolatedString (decodeStringLiteral text)).names.isEmpty with
  | true => exact straight rfl rfl rfl
  | false =>
    exact (hloads _ off h).append (straight rfl (by show _ = h + (_ - 1); rw [hparts hnames]) rfl)

theorem nets_await {operand : Emitter} (h : Nets payload 1 operand) :
    Nets payload 1 (emitAwait operand) := by
  intro temp off height
  have hcode := h temp off height
  unfold emitAwait
  simp only
  generalize (operand temp off).instructions = code at hcode
  rcases eq_nil_or_concat code with rfl | ⟨code, i, rfl⟩
  · exact hcode
  rw [concat_eq_append] at hcode ⊢
  rw [dropLast_concat, getLast?_concat, Option.map_some, Option.toList_some]
  have hfin := hcode.finished i (mem_append_right _ (mem_singleton_self i))
  -- an awaited call takes and leaves what the call does
  refine hcode.replace_last ?_ ?_ ?_
  · intro hpend
    cases i <;> first | exact absurd rfl hfin | cases hpend
  · cases i <;> rfl
  · cases i <;> rfl

/-! ## Loops and branches -/

section Control

variable {a b c : Emitter}

theorem nets_while (ha : Nets payload 1 a) (hb : Nets payload 1 b) :
    Nets payload 0 (emitWhile a b) := by
  intro temp off h
  unfold emitWhile
  simp only
  have hA := ha temp off h
  generalize a temp off = A at hA
  have hB := hb A.nextTemporary (off + A.instructions.length + 1) h
  generalize b A.nextTemporary (off + A.instructions.length + 1) = B at hB
  have htest := (hA.mono (nil_subset _)).append (@jumpFalse payload _ h
    (off + A.instructions.length + 1 + B.instructions.length + 2))
  have hround := ((hB.append pop).mono (nil_subset _)).append (@jump payload _ h h off)
  exact htest.around (hround.cast (by simp; omega) rfl) (by simp; omega)

/-- A loop that goes back to its start after a round, and leaves when the iterator is at its end. -/
theorem wellStacked_loop {p h : ℕ} {iterator item : Str} {round : List Instruction}
    (hround : WellStacked (stackMachine payload) round (p + 1) h h []) :
    WellStacked (stackMachine payload) (emitLoop p iterator item round) p h h [] := by
  have hnext : WellStacked (stackMachine payload)
      [.iterNextInstruction iterator item (p + 1 + round.length + 1)] p h h
      [(p + 1 + round.length + 1, h)] := branch rfl rfl rfl
  exact (hnext.append (hround.mono (nil_subset _))).around jump (by simp; omega)

theorem iterInit {iterator : Str} :
    WellStacked (stackMachine payload) [.iterInitInstruction iterator] p (h + 1) h exits :=
  straight rfl rfl rfl

theorem nets_for {name : Str} (ha : Nets payload 1 a) (hb : Nets payload 1 b) :
    Nets payload 0 (emitFor name a b) := by
  intro temp off h
  unfold emitFor
  have hA := ha (temp + 1) off h
  generalize a (temp + 1) off = A at hA
  have hB := hb A.nextTemporary (off + A.instructions.length + 1 + 1) h
  have hloop := @wellStacked_loop payload (off + A.instructions.length + 1) h
    (temporaryName "$iter" temp) name _ (hB.append pop)
  exact (hA.append iterInit).append (hloop.cast (by simp; omega) rfl)

theorem constant {value : ConstantValue} :
    WellStacked (stackMachine payload) [.constInstruction value] p h (h + 1) exits :=
  straight rfl rfl rfl

/-- Two branches after a test: the first jumps behind the second. -/
theorem wellStacked_branches {code first second : List Instruction} {tgt stop : ℕ}
    (hcode : WellStacked (stackMachine payload) code p h (h + 1) [])
    (hfirst : WellStacked (stackMachine payload) first (p + code.length + 1) h (h + 1) [])
    (hsec : WellStacked (stackMachine payload) second tgt h (h + 1) [])
    (htgt : tgt = p + code.length + 1 + first.length + 1) (hstop : stop = tgt + second.length) :
    WellStacked (stackMachine payload) (code ++ [.jumpFalseInstruction tgt] ++
      (first ++ [.jumpInstruction stop]) ++ second) p h (h + 1) [] := by
  have htest := (hcode.mono (nil_subset _)).append (@jumpFalse payload _ h tgt)
  have hyes := (hfirst.mono (nil_subset _)).append (@jump payload _ (h + 1) h stop)
  have hboth := (htest.mono (cons_subset_cons _ (nil_subset [(stop, h + 1)]))).skip
    (hyes.cast (by simp; omega) rfl) (by simp; omega)
  exact hboth.skip (hsec.cast (by simp; omega) rfl) (by simp; omega)

theorem nets_and (ha : Nets payload 1 a) (hb : Nets payload 1 b) :
    Nets payload 1 (emitAnd a b) := by
  intro temp off h
  exact wellStacked_branches (ha temp off h) (hb _ _ h) constant rfl rfl

theorem nets_or (ha : Nets payload 1 a) (hb : Nets payload 1 b) : Nets payload 1 (emitOr a b) := by
  intro temp off h
  exact wellStacked_branches (ha temp off h) constant (hb _ _ h) rfl rfl

theorem nets_if (ha : Nets payload 1 a) (hb : Nets payload 1 b) (hc : Nets payload 1 c)
    (hasElse : Bool) : Nets payload 1 (emitIf a b c hasElse) := by
  intro temp off h
  cases hasElse with
  | true => exact wellStacked_branches (ha temp off h) (hb _ _ h) (hc _ _ h) rfl rfl
  | false =>
    -- both ways come to the constant with nothing on the stack
    unfold emitIf
    simp only [Bool.false_eq_true, if_false]
    have hA := ha temp off h
    generalize a temp off = A at hA
    have hB := hb A.nextTemporary (off + A.instructions.length + 1) h
    generalize b A.nextTemporary (off + A.instructions.length + 1) = B at hB
    have htest := (hA.mono (nil_subset _)).append (@jumpFalse payload _ h
      (off + A.instructions.length + 2 + B.instructions.length))
    have hboth := htest.skip ((hB.append pop).cast (by simp; omega) rfl) (by simp; omega)
    exact hboth.append constant

end Control

/-! ## Calls -/

/-- Instructions that take and leave some values one after the other. -/
theorem wellStacked_cons {i : Instruction} {code : List Instruction} {p h l k count : ℕ}
    (hnext : instructionNext payload i p = [(p + 1, count)]) (hl : l = h + instructionPops i)
    (hcode : WellStacked (stackMachine payload) code (p + 1) (h + count) k []) :
    WellStacked (stackMachine payload) (i :: code) p l k [] :=
  WellStacked.append (straight hnext hl rfl) hcode

theorem nets_store {emit : Emitter} (name : Str) (h : Nets payload 1 emit) :
    Nets payload 0 (emitThen [emit] (.storeInstruction name)) :=
  nets_then (fun _ hoth => mem_singleton.mp hoth ▸ h) rfl fun _ => rfl

theorem nets_intrinsicLoop {reduce : Bool} {collection initial callback : Emitter}
    (hcoll : Nets payload 1 collection) (hinit : reduce = true → Nets payload 1 initial)
    (hcb : Nets payload 1 callback) :
    Nets payload 1 (emitIntrinsicLoop reduce collection initial callback) := by
  intro temporary offset h
  have hstart : Nets payload 1 (if reduce then initial else emitOne (.makeArrayInstruction 0)) := by
    cases reduce with
    | true => exact hinit rfl
    | false => exact nets_one rfl fun _ => rfl
  unfold emitIntrinsicLoop
  simp only
  generalize (if reduce then initial else emitOne (.makeArrayInstruction 0)) = start at hstart
  have hstored := @nets_list payload 0
    [emitThen [collection] (.storeInstruction (temporaryName "$collection" temporary)),
      emitThen [start] (.storeInstruction (temporaryName "$accumulator" temporary)),
      emitThen [callback] (.storeInstruction (temporaryName "$callback" temporary))] (by
      intro emit hemit
      simp only [mem_cons, not_mem_nil, or_false] at hemit
      rcases hemit with rfl | rfl | rfl
      · exact nets_store _ hcoll
      · exact nets_store _ hstart
      · exact nets_store _ hcb) (temporary + 1) offset h
  generalize emitExpressionList _ (temporary + 1) offset = stored at hstored
  have hopen : WellStacked (stackMachine payload)
      [.loadInstruction (temporaryName "$collection" temporary),
        .iterInitInstruction (temporaryName "$iterator" temporary)]
      (offset + stored.instructions.length) h h [] := wellStacked_cons rfl rfl iterInit
  have hbefore := hstored.append (hopen.cast rfl rfl)
  have hround : ∀ p, WellStacked (stackMachine payload) (if reduce then
      [.loadInstruction (temporaryName "$callback" temporary),
        .loadInstruction (temporaryName "$accumulator" temporary),
        .loadInstruction (temporaryName "$item" temporary), .callValueInstruction 2,
        .storeInstruction (temporaryName "$accumulator" temporary)] else
      [.loadInstruction (temporaryName "$accumulator" temporary),
        .loadInstruction (temporaryName "$callback" temporary),
        .loadInstruction (temporaryName "$item" temporary), .callValueInstruction 1,
        .callInstruction (Str.ascii "append") 2,
        .storeInstruction (temporaryName "$accumulator" temporary)]) p h h [] := by
    intro p
    cases reduce with
    | true =>
      refine wellStacked_cons rfl rfl ?_
      refine wellStacked_cons rfl rfl ?_
      refine wellStacked_cons rfl rfl ?_
      refine @wellStacked_cons payload _ _ _ h _ _ _ rfl rfl ?_
      exact straight rfl rfl rfl
    | false =>
      refine wellStacked_cons rfl rfl ?_
      refine wellStacked_cons rfl rfl ?_
      refine wellStacked_cons rfl rfl ?_
      refine @wellStacked_cons payload _ _ _ (h + 1) _ _ _ rfl rfl ?_
      refine @wellStacked_cons payload _ _ _ h _ _ _ rfl rfl ?_
      exact straight rfl rfl rfl
  refine (hbefore.append (wellStacked_loop (hround _))).append ?_
  exact straight rfl rfl rfl

/-- A call with its full list of arguments. -/
structure FullCall (program : List Declaration) (name : Str) (arity : ℕ) : Prop where
  call : name = intrinsicCall → 0 < arity
  map : name = intrinsicMap → arity = 2
  reduce : name = intrinsicReduce → arity = 3
  record : ∀ fields, recordType program name = some fields → arity = fields.length

theorem nets_call {program : List Declaration} {name : Str} {args : List Emitter}
    (hfull : FullCall program name args.length) (hargs : ∀ emit ∈ args, Nets payload 1 emit) :
    Nets payload 1 (emitCall program name args) := by
  have hget : ∀ n, n < args.length → Nets payload 1 (args.getD n (emitExpressionList [])) := by
    intro n hn
    rw [getD_eq_getElem _ _ hn]
    exact hargs _ (getElem_mem hn)
  unfold emitCall
  by_cases hcall : name = intrinsicCall
  · rw [if_pos hcall]
    have hpos := hfull.call hcall
    refine nets_then hargs ?_ fun _ => rfl
    show args.length - 1 + 1 = args.length
    omega
  rw [if_neg hcall]
  by_cases hloop : name = intrinsicMap ∨ name = intrinsicReduce
  · rw [if_pos hloop]
    have hlen : 2 ≤ args.length := by
      rcases hloop with h | h
      · exact (hfull.map h).ge
      · exact (hfull.reduce h).ge.trans' (by decide)
    exact nets_intrinsicLoop (hget 0 (by omega)) (fun _ => hget 1 (by omega)) (hget _ (by omega))
  · rw [if_neg hloop]
    unfold callInstructionOf
    cases hrecord : recordType program name with
    | some fields => exact nets_then hargs (hfull.record fields hrecord).symm fun _ => rfl
    | none =>
      cases variantType program name with
      | some enumName | none => exact nets_then hargs rfl fun _ => rfl

/-! ## Matches -/

theorem resolve_append (a b : List Instruction) (target : ℕ) : resolvePendingJumps (a ++ b) target =
      resolvePendingJumps a target ++ resolvePendingJumps b target := map_append

theorem resolve_of_finished {code : List Instruction} (tgt : ℕ)
    (h : ∀ i ∈ code, i ≠ .pendingEndJumpInstruction) : resolvePendingJumps code tgt = code := by
  unfold resolvePendingJumps
  induction code with
  | nil => rfl
  | cons i code ih =>
    rw [map_cons, ih fun other hoth => h other (mem_cons_of_mem _ hoth)]
    have hi := h i mem_cons_self
    cases i <;> first | rfl | exact absurd rfl hi

/-- An arm is entered and left with the same height, but for the jump to the end of the match. -/
theorem wellStacked_arm {arm : ArmCode} (hbody : Nets payload 1 arm.body)
    (hbindings : arm.bindings.length = payload arm.variant) (subject : Str) (temp off h stop : ℕ) :
    WellStacked (stackMachine payload)
      (resolvePendingJumps (emitArm subject arm temp off).instructions stop) off h h
      [(stop, h + 1)] := by
  have hstores : ∀ (names : List Str) (p height : ℕ), WellStacked (stackMachine payload)
      (names.map .storeInstruction) p (height + names.length) height [] := by
    intro names
    induction names with
    | nil => exact fun p height => .nil p height []
    | cons name names ih =>
      intro p height
      refine wellStacked_cons rfl ?_ (ih _ _)
      rfl
  unfold emitArm
  simp only
  have hB := hbody temp (off + 2 + arm.bindings.length) h
  generalize arm.body temp (off + 2 + arm.bindings.length) = B at hB
  have htest : WellStacked (stackMachine payload)
      [.loadInstruction subject, .matchVariantInstruction
      arm.variant (off + 2 + arm.bindings.length + B.instructions.length + 1)] off h
      (h + payload arm.variant)
      [(off + 2 + arm.bindings.length + B.instructions.length + 1, h)] :=
    WellStacked.append (straight rfl rfl rfl) (branch rfl rfl rfl)
  have hbind := hstores arm.bindings.reverse (off + 2) h
  rw [length_reverse, hbindings] at hbind
  have hcode := (htest.append (hbind.mono (nil_subset _))).append
    ((hB.cast (by simp; omega) rfl).mono (nil_subset _))
  rw [resolve_append, resolve_of_finished stop hcode.finished]
  exact (hcode.mono (cons_subset_cons _ (nil_subset _))).skip jump
    (by simp [resolvePendingJumps]; omega)

theorem wellStacked_arms {arms : List ArmCode}
    (harms : ∀ arm ∈ arms, Nets payload 1 arm.body ∧ arm.bindings.length = payload arm.variant)
    (subject : Str) (h stop : ℕ) : ∀ temp off : ℕ,
    WellStacked (stackMachine payload) (resolvePendingJumps
      (emitExpressionList (arms.map (emitArm subject)) temp off).instructions stop) off h h
      [(stop, h + 1)] := by
  induction arms with
  | nil => exact fun temp off => .nil off h _
  | cons arm arms ih =>
    intro temp off
    obtain ⟨hbody, hbind⟩ := harms arm mem_cons_self
    have harm := wellStacked_arm hbody hbind subject temp off h stop
    have hrest := ih (fun other hoth => harms other (mem_cons_of_mem _ hoth))
      (emitArm subject arm temp off).nextTemporary
      (off + (emitArm subject arm temp off).instructions.length)
    rw [map_cons, emitExpressionList, resolve_append]
    exact harm.append (hrest.cast (by simp [resolvePendingJumps]) rfl)

theorem nets_match {subject : Emitter} {arms : List ArmCode} (hsubject : Nets payload 1 subject)
    (harms : ∀ arm ∈ arms, Nets payload 1 arm.body ∧ arm.bindings.length = payload arm.variant) :
    Nets payload 1 (emitMatch subject arms) := by
  intro temp off h
  unfold emitMatch emitThen
  simp only
  rw [emitExpressionList]
  simp only
  have hstore := nets_store (temporaryName "$match" temp) hsubject (temp + 1) off h
  unfold emitThen at hstore
  generalize emitExpressionList [subject] (temp + 1) off = S at hstore
  generalize hstop : off + (S.instructions ++ [Instruction.storeInstruction
    (temporaryName "$match" temp)] ++ (emitExpressionList (arms.map
      (emitArm (temporaryName "$match" temp))) S.nextTemporary (off + (S.instructions ++
        [Instruction.storeInstruction (temporaryName "$match" temp)]).length)).instructions ++
      [Instruction.matchFailInstruction]).length = stop
  have hall := wellStacked_arms harms (temporaryName "$match" temp) h stop S.nextTemporary
    (off + (S.instructions ++ [Instruction.storeInstruction (temporaryName "$match" temp)]).length)
  rw [resolve_append, resolve_append, resolve_of_finished stop hstore.finished]
  refine ((hstore.mono (nil_subset _)).append hall).skip matchFail ?_
  rw [← hstop]
  simp [resolvePendingJumps]
  omega

end Constructs

/-! ## Checked trees -/

section Checked

variable (program : List Declaration) (payload : Str → ℕ)

mutual

/-- No method call is left, calls have their full lists of arguments, and the patterns bind the
payload of their variants. -/
def ExprChecked : Expr → Prop
  | .located _ value => ExprChecked value
  | .nat _ | .decimal _ | .string _ | .bool _ | .name _ | .function _ => True
  | .array items => EachChecked items
  | .unary _ operand => ExprChecked operand
  | .binary _ left right => ExprChecked left ∧ ExprChecked right
  | .ownedCall _ _ _ | .dotCall _ _ _ => False
  | .call name arguments => FullCall program name arguments.length ∧ EachChecked arguments
  | .field target _ => ExprChecked target
  | .index target index => ExprChecked target ∧ ExprChecked index
  | .ifThen condition yes no _ => ExprChecked condition ∧ BlockChecked yes ∧ BlockChecked no
  | .block block => BlockChecked block
  | .matchOn subject arms => ExprChecked subject ∧ ArmsChecked arms

/-- Checked expressions. -/
def EachChecked : List Expr → Prop
  | [] => True
  | expression :: rest => ExprChecked expression ∧ EachChecked rest

/-- A checked statement. -/
def StatementChecked : Statement → Prop
  | .binding _ value | .assignment _ value | .expression value => ExprChecked value
  | .whileLoop condition body => ExprChecked condition ∧ BlockChecked body
  | .forLoop _ iterable body => ExprChecked iterable ∧ BlockChecked body

/-- Checked statements. -/
def StatementsChecked : List Statement → Prop
  | [] => True
  | statement :: rest => StatementChecked statement ∧ StatementsChecked rest

/-- A checked block. -/
def BlockChecked : Block → Prop
  | .noValue statements => StatementsChecked statements
  | .tailValue statements value => StatementsChecked statements ∧ ExprChecked value

/-- Checked arms. -/
def ArmsChecked : List MatchArm → Prop
  | [] => True
  | .arm variant bindings body :: rest =>
    bindings.length = payload variant ∧ ExprChecked body ∧ ArmsChecked rest

end

theorem length_emitEach (items : List Expr) : (emitEach program items).length = items.length := by
  induction items with
  | nil => rfl
  | cons item items ih => rw [emitEach, length_cons, ih, length_cons]

variable {program payload}

mutual

theorem nets_expression : ∀ expr : Expr, ExprChecked program payload expr →
    Nets payload 1 (emitExpression program expr)
  | .located _ value, h => nets_expression value h
  | .nat _, _ | .decimal _, _ | .bool _, _ | .name _, _ | .function _, _ =>
      nets_one rfl fun _ => rfl
  | .string text, _ => nets_string text
  | .array items, h =>
    nets_then (nets_each items h) (length_emitEach program items).symm fun _ => rfl
  | .unary op operand, h => by
    have hoperand := nets_expression operand h
    unfold emitExpression
    split_ifs
    · exact nets_await hoperand
    · exact nets_then (fun emit hemit => mem_singleton.mp hemit ▸ hoperand) rfl fun _ => rfl
  | .binary op left right, h => by
    have hleft := nets_expression left h.1
    have hright := nets_expression right h.2
    unfold emitExpression
    split_ifs
    · exact nets_and hleft hright
    · exact nets_or hleft hright
    · exact nets_then (forall_mem_pair hleft hright) rfl fun _ => rfl
    · exact nets_then (forall_mem_pair hleft hright) rfl fun _ => rfl
  | .ownedCall _ _ _, h | .dotCall _ _ _, h => h.elim
  | .call name args, h =>
    nets_call (by rw [length_emitEach]; exact h.1) (nets_each args h.2)
  | .field tgt _, h =>
    nets_then (fun emit hemit => mem_singleton.mp hemit ▸ nets_expression tgt h) rfl fun _ => rfl
  | .index tgt index, h =>
    nets_then (forall_mem_pair (nets_expression tgt h.1) (nets_expression index h.2)) rfl
      fun _ => rfl
  | .ifThen condition yes no hasElse, h =>
    nets_if (nets_expression condition h.1) (nets_block yes h.2.1) (nets_block no h.2.2) hasElse
  | .block block, h => nets_block block h
  | .matchOn subject arms, h => nets_match (nets_expression subject h.1) (nets_arms arms h.2)

theorem nets_each : ∀ items : List Expr, EachChecked program payload items →
    ∀ emit ∈ emitEach program items, Nets payload 1 emit
  | [], _ => fun emit hemit => by cases hemit
  | item :: items, h => by
    intro emit hemit
    rcases mem_cons.mp hemit with rfl | hemit
    · exact nets_expression item h.1
    · exact nets_each items h.2 emit hemit

theorem nets_statement : ∀ stmt : Statement, StatementChecked program payload stmt →
    Nets payload 0 (emitStatement program stmt)
  | .binding name value, h | .assignment name value, h => nets_store name (nets_expression value h)
  | .expression value, h =>
    nets_then (fun _ hemit => mem_singleton.mp hemit ▸ nets_expression value h) rfl
      fun _ => rfl
  | .whileLoop condition body, h => nets_while (nets_expression condition h.1) (nets_block body h.2)
  | .forLoop _ iterable body, h => nets_for (nets_expression iterable h.1) (nets_block body h.2)

theorem nets_statements : ∀ stmts : List Statement, StatementsChecked program payload stmts →
    ∀ emit ∈ emitStatements program stmts, Nets payload 0 emit
  | [], _ => fun emit hemit => by cases hemit
  | statement :: stmts, h => by
    intro emit hemit
    rcases mem_cons.mp hemit with rfl | hemit
    · exact nets_statement statement h.1
    · exact nets_statements stmts h.2 emit hemit

theorem nets_block : ∀ block : Block, BlockChecked program payload block →
    Nets payload 1 (emitBlock program block)
  | .noValue stmts, h => by
    have hstmts := nets_list _ (nets_statements stmts h)
    rw [zero_mul] at hstmts
    exact fun temp off height => (hstmts temp off height).append constant
  | .tailValue stmts value, h => by
    have hstmts := nets_list _ (nets_statements stmts h.1)
    rw [zero_mul] at hstmts
    exact nets_pair hstmts (nets_expression value h.2)

theorem nets_arms : ∀ arms : List MatchArm, ArmsChecked program payload arms →
    ∀ arm ∈ emitArms program arms,
      Nets payload 1 arm.body ∧ arm.bindings.length = payload arm.variant
  | [], _ => fun arm harm => by cases harm
  | .arm variant bindings body :: arms, h => by
    intro arm harm
    rcases mem_cons.mp harm with rfl | harm
    · exact ⟨nets_expression body h.2.1, h.1⟩
    · exact nets_arms arms h.2.2 arm harm

end

end Checked

/-! ## Programs -/

/-- Code of a function that the machine can run: no jump is pending, the targets are inside, and on
every path from its start the height depends on the position only, every instruction finds what it
takes, and the last position, that of the return, has one value. -/
structure WellFormed (payload : Str → ℕ) (code : List Instruction) : Prop where
  finished : ∀ i ∈ code, i ≠ .pendingEndJumpInstruction
  targets : ∀ i ∈ code, ∀ target ∈ jumpTargets i, target < code.length
  return_last : code.getLast? = some .returnInstruction
  heights : ∃ H : ℕ → ℕ, H (code.length - 1) = 1 ∧ ∀ q x,
    Relation.ReflTransGen (StackStep (stackMachine payload) code 0) (0, 0) (q, x) →
    x = H q ∧ ∃ i, code[q]? = some i ∧ instructionPops i ≤ x

theorem wellFormed_of_wellStacked {payload : Str → ℕ} {code : List Instruction}
    (h : WellStacked (stackMachine payload) code 0 0 1 []) :
    WellFormed payload (code ++ [.returnInstruction]) := by
  obtain ⟨H, hend, hrun⟩ := h.run
  have hlen : (code ++ [Instruction.returnInstruction]).length = code.length + 1 := by simp
  refine ⟨fun i hi => ?_, fun i hi tgt htgt => ?_, getLast?_concat, H, ?_, fun q x hpath => ?_⟩
  · rcases mem_append.mp hi with hi | hi
    · exact h.finished i hi
    · rw [mem_singleton.mp hi]
      exact nofun
  · rw [hlen]
    rcases mem_append.mp hi with hi | hi
    · obtain ⟨q, hq⟩ := mem_iff_getElem?.mp hi
      obtain ⟨s, hs, rfl⟩ := @jumpTargets_next payload i tgt htgt (0 + q)
      rcases h.inside.getElem hq s hs with hin | ⟨x, hx, _⟩
      · omega
      · cases hx
    · rw [mem_singleton.mp hi] at htgt
      cases htgt
  · rw [hlen, Nat.add_sub_cancel]
    rw [zero_add] at hend
    exact hend
  · -- the return has no successor, so every path stays in the code before it
    have hmono : ∀ a b, StackStep (stackMachine payload) (code ++ [.returnInstruction]) 0 a b →
        StackStep (stackMachine payload) code 0 a b := by
      intro a b hstep
      cases hstep with
      | @step q h i s hi hpops hs =>
        by_cases hq : q < code.length
        · rw [getElem?_append_left hq] at hi
          exact .step hi hpops hs
        · rw [getElem?_append_right (by omega)] at hi
          cases mem_singleton.mp (mem_of_getElem? hi)
          cases hs
    obtain ⟨hin, hx, hpops⟩ := hrun q x (Relation.ReflTransGen.mono hmono _ _ hpath)
    refine ⟨hx, ?_⟩
    by_cases hq : q < code.length
    · refine ⟨code[q], ?_, hpops _ (by simp [hq])⟩
      rw [getElem?_append_left hq]
      simp [hq]
    have hqe : q = code.length := by omega
    refine ⟨.returnInstruction, by simp [hqe], ?_⟩
    rw [hx, hqe]
    rw [zero_add] at hend
    rw [hend]
    decide

/-- Of a program whose bodies are checked, every function that is emitted is well-formed; and on
every path through the code of a checked expression, whatever is on the stack before, one value more
is there at its end. -/
theorem compileProgram_wellFormed (program : List Declaration) (payload : Str → ℕ)
    (hchecked : ∀ name parameters isPure isAsync body,
      Declaration.function name parameters isPure isAsync body ∈ program →
      BlockChecked program payload body) :
    (∀ function ∈ (compileProgram program).functions, WellFormed payload function.instructions) ∧
    ∀ expression, ExprChecked program payload expression → ∀ temporary offset h, ∃ H : ℕ → ℕ,
      H (offset + (emitExpression program expression temporary offset).instructions.length) =
        h + 1 ∧
      ∀ q x, Relation.ReflTransGen (StackStep (stackMachine payload)
          (emitExpression program expression temporary offset).instructions offset)
          (offset, h) (q, x) →
        x = H q ∧ ∀ i,
          (emitExpression program expression temporary offset).instructions[q - offset]? =
          some i → instructionPops i ≤ x := by
  constructor
  · intro function hfn
    obtain ⟨declaration, hmem, hemit⟩ := mem_filterMap.mp (mem_filter.mp hfn).1
    cases declaration with
    | record name fields | enum name variants => cases hemit
    | function name parameters isPure isAsync body =>
      cases hemit
      exact wellFormed_of_wellStacked (nets_block body (hchecked _ _ _ _ _ hmem) 0 0 0)
  · intro expression h temporary offset height
    obtain ⟨H, hend, hrun⟩ := (nets_expression expression h temporary offset height).run
    exact ⟨H, hend, fun q x hpath => (hrun q x hpath).2⟩

/-- A loop that is never entered, and a conjunction. -/
def conjunctionProgram : List Declaration :=
  [.function (Str.ascii "main") [] true false (.tailValue [.whileLoop (.bool false) (.noValue [])]
      (.binary (Str.ascii "&&") (.bool true) (.bool false)))]

theorem compileProgram_wellFormed_conjunction :
    ∃ function ∈ (compileProgram conjunctionProgram).functions,
      WellFormed (fun _ => 0) function.instructions := by
  have hchk : ∀ name parameters isPure isAsync body,
      Declaration.function name parameters isPure isAsync body ∈ conjunctionProgram →
      BlockChecked conjunctionProgram (fun _ => 0) body := by
    intro name parameters isPure isAsync body hmem
    cases mem_singleton.mp hmem
    exact ⟨⟨⟨trivial, trivial⟩, trivial⟩, trivial, trivial⟩
  have hne : (compileProgram conjunctionProgram).functions ≠ [] := by decide +kernel
  exact ⟨_, head_mem hne, (compileProgram_wellFormed _ _ hchk).1 _ (head_mem hne)⟩

end Panackelty.Compiler
