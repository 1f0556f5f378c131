import Panackelty.Http.Routed
import Panackelty.Vm.HttpState

/-!
# Registering routes

`server.panack` and `routing.panack` over `vm/http_state.c`: while no registration leaves an error,
the table of the server is the list of the registered routes in their order, and no two of them have
one method and path.  So `dispatch` finds the handler that was registered.

* `IsReference`, `registeredPath`: the references of routes, and the path that one registers.
* `Consistent`, `Table.foldl_cases`: which registrations leave no error.
* `routing_exact`: the decision and the callback are those of the registered routes and fallback.
-/

namespace Panackelty.Http

open List Option Str
open Vm (HttpState HttpRoute Value httpStateRegister httpStateCreate valueIndex Services argument
  httpConnectionHandler)

/-! ## References -/

/-- `path_character`. -/
def pathCharacter (byte : ℕ) : Bool :=
  asciiDigit byte || asciiUpper byte || asciiLower byte ||
    [45, 46, 95, 126, 33, 36, 38, 39, 40, 41, 42, 43, 44, 59, 61, 58, 64, 47].contains byte

/-- The loop of `route_path`: where the path ends, unless a byte is refused. -/
def pathEnd : Bytes → (cursor stop : ℕ) → (query fragment : Bool) → Option ℕ
  | [], _, stop, _, _ => some stop
  | byte :: rest, cursor, stop, query, fragment =>
    if byte = 37 then
      match rest with
      | high :: low :: rest =>
        if (hexDigit high.toNat).isSome && (hexDigit low.toNat).isSome then
          pathEnd rest (cursor + 3) stop query fragment
        else none
      | _ => none
    else if byte = 63 then
      if !query && !fragment then pathEnd rest (cursor + 1) cursor true fragment
      else pathEnd rest (cursor + 1) stop query fragment
    else if byte = 35 then
      if fragment then none
      else pathEnd rest (cursor + 1) (if query then stop else cursor) query true
    else if pathCharacter byte.toNat then pathEnd rest (cursor + 1) stop query fragment
    else none

/-- `route_path`; what it accepts is ASCII, so the slice by characters is one by bytes. -/
def routePath (reference : Str) : Option Str :=
  if reference.bytes.head? = some 47 then
    (pathEnd reference.bytes 0 reference.bytes.length false false).map fun stop =>
      decodeUtf8 (reference.bytes.take stop)
  else none

/-! ## The path of a reference -/

/-- The bytes are path characters, the marks of query and fragment, and escapes of two hexadecimal
digits. -/
def encoded : Bytes → Bool
  | [] => true
  | byte :: rest =>
    if byte = 37 then
      match rest with
      | high :: low :: rest =>
        (hexDigit high.toNat).isSome && (hexDigit low.toNat).isSome && encoded rest
      | _ => false
    else (pathCharacter byte.toNat || byte == 63 || byte == 35) && encoded rest

theorem encoded_cons {byte : UInt8} {rest : Bytes} (h : byte ≠ 37) : encoded (byte :: rest) =
    ((pathCharacter byte.toNat || byte == 63 || byte == 35) && encoded rest) := by
  rw [encoded.eq_def]
  exact if_neg h

/-- A reference that a route may have starts with a slash and has at most one fragment. -/
def IsReference (reference : Bytes) : Prop :=
  reference.head? = some 47 ∧ encoded reference = true ∧ reference.count 35 ≤ 1

instance (reference : Bytes) : Decidable (IsReference reference) :=
  inferInstanceAs (Decidable (_ ∧ _ ∧ _))

/-- Neither `?` nor `#`. -/
def inPath (byte : UInt8) : Bool := byte != 63 && byte != 35

theorem lt_of_encoded {bytes : Bytes} (h : encoded bytes) : ∀ b ∈ bytes, b.toNat < 128 := by
  have hchar : ∀ n < 256, pathCharacter n = true → n < 128 := by decide +kernel
  have hhex : ∀ n < 256, (hexDigit n).isSome = true → n < 128 := by decide +kernel
  fun_induction encoded bytes with
  | case1 => simp
  | case2 high low rest ih =>
    simp only [Bool.and_eq_true] at h
    simp only [mem_cons, forall_eq_or_imp]
    exact ⟨by decide, hhex _ high.toNat_lt h.1.1, hhex _ low.toNat_lt h.1.2, ih h.2⟩
  | case3 => cases h
  | case4 byte rest hne ih =>
    simp only [Bool.and_eq_true, Bool.or_eq_true, beq_iff_eq] at h
    simp only [mem_cons, forall_eq_or_imp]
    refine ⟨?_, ih h.2⟩
    rcases h.1 with (hbyte | rfl) | rfl
    · exact hchar _ byte.toNat_lt hbyte
    · decide
    · decide

/-- The path that a reference registers: all before its first `?` or `#`. -/
def registeredPath (reference : Str) (h : IsReference reference.bytes) : Str :=
  ⟨reference.bytes.takeWhile inPath,
    utf8_of_ascii fun b hb => lt_of_encoded h.2.1 b (takeWhile_subset _ hb)⟩

theorem inPath_of_ne {byte : UInt8} (h : byte ≠ 63 ∧ byte ≠ 35) : inPath byte = true := by
  simp [inPath, h]

theorem inPath_of_hexDigit {byte : UInt8} (h : (hexDigit byte.toNat).isSome) :
    inPath byte = true ∧ byte ≠ 35 := by
  have hne : byte ≠ 63 ∧ byte ≠ 35 := by
    constructor <;> rintro rfl <;> exact absurd h (by decide)
  exact ⟨inPath_of_ne hne, hne.2⟩

/-- The loop accepts what is encoded and has one fragment, and stops at the first mark. -/
theorem pathEnd_eq_some_iff {bytes : Bytes} {cursor stop s : ℕ} {query fragment : Bool} :
    pathEnd bytes cursor stop query fragment = some s ↔
      encoded bytes = true ∧ bytes.count 35 + fragment.toNat ≤ 1 ∧
        s = if (query || fragment || bytes.all inPath) = true then stop
          else cursor + (bytes.takeWhile inPath).length := by
  fun_induction pathEnd bytes cursor stop query fragment with
  | case1 cursor query fragment stop =>
    have hle : fragment.toNat ≤ 1 := Bool.toNat_le fragment
    simp [encoded, hle, eq_comm]
  | case2 cursor stop query fragment high low rest hhex ih =>
    rw [Bool.and_eq_true] at hhex
    have hhigh := inPath_of_hexDigit hhex.1
    have hlow := inPath_of_hexDigit hhex.2
    have hpath : inPath 37 := rfl
    rw [ih]
    simp [encoded, hhex, hpath, hhigh, hlow, add_assoc, add_comm 3]
  | case3 cursor stop query fragment high low rest hhex =>
    simp only [Bool.not_eq_true] at hhex
    simp [encoded, hhex]
  | case4 rest cursor stop query fragment hshort =>
    have hnot : encoded (37 :: rest) = false := by
      rcases rest with _ | ⟨high, _ | ⟨low, rest⟩⟩
      · rfl
      · rfl
      · exact absurd rfl (hshort high low rest)
    simp [hnot]
  | case5 rest cursor stop query fragment hfirst _ ih =>
    rw [ih, encoded_cons (by decide)]
    simp_all [inPath]
  | case6 rest cursor stop query fragment hlater _ ih =>
    have hseen : (query || fragment) = true := by cases query <;> simp_all
    rw [ih, encoded_cons (by decide)]
    simp [hseen]
  | case7 rest cursor stop query =>
    simp
  | case8 rest cursor stop query fragment hfirst _ _ ih =>
    rw [ih, encoded_cons (by decide)]
    simp_all [inPath]
  | case9 byte rest cursor stop query fragment hescape hquery hfragment hchar ih =>
    rw [ih, encoded_cons hescape]
    simp [hchar, inPath_of_ne ⟨hquery, hfragment⟩, count_cons_of_ne hfragment, add_assoc,
      add_comm 1]
  | case10 byte rest cursor stop query fragment hescape hquery hfragment hchar =>
    simp [encoded_cons hescape, hquery, hfragment, hchar]

/-- `route_path` is the path of a reference, and refuses everything else. -/
theorem routePath_eq (reference : Str) : routePath reference =
    if h : IsReference reference.bytes then some (registeredPath reference h) else none := by
  have hstop : (if (false || false || reference.bytes.all inPath) = true then reference.bytes.length
      else 0 + (reference.bytes.takeWhile inPath).length) =
        (reference.bytes.takeWhile inPath).length := by
    split_ifs with hall
    · rw [takeWhile_eq_self_iff.mpr (by simpa using hall)]
    · exact Nat.zero_add _
  have hend := fun {stop} => @pathEnd_eq_some_iff reference.bytes 0 reference.bytes.length stop
      false false
  unfold routePath
  by_cases h : IsReference reference.bytes
  · have hsome := hend.mpr ⟨h.2.1, h.2.2, hstop.symm⟩
    have hpath := prefix_iff_eq_take.mp ( takeWhile_prefix inPath (l := reference.bytes))
    rw [if_pos h.1, dif_pos h, hsome, map_some, ← hpath]
    exact congrArg some (dif_pos (registeredPath reference h).valid)
  · rw [dif_neg h]
    refine ite_eq_right_iff.mpr fun hhead => ?_
    rw [map_eq_none_iff, eq_none_iff_forall_ne_some]
    intro stop hsome
    obtain ⟨henc, hcount, -⟩ := hend.mp hsome
    exact h ⟨hhead, henc, hcount⟩

/-! ## The table -/

/-- The methods that a server registers, in the order of `dispatch`. -/
def methods : List Str := [ascii "GET", ascii "POST", ascii "PUT", ascii "DELETE"]

/-- A call of a registration function. -/
inductive Registration where
  | route (method : Str) (supported : method ∈ methods) (reference handler : Str)
  | fallback (handler : Str)

/-- `register` and `fallback` of `server.panack`, for a server that is Created. -/
def register (state : HttpState) : Registration → HttpState
  | .route method _ reference handler =>
    match routePath reference with
    | none => state.setError "invalid route URI reference"
    | some path => httpStateRegister method.bytes path.bytes handler.bytes state
  | .fallback handler => httpStateRegister [] [] handler.bytes state

/-- The routes that a registration asks for, with their handlers. -/
def Registration.routes : Registration → List (RouteKey × Str)
  | route method _ reference handler =>
    if h : IsReference reference.bytes then [(⟨method, registeredPath reference h⟩, handler)]
      else []
  | fallback _ => []

/-- The reference of a route is one. -/
def Registration.Valid : Registration → Prop
  | route _ _ reference _ => IsReference reference.bytes
  | fallback _ => True

/-- The fallbacks that a registration asks for. -/
def Registration.fallbacks : Registration → List Str
  | route .. => []
  | fallback handler => [handler]

/-- The server has these routes, of which no two have one key, and these fallbacks, of which there
is at most one. -/
structure Table (state : HttpState) (routes : List (RouteKey × Str)) (fallbacks : List Str) :
    Prop where
  stored : state.routes = routes.map fun entry =>
    ⟨.str entry.1.method.bytes, .str entry.1.path.bytes, .str entry.2.bytes⟩
  keys : (routes.map Prod.fst).Nodup
  fallback : state.fallback.toList = fallbacks.map fun handler => .str handler.bytes

variable {state : HttpState} {routes : List (RouteKey × Str)} {fallbacks : List Str}

theorem setupError_register {r : Registration} (h : (register state r).setupError = none) :
    state.setupError = none := by
  unfold register httpStateRegister at h
  repeat' split at h
  all_goals first | exact h | cases h

theorem register_route (state : HttpState) {method : Str} (supported : method ∈ methods)
    (reference handler : Str) : register state (.route method supported reference handler) =
      if h : IsReference reference.bytes then
        httpStateRegister method.bytes (registeredPath reference h).bytes handler.bytes state
      else state.setError "invalid route URI reference" := by
  rw [register, routePath_eq]
  split_ifs <;> rfl

theorem Table.any_routes_iff (h : Table state routes fallbacks) {method path : Str} :
    (state.routes.any fun route => Vm.valueEqual (.str method.bytes) route.method &&
      Vm.valueEqual (.str path.bytes) route.path) = true ↔
        ⟨method, path⟩ ∈ routes.map Prod.fst := by
  rw [h.stored, List.any_map, List.any_eq_true, List.mem_map]
  refine exists_congr fun entry => and_congr_right fun _ => ?_
  obtain ⟨⟨m, q⟩, handler⟩ := entry
  simp only [Function.comp_apply, Bool.and_eq_true, Vm.valueEqual, beq_iff_eq]
  constructor
  · rintro ⟨hm, hq⟩
    rw [ext_bytes hm, ext_bytes hq]
  · rintro hkey
    cases hkey
    exact ⟨rfl, rfl⟩

/-- The registration has a reference, and neither its route nor its fallback is there already. -/
def Registration.Fits (r : Registration) (routes : List (RouteKey × Str)) (fallbacks : List Str) :
    Prop :=
  r.Valid ∧ (∀ entry ∈ r.routes, entry.1 ∉ routes.map Prod.fst) ∧
    (r.fallbacks = [] ∨ fallbacks = [])

/-- A registration that fits adds its route or its fallback; the others leave an error. -/
theorem Table.register_cases (h : Table state routes fallbacks) (r : Registration) :
    (r.Fits routes fallbacks ∧ (register state r).setupError = state.setupError ∧
      Table (register state r) (routes ++ r.routes) (fallbacks ++ r.fallbacks)) ∨
    (¬ r.Fits routes fallbacks ∧ (register state r).setupError ≠ none) := by
  cases r with
  | fallback handler =>
    have hfits : (Registration.fallback handler).Fits routes fallbacks ↔ fallbacks = [] := by
      simp [Registration.Fits, Registration.Valid, Registration.routes, Registration.fallbacks]
    rw [hfits]
    cases hfall : state.fallback with
    | some old =>
      have hne : fallbacks ≠ [] := by
        rintro rfl
        simpa [hfall] using h.fallback
      exact .inr ⟨hne, by simp [register, httpStateRegister, hfall, HttpState.setError]⟩
    | none =>
      have hnil : fallbacks = [] := by simpa [hfall] using h.fallback.symm
      refine .inl ⟨hnil, by simp [register, httpStateRegister, hfall], ?_⟩
      simp only [register, httpStateRegister, hfall, isEmpty_nil, if_true, Registration.routes,
        append_nil, hnil]
      exact ⟨h.stored, h.keys, rfl⟩
  | route method supported reference handler =>
    have hmethod : method.bytes.isEmpty = false :=
      (by decide : ∀ m ∈ methods, m.bytes.isEmpty = false) method supported
    rw [register_route]
    by_cases href : IsReference reference.bytes
    · have hfits : (Registration.route method supported reference handler).Fits routes fallbacks ↔
          ⟨method, registeredPath reference href⟩ ∉ routes.map Prod.fst := by
        simp [Registration.Fits, Registration.Valid, Registration.routes, Registration.fallbacks,
          href]
      rw [hfits, ← h.any_routes_iff, dif_pos href, httpStateRegister, hmethod]
      simp only [Bool.false_eq_true, if_false]
      split_ifs with hany
      · exact .inr ⟨not_not.mpr hany, by simp [HttpState.setError]⟩
      refine .inl ⟨hany, rfl, ?_⟩
      rw [h.any_routes_iff] at hany
      simp only [Registration.routes, dif_pos href, Registration.fallbacks, append_nil]
      refine ⟨by simp [h.stored], ?_, h.fallback⟩
      rw [map_append]
      exact h.keys.append (nodup_singleton _) (disjoint_singleton.mpr hany)
    · rw [dif_neg href]
      exact .inr ⟨fun hfits => href hfits.1, by simp [HttpState.setError]⟩

/-- The references of the registrations are references, no two of them have one method and path, and
there is at most one fallback. -/
structure Consistent (regs : List Registration) : Prop where
  references : ∀ r ∈ regs, r.Valid
  keys : ((regs.flatMap Registration.routes).map Prod.fst).Nodup
  fallback : (regs.flatMap Registration.fallbacks).length ≤ 1

theorem consistent_concat {regs : List Registration} {r : Registration} :
    Consistent (regs ++ [r]) ↔ Consistent regs ∧
      r.Fits (regs.flatMap Registration.routes) (regs.flatMap Registration.fallbacks) := by
  have hroutes : (r.routes.map Prod.fst).Nodup ∧ r.fallbacks.length ≤ 1 := by
    cases r with
    | fallback handler => exact ⟨nodup_nil, le_rfl⟩
    | route method supported reference handler =>
      refine ⟨?_, Nat.zero_le _⟩
      by_cases href : IsReference reference.bytes
      · simp [Registration.routes, href]
      · simp [Registration.routes, href]
  have hlen : (regs.flatMap Registration.fallbacks).length + r.fallbacks.length ≤ 1 ↔
      (regs.flatMap Registration.fallbacks).length ≤ 1 ∧
        (r.fallbacks = [] ∨ regs.flatMap Registration.fallbacks = []) := by
    rw [← length_eq_zero_iff, ← length_eq_zero_iff]
    omega
  have hkeys : ((regs.flatMap Registration.routes).map Prod.fst ++ r.routes.map Prod.fst).Nodup ↔
      ((regs.flatMap Registration.routes).map Prod.fst).Nodup ∧
        ∀ entry ∈ r.routes, entry.1 ∉ (regs.flatMap Registration.routes).map Prod.fst := by
    rw [nodup_append, and_iff_right hroutes.1]
    refine and_congr_right fun _ => ⟨fun hne entry hentry hmem => ?_, fun hnew a ha b hb hab => ?_⟩
    · exact hne _ hmem _ (mem_map_of_mem hentry) rfl
    · obtain ⟨entry, hentry, rfl⟩ := mem_map.mp hb
      exact hnew entry hentry (hab ▸ ha)
  constructor
  · rintro ⟨href, hnodup, hfall⟩
    rw [flatMap_append, flatMap_singleton, map_append, hkeys] at hnodup
    rw [flatMap_append, flatMap_singleton, length_append, hlen] at hfall
    exact ⟨⟨fun r' hr' => href r' (mem_append_left _ hr'), hnodup.1, hfall.1⟩,
      href r (mem_append_right _ mem_cons_self), hnodup.2, hfall.2⟩
  · rintro ⟨hcons, hvalid, hnew, hfall⟩
    refine ⟨fun r' hr' => ?_, ?_, ?_⟩
    · rcases mem_append.mp hr' with hold | hlast
      · exact hcons.references r' hold
      · exact mem_singleton.mp hlast ▸ hvalid
    · rw [flatMap_append, flatMap_singleton, map_append, hkeys]
      exact ⟨hcons.keys, hnew⟩
    · rw [flatMap_append, flatMap_singleton, length_append, hlen]
      exact ⟨hcons.fallback, hfall⟩

/-- Consistent registrations make the table, and the others leave an error. -/
theorem Table.foldl_cases (h : Table state [] []) (regs : List Registration) :
    (Consistent regs ∧ (regs.foldl register state).setupError = state.setupError ∧
      Table (regs.foldl register state) (regs.flatMap Registration.routes)
        (regs.flatMap Registration.fallbacks)) ∨
    (¬ Consistent regs ∧ (regs.foldl register state).setupError ≠ none) := by
  induction regs using reverseRecOn with
  | nil => exact .inl ⟨⟨by simp, nodup_nil, Nat.zero_le _⟩, rfl, h⟩
  | append_singleton regs r ih =>
    rw [foldl_concat, consistent_concat, flatMap_append, flatMap_append, flatMap_singleton,
      flatMap_singleton]
    rcases ih with ⟨hcons, hsame, htab⟩ | ⟨hnot, herr⟩
    · rcases htab.register_cases r with ⟨hfits, hsame', htab'⟩ | ⟨hfits, herr⟩
      · exact .inl ⟨⟨hcons, hfits⟩, hsame'.trans hsame, htab'⟩
      · exact .inr ⟨fun hboth => hfits hboth.2, herr⟩
    · exact .inr ⟨fun hboth => hnot hboth.1, fun hnone => herr (setupError_register hnone)⟩

/-! ## The decision -/

/-- The last place of a route. -/
def hit (routes : List RouteKey) (path candidate : Str) : Option ℕ :=
  ((routes.zipIdx.filter fun route => route.1.path == path &&
    route.1.method == candidate).getLast?).map
    Prod.snd

/-- One more method of the list. -/
def allowNext (allow candidate : Str) : Str :=
  if allow = empty then candidate else allow ++ ascii ", " ++ candidate

section Dispatch

variable {keys : List RouteKey} {method path candidate : Str} {k : ℕ}

theorem getElem?_of_hit (h : hit keys path candidate = some k) :
    keys[k]? = some ⟨candidate, path⟩ := by
  obtain ⟨⟨⟨c, q⟩, j⟩, hlast, rfl⟩ := map_eq_some_iff.mp h
  obtain ⟨hmem, hkey⟩ := mem_filter.mp (mem_of_getLast? hlast)
  simp only [Bool.and_eq_true, beq_iff_eq] at hkey
  rw [← hkey.1, ← hkey.2]
  exact mem_zipIdx_iff_getElem?.mp hmem

theorem hit_isSome_iff : (hit keys path candidate).isSome = true ↔ ⟨candidate, path⟩ ∈ keys := by
  refine ⟨fun h => ?_, fun h => ?_⟩
  · obtain ⟨k, hk⟩ := isSome_iff_exists.mp h
    exact mem_of_getElem? (getElem?_of_hit hk)
  · obtain ⟨k, hk⟩ := mem_iff_getElem?.mp h
    rw [hit, isSome_map, isSome_iff_ne_none, Ne, getLast?_eq_none_iff]
    exact ne_nil_of_mem (a := (⟨candidate, path⟩, k))
      (mem_filter.mpr ⟨mem_zipIdx_iff_getElem?.mpr hk, by simp⟩)

theorem foldl_scanMethod : ∀ (candidates : List Str) (scan : RouteScan),
    candidates.foldl (scanMethod keys method path) scan =
      ⟨if method ∈ candidates then (hit keys path method).or scan.selected else scan.selected,
        scan.pathFound || candidates.any fun c => (hit keys path c).isSome,
        (candidates.filter fun c => (hit keys path c).isSome).foldl allowNext scan.allow⟩
  | [], scan => by simp
  | c :: candidates, scan => by
    have hscan : scanMethod keys method path scan c = (hit keys path c).elim scan fun k =>
        ⟨if method = c then some k else scan.selected, true, allowNext scan.allow c⟩ := by
      simp only [scanMethod, hit]
      cases (keys.zipIdx.filter fun route => route.1.path == path &&
        route.1.method == c).getLast? <;> rfl
    rw [foldl_cons, foldl_scanMethod candidates, hscan]
    by_cases hc : method = c
    · subst hc
      cases hhit : hit keys path method <;> simp [hhit]
    · cases hhit : hit keys path c <;> simp [hhit, hc]

theorem dispatch_eq {hasFallback : Bool} : dispatch keys hasFallback method path =
    match if method ∈ methods then hit keys path method else none with
    | some k => .handler k
    | none =>
      if ∃ m ∈ methods, ⟨m, path⟩ ∈ keys then
        .methodNotAllowed ((methods.filter fun m => ⟨m, path⟩ ∈ keys).foldl allowNext empty)
      else if method ∉ methods then .methodNotAllowed (ascii "GET, POST, PUT, DELETE")
      else if hasFallback then .fallback else .notFound := by
  have hhit : ∀ m, (hit keys path m).isSome = decide (⟨m, path⟩ ∈ keys) := fun m =>
    Bool.eq_iff_iff.mpr (hit_isSome_iff.trans decide_eq_true_iff.symm)
  have hmethods : [ascii "GET", ascii "POST", ascii "PUT", ascii "DELETE"] = methods := rfl
  have hfound : (methods.any fun m => decide (⟨m, path⟩ ∈ keys)) = true ↔
      ∃ m ∈ methods, ⟨m, path⟩ ∈ keys := by
    simp
  have hother : (!supportedMethod method) = true ↔ method ∉ methods := by
    simp [supportedMethod, hmethods]
  simp only [dispatch, hmethods, foldl_scanMethod, or_none, Bool.false_or, hhit]
  cases if method ∈ methods then hit keys path method else none with
  | some k => rfl
  | none => exact if_congr hfound rfl (if_congr hother rfl rfl)

end Dispatch

/-- The methods, one after the other. -/
def allowText (methods : List Str) : Bytes := intercalate (asciiBytes ", ") (methods.map Str.bytes)

theorem foldl_allowNext : ∀ (methods : List Str) {allow : Str}, allow ≠ empty →
    (methods.foldl allowNext allow).bytes = allowText (allow :: methods)
  | [], _, _ => by simp [allowText]
  | m :: methods, allow, h => by
    rw [foldl_cons, allowNext, if_neg h,
      foldl_allowNext methods (append_ne_empty (append_ne_empty h _) _)]
    have hbytes : (allow ++ ascii ", " ++ m).bytes = allow.bytes ++ asciiBytes ", " ++ m.bytes :=
        rfl
    cases methods <;> simp [allowText, hbytes, intercalate_cons_cons]

theorem allow_bytes {methods : List Str} (h : ∀ m ∈ methods, m ≠ empty) :
    (methods.foldl allowNext empty).bytes = allowText methods := by
  cases methods with
  | nil => rfl
  | cons m methods => exact foldl_allowNext methods (h m mem_cons_self)

/-- `http_connection_handler` calls the function of the handler's name for the selection. -/
def Selects (state : HttpState) (selected : Option ℕ) (handler : Str) : Prop :=
  ∀ (H : Type) (S : Services H) (p : Vm.Program) (args : List Value) (host : H)
    (context : Option Value) (target : Vm.Function),
    S.liveConnection (argument args 0) host =
      .ok ⟨true, state.fallback, state.routes.map (·.handler), context⟩ →
    (match selected with
      | none => argument args 1 = .variant (asciiBytes "None") []
      | some k => ∃ v, argument args 1 = .variant (asciiBytes "Some") [v] ∧ valueIndex v = some k) →
    p.functions.find? (fun f => f.namedBy handler.bytes) = some target →
    target.isAsync = true ∧ target.pure = false ∧ target.params.length = context.toList.length + 2 →
    httpConnectionHandler S p args host =
      .ok (target, context.toList ++ [argument args 2, argument args 3])

theorem selects_of {handler : Str} : ∀ {selected : Option ℕ}, (match selected with
      | none => state.fallback
      | some k => state.routes[k]?.map (·.handler)) = some (.str handler.bytes) →
    Selects state selected handler
  | none, h => by
    intro H S p args host context target hlive hargs hfind ⟨hasync, hpure, harity⟩
    simp only at h hargs
    cases context <;> simp [httpConnectionHandler, hlive, hargs, h, hfind, hasync, hpure, harity]
  | some k, h => by
    rintro H S p args host context target hlive ⟨v, hargs, hindex⟩ hfind ⟨hasync, hpure, harity⟩
    have hne : asciiBytes "Some" ≠ asciiBytes "None" := by decide
    have hv : argument [v] 0 = v := rfl
    simp only at h
    cases context <;> simp [httpConnectionHandler, hlive, hargs, h, hfind, hasync, hpure, harity,
      hne, hv,
      hindex]

/-- The text of a field of `connection_routes`. -/
def valueText : Value → Str
  | .str data => decodeUtf8 data
  | _ => empty

/-- The methods and paths of routes. -/
def routeKeys (routes : List HttpRoute) : List RouteKey :=
  routes.map fun route => ⟨valueText route.method, valueText route.path⟩

theorem Table.routeKeys (h : Table state routes fallbacks) :
    routeKeys state.routes = routes.map Prod.fst := by
  have htext : ∀ s : Str, valueText (.str s.bytes) = s := fun s => dif_pos s.valid
  rw [h.stored, Http.routeKeys, List.map_map]
  exact map_congr_left fun entry _ => by simp [htext]

theorem table_httpStateCreate (address port context : Value) :
    Table (httpStateCreate address port context) [] [] := by
  unfold httpStateCreate
  dsimp only
  split <;> split_ifs <;> exact ⟨rfl, nodup_nil, rfl⟩

/-- The registrations leave no error exactly when they are consistent; then the decision of
`dispatch` and the callback of `http_connection_handler` are those of the registered routes and
fallback. -/
theorem routing_exact (address port context : Value) (regs : List Registration)
    (method path : Str) :
    let state := regs.foldl register (httpStateCreate address port context)
    let routes := regs.flatMap Registration.routes
    let keys := routes.map Prod.fst
    let decision := dispatch (routeKeys state.routes) state.fallback.isSome method path
    (state.setupError = none ↔
      (httpStateCreate address port context).setupError = none ∧ Consistent regs) ∧
    (state.setupError = none →
      (∀ handler, method ∈ methods → (⟨method, path⟩, handler) ∈ routes →
        ∃ k, decision = .handler k ∧ Selects state (some k) handler) ∧
      ((method ∈ methods → ⟨method, path⟩ ∉ keys) → if ∃ m ∈ methods, ⟨m, path⟩ ∈ keys then
          ∃ allow, decision = .methodNotAllowed allow ∧
            allow.bytes = allowText (methods.filter fun m => ⟨m, path⟩ ∈ keys)
        else if method ∉ methods then decision = .methodNotAllowed (ascii "GET, POST, PUT, DELETE")
        else if regs.flatMap Registration.fallbacks ≠ [] then decision = .fallback
        else decision = .notFound) ∧
      ∀ handler ∈ regs.flatMap Registration.fallbacks, Selects state none handler) := by
  intro state routes keys decision
  have hcases := (table_httpStateCreate address port context).foldl_cases regs
  refine ⟨?_, fun h => ?_⟩
  · rcases hcases with ⟨hcons, hsame, -⟩ | ⟨hnot, herr⟩
    · rw [hsame, and_iff_left hcons]
    · exact iff_of_false herr fun hboth => hnot hboth.2
  have htab : Table state routes (regs.flatMap Registration.fallbacks) :=
    hcases.elim (fun hok => hok.2.2) fun hbad => absurd h hbad.2
  have hdec : decision = dispatch keys state.fallback.isSome method path :=
    congrArg (dispatch · _ _ _) htab.routeKeys
  refine ⟨fun handler hmem hroute => ?_, fun hnone => ?_, fun handler hmem => selects_of ?_⟩
  · obtain ⟨k, hk⟩ :=
      isSome_iff_exists.mp (hit_isSome_iff.mpr (mem_map_of_mem (f := Prod.fst) hroute))
    obtain ⟨entry, hentry, hkey⟩ := map_eq_some_iff.mp (getElem?_map .. ▸ getElem?_of_hit hk)
    have hsame := inj_on_of_nodup_map htab.keys (mem_of_getElem? hentry) hroute hkey
    refine ⟨k, ?_, selects_of (by simp [htab.stored, hentry, hsame])⟩
    rw [hdec, dispatch_eq, if_pos hmem, hk]
  · have hsel : (if method ∈ methods then hit keys path method else none) = none := by
      refine ite_eq_right_iff.mpr fun hmem => ?_
      rw [← not_isSome_iff_eq_none, hit_isSome_iff]
      exact hnone hmem
    have hsome : state.fallback.isSome = true ↔ regs.flatMap Registration.fallbacks ≠ [] := by
      rw [isSome_iff_ne_none, Ne, ← toList_eq_nil_iff, htab.fallback, map_eq_nil_iff]
    simp only [hdec, dispatch_eq, hsel, hsome]
    split_ifs
    · exact ⟨_, rfl, allow_bytes fun m hm =>
        (by decide : ∀ m ∈ methods, m ≠ empty) m (mem_of_mem_filter hm)⟩
    · rfl
    · rfl
    · rfl
  · rw [← mem_toList, htab.fallback]
    exact mem_map_of_mem hmem

/-- Two routes on one path, whose references go on after it, and a fallback. -/
theorem routing_exact_get :
    let regs := [.route (ascii "GET") (by decide) (ascii "/a?q") (ascii "f"),
      .route (ascii "PUT") (by decide) (ascii "/a#s") (ascii "h"), .fallback (ascii "g")]
    let state :=
      regs.foldl register (httpStateCreate (.str (asciiBytes "1.1.1.1")) (Vm.valueSize 80) .unit)
    ∃ k, dispatch (routeKeys state.routes) state.fallback.isSome (ascii "PUT") (ascii "/a") =
      .handler k ∧ Selects state (some k) (ascii "h") :=
  ((routing_exact _ _ _ _ _ _).2 (by decide +kernel)).1 _ (by decide) (by decide +kernel)

end Panackelty.Http
