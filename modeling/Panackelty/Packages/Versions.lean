import Mathlib.Data.List.TakeWhile
import Panackelty.Packages.Paths

/-!
# Package names and versions

`project_model/package_manifest.panack`: the loops that check a package name and a version go
through the text once and look at each segment when a dot or the end comes.  Text is given by its
characters.

* `segmentLoop_eq_some_iff`: such a loop checks the segments between the dots.
* `manifestNames_exact`: the names and the versions that are accepted.
-/

namespace Panackelty.Packages

open List

/-- `manifest_ascii_letter`. -/
def manifestAsciiLetter (c : Char) : Bool := ('a' ≤ c && c ≤ 'z') || ('A' ≤ c && c ≤ 'Z')

/-- `manifest_ascii_digit`. -/
def manifestAsciiDigit (c : Char) : Bool := '0' ≤ c && c ≤ '9'

/-- A character of an identifier after the first. -/
def identifierPart (c : Char) : Bool := manifestAsciiLetter c || manifestAsciiDigit c || c == '_'

/-- `manifest_identifier`. -/
def manifestIdentifier : List Char → Bool
  | [] => false
  | first :: rest => (manifestAsciiLetter first || first == '_') && rest.all identifierPart

/-- The loop over a text with its check for a character and its check for the segment before a dot
or the end; the number of segments if all checks succeed. -/
def segmentLoop (part : Char → Bool) (check : List Char → Bool) :
    List Char → List Char → ℕ → Option ℕ
  | [], segment, components => if check segment then some (components + 1) else none
  | c :: rest, segment, components =>
    if c = '.' then if check segment then segmentLoop part check rest [] (components + 1) else none
    else if part c then segmentLoop part check rest (segment ++ [c]) components else none

/-- `manifest_package_name`. -/
def manifestPackageName (value : List Char) : Bool :=
  value != [] && (segmentLoop identifierPart manifestIdentifier value [] 0).isSome

/-- More digits than one, the first of them a zero. -/
def leadingZero (segment : List Char) : Bool := 1 < segment.length && segment.head? == some '0'

/-- `manifest_numeric_version_part`. -/
def manifestNumericVersionPart (segment : List Char) : Bool :=
  segment != [] && !leadingZero segment && segment.all manifestAsciiDigit

/-- `manifest_prerelease_part`. -/
def manifestPrereleasePart (value : List Char) : Bool :=
  value != [] && (segmentLoop (fun c => manifestAsciiLetter c || manifestAsciiDigit c || c == '-')
    (fun segment => segment != [] && !(segment.all manifestAsciiDigit && leadingZero segment))
    value [] 0).isSome

/-- The first dash ends the three numbers; no plus sign comes before it. -/
def manifestSemver (value : List Char) : Bool :=
  let core := value.takeWhile (· != '-')
  !core.contains '+' && segmentLoop (fun _ => true) manifestNumericVersionPart core
    [] 0 == some 3 &&
    match value.dropWhile (· != '-') with
    | [] => true
    | _ :: prerelease => manifestPrereleasePart prerelease

/-! ## Segments -/

variable {value : List Char}

theorem segmentLoop_eq_some_iff {part : Char → Bool} {check : List Char → Bool} {n m : ℕ}
    {seg : List Char} (hdot : '.' ∉ seg) (hseg : ∀ c ∈ seg, part c = true) :
    segmentLoop part check value seg n = some m ↔
      (∀ s ∈ (seg ++ value).splitOn '.', check s = true ∧ ∀ c ∈ s, part c = true) ∧
        n + ((seg ++ value).splitOn '.').length = m := by
  induction value generalizing seg n with
  | nil =>
    rw [append_nil, splitOn_eq_singleton hdot, segmentLoop, forall_mem_singleton]
    split_ifs with hcheck
    · rw [and_iff_right ⟨hcheck, hseg⟩, Option.some_inj]
      rfl
    · simp [hcheck]
  | cons c rest ih =>
    rw [segmentLoop]
    split_ifs with hc hcheck hpart
    · subst hc
      rw [ih not_mem_nil (by simp), nil_append, splitOn_append_cons_self, splitOn_eq_singleton hdot,
        singleton_append, forall_mem_cons, length_cons, Nat.add_assoc, Nat.add_comm 1]
      exact and_congr_left fun _ => (and_iff_right ⟨hcheck, hseg⟩).symm
    · subst hc
      rw [splitOn_append_cons_self, splitOn_eq_singleton hdot, singleton_append, forall_mem_cons]
      simp [hcheck]
    · rw [ih, append_assoc, singleton_append]
      · simp [hdot, Ne.symm hc]
      · simpa [or_imp, forall_and] using ⟨hseg, hpart⟩
    · refine iff_of_false (by simp) fun h => hpart ?_
      have hmem : c ∈ ['.'].intercalate ((seg ++ c :: rest).splitOn '.') := by
        simp [intercalate_splitOn]
      obtain ⟨s, hs, hc⟩ := (mem_intercalate hmem).resolve_left hc
      exact (h.1 s hs).2 c hc

/-! ## Names and versions -/

/-- A letter or an underscore, and then letters, digits and underscores. -/
def Identifier (s : List Char) : Prop :=
  ∃ first rest, s = first :: rest ∧ (manifestAsciiLetter first = true ∨ first = '_') ∧
    ∀ c ∈ rest, manifestAsciiLetter c = true ∨ manifestAsciiDigit c = true ∨ c = '_'

/-- A zero is not followed by other digits. -/
def Unpadded (s : List Char) : Prop := s.head? = some '0' → s = ['0']

def NumericIdentifier (s : List Char) : Prop :=
  s ≠ [] ∧ (∀ c ∈ s, manifestAsciiDigit c = true) ∧ Unpadded s

/-- Letters, digits and hyphens; a number has no leading zero. -/
def PrereleaseIdentifier (s : List Char) : Prop :=
  s ≠ [] ∧ (∀ c ∈ s, manifestAsciiLetter c = true ∨ manifestAsciiDigit c = true ∨ c = '-') ∧
    ((∀ c ∈ s, manifestAsciiDigit c = true) → Unpadded s)

/-- A text of identifiers with dots between them. -/
def Dotted (identifier : List Char → Prop) (value : List Char) : Prop :=
  ∃ parts, parts ≠ [] ∧ (∀ s ∈ parts, identifier s) ∧ value = ['.'].intercalate parts

/-- Three numbers, and perhaps a dash and prerelease identifiers. -/
def SemanticVersion (value : List Char) : Prop :=
  ∃ major minor patch, NumericIdentifier major ∧ NumericIdentifier minor ∧ NumericIdentifier patch ∧
    (value = major ++ '.' :: (minor ++ '.' :: patch) ∨ ∃ prerelease,
      Dotted PrereleaseIdentifier prerelease ∧
      value = major ++ '.' :: (minor ++ '.' :: patch) ++ '-' :: prerelease)

variable {s : List Char}

theorem leadingZero_eq_false_iff : leadingZero s = false ↔ Unpadded s := by
  rcases s with _ | ⟨c, _ | ⟨d, s⟩⟩ <;> simp [leadingZero, Unpadded]

theorem numericVersionPart_iff : manifestNumericVersionPart s = true ↔ NumericIdentifier s := by
  simp [manifestNumericVersionPart, NumericIdentifier, leadingZero_eq_false_iff, and_assoc,
    and_comm]

theorem manifestIdentifier_iff : manifestIdentifier s = true ↔ Identifier s := by
  rcases s with _ | ⟨c, s⟩ <;> simp [manifestIdentifier, Identifier, identifierPart, or_assoc]

theorem isSome_segmentLoop_iff {part : Char → Bool} {check : List Char → Bool}
    {P : List Char → Prop} (hP : ∀ s, (check s = true ∧ ∀ c ∈ s, part c = true) ↔ P s)
    (hdot : part '.' = false) (hemp : check [] = false) :
    (value != [] && (segmentLoop part check value [] 0).isSome) = true ↔ Dotted P value := by
  have hsome : (segmentLoop part check value [] 0).isSome = true → (value != []) = true := by
    rcases value with _ | ⟨c, value⟩ <;> simp [segmentLoop, hemp]
  rw [Bool.and_eq_true, and_iff_right_of_imp hsome, Option.isSome_iff_exists]
  constructor
  · rintro ⟨n, h⟩
    obtain ⟨hs, -⟩ := (segmentLoop_eq_some_iff not_mem_nil (by simp)).mp h
    exact ⟨_, splitOn_ne_nil _ _, fun s hmem => (hP s).mp (hs s hmem), (intercalate_splitOn _).symm⟩
  · rintro ⟨parts, hne, hparts, rfl⟩
    refine ⟨_, (segmentLoop_eq_some_iff not_mem_nil (by simp)).mpr ⟨fun s hs => (hP s).mpr ?_, rfl⟩⟩
    rw [nil_append, splitOn_intercalate '.' (fun s hs hmem => ?_) hne] at hs
    · exact hparts s hs
    · exact Bool.false_ne_true (hdot.symm.trans (((hP s).mpr (hparts s hs)).2 '.' hmem))

theorem segmentLoop_numeric_iff {core : List Char} :
    segmentLoop (fun _ => true) manifestNumericVersionPart core [] 0 = some 3 ↔
      ∃ major minor patch, (NumericIdentifier major ∧ NumericIdentifier minor ∧
        NumericIdentifier patch) ∧
        core = major ++ '.' :: (minor ++ '.' :: patch) := by
  rw [segmentLoop_eq_some_iff not_mem_nil (by simp), nil_append, Nat.zero_add]
  constructor
  · rintro ⟨hs, hlen⟩
    obtain ⟨major, minor, patch, hsplit⟩ := length_eq_three.mp hlen
    have hcore := @intercalate_splitOn _ core _ _ '.'
    rw [hsplit] at hs hcore
    exact ⟨major, minor, patch, by simpa [numericVersionPart_iff]
      using hs, by simpa using hcore.symm⟩
  · rintro ⟨major, minor, patch, h, rfl⟩
    have hdot {s : List Char} (hs : NumericIdentifier s) : '.' ∉ s := fun hmem =>
      absurd (hs.2.1 '.' hmem) (by decide)
    rw [splitOn_append_cons_self, splitOn_append_cons_self, splitOn_eq_singleton (hdot h.1),
      splitOn_eq_singleton (hdot h.2.1), splitOn_eq_singleton (hdot h.2.2)]
    simpa [numericVersionPart_iff] using h

theorem manifestPrereleasePart_iff :
    manifestPrereleasePart value = true ↔ Dotted PrereleaseIdentifier value := by
  refine isSome_segmentLoop_iff (fun s => ?_) (by decide) rfl
  simp only [PrereleaseIdentifier, ← leadingZero_eq_false_iff]
  cases leadingZero s <;> simp [and_assoc, and_comm, or_assoc]

/-- The texts that are accepted are exactly the semantic versions without build metadata, and
exactly the identifiers with dots between them. -/
theorem manifestNames_exact (value : List Char) :
    (manifestSemver value = true ↔ SemanticVersion value) ∧
      (manifestPackageName value = true ↔ Dotted Identifier value) := by
  constructor
  · rw [manifestSemver, Bool.and_eq_true, Bool.and_eq_true, beq_iff_eq, segmentLoop_numeric_iff]
    constructor
    · rintro ⟨⟨-, major, minor, patch, h, hcore⟩, hrest⟩
      have hval := takeWhile_append_dropWhile (p := (· != '-')) (l := value)
      have hstop := head?_dropWhile_not (· != '-') value
      rw [hcore] at hval
      refine ⟨major, minor, patch, h.1, h.2.1, h.2.2, ?_⟩
      rcases hdash : value.dropWhile (· != '-') with _ | ⟨b, prerelease⟩
      · rw [hdash, append_nil] at hval
        exact .inl hval.symm
      · rw [hdash] at hval hrest hstop
        obtain rfl : b = '-' := by simpa using hstop
        exact .inr ⟨prerelease, manifestPrereleasePart_iff.mp hrest, hval.symm⟩
    · rintro ⟨major, minor, patch, hmajor, hminor, hpatch, hval⟩
      have hfree : ∀ c ∈ major ++ '.' :: (minor ++ '.' :: patch), c ≠ '-' ∧ c ≠ '+' := by
        have hdig {s : List Char} (hs : NumericIdentifier s) : ∀ c ∈ s, c ≠ '-' ∧ c ≠ '+' := by
          intro c hc
          constructor <;> rintro rfl <;> exact absurd (hs.2.1 _ hc) (by decide)
        simp only [forall_mem_append, forall_mem_cons]
        exact ⟨hdig hmajor, by decide, hdig hminor, by decide, hdig hpatch⟩
      have hdash : ∀ c ∈ major ++ '.' :: (minor ++ '.' :: patch), (c != '-') = true := fun c hc =>
        bne_iff_ne.mpr (hfree c hc).1
      have hplus : (!(major ++ '.' :: (minor ++ '.' :: patch)).contains '+') = true := by
        rw [Bool.not_eq_true', ← Bool.not_eq_true, contains_iff_mem]
        exact fun hmem => (hfree _ hmem).2 rfl
      rcases hval with rfl | ⟨prerelease, hpre, rfl⟩
      · rw [takeWhile_eq_self_iff.mpr hdash, dropWhile_eq_nil_iff.mpr hdash]
        exact ⟨⟨hplus, major, minor, patch, ⟨hmajor, hminor, hpatch⟩, rfl⟩, rfl⟩
      · rw [takeWhile_append_of_pos hdash, dropWhile_append_of_pos hdash,
          takeWhile_cons_of_neg (by decide), append_nil]
        exact ⟨⟨hplus, major, minor, patch, ⟨hmajor, hminor, hpatch⟩, rfl⟩,
          manifestPrereleasePart_iff.mpr hpre⟩
  · refine isSome_segmentLoop_iff (fun s => ?_) (by decide) rfl
    rw [manifestIdentifier_iff]
    refine and_iff_left_of_imp ?_
    rintro ⟨first, rest, rfl, hfirst, hrest⟩
    simp only [identifierPart, Bool.or_eq_true, beq_iff_eq, forall_mem_cons, or_assoc]
    exact ⟨hfirst.imp_right .inr, hrest⟩

end Panackelty.Packages
