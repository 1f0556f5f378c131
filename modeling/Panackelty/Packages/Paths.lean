import Mathlib.Data.List.Induction
import Panackelty.Packages.TarStream

/-!
# Paths in a package

What the segments of a path say about it, and that `normalize_package_path` only lets through paths
that name something beneath the directory they are read in (`normalizePackagePath_wellFormed`).  For
such a path a stage works at exactly the segments of the path (`stageParent_eq`).
-/

namespace Panackelty.Packages

open List

/-! ## Segments -/

theorem segments_ne_nil (path : Bytes) : segments path ≠ [] := List.splitOn_ne_nil _ _

theorem intercalate_segments (path : Bytes) : [47].intercalate (segments path) = path :=
  intercalate_splitOn 47

theorem segments_injective : Function.Injective segments := fun path path' h => by
  rw [← intercalate_segments path, h, intercalate_segments]

theorem segments_append (path rest : Bytes) :
    segments (path ++ 47 :: rest) = segments path ++ segments rest :=
  splitOn_append_cons_self ..

theorem mem_of_mem_segments {path seg : Bytes} (h : seg ∈ segments path) :
    47 ∉ seg ∧ ∀ b ∈ seg, b ∈ path := by
  induction path generalizing seg with
  | nil =>
    rw [segments, splitOn_nil, mem_singleton] at h
    subst h
    exact ⟨not_mem_nil, fun b hb => absurd hb not_mem_nil⟩
  | cons b path ih =>
    rw [segments, splitOn_cons_eq_if_modifyHead] at h
    split at h
    · rcases mem_cons.mp h with rfl | h
      · exact ⟨not_mem_nil, fun b hb => absurd hb not_mem_nil⟩
      · obtain ⟨hslash, hmem⟩ := ih h
        exact ⟨hslash, fun c hc => mem_cons_of_mem _ (hmem c hc)⟩
    rename_i hb
    have hb : b ≠ 47 := by simpa using hb
    -- the first seg takes the byte, and the others stay
    obtain ⟨first, others, hsegs⟩ := exists_cons_of_ne_nil (segments_ne_nil path)
    rw [show splitOn 47 path = first :: others from hsegs, modifyHead_cons] at h
    rcases mem_cons.mp h with rfl | h
    · obtain ⟨hslash, hmem⟩ := ih (by rw [hsegs]; exact mem_cons_self)
      refine ⟨?_, ?_⟩
      · rw [mem_cons, not_or]
        exact ⟨hb.symm, hslash⟩
      intro c hc
      rcases mem_cons.mp hc with rfl | hc
      · exact mem_cons_self
      · exact mem_cons_of_mem _ (hmem c hc)
    · obtain ⟨hslash, hmem⟩ := ih (by rw [hsegs]; exact mem_cons_of_mem _ h)
      exact ⟨hslash, fun c hc => mem_cons_of_mem _ (hmem c hc)⟩

theorem mem_intercalate {α : Type} {a b : α} {parts : List (List α)}
    (h : b ∈ [a].intercalate parts) :
    b = a ∨ ∃ part ∈ parts, b ∈ part := by
  induction parts with
  | nil => exact absurd h not_mem_nil
  | cons part parts ih =>
    rcases parts with _ | ⟨next, parts⟩
    · rw [intercalate_singleton] at h
      exact .inr ⟨part, mem_cons_self, h⟩
    rw [intercalate_cons_cons] at h
    rcases mem_append.mp h with h | h
    · rcases mem_append.mp h with h | h
      · exact .inr ⟨part, mem_cons_self, h⟩
      · exact .inl (mem_singleton.mp h)
    · rcases ih h with h | ⟨found, hfound, h⟩
      · exact .inl h
      · exact .inr ⟨found, mem_cons_of_mem _ hfound, h⟩

/-! ## Paths beneath a directory -/

/-- A relative path without empty, `.` and `..` segments and without NUL, backslash and colon. -/
structure WellFormedPath (path : Bytes) : Prop where
  segment : ∀ segment ∈ segments path,
    segment ≠ [] ∧ segment ≠ Str.asciiBytes "." ∧ segment ≠ Str.asciiBytes ".."
  byte : 0 ∉ path ∧ 92 ∉ path ∧ 58 ∉ path

namespace WellFormedPath

variable {path rest : Bytes}

theorem head?_ne (h : WellFormedPath path) : path.head? ≠ some 47 := by
  intro hhead
  obtain ⟨rest, rfl⟩ : ∃ rest, path = 47 :: rest := by
    cases path with
    | nil => cases hhead
    | cons b rest =>
      cases hhead
      exact ⟨rest, rfl⟩
  exact (h.segment [] (by rw [← nil_append (47 :: rest), segments_append]; simp [segments])).1 rfl

theorem ancestor (h : WellFormedPath (path ++ 47 :: rest)) : WellFormedPath path := by
  refine ⟨fun seg hseg => h.segment seg ?_, ?_⟩
  · rw [segments_append]
    exact mem_append_left _ hseg
  · obtain ⟨hnul, hbs, hcolon⟩ := h.byte
    exact ⟨fun hb => hnul (mem_append_left _ hb), fun hb => hbs (mem_append_left _ hb),
      fun hb => hcolon (mem_append_left _ hb)⟩

end WellFormedPath

/-- A problem that was found stays one, and a forbidden byte is one. -/
theorem forbiddenByte_none {value : Bytes} (h : forbiddenByte value = none) :
    0 ∉ value ∧ 92 ∉ value ∧ 58 ∉ value := by
  unfold forbiddenByte at h
  induction value using reverseRecOn with
  | nil => exact ⟨not_mem_nil, not_mem_nil, not_mem_nil⟩
  | append_singleton value b ih =>
    rw [foldl_append, foldl_cons, foldl_nil] at h
    split_ifs at h with hnul hbs hcolon
    obtain ⟨hnul', hbs', hcolon'⟩ := ih h
    have hlast : ∀ c ∉ value, b ≠ c → c ∉ value ++ [b] := fun c hc hb hmem => by
      rcases mem_append.mp hmem with hmem | hmem
      · exact hc hmem
      · exact hb (mem_singleton.mp hmem).symm
    exact ⟨hlast 0 hnul' fun hb => hnul (by rw [hb]; rfl),
      hlast 92 hbs' fun hb => hbs (by rw [hb]; rfl),
      hlast 58 hcolon' fun hb => hcolon (by rw [hb]; rfl)⟩

theorem pathProblem_none {value : Bytes} (h : pathProblem value = none) :
    Str.asciiBytes ".." ∉ segments value ∧ 0 ∉ value ∧ 92 ∉ value ∧ 58 ∉ value := by
  unfold pathProblem at h
  split at h
  · cases h
  rename_i hpar
  split at h
  · cases h
  · rename_i hbyte
    exact ⟨by simpa using hpar, forbiddenByte_none hbyte⟩

theorem normalizePackagePath_wellFormed {value path : Bytes}
    (h : normalizePackagePath value = .ok path) : WellFormedPath path := by
  unfold normalizePackagePath at h
  split at h
  · cases h
  rename_i hprob
  obtain ⟨hpar, hbytes⟩ := pathProblem_none hprob
  simp only at h
  split_ifs at h with hemp
  cases h
  have hkept : ∀ seg ∈ keptSegments value,
      seg ∈ segments value ∧ seg ≠ [] ∧ seg ≠ Str.asciiBytes "." := by
    intro seg hseg
    obtain ⟨hmem, htest⟩ := mem_filter.mp hseg
    rw [Bool.and_eq_true, bne_iff_ne, bne_iff_ne] at htest
    exact ⟨hmem, htest⟩
  have hsegs : segments ([47].intercalate (keptSegments value)) = keptSegments value := by
    refine splitOn_intercalate 47 ?_ ?_
    · intro seg hseg
      exact (mem_of_mem_segments (hkept seg hseg).1).1
    · intro hnil
      exact hemp (by rw [hnil]; rfl)
  have hbyte : ∀ b, b ≠ 47 → b ∉ value → b ∉ [47].intercalate (keptSegments value) := by
    intro b hslash hb hmem
    rcases mem_intercalate hmem with h | ⟨seg, hseg, h⟩
    · exact hslash h
    · exact hb ((mem_of_mem_segments (hkept seg hseg).1).2 b h)
  refine ⟨?_, hbyte 0 (by decide) hbytes.1, hbyte 92 (by decide) hbytes.2.1,
    hbyte 58 (by decide) hbytes.2.2⟩
  intro seg hseg
  rw [hsegs] at hseg
  obtain ⟨hmem, hne, hdot⟩ := hkept seg hseg
  exact ⟨hne, hdot, fun hup => hpar (hup ▸ hmem)⟩

theorem tarNormalizePath_wellFormed {value path : Bytes} (h : tarNormalizePath value = .ok path) :
    WellFormedPath path := by
  unfold tarNormalizePath at h
  split at h
  · rename_i found hfound
    cases h
    exact normalizePackagePath_wellFormed hfound
  · cases h

/-- The directories that a path lies in end before one of its slashes. -/
theorem mem_parents {path parent : Bytes} :
    parent ∈ parents path ↔ ∃ rest, path = parent ++ 47 :: rest := by
  unfold parents
  rw [mem_map]
  constructor
  · rintro ⟨index, hidx, rfl⟩
    rw [mem_filter, mem_range, beq_iff_eq] at hidx
    refine ⟨path.drop (index + 1), ?_⟩
    rw [← hidx.2, getD_eq_getElem _ _ hidx.1, ← drop_eq_getElem_cons hidx.1, take_append_drop]
  · rintro ⟨rest, rfl⟩
    refine ⟨parent.length, mem_filter.mpr ⟨?_, ?_⟩, take_left ..⟩
    · rw [mem_range, length_append, length_cons]
      omega
    · rw [getD_append_right _ _ _ _ le_rfl, Nat.sub_self, getD_cons_zero]
      rfl

/-! ## Where a stage works -/

theorem stageWalk_eq {stage : Stage} {parts cur parent : List Bytes}
    (hparts : ∀ part ∈ parts, part ≠ [] ∧ part ≠ Str.asciiBytes ".")
    (h : stageWalk stage parts cur = some parent) : parent = cur ++ parts := by
  induction parts generalizing cur with
  | nil =>
    cases h
    exact (append_nil _).symm
  | cons part parts ih =>
    obtain ⟨hne, hdot⟩ := hparts part mem_cons_self
    rw [stageWalk, if_neg (not_or.mpr ⟨hne, hdot⟩)] at h
    split at h
    · cases h
    split at h
    · have hpar := ih (fun part' hpart' => hparts part' (mem_cons_of_mem _ hpart')) h
      rw [hpar, append_assoc, singleton_append]
    · cases h

theorem stageParent_eq {stage : Stage} {path leaf : Bytes} {parent : List Bytes}
    (hpath : WellFormedPath path) (h : stageParent stage path = .ok (parent, leaf)) :
    parent ++ [leaf] = segments path := by
  unfold stageParent at h
  split_ifs at h
  simp only at h
  split_ifs at h
  split at h
  · cases h
  rename_i found hwalk
  cases h
  have hparts : ∀ part ∈ (segments path).dropLast, part ≠ [] ∧ part ≠ Str.asciiBytes "." := by
    intro part hpart
    obtain ⟨hne, hdot, _⟩ := hpath.segment part ((dropLast_sublist _).subset hpart)
    exact ⟨hne, hdot⟩
  rw [stageWalk_eq hparts hwalk, nil_append,
    getLastD_eq_getLast?, getLast?_eq_some_getLast (segments_ne_nil path)]
  exact dropLast_append_getLast (segments_ne_nil path)

end Panackelty.Packages
