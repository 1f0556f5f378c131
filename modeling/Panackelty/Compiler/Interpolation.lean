import Panackelty.Codepoints
import Panackelty.Compiler.Emitter

/-!
# Literals with variables

The parts and names of a literal are cut from its text at ASCII characters, so they are texts
(`splitLoop_spec`), and they join to the text that they were cut from (`assembled_split`).
-/

namespace Panackelty.Compiler

open Bytecode List
open String (utf8EncodeChar)

/-- The token with these characters between the quotes. -/
def quoted (inner : List Char) : Str := ⟨encodeUtf8 ('"' :: inner ++ ['"']), utf8_encodeUtf8 _⟩

/-- The parts of a literal with what stands for the variables between them. -/
def assembled {α : Type} (render : α → Bytes) : List Str → List α → Bytes
  | [], _ => []
  | part :: parts, [] => part.bytes ++ assembled render parts []
  | part :: parts, value :: values => part.bytes ++ render value ++ assembled render parts values

/-- A variable as the literal has it. -/
def variableText (name : Str) : Bytes := 36 :: 123 :: name.bytes ++ [125]

/-! ## Texts cut at ASCII characters -/

/-- An ASCII byte is a character of its own. -/
theorem utf8EncodeChar_of_mem {b : UInt8} {c : Char} (h : b ∈ utf8EncodeChar c)
    (hb : b.toNat < 128) :
    utf8EncodeChar c = [b] ∧ c.toNat = b.toNat := by
  rcases utf8EncodeChar_cases c with ⟨b0, he, hv, h0⟩ | ⟨b0, b1, he, hv, h0, h1⟩ |
    ⟨b0, b1, b2, he, hv, h0, h1, h2⟩ | ⟨b0, b1, b2, b3, he, hv, h0, h1, h2, h3⟩ <;>
  simp only [he, mem_cons, not_mem_nil, or_false] at h
  · rw [he, h]
    exact ⟨rfl, h0.symm⟩
  · rcases h with rfl | rfl <;> omega
  · rcases h with rfl | rfl | rfl <;> omega
  · rcases h with rfl | rfl | rfl | rfl <;> omega

theorem not_mem_encode {b : UInt8} {c : Char} (hb : b.toNat < 128) (hne : c ≠ Char.ofNat b.toNat) :
    b ∉ utf8EncodeChar c := by
  intro h
  refine hne ?_
  rw [← (utf8EncodeChar_of_mem h hb).2, Char.ofNat_toNat]

theorem decodeLoop_append {l : Bytes} (h : (92 : UInt8) ∉ l) (rest : Bytes) :
    decodeLoop (l ++ rest) = l ++ decodeLoop rest := by
  induction l with
  | nil => rfl
  | cons b l ih =>
    rw [mem_cons, not_or] at h
    rw [cons_append, cons_append, ← ih h.2]
    cases l ++ rest with
    | nil => rfl
    | cons c after => rw [decodeLoop, if_neg (Ne.symm h.1)]

variable {b : UInt8} {x y text : Bytes}

theorem bytes_cutText (h : utf8 text) : (cutText text).bytes = text := by
  rw [cutText, dif_pos h]

theorem utf8_char (c : Char) : utf8 (utf8EncodeChar c) = true := by
  rw [← append_nil (utf8EncodeChar c)]
  exact utf8_encodeUtf8 [c]

theorem utf8_cut (hb : b.toNat < 128) (h : utf8 (x ++ b :: y) = true) :
    utf8 x = true ∧ utf8 y = true := by
  obtain ⟨chars, hchars⟩ := exists_chars h
  clear h
  induction chars generalizing x with
  | nil => simp at hchars
  | cons c chars ih =>
    rw [encodeUtf8_cons, append_eq_append_iff] at hchars
    rcases hchars with ⟨_ | ⟨b', rest⟩, hc, hrest⟩ | ⟨rest, rfl, hrest⟩
    · rw [append_nil] at hc
      exact ⟨hc ▸ utf8_char c, (@ih [] hrest).2⟩
    · obtain ⟨rfl, rfl⟩ := cons_eq_cons.mp hrest
      rw [(utf8EncodeChar_of_mem (hc ▸ mem_append_right x mem_cons_self) hb).1] at hc
      obtain ⟨rfl, rfl⟩ : x = [] ∧ rest = [] := by
        have hlength := congrArg length hc
        simp only [length_append, length_cons, length_nil] at hlength
        exact ⟨length_eq_zero_iff.mp (by omega), length_eq_zero_iff.mp (by omega)⟩
      exact ⟨rfl, utf8_encodeUtf8 chars⟩
    · obtain ⟨hx, hy⟩ := ih hrest.symm
      exact ⟨utf8_append (utf8_char c) hx, hy⟩

theorem ascii_or_not (c : Char) : (∃ b, utf8EncodeChar c = [b] ∧ b.toNat < 128) ∨
    ∀ b ∈ utf8EncodeChar c, ∀ n : UInt8, n.toNat < 128 → b ≠ n := by
  by_cases h : ∃ b ∈ utf8EncodeChar c, b.toNat < 128
  · obtain ⟨b, hb, hlt⟩ := h
    exact .inl ⟨b, (utf8EncodeChar_of_mem hb hlt).1, hlt⟩
  · exact .inr fun b hb n hn heq => h ⟨b, hb, heq ▸ hn⟩

/-! ## Decoding -/

theorem decodeStringLiteral_quoted (inner : List Char) :
    decodeStringLiteral (quoted inner) = decodeLoop (encodeUtf8 inner) := by
  have hquote : utf8EncodeChar '"' = [34] := rfl
  simp [decodeStringLiteral, quoted, hquote]

/-- A decoded text is a text: an escape of a character that is not ASCII is the character. -/
theorem utf8_decodeLoop (n : ℕ) : ∀ chars : List Char, chars.length ≤ n →
    utf8 (decodeLoop (encodeUtf8 chars)) = true := by
  induction n with
  | zero =>
    intro chars h
    rw [length_eq_zero_iff.mp (Nat.le_zero.mp h)]
    rfl
  | succ n ih =>
    intro chars h
    rcases chars with _ | ⟨c, chars⟩
    · rfl
    rw [length_cons] at h
    by_cases hc : c = '\\'
    · subst hc
      rcases chars with _ | ⟨d, chars⟩
      · rfl
      have hrest := ih chars (by rw [length_cons] at h; omega)
      have hslash : utf8EncodeChar '\\' = [92] := rfl
      rw [encodeUtf8_cons, encodeUtf8_cons, hslash]
      rcases ascii_or_not d with ⟨b, hd, hb⟩ | hd
      · rw [hd, singleton_append, singleton_append, decodeLoop, if_pos rfl]
        refine utf8_append (s := [decodedEscape b]) (Str.utf8_of_ascii ?_) hrest
        rw [forall_mem_singleton, decodedEscape]
        split_ifs <;> first | decide | exact hb
      · rcases hbytes : utf8EncodeChar d with _ | ⟨b, bytes⟩
        · exact absurd hbytes (utf8EncodeChar_ne_nil d)
        rw [hbytes, forall_mem_cons] at hd
        have hsame : decodedEscape b = b := by
          rw [decodedEscape]
          iterate 5 rw [if_neg (hd.1 _ (by decide))]
        rw [singleton_append, cons_append, decodeLoop, if_pos rfl, hsame,
          decodeLoop_append fun hmem => hd.2 92 hmem 92 (by decide) rfl, ← cons_append, ← hbytes]
        exact utf8_append (utf8_char d) hrest
    · rw [encodeUtf8_cons, decodeLoop_append (not_mem_encode (by decide) hc)]
      exact utf8_append (utf8_char c) (ih chars (by omega))

theorem utf8_decodeStringLiteral (inner : List Char) :
    utf8 (decodeStringLiteral (quoted inner)) = true := by
  rw [decodeStringLiteral_quoted]
  exact utf8_decodeLoop _ inner le_rfl

/-! ## Splitting -/

/-- The text with these parts before its variables. -/
def joined (found : List (Bytes × Bytes)) (last : Bytes) : Bytes :=
  found.flatMap (fun p => p.1 ++ 36 :: 123 :: p.2 ++ [125]) ++ last

theorem splitLoop_spec (fuel : ℕ) : ∀ {rest part : Bytes}, utf8 (part ++ rest) = true →
    (∀ p ∈ (splitLoop fuel rest part).1, utf8 p.1 = true ∧ utf8 p.2 = true ∧ 0 ∉ p.2) ∧
      utf8 (splitLoop fuel rest part).2 = true ∧
      joined (splitLoop fuel rest part).1 (splitLoop fuel rest part).2 = part ++ rest := by
  induction fuel with
  | zero => exact fun h => ⟨by simp [splitLoop], h, rfl⟩
  | succ fuel ih =>
    intro rest part h
    rcases rest with _ | ⟨b, _ | ⟨c, after⟩⟩
    · exact ⟨by simp [splitLoop], h, rfl⟩
    · exact ⟨by simp [splitLoop], h, rfl⟩
    rw [splitLoop]
    split_ifs with hopen
    · obtain ⟨rfl, rfl⟩ := hopen
      have hafter := prefix_iff_eq_append.mp ( takeWhile_prefix interpolationNamePart (l := after))
      have hzero : 0 ∉ after.takeWhile interpolationNamePart := fun hmem =>
        absurd (all_eq_true.mp all_takeWhile 0 hmem) (by decide)
      simp only
      generalize after.takeWhile interpolationNamePart = name at hafter hzero ⊢
      generalize after.drop name.length = stop at hafter ⊢
      subst hafter
      split_ifs with hclosed
      · rcases stop with _ | ⟨close, stop⟩
        · cases hclosed.2
        obtain rfl := Option.some_inj.mp hclosed.2
        obtain ⟨hpart, hrest⟩ := utf8_cut (by decide) h
        obtain ⟨hname, hstop⟩ := utf8_cut (x := name) (by decide)
            (utf8_cut (x := []) (by decide) hrest).2
        obtain ⟨hfound, hlast, hjoined⟩ := @ih _ [] hstop
        refine ⟨forall_mem_cons.mpr ⟨⟨hpart, hname, hzero⟩, hfound⟩, hlast, ?_⟩
        rw [joined, flatMap_cons, append_assoc, ← joined]
        exact (congrArg _ hjoined).trans (by simp)
      · have hstop := prefix_iff_eq_append.mp ( takeWhile_prefix (· != 125) (l := stop))
        generalize stop.takeWhile (· != 125) = skipped at hstop ⊢
        have hsame : part ++ 36 :: 123 :: (name ++ stop) =
            part ++ 36 :: 123 :: name ++ skipped ++ stop.drop skipped.length := by
          nth_rewrite 1 [← hstop]
          simp
        rw [hsame] at h ⊢
        exact ih h
    · have hsame : part ++ b :: c :: after = part ++ [b] ++ c :: after := append_cons ..
      rw [hsame] at h ⊢
      exact ih h

theorem assembled_found {last : Bytes} (hlast : utf8 last) :
    ∀ found : List (Bytes × Bytes), (∀ p ∈ found, utf8 p.1 = true ∧ utf8 p.2 = true ∧ 0 ∉ p.2) →
      assembled variableText (found.map (fun p => cutText p.1) ++ [cutText last])
        (found.map fun p => cutText p.2) = joined found last
  | [], _ => by simp [assembled, joined, bytes_cutText hlast]
  | p :: found, h => by
    obtain ⟨hp, hfound⟩ := forall_mem_cons.mp h
    have hrest := assembled_found hlast found hfound
    rw [map_cons, cons_append, map_cons, assembled, hrest, variableText, bytes_cutText hp.1,
      bytes_cutText hp.2.1]
    simp [joined]

theorem zero_mem_assembled {α : Type} {render : α → Bytes} :
    ∀ (parts : List Str) {values : List α}, (∀ value ∈ values, (0 : UInt8) ∉ render value) →
      (0 ∈ assembled render parts values ↔ ∃ part ∈ parts, (0 : UInt8) ∈ part.bytes)
  | [], _, _ => by simp [assembled]
  | part :: parts, [], h => by simp [assembled, zero_mem_assembled parts h]
  | part :: parts, value :: values, h => by
    obtain ⟨hvalue, hvalues⟩ := forall_mem_cons.mp h
    simp [assembled, zero_mem_assembled parts hvalues, hvalue]

/-- The parts and names of a literal with variables join to its text, and a zero byte of the text is
in a part. -/
theorem assembled_split (h : utf8 text)
    (hnames : (splitInterpolatedString text).names ≠ []) :
    assembled variableText (splitInterpolatedString text).parts
      (splitInterpolatedString text).names =
        text ∧
      (0 ∈ text ↔ ∃ part ∈ (splitInterpolatedString text).parts, (0 : UInt8) ∈ part.bytes) := by
  obtain ⟨hfound, hlast, hjoined⟩ := @splitLoop_spec text.length text [] h
  have hsplit : splitInterpolatedString text = ⟨(splitLoop text.length text []).1.map
      (fun p => cutText p.1) ++ [cutText (splitLoop text.length text []).2],
        (splitLoop text.length text []).1.map fun p => cutText p.2⟩ := by
    refine if_neg fun hempty => hnames ?_
    show (ite _ _ _ : InterpolatedString).names = []
    rw [if_pos hempty]
  have hparts := (assembled_found hlast _ hfound).trans hjoined
  rw [nil_append] at hparts
  rw [hsplit]
  refine ⟨hparts, ?_⟩
  nth_rewrite 1 [← hparts]
  refine zero_mem_assembled _ fun name hname => ?_
  obtain ⟨p, hp, rfl⟩ := mem_map.mp hname
  simp [variableText, bytes_cutText (hfound p hp).2.1, (hfound p hp).2.2]

end Panackelty.Compiler
