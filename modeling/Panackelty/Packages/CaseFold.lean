import Panackelty.Packages.TarStream
import Panackelty.Vm.BuiltinsText

/-!
# Case folding

`packages/case_fold.panack`: paths that differ only in case have the same folded path.

* `caseFolder`: the built-in table.
* `CaseFolder.Table`, `CaseFolder.fold`: what a table has to be, and what it says of a character.
* `foldPath_exact`: a path is folded character by character.
-/

namespace Panackelty.Packages

open List
open String (utf8EncodeChar)

/-- The table of `case_folder`: a key and its value, or a run of neighbours.  `A-Za` are the keys
from `A` to `Z` with the values from `a` on, and `Ā=Įā` is every second character. -/
def caseFoldTable : String :=
  "A-Za µμ À-Öà Ø-Þø ßss Ā=Įā İi̇ Ĳ=Ķĳ Ĺ=Ňĺ ŉʼn Ŋ=Ŷŋ Ÿÿ Ź=Žź ſs Ɓɓ Ƃƃ Ƅƅ Ɔɔ Ƈƈ Ɖɖ Ɗɗ Ƌƌ Ǝǝ Əə " ++
  "Ɛɛ Ƒƒ Ɠɠ Ɣɣ Ɩɩ Ɨɨ Ƙƙ Ɯɯ Ɲɲ Ɵɵ Ơ=Ƥơ Ʀʀ Ƨƨ Ʃʃ Ƭƭ Ʈʈ Ưư Ʊʊ Ʋʋ Ƴƴ Ƶƶ Ʒʒ Ƹƹ Ƽƽ Ǆǆ ǅǆ Ǉǉ ǈǉ Ǌǌ " ++
  "ǋ=Ǜǌ Ǟ=Ǯǟ ǰǰ Ǳǳ ǲǳ Ǵǵ Ƕƕ Ƿƿ Ǹ=Ȟǹ Ƞƞ Ȣ=Ȳȣ Ⱥⱥ Ȼȼ Ƚƚ Ⱦⱦ Ɂɂ Ƀƀ Ʉʉ Ʌʌ Ɇ=Ɏɇ ͅι Ͱͱ Ͳͳ Ͷͷ Ϳϳ Άά " ++
  "Έ-Ίέ Όό Ύύ Ώώ ΐΐ Α-Ρα Σ-Ϋσ ΰΰ ςσ Ϗϗ ϐβ ϑθ ϕφ ϖπ Ϙ=Ϯϙ ϰκ ϱρ ϴθ ϵε Ϸϸ Ϲϲ Ϻϻ Ͻ-Ͽͻ Ѐ-Џѐ А-Яа " ++
  "Ѡ=Ҁѡ Ҋ=Ҿҋ Ӏӏ Ӂ=Ӎӂ Ӑ=Ԯӑ Ա-Ֆա ևեւ Ⴀ-Ⴥⴀ Ⴧⴧ Ⴭⴭ ᏸ-ᏽᏰ ᲀв ᲁд ᲂо ᲃс ᲄт ᲅт ᲆъ ᲇѣ ᲈꙋ Ᲊᲊ Ა-Ჺა Ჽ-Ჿჽ Ḁ=Ẕḁ " ++
  "ẖẖ ẗẗ ẘẘ ẙẙ ẚaʾ ẛṡ ẞss Ạ=Ỿạ Ἀ-Ἇἀ Ἐ-Ἕἐ Ἠ-Ἧἠ Ἰ-Ἷἰ Ὀ-Ὅὀ ὐὐ ὒὒ ὔὔ ὖὖ Ὑ=Ὗὑ Ὠ-Ὧὠ ᾀἀι " ++
  "ᾁἁι ᾂἂι ᾃἃι ᾄἄι ᾅἅι ᾆἆι ᾇἇι ᾈἀι ᾉἁι ᾊἂι ᾋἃι ᾌἄι ᾍἅι ᾎἆι ᾏἇι ᾐἠι ᾑἡι ᾒἢι ᾓἣι ᾔἤι ᾕἥι ᾖἦι ᾗἧι " ++
  "ᾘἠι ᾙἡι ᾚἢι ᾛἣι ᾜἤι ᾝἥι ᾞἦι ᾟἧι ᾠὠι ᾡὡι ᾢὢι ᾣὣι ᾤὤι ᾥὥι ᾦὦι ᾧὧι ᾨὠι ᾩὡι ᾪὢι ᾫὣι ᾬὤι ᾭὥι ᾮὦι " ++
  "ᾯὧι ᾲὰι ᾳαι ᾴάι ᾶᾶ ᾷᾶι Ᾰᾰ Ᾱᾱ Ὰὰ Άά ᾼαι ιι ῂὴι ῃηι ῄήι ῆῆ ῇῆι Ὲ-Ήὲ ῌηι ῒῒ ΐΐ ῖῖ ῗῗ " ++
  "Ῐῐ Ῑῑ Ὶὶ Ίί ῢῢ ΰΰ ῤῤ ῦῦ ῧῧ Ῠῠ Ῡῡ Ὺὺ Ύύ Ῥῥ ῲὼι ῳωι ῴώι ῶῶ ῷῶι Ὸὸ Όό Ὼὼ Ώώ ῼωι Ωω Kk " ++
  "Åå Ⅎⅎ Ⅰ-Ⅿⅰ Ↄↄ Ⓐ-Ⓩⓐ Ⰰ-Ⱟⰰ Ⱡⱡ Ɫɫ Ᵽᵽ Ɽɽ Ⱨ=Ⱬⱨ Ɑɑ Ɱɱ Ɐɐ Ɒɒ Ⱳⱳ Ⱶⱶ Ȿȿ Ɀɀ Ⲁ=Ⳣⲁ Ⳬⳬ Ⳮⳮ Ⳳⳳ Ꙁ=Ꙭꙁ Ꚁ=Ꚛꚁ " ++
  "Ꜣ=Ꜯꜣ Ꜳ=Ꝯꜳ Ꝺꝺ Ꝼꝼ Ᵹᵹ Ꝿ=Ꞇꝿ Ꞌꞌ Ɥɥ Ꞑꞑ Ꞓꞓ Ꞗ=Ꞩꞗ Ɦɦ Ɜɜ Ɡɡ Ɬɬ Ɪɪ Ʞʞ Ʇʇ Ʝʝ Ꭓꭓ Ꞵ=Ꟃꞵ Ꞔꞔ Ʂʂ Ᶎᶎ Ꟈꟈ Ꟊꟊ Ɤɤ " ++
  "Ꟍ=Ꟛꟍ Ƛƛ Ꟶꟶ ꭰ-ꮿᎠ ﬀff ﬁfi ﬂfl ﬃffi ﬄffl ﬅst ﬆst ﬓմն ﬔմե ﬕմի ﬖվն ﬗմխ Ａ-Ｚａ 𐐀-𐐧𐐨 𐒰-𐓓𐓘 𐕰-𐕺𐖗 𐕼-𐖊𐖣 " ++
  "𐖌-𐖒𐖳 𐖔𐖻 𐖕𐖼 𐲀-𐲲𐳀 𐵐-𐵥𐵰 𑢠-𑢿𑣀 𖹀-𖹟𖹠 𖺠-𖺸𖺻 𞤀-𞤡𞤢"

/-- The entries of a run. -/
def foldRun : List Char → List (Char × List Char)
  | [first, '-', last, value] => run 1 first last value
  | [first, '=', last, value] => run 2 first last value
  | key :: value => [(key, value)]
  | [] => []
where
  run (step : ℕ) (first last value : Char) : List (Char × List Char) :=
    (range ((last.toNat - first.toNat) / step + 1)).map fun i =>
      (.ofNat (first.toNat + step * i), [.ofNat (value.toNat + step * i)])

/-- The entries of the table. -/
def caseFoldEntries : List (Char × List Char) := (caseFoldTable.toList.splitOn ' ').flatMap foldRun

/-- `case_folder`. -/
def caseFolder : CaseFolder :=
  ⟨caseFoldEntries.map fun entry => utf8EncodeChar entry.1,
    caseFoldEntries.map fun entry => encodeUtf8 entry.2⟩

/-- What a table has to be: one-character keys in ascending order, and a value for each. -/
structure CaseFolder.Table (folder : CaseFolder) : Prop where
  single : ∀ key ∈ folder.keys, ∃ c, key = utf8EncodeChar c
  sorted : folder.keys.Pairwise (· < ·)
  paired : folder.keys.length = folder.values.length

/-- The value of a character; one that is no key stays as it is. -/
def CaseFolder.fold (folder : CaseFolder) (c : Char) : Bytes :=
  (folder.keys.idxOf? (utf8EncodeChar c)).elim (utf8EncodeChar c) (folder.values.getD · [])

theorem toList_append_ofList {s : String} {chars : List Char} (h : s.toList = chars)
    (more : List Char) : (s ++ String.ofList more).toList = chars ++ more := by
  rw [String.toList_append, h, String.toList_ofList]

-- the kernel evaluates the runs of a list of characters, but not the characters of a string
set_option maxRecDepth 20000 in
theorem exists_isChain : ∃ table, caseFoldTable.toList = table ∧
    (((table.splitOn ' ').flatMap foldRun).map Prod.fst).IsChain (· < ·) := by
  apply Exists.intro
  apply And.intro
  · unfold caseFoldTable
    iterate 13 apply toList_append_ofList
    exact String.toList_ofList
  · decide +kernel

theorem caseFolder_table : caseFolder.Table := by
  obtain ⟨table, rfl, hchain⟩ := exists_isChain
  rw [caseFolder, caseFoldEntries]
  generalize (caseFoldTable.toList.splitOn ' ').flatMap foldRun = entries at hchain
  refine ⟨fun key hkey => ?_, ?_, by rw [length_map, length_map]⟩
  · obtain ⟨entry, -, rfl⟩ := mem_map.mp hkey
    exact ⟨entry.1, rfl⟩
  · refine pairwise_map.mpr ((pairwise_map.mp (isChain_iff_pairwise.mp hchain)).imp fun hlt => ?_)
    simpa using utf8EncodeChar_lt hlt [] []

/-! ## The search -/

variable {keys : List Bytes} {folder : CaseFolder}

theorem getD_lt_iff (hsort : keys.Pairwise (· < ·)) {j k : ℕ} (hj : j < keys.length)
    (hk : k < keys.length) : keys.getD j [] < keys[k] ↔ j < k := by
  have hlt := pairwise_iff_getElem.mp hsort
  rw [getD_eq_getElem _ _ hj]
  rcases lt_trichotomy j k with h | rfl | h
  · exact iff_of_true (hlt j k hj hk h) h
  · exact iff_of_false (List.lt_irrefl _) (lt_irrefl _)
  · exact iff_of_false (List.lt_asymm (hlt k j hk hj h)) h.not_gt

/-- A key lies between the ends of the search until they meet. -/
theorem foldSearch_eq (hsort : keys.Pairwise (· < ·)) {k : ℕ} (hk : k < keys.length) :
    ∀ {fuel low high : ℕ}, low ≤ k → k ≤ high → high ≤ keys.length → high - low ≤ fuel →
      foldSearch keys keys[k] fuel low high = k
  | 0, low, high, hlow, hhigh, _, hfuel => by
    rw [foldSearch]
    omega
  | fuel + 1, low, high, hlow, hhigh, hlen, hfuel => by
    rw [foldSearch]
    split_ifs with hlt
    · have htest := getD_lt_iff hsort (show (low + high) / 2 < keys.length by omega) hk
      by_cases h : (low + high) / 2 < k
      · rw [if_pos (htest.mpr h), foldSearch_eq hsort hk h hhigh hlen (by omega)]
      · rw [if_neg (mt htest.mp h)]
        exact foldSearch_eq hsort hk hlow (by omega) (by omega) (by omega)
    · omega

theorem foldCharacter_eq (h : folder.Table) (character : Bytes) : foldCharacter folder character =
    (folder.keys.idxOf? character).elim character (folder.values.getD · []) := by
  rw [foldCharacter]
  cases hidx : folder.keys.idxOf? character with
  | none =>
    refine if_neg fun hfound => idxOf?_eq_none_iff.mp hidx ?_
    rw [← hfound.2, getD_eq_getElem _ _ hfound.1]
    exact getElem_mem hfound.1
  | some i =>
    obtain ⟨hi, heq, -⟩ := findIdx?_eq_some_iff_getElem.mp hidx
    obtain rfl := beq_iff_eq.mp heq
    rw [foldSearch_eq h.sorted hi (Nat.zero_le i) hi.le le_rfl (by omega)]
    exact if_pos ⟨hi, getD_eq_getElem _ _ hi⟩

/-! ## Paths -/

/-- The step of `textCharacters`. -/
def charactersStep (b : UInt8) (acc : Bytes × List Bytes) : Bytes × List Bytes :=
  if b.toNat &&& 0xc0 = 0x80 then (b :: acc.1, acc.2) else ([], (b :: acc.1) :: acc.2)

theorem foldr_charactersStep_tail {tail : Bytes} (done : List Bytes)
    (h : ∀ x ∈ tail, 128 ≤ x.toNat ∧ x.toNat ≤ 191) :
    tail.foldr charactersStep ([], done) = (tail, done) := by
  induction tail with
  | nil => rfl
  | cons x tail ih =>
    rw [forall_mem_cons] at h
    rw [foldr_cons, ih h.2, charactersStep, if_pos ((and_c0_eq_iff x.toNat_lt).mpr h.1)]

theorem foldr_charactersStep (chars : List Char) :
    (encodeUtf8 chars).foldr charactersStep ([], []) = ([], chars.map utf8EncodeChar) := by
  induction chars with
  | nil => rfl
  | cons c chars ih =>
    obtain ⟨b, tail, hb, -, hlead, hcont⟩ := Vm.utf8EncodeChar_spec c
    rw [encodeUtf8_cons, foldr_append, ih, map_cons, hb, foldr_cons,
      foldr_charactersStep_tail _ hcont, charactersStep,
      if_neg (mt (and_c0_eq_iff b.toNat_lt).mp hlead)]

theorem foldPath_encodeUtf8 (h : folder.Table) (chars : List Char) :
    foldPath folder (encodeUtf8 chars) = chars.flatMap folder.fold := by
  have hchars : textCharacters (encodeUtf8 chars) = chars.map utf8EncodeChar :=
    congrArg Prod.snd (foldr_charactersStep chars)
  rw [foldPath, hchars, flatMap_map]
  simp only [foldCharacter_eq h]
  rfl

/-- Each character becomes its value if it is a key and stays as it is otherwise, so that folding
distributes over concatenation; and the built-in table is one. -/
theorem foldPath_exact (h : folder.Table) (chars rest : List Char) :
    foldPath folder (encodeUtf8 chars) = chars.flatMap folder.fold ∧
    foldPath folder (encodeUtf8 chars ++ encodeUtf8 rest) =
      foldPath folder (encodeUtf8 chars) ++ foldPath folder (encodeUtf8 rest) ∧
    caseFolder.Table := by
  refine ⟨foldPath_encodeUtf8 h chars, ?_, caseFolder_table⟩
  rw [← encodeUtf8_append, foldPath_encodeUtf8 h, foldPath_encodeUtf8 h, foldPath_encodeUtf8 h,
    flatMap_append]

/-- A table that folds two letters, one of them to two. -/
def letterFolder : CaseFolder := ⟨[[65], utf8EncodeChar 'ß'], [[97], [115, 115]]⟩

theorem letterFolder_table : letterFolder.Table := by
  refine ⟨fun key hkey => ?_, by decide, rfl⟩
  simp only [letterFolder, mem_cons, not_mem_nil, or_false] at hkey
  rcases hkey with rfl | rfl
  · exact ⟨'A', rfl⟩
  · exact ⟨'ß', rfl⟩

theorem foldPath_exact_letters :
    foldPath letterFolder (encodeUtf8 ['A', 'ß', 'b']) = [97, 115, 115, 98] :=
  (foldPath_exact letterFolder_table ['A', 'ß', 'b'] []).1.trans (by decide)

end Panackelty.Packages
