import Panackelty.Library.Feed
import Panackelty.Packages.CaseFold

/-!
# Where an archive is cut

The rounds of `tar_stream_feed` make a machine that is fed in pieces, and it is steady for pieces of
at most 65536 bytes (`steady_tarStep`): a header, a PAX record, a file and padding go on in the next
piece where the last one ended.  The limit comes from the stage, which refuses to write more at
once; the decompressor hands over pieces of that size. -/

namespace Panackelty.Packages

open Nat Library Stage Str List

variable {data path piece : Bytes} {stage' : Stage} {header : TarHeader} {state' : TarStream}
  {next : TarStream × Stage} {count offset : ℕ} {pieces : List Bytes} {stage : Stage}
  {current : TarHeader} {state : TarStream} {size : ℕ}

/-- A round of `tar_stream_feed`, as a step of a machine. -/
def tarStep (s : TarStream × Stage) (input : Bytes) :
    Except PackageProblem ((TarStream × Stage) × Bytes) :=
  (feedStep s.2 s.1 input).map fun next => ((next.1, next.2.1), next.2.2)

theorem feedLoop_eq_rounds (fuel : ℕ) (stage : Stage) (state : TarStream) (input : Bytes) :
    feedLoop fuel stage state input = rounds tarStep fuel (state, stage) input := by
  induction fuel generalizing stage state input with
  | zero => rfl
  | succ fuel ih =>
    rw [feedLoop, rounds, tarStep]
    cases input with
    | nil => rfl
    | cons b input =>
      cases feedStep stage state (b :: input) with
      | error prob => rfl
      | ok next => exact ih _ _ _

theorem tarStreamFeed_eq_feed (stage : Stage) (state : TarStream) (input : Bytes) :
    tarStreamFeed stage state input = feed tarStep (state, stage) input :=
  feedLoop_eq_rounds _ _ _ _

theorem feedAll_eq (stage : Stage) (state : TarStream) (pieces : List Bytes) :
    feedAll stage state pieces = Library.feedAll tarStep (state, stage) pieces := by
  induction pieces generalizing stage state with
  | nil => rfl
  | cons piece pieces ih =>
    rw [feedAll, Library.feedAll, tarStreamFeed_eq_feed]
    cases feed tarStep (state, stage) piece with
    | error prob => rfl
    | ok next => exact ih _ _

/-! ## Writing in parts -/

theorem Stage.get_put (stage : Stage) (comps other : List Bytes) (node : Node) :
    (stage.put comps node).get other =
      if other = comps then some node else stage.get other := by
  rw [get, put, lookup_cons]
  split_ifs with h
  · rw [h, beq_self_eq_true]
  rw [beq_false_of_ne h]
  show lookup other (stage.filter fun entry => entry.1 != comps) = stage.lookup other
  induction stage with
  | nil => rfl
  | cons entry stage ih =>
    rw [filter_cons, lookup_cons]
    by_cases hent : entry.1 = comps
    · rw [if_neg (by simp [hent]), ih, hent, beq_false_of_ne h]
    · rw [if_pos (by simp [hent]), lookup_cons, ih]

/-- A walk does not look at what lies deeper than its end. -/
theorem stageWalk_put {parts current parent : List Bytes}
    (h : stageWalk stage parts current = some parent) (components : List Bytes) (node : Node)
    (hdeep : parent.length < components.length) :
    stageWalk (stage.put components node) parts current = some parent ∧
      current.length ≤ parent.length := by
  induction parts generalizing current with
  | nil =>
    cases h
    exact ⟨rfl, le_rfl⟩
  | cons part parts ih =>
    rw [stageWalk] at h ⊢
    split at h
    · rename_i hskip
      rw [if_pos hskip]
      exact ih h
    rename_i hskip
    split at h
    · cases h
    rename_i hup
    split at h
    · rename_i hdir
      obtain ⟨hwalk, hle⟩ := ih h
      rw [length_append, length_singleton] at hle
      have hoth : current ++ [part] ≠ components := by
        rintro rfl
        rw [length_append, length_singleton] at hdeep
        omega
      have hsame : (stage.put components node).isDirectory (current ++ [part]) =
          stage.isDirectory (current ++ [part]) := by
        rw [isDirectory, isDirectory, get_put, if_neg hoth]
      rw [if_neg hskip, if_neg hup, hsame, if_pos hdir]
      exact ⟨hwalk, by omega⟩
    · cases h

theorem stageParent_put {leaf : Bytes} {parent : List Bytes}
    (h : stageParent stage path = .ok (parent, leaf)) (node : Node) :
    stageParent (stage.put (parent ++ [leaf]) node) path = .ok (parent, leaf) := by
  unfold stageParent at h ⊢
  split at h
  · cases h
  rename_i hpath
  rw [if_neg hpath]
  split_ifs at h with hroot
  rw [if_neg hroot]
  simp only at h ⊢
  split_ifs at h with hleaf
  rw [if_neg hleaf]
  split at h
  · cases h
  rename_i parent' hwalk
  cases h
  rw [(stageWalk_put hwalk (parent ++ [(segments path).getLastD []]) node
    (by rw [length_append, length_singleton]; omega)).1]

theorem Stage.put_put (stage : Stage) (comps : List Bytes) (node node' : Node) :
    (stage.put comps node).put comps node' = stage.put comps node' := by
  rw [put, put, put, filter_cons, if_neg (by simp), filter_filter]
  simp

theorem stageWrite_ok (h : stageWrite stage path data offset = .ok stage') :
    ∃ parent leaf, stageParent stage path = .ok (parent, leaf) ∧
      ((offset = 0 ∧ stage.get (parent ++ [leaf]) = none ∧
          stage' = stage.put (parent ++ [leaf]) (.file data)) ∨
        ∃ written, offset ≠ 0 ∧ stage.get (parent ++ [leaf]) = some (.file written) ∧
          written.length = offset ∧
            stage' = stage.put (parent ++ [leaf]) (.file (written ++ data))) := by
  unfold stageWrite at h
  split at h
  · cases h
  rename_i parent leaf hpar
  split_ifs at h with hlim
  refine ⟨parent, leaf, hpar, ?_⟩
  clear hlim
  split at h
  · rename_i hget
    cases h
    exact .inl ⟨rfl, hget, rfl⟩
  · rename_i written _ hget
    split_ifs at h with hwrt
    cases h
    exact .inr ⟨written, succ_ne_zero _, hget, hwrt, rfl⟩
  · cases h

theorem stageWrite_continue {stage : Stage} {path data written leaf : Bytes} {parent : List Bytes}
    {offset : ℕ} (hpar : stageParent stage path = .ok (parent, leaf))
    (hget : stage.get (parent ++ [leaf]) = some (.file written)) (hwrt : written.length = offset)
    (hpos : offset ≠ 0) (hoff : offset ≤ 268435456) (hdata : data.length ≤ 65536) :
    stageWrite stage path data offset =
      .ok (stage.put (parent ++ [leaf]) (.file (written ++ data))) := by
  obtain ⟨before, rfl⟩ := exists_eq_succ_of_ne_zero hpos
  rw [stageWrite, hpar]
  simp only [if_neg (show ¬ (data.length > 65536 ∨ before.succ > 268435456) by omega), hget,
    if_pos hwrt]

/-- Data that is written in two parts: the first part is refused where the whole is. -/
theorem stageWrite_append (more : Bytes) (hdata : data ≠ [])
    (hlen : (data ++ more).length ≤ 65536) (hoff : offset + data.length ≤ 268435456) :
    stageWrite stage path (data ++ more) offset = (stageWrite stage path data offset).bind
      fun stage' => stageWrite stage' path more (offset + data.length) := by
  have hpos : 0 < data.length := length_pos_of_ne_nil hdata
  have hmore : data.length ≤ 65536 ∧ more.length ≤ 65536 := by
    rw [length_append] at hlen
    omega
  conv_lhs => rw [stageWrite]
  rw [stageWrite]
  rcases hpar : stageParent stage path with code | ⟨parent, leaf⟩
  · rfl
  simp only [if_neg (show ¬ ((data ++ more).length > 65536 ∨ offset > 268435456) by omega),
    if_neg (show ¬ (data.length > 65536 ∨ offset > 268435456) by omega)]
  -- the file is new at offset 0, and otherwise it is as long as what was written
  rcases hget : stage.get (parent ++ [leaf]) with _ | (_ | written)
  · rcases offset with _ | offset
    · refine Eq.trans ?_ (stageWrite_continue (stageParent_put hpar _)
        (by rw [get_put, if_pos rfl]) (zero_add _).symm (by omega) hoff hmore.2).symm
      rw [put_put]
      rfl
    · rfl
  · cases offset <;> rfl
  · rcases offset with _ | offset
    · rfl
    simp only
    split_ifs with hwrt
    · refine Eq.trans ?_ (stageWrite_continue (stageParent_put hpar _)
        (by rw [get_put, if_pos rfl]) (by rw [length_append, hwrt])
          (by omega) hoff hmore.2).symm
      rw [put_put, append_assoc]
    · rfl

theorem writePiece_append (more : Bytes) (hpiece : piece ≠ [])
    (hlen : (piece ++ more).length ≤ 65536) (hoff : offset + piece.length ≤ 268435456) :
    writePiece stage current offset (piece ++ more) = (writePiece stage current offset piece).bind
      fun stage' => writePiece stage' current (offset + piece.length) more := by
  unfold writePiece
  rcases pathFromText current.path with _ | relative
  · rfl
  simp only
  rw [stageWrite_append more hpiece hlen hoff]
  cases stageWrite stage relative piece offset <;> rfl

/-! ## Numbers -/

theorem tarDigits_le {base value res : ℕ} {digits : Bytes} {began ended : Bool}
    (hval : value ≤ 268435456) (h : tarDigits base digits value began ended = .ok res) :
    res ≤ 268435456 := by
  induction digits generalizing value began ended with
  | nil =>
    cases h
    exact hval
  | cons b digits ih =>
    rw [tarDigits] at h
    split at h
    · exact ih hval h
    split at h
    · split_ifs at h
      · exact ih (by omega) h
    · cases h

theorem of_mapError_ok {ε ε' α : Type} {f : ε → ε'} {res : Except ε α} {a : α}
    (h : res.mapError f = .ok a) : res = .ok a := by
  cases res with
  | error e => cases h
  | ok found => cases h; rfl

theorem parseTarHeader_size (h : parseTarHeader data = .ok header) : header.size ≤ 268435456 := by
  unfold parseTarHeader at h
  simp only [bind, Except.bind, pure, Except.pure, throw, throwThe, MonadExceptOf.throw] at h
  repeat' split at h
  all_goals cases h
  rename_i hsize _
  exact tarDigits_le (zero_le _) (of_mapError_ok hsize)

theorem paxField_size {seen : List Bytes} {header hdr' : PaxHeader} {key value : Bytes}
    (hhdr : ∀ size, header.size = some size → size ≤ 268435456)
    (h : paxField seen header key value = .ok hdr') (hsize : hdr'.size = some size) :
    size ≤ 268435456 := by
  unfold paxField at h
  split at h
  · cases h
  split at h
  · cases h
    exact hhdr size hsize
  split at h
  · split at h
    · cases h
    split at h
    · cases h
    rename_i number hdig
    cases h
    cases hsize
    exact tarDigits_le (by omega) hdig
  · split at h
    · cases h
      exact hhdr size hsize
    · cases h

theorem paxLoop_size {fuel : ℕ} {seen : List Bytes} {header hdr' : PaxHeader}
    (hhdr : ∀ size, header.size = some size → size ≤ 268435456)
    (h : paxLoop fuel data seen header = .ok hdr') (hsize : hdr'.size = some size) :
    size ≤ 268435456 := by
  induction fuel generalizing data seen header with
  | zero =>
    cases h
    exact hhdr size hsize
  | succ fuel ih =>
    rw [paxLoop] at h
    split at h
    · cases h
      exact hhdr size hsize
    split at h
    · cases h
    rename_i key value rest hrecord
    split at h
    · cases h
    rename_i next hfield
    exact ih (fun size hnext => paxField_size hhdr hfield hnext) h

theorem parsePax_size {metadata : PaxHeader} (h : parsePax data = .ok metadata)
    (hsize : metadata.size = some size) : size ≤ 268435456 := by
  unfold parsePax at h
  cases hloop : paxLoop data.length data [] ⟨none, none⟩ with
  | error problem =>
    rw [hloop] at h
    cases h
  | ok header =>
    rw [hloop] at h
    cases h
    exact paxLoop_size (fun size hnone => by cases hnone) hloop hsize

/-! ## The rounds -/

/-- What holds between two rounds: whatever the stream is in, there is something left to take for
it. -/
structure TarStream.Ready (state : TarStream) : Prop where
  buffer : state.mode ≠ .pax → state.buffer.length < 512
  pax : state.mode = .pax → state.remaining ≠ 0
  file : state.mode = .file →
    state.remaining ≠ 0 ∧ state.remaining ≤ state.current.size ∧ state.current.size ≤ 268435456
  padding : state.mode = .padding → state.padding ≠ 0
  metadata : ∀ metadata size, state.pax = some metadata → metadata.size = some size →
    size ≤ 268435456

theorem TarStream.Ready.of_header {state : TarStream}
    (hmode : state.mode = .header ∨ state.mode = .finished) (hbuf : state.buffer.length < 512)
    (hmeta : ∀ metadata size, state.pax = some metadata → metadata.size = some size →
      size ≤ 268435456) : state.Ready := by
  refine ⟨fun _ => hbuf, ?_, ?_, ?_, hmeta⟩
  all_goals
    intro hoth
    rw [hoth] at hmode
    rcases hmode with hmode | hmode <;> cases hmode

theorem tarStreamNew_ready (folder : CaseFolder) : (tarStreamNew folder).Ready :=
  .of_header (.inl rfl) (show ([] : Bytes).length < 512 by decide) (fun _ _ h => by cases h)

theorem TarStream.Ready.expect {mode : TarMode} (h : state.Ready) (hbuf : state.buffer = [])
    (hmode : mode ≠ .padding) (hsize : mode = .file → header.size ≤ 268435456) :
    (state.expect mode header).Ready := by
  unfold TarStream.expect
  constructor
  · intro _
    rw [hbuf]
    decide
  · intro hpax hzero
    simp only [if_pos hzero] at hpax
    cases hpax
  · intro hfile
    by_cases hzero : header.size = 0
    · simp only [if_pos hzero] at hfile
      cases hfile
    · simp only [if_neg hzero] at hfile
      exact ⟨hzero, le_rfl, hsize hfile⟩
  · intro hpad
    by_cases hzero : header.size = 0
    · simp only [if_pos hzero] at hpad
      cases hpad
    · simp only [if_neg hzero] at hpad
      exact absurd hpad hmode
  · exact h.metadata

theorem effectiveHeader_size {pax : Option PaxHeader} {header : TarHeader}
    (hhdr : header.size ≤ 268435456)
    (hpax : ∀ metadata size, pax = some metadata → metadata.size = some size → size ≤ 268435456) :
    (effectiveHeader pax header).size ≤ 268435456 := by
  cases pax with
  | none => exact hhdr
  | some metadata =>
    show metadata.size.getD header.size ≤ 268435456
    cases hsize : metadata.size with
    | none => exact hhdr
    | some size => exact hpax metadata size rfl hsize

theorem takeEntry_ready (h : state.Ready) (hbuf : state.buffer = [])
    (hsize : header.size ≤ 268435456)
      (htake : takeEntry stage state header = .ok (state', stage')) :
    state'.Ready := by
  have hready : ∀ index rootSeen, { state with index, rootSeen : TarStream }.Ready :=
    fun _ _ => ⟨h.buffer, h.pax, h.file, h.padding, h.metadata⟩
  unfold takeEntry at htake
  split at htake
  · split at htake
    · cases htake
    split_ifs at htake
    · cases htake
      exact (hready _ _).expect hbuf nofun nofun
  · split at htake
    · cases htake
    split at htake
    · cases htake
    split at htake
    · cases htake
    · cases htake
      exact (hready _ _).expect hbuf nofun fun _ => hsize

theorem takeHeader_ready (h : state.Ready) (hbuf : state.buffer = [])
    (hsize : header.size ≤ 268435456)
      (htake : takeHeader stage state header = .ok (state', stage')) :
    state'.Ready := by
  unfold takeHeader at htake
  split at htake
  · split at htake
    · cases htake
    split_ifs at htake
    · cases htake
      exact h.expect hbuf nofun nofun
  · have hpax : { state with pax := none }.Ready :=
      ⟨h.buffer, h.pax, h.file, h.padding, fun _ _ hnone => (by cases hnone)⟩
    exact takeEntry_ready hpax hbuf (effectiveHeader_size hsize h.metadata) htake

theorem takeBlock_ready {block : Bytes} (h : state.Ready) (hmode : state.mode = .header)
    (htake : takeBlock stage state block = .ok (state', stage')) : state'.Ready := by
  unfold takeBlock at htake
  split at htake
  · cases htake
    refine .of_header ?_ (show ([] : Bytes).length < 512 by decide) h.metadata
    split
    · exact .inr rfl
    · exact .inl rfl
  · split at htake
    · cases htake
    split at htake
    · cases htake
    split at htake
    · cases htake
    rename_i header hhdr
    have hnext : { state with buffer := [], headers := state.headers + 1 }.Ready :=
      .of_header (.inl hmode) (show ([] : Bytes).length < 512 by decide) h.metadata
    exact takeHeader_ready hnext rfl (parseTarHeader_size hhdr) htake

theorem TarStream.Ready.afterData {state : TarStream} (hbuf : state.buffer.length < 512)
    (hmeta : ∀ metadata size, state.pax = some metadata → metadata.size = some size →
      size ≤ 268435456) : state.afterData.Ready := by
  unfold TarStream.afterData
  split_ifs with hpad
  · exact .of_header (.inl rfl) hbuf hmeta
  · exact ⟨fun _ => hbuf, nofun, nofun, fun _ => hpad,
      hmeta⟩

/-- What a round does with the bytes that it takes for a header. -/
def blockPiece (stage : Stage) (state : TarStream) (piece : Bytes) :
    Except PackageProblem (TarStream × Stage) :=
  if (state.buffer ++ piece).length = 512 then takeBlock stage state (state.buffer ++ piece)
  else .ok ({ state with buffer := state.buffer ++ piece }, stage)

/-- What a round does with padding. -/
def paddingPiece (stage : Stage) (state : TarStream) (piece : Bytes) :
    Except PackageProblem (TarStream × Stage) :=
  if !tarZero piece then
    .error (archiveProblem .archiveInvalid
      "the archive contains nonzero data where padding is required")
  else
    let padding := state.padding - piece.length
    .ok ({ state with padding, mode := if padding = 0 then .header else .padding }, stage)

/-- What a round does with the bytes of PAX metadata. -/
def paxPiece (stage : Stage) (state : TarStream) (piece : Bytes) :
    Except PackageProblem (TarStream × Stage) :=
  let remaining := state.remaining - piece.length
  if remaining = 0 then
    match parsePax (state.buffer ++ piece) with
    | .error problem => .error problem
    | .ok metadata =>
      .ok (TarStream.afterData { state with buffer := [], remaining, pax := some metadata }, stage)
  else .ok ({ state with buffer := state.buffer ++ piece, remaining }, stage)

/-- What a round does with the bytes of a file. -/
def filePiece (stage : Stage) (state : TarStream) (piece : Bytes) :
    Except PackageProblem (TarStream × Stage) :=
  match writePiece stage state.current (state.current.size - state.remaining) piece with
  | .error problem => .error problem
  | .ok stage =>
    let remaining := state.remaining - piece.length
    if remaining = 0 then .ok (TarStream.afterData { state with remaining }, stage)
    else .ok ({ state with remaining }, stage)

section Modes

variable (input : Bytes)

theorem tarStep_header (hmode : state.mode = .header) :
    tarStep (state, stage) input =
      (blockPiece stage state (input.take (512 - state.buffer.length))).map
      fun s => (s, input.drop (512 - state.buffer.length)) := by
  unfold tarStep feedStep blockPiece
  simp only [hmode]
  split
  · cases takeBlock stage state (state.buffer ++ input.take (512 - state.buffer.length)) <;> rfl
  · rfl

theorem tarStep_padding (hmode : state.mode = .padding) :
    tarStep (state, stage) input = (paddingPiece stage state (input.take state.padding)).map
      fun s => (s, input.drop state.padding) := by
  unfold tarStep feedStep paddingPiece
  simp only [hmode]
  split <;> rfl

theorem tarStep_pax (hmode : state.mode = .pax) :
    tarStep (state, stage) input = (paxPiece stage state (input.take state.remaining)).map
      fun s => (s, input.drop state.remaining) := by
  unfold tarStep feedStep paxPiece
  simp only [hmode]
  split
  · cases parsePax (state.buffer ++ input.take state.remaining) <;> rfl
  · rfl

theorem tarStep_file (hmode : state.mode = .file) :
    tarStep (state, stage) input = (filePiece stage state (input.take state.remaining)).map
      fun s => (s, input.drop state.remaining) := by
  unfold tarStep feedStep filePiece
  simp only [hmode]
  cases writePiece stage state.current (state.current.size - state.remaining)
      (input.take state.remaining) with
  | error prob => rfl
  | ok stage' =>
    simp only
    split <;> rfl

theorem tarStep_finished (hmode : state.mode = .finished) :
    tarStep (state, stage) input =
      if !tarZero input then
        .error (archiveProblem .archiveInvalid
          "the archive contains unexpected data after its end marker")
      else .ok ((state, stage), []) := by
  unfold tarStep feedStep
  simp only [hmode]
  split <;> rfl

end Modes

theorem tarZero_append (data more : Bytes) :
    tarZero (data ++ more) = (tarZero data && tarZero more) :=
  all_append

/-! ### Each mode goes on in the next piece -/

theorem steadyAt_header (hmode : state.mode = .header) :
    Library.SteadyAt tarStep 65536 (state, stage) := by
  have hshort : ∀ {piece : Bytes}, piece.length < 512 - state.buffer.length →
      blockPiece stage state piece = .ok ({ state with buffer := state.buffer ++ piece },
        stage) := by
    intro piece hlt
    rw [blockPiece, if_neg]
    rw [length_append]
    omega
  refine .of_taking (512 - state.buffer.length) (blockPiece stage state)
    (fun input _ => tarStep_header input hmode) ?_ ?_
  · intro piece prob more _ hlt _ herr
    rw [hshort hlt] at herr
    cases herr
  · intro piece next more _ hlt _ _ hok
    rw [hshort hlt] at hok
    cases hok
    refine Eq.trans ?_ (tarStep_header more ?_).symm
    rotate_left
    · exact hmode
    have hcnt : 512 - (state.buffer ++ piece).length =
        512 - state.buffer.length - piece.length := by
      rw [length_append]
      omega
    simp only [hcnt]
    rw [blockPiece, blockPiece, ← append_assoc]
    rfl

theorem steadyAt_padding (hmode : state.mode = .padding) :
    Library.SteadyAt tarStep 65536 (state, stage) := by
  refine .of_taking state.padding (paddingPiece stage state)
    (fun input _ => tarStep_padding input hmode) ?_ ?_
  · intro piece prob more _ _ _ herr
    unfold paddingPiece at herr ⊢
    split at herr
    · rename_i hzero
      rw [tarZero_append, if_pos (by simp only [Bool.not_eq_true'] at hzero ⊢; rw [hzero]; rfl)]
      exact herr
    · cases herr
  · intro piece next more _ hlt _ _ hok
    unfold paddingPiece at hok
    split_ifs at hok with hzero
    have hzero : tarZero piece := by simpa using hzero
    have hleft : state.padding - piece.length ≠ 0 := by omega
    simp only [if_neg hleft] at hok
    cases hok
    rw [tarStep_padding more rfl, paddingPiece, paddingPiece, tarZero_append, hzero, Bool.true_and,
      length_append, ← Nat.sub_sub]

theorem steadyAt_pax (hmode : state.mode = .pax) :
    Library.SteadyAt tarStep 65536 (state, stage) := by
  have hshort : ∀ {piece : Bytes}, piece.length < state.remaining →
      paxPiece stage state piece = .ok ({ state with
        buffer := state.buffer ++ piece, remaining := state.remaining - piece.length }, stage) := by
    intro piece hlt
    unfold paxPiece
    simp only [if_neg (show state.remaining - piece.length ≠ 0 by omega)]
  refine .of_taking state.remaining (paxPiece stage state)
    (fun input _ => tarStep_pax input hmode) ?_ ?_
  · intro piece prob more _ hlt _ herr
    rw [hshort hlt] at herr
    cases herr
  · intro piece next more _ hlt _ _ hok
    rw [hshort hlt] at hok
    cases hok
    refine Eq.trans ?_ (tarStep_pax more ?_).symm
    rotate_left
    · exact hmode
    unfold paxPiece
    simp [Nat.sub_sub]

theorem steadyAt_file (hmode : state.mode = .file) (hready : state.Ready) :
    Library.SteadyAt tarStep 65536 (state, stage) := by
  obtain ⟨_, hle, hsize⟩ := hready.file hmode
  refine .of_taking state.remaining (filePiece stage state)
    (fun input _ => tarStep_file input hmode) ?_ ?_
  · intro piece prob more hpiece hlt hlim herr
    unfold filePiece at herr ⊢
    rw [writePiece_append more hpiece hlim (by omega)]
    rcases hwrite :
        writePiece stage state.current (state.current.size - state.remaining) piece
        with prob' | stage'
    · rw [hwrite] at herr
      exact herr
    · simp only [hwrite, if_neg (show state.remaining - piece.length ≠ 0 by omega)] at herr
      cases herr
  · intro piece next more hpiece hlt _ hlim hok
    unfold filePiece at hok
    rcases hwrite :
        writePiece stage state.current (state.current.size - state.remaining) piece
        with prob' | stage'
    · simp only [hwrite] at hok
      cases hok
    simp only [hwrite, if_neg (show state.remaining - piece.length ≠ 0 by omega)] at hok
    cases hok
    have hshorter : (piece ++ more.take (state.remaining - piece.length)).length ≤ 65536 := by
      rw [length_append] at hlim ⊢
      have := length_take_le' (state.remaining - piece.length) more
      omega
    have hoff : state.current.size - (state.remaining - piece.length) =
        state.current.size - state.remaining + piece.length := by omega
    refine Eq.trans ?_ (tarStep_file more ?_).symm
    rotate_left
    · exact hmode
    rw [filePiece, filePiece, writePiece_append _ hpiece hshorter (by omega), hwrite]
    simp only [hoff, length_append, Nat.sub_sub]
    rfl

theorem steadyAt_finished (hmode : state.mode = .finished) :
    Library.SteadyAt tarStep 65536 (state, stage) := by
  constructor
  · intro input prob more _ _ h
    rw [tarStep_finished _ hmode] at h ⊢
    cases hzero : tarZero input with
    | true =>
      rw [hzero] at h
      cases h
    | false =>
      rw [hzero] at h
      rw [tarZero_append, hzero]
      exact h
  · intro next input rest more _ h hrest
    rw [tarStep_finished _ hmode] at h
    split_ifs at h
    · cases h
      exact absurd rfl hrest
  · intro next input more _ _ _ h
    rw [tarStep_finished _ hmode] at h
    split_ifs at h with hzero
    cases h
    have hzero : tarZero input := by simpa using hzero
    rw [tarStep_finished _ hmode, tarStep_finished _ hmode, tarZero_append, hzero]
    exact .inl rfl

theorem blockPiece_ready (h : state.Ready) (hmode : state.mode = .header)
    (hpiece : piece.length ≤ 512 - state.buffer.length)
    (hnext : blockPiece stage state piece = .ok next) : next.1.Ready := by
  have hbuf : state.buffer.length < 512 := h.buffer (by rw [hmode]; decide)
  unfold blockPiece at hnext
  split at hnext
  · exact takeBlock_ready h hmode hnext
  rename_i hshort
  cases hnext
  refine .of_header (.inl hmode) ?_ h.metadata
  rw [length_append] at hshort ⊢
  omega

theorem paddingPiece_ready (h : state.Ready) (hmode : state.mode = .padding)
    (hnext : paddingPiece stage state piece = .ok next) : next.1.Ready := by
  have hbuf : state.buffer.length < 512 := h.buffer (by rw [hmode]; decide)
  unfold paddingPiece at hnext
  split_ifs at hnext
  cases hnext
  split_ifs with hleft
  · exact .of_header (.inl rfl) hbuf h.metadata
  · exact ⟨fun _ => hbuf, nofun, nofun, fun _ => hleft, h.metadata⟩

theorem paxPiece_ready (h : state.Ready) (hmode : state.mode = .pax)
    (hnext : paxPiece stage state piece = .ok next) : next.1.Ready := by
  unfold paxPiece at hnext
  by_cases hleft : state.remaining - piece.length = 0
  · simp only [if_pos hleft] at hnext
    split at hnext
    · cases hnext
    rename_i metadata hmeta
    cases hnext
    refine .afterData (show ([] : Bytes).length < 512 by decide) ?_
    intro found size hfound hsize
    cases hfound
    exact parsePax_size hmeta hsize
  · simp only [if_neg hleft] at hnext
    cases hnext
    exact ⟨fun hoth => absurd hmode hoth, fun _ => hleft,
      fun hoth => (by cases hmode.symm.trans hoth),
      fun hoth => (by cases hmode.symm.trans hoth), h.metadata⟩

theorem filePiece_ready (h : state.Ready) (hmode : state.mode = .file)
    (hnext : filePiece stage state piece = .ok next) : next.1.Ready := by
  have hbuf : state.buffer.length < 512 := h.buffer (by rw [hmode]; decide)
  obtain ⟨_, hle, hsize⟩ := h.file hmode
  unfold filePiece at hnext
  split at hnext
  · cases hnext
  by_cases hleft : state.remaining - piece.length = 0
  · simp only [if_pos hleft] at hnext
    cases hnext
    exact .afterData hbuf h.metadata
  simp only [if_neg hleft] at hnext
  cases hnext
  exact ⟨fun _ => hbuf, fun hoth => (by cases hmode.symm.trans hoth),
    fun _ => ⟨hleft, (sub_le _ _).trans hle, hsize⟩, fun hoth => (by cases hmode.symm.trans hoth),
    h.metadata⟩

theorem of_map_drop {input rest : Bytes} {res : Except PackageProblem (TarStream × Stage)}
    (hcnt : count ≠ 0) (hinp : input ≠ [])
    (h : (res.map fun s => (s, input.drop count)) = .ok (next, rest)) :
    res = .ok next ∧ rest.length < input.length := by
  cases res with
  | error prob => cases h
  | ok found =>
    cases h
    have hpos := length_pos_of_ne_nil hinp
    rw [length_drop]
    exact ⟨rfl, by omega⟩

theorem tarStep_keeps {s s' : TarStream × Stage} {input rest : Bytes} (h : s.1.Ready)
    (hinp : input ≠ []) (hstep : tarStep s input = .ok (s', rest)) :
    s'.1.Ready ∧ rest.length < input.length := by
  obtain ⟨state, stage⟩ := s
  cases hmode : state.mode with
  | header =>
    have hbuf : state.buffer.length < 512 := h.buffer (by rw [hmode]; decide)
    rw [tarStep_header input hmode] at hstep
    obtain ⟨hpiece, hlt⟩ := of_map_drop (by omega) hinp hstep
    exact ⟨blockPiece_ready h hmode (length_take_le _ _) hpiece, hlt⟩
  | pax =>
    rw [tarStep_pax input hmode] at hstep
    obtain ⟨hpiece, hlt⟩ := of_map_drop (h.pax hmode) hinp hstep
    exact ⟨paxPiece_ready h hmode hpiece, hlt⟩
  | file =>
    rw [tarStep_file input hmode] at hstep
    obtain ⟨hpiece, hlt⟩ := of_map_drop (h.file hmode).1 hinp hstep
    exact ⟨filePiece_ready h hmode hpiece, hlt⟩
  | padding =>
    rw [tarStep_padding input hmode] at hstep
    obtain ⟨hpiece, hlt⟩ := of_map_drop (h.padding hmode) hinp hstep
    exact ⟨paddingPiece_ready h hmode hpiece, hlt⟩
  | finished =>
    rw [tarStep_finished input hmode] at hstep
    split_ifs at hstep
    · cases hstep
      exact ⟨h, length_pos_of_ne_nil hinp⟩

theorem steady_tarStep : Steady tarStep (fun s => s.1.Ready) 65536 := by
  refine ⟨tarStep_keeps, ?_⟩
  rintro ⟨state, stage⟩ h
  cases hmode : state.mode with
  | header => exact steadyAt_header hmode
  | pax => exact steadyAt_pax hmode
  | file => exact steadyAt_file hmode h
  | padding => exact steadyAt_padding hmode
  | finished => exact steadyAt_finished hmode

/-- The stream and the stage do not depend on where the input is cut. -/
theorem feedAll_cuts {pieces' : List Bytes} (h : state.Ready)
    (hpcs : ∀ piece ∈ pieces, piece.length ≤ 65536)
    (hpcs' : ∀ piece ∈ pieces', piece.length ≤ 65536) (hsame : pieces.flatten = pieces'.flatten) :
    feedAll stage state pieces = feedAll stage state pieces' := by
  rw [feedAll_eq, feedAll_eq]
  exact steady_tarStep.feedAll_cuts h hpcs hpcs' hsame

/-! ## The data of a file -/

theorem writePiece_ok (h : writePiece stage current offset piece = .ok stage') :
    stageWrite stage current.path piece offset = .ok stage' := by
  unfold writePiece at h
  split at h
  · cases h
  rename_i relative hpath
  unfold pathFromText at hpath
  split_ifs at hpath
  rw [← Option.some.inj hpath] at h
  exact of_mapError_ok h

/-- What is in the stage when a part of a file has been written: nothing of it before the first
byte. -/
def written (stage : Stage) (components : List Bytes) (data : Bytes) : Stage :=
  if data = [] then stage else stage.put components (.file data)

theorem tarStreamFeed_nil (stage : Stage) (state : TarStream) :
    tarStreamFeed stage state [] = .ok (state, stage) := rfl

theorem feedAll_nils (h : pieces.flatten = []) :
    feedAll stage state pieces = .ok (state, stage) := by
  induction pieces with
  | nil => rfl
  | cons piece pieces ih =>
    rw [flatten_cons, append_eq_nil_iff] at h
    rw [feedAll, h.1, tarStreamFeed_nil]
    exact ih h.2

/-- A piece that belongs to the file as a whole is taken in one round. -/
theorem tarStreamFeed_file (hmode : state.mode = .file) (hpiece : piece ≠ [])
    (hle : piece.length ≤ state.remaining) :
    tarStreamFeed stage state piece = filePiece stage state piece := by
  obtain ⟨b, rest, rfl⟩ := exists_cons_of_ne_nil hpiece
  rw [tarStreamFeed_eq_feed, feed, length_cons, rounds,
    tarStep_file _ hmode, take_of_length_le hle, drop_of_length_le hle]
  cases filePiece stage state (b :: rest) with
  | error prob => rfl
  | ok next => cases rest <;> rfl

/-- The run over the rest of a file continues what has been written of it. -/
theorem feedAll_file {stage stage' : Stage} {state state' : TarStream} {parent : List Bytes}
    {leaf data : Bytes} {pieces : List Bytes} (hmode : state.mode = .file)
    (hrem : state.remaining ≠ 0) (hsize : state.current.size = data.length + state.remaining)
    (hlen : pieces.flatten.length = state.remaining)
    (hpar : stageParent stage state.current.path = .ok (parent, leaf))
    (h : feedAll (written stage (parent ++ [leaf]) data) state pieces = .ok (state', stage')) :
    stage' = stage.put (parent ++ [leaf]) (.file (data ++ pieces.flatten)) := by
  induction pieces generalizing state data with
  | nil => exact absurd hlen.symm hrem
  | cons piece pieces ih =>
    rw [flatten_cons, length_append] at hlen
    by_cases hpiece : piece = []
    · subst hpiece
      rw [feedAll, tarStreamFeed_nil] at h
      exact ih hmode hrem hsize (by simpa using hlen) hpar h
    rw [feedAll, tarStreamFeed_file hmode hpiece (by omega), filePiece] at h
    cases hwrite : writePiece (written stage (parent ++ [leaf]) data) state.current
        (state.current.size - state.remaining) piece with
    | error prob =>
      rw [hwrite] at h
      cases h
    | ok next =>
      have hnext : next = written stage (parent ++ [leaf]) (data ++ piece) := by
        obtain ⟨parent', leaf', hpar', hcases⟩ := stageWrite_ok (writePiece_ok hwrite)
        have hnil : data ++ piece ≠ [] := fun hnil => hpiece (append_eq_nil_iff.mp hnil).2
        rw [written, if_neg hnil]
        by_cases hdata : data = []
        · subst hdata
          rw [written, if_pos rfl, hpar] at hpar'
          cases hpar'
          rcases hcases with ⟨_, _, hput⟩ | ⟨found, hoff, _⟩
          · rw [hput, written, if_pos rfl]
            rfl
          · rw [length_nil] at hsize
            omega
        · rw [written, if_neg hdata, stageParent_put hpar] at hpar'
          cases hpar'
          have hpos := length_pos_of_ne_nil hdata
          rcases hcases with ⟨hoff, _⟩ | ⟨found, _, hget, _, hput⟩
          · omega
          rw [written, if_neg hdata, get_put, if_pos rfl] at hget
          cases hget
          rw [hput, written, if_neg hdata, put_put]
      subst hnext
      simp only [hwrite] at h
      by_cases hleft : state.remaining - piece.length = 0
      · have hemp : pieces.flatten = [] := length_eq_zero_iff.mp (by omega)
        have hnil : data ++ piece ≠ [] := fun hnil => hpiece (append_eq_nil_iff.mp hnil).2
        simp only [if_pos hleft] at h
        rw [feedAll_nils hemp] at h
        cases h
        rw [flatten_cons, hemp, append_nil, written, if_neg hnil]
      · simp only [if_neg hleft] at h
        rw [flatten_cons, ← append_assoc]
        refine ih ?_ ?_ ?_ ?_ ?_ h
        · exact hmode
        · exact hleft
        · show state.current.size = (data ++ piece).length + (state.remaining - piece.length)
          rw [length_append]
          omega
        · show pieces.flatten.length = state.remaining - piece.length
          omega
        · exact hpar

/-- The first byte of a file is only written where the directory of the file is there. -/
theorem feedAll_file_parent (hmode : state.mode = .file) (hrem : state.remaining ≠ 0)
    (hlen : pieces.flatten.length = state.remaining)
    (h : feedAll stage state pieces = .ok (state', stage')) :
    ∃ parent leaf, stageParent stage state.current.path = .ok (parent, leaf) := by
  induction pieces with
  | nil => exact absurd hlen.symm hrem
  | cons piece pieces ih =>
    rw [flatten_cons, length_append] at hlen
    by_cases hpiece : piece = []
    · subst hpiece
      rw [feedAll, tarStreamFeed_nil] at h
      exact ih (by simpa using hlen) h
    rw [feedAll, tarStreamFeed_file hmode hpiece (by omega), filePiece] at h
    cases hwrite : writePiece stage state.current (state.current.size - state.remaining) piece with
    | error prob =>
      rw [hwrite] at h
      cases h
    | ok next =>
      obtain ⟨parent, leaf, hpar, _⟩ := stageWrite_ok (writePiece_ok hwrite)
      exact ⟨parent, leaf, hpar⟩

/-- Archives that come in pieces of at most 65536 bytes give the same entries and the same stage, or
the same problem, wherever they are cut; the data that belongs to a file is the content of the file.
-/
theorem unpack_cuts (folder : CaseFolder) {pieces pieces' : List Bytes}
    (hpieces : ∀ piece ∈ pieces, piece.length ≤ 65536)
    (hpieces' : ∀ piece ∈ pieces', piece.length ≤ 65536)
      (hsame : pieces.flatten = pieces'.flatten) :
    unpack folder pieces = unpack folder pieces' ∧
      ∀ (stage stage' : Stage) (state state' : TarStream) (data : List Bytes), state.mode = .file →
        state.remaining ≠ 0 → state.remaining = state.current.size →
        data.flatten.length = state.remaining →
        feedAll stage state data = .ok (state', stage') →
        ∃ parent leaf, stageParent stage state.current.path = .ok (parent, leaf) ∧
          stage' = stage.put (parent ++ [leaf]) (.file data.flatten) := by
  refine ⟨?_, ?_⟩
  · rw [unpack, unpack, feedAll_cuts (tarStreamNew_ready folder) hpieces hpieces' hsame]
  intro stage stage' state state' data hmode hrem hsize hlen h
  obtain ⟨parent, leaf, hpar⟩ := feedAll_file_parent hmode hrem hlen h
  have hwrt := @feedAll_file stage stage' state state' parent leaf [] data hmode hrem
      (by rw [hsize]; simp) hlen hpar
    (by rwa [written, if_pos rfl])
  exact ⟨parent, leaf, hpar, hwrt⟩

/-- The header of a file or directory, with its size and its checksum in octal digits. -/
def tarHeader (path size checksum : String) (kind : UInt8) : Bytes :=
  asciiBytes path ++ replicate (124 - path.length) 0 ++ asciiBytes size ++ replicate 13 0 ++
    asciiBytes checksum ++ [0, 32, kind] ++ replicate 100 0 ++ asciiBytes "ustar" ++ replicate 250 0

/-- The header of a manifest of 65537 bytes. -/
def manifestHeader : Bytes := tarHeader "panack.json" "00000200001" "004710" 48

/-- The stream after that header. -/
def manifestStream : TarStream :=
  { tarStreamNew ⟨[], []⟩ with
    index := ⟨[⟨asciiBytes "panack.json", 65537, false, true⟩],
      [(asciiBytes "panack.json", 0)], ⟨[], []⟩⟩
    mode := .file
    current := ⟨asciiBytes "panack.json", 65537, .file⟩
    remaining := 65537
    padding := 511
    headers := 1 }

theorem manifestHeader_length : manifestHeader.length = 512 := by decide +kernel

theorem blockPiece_manifestHeader :
    blockPiece [] (tarStreamNew ⟨[], []⟩) manifestHeader = .ok (manifestStream, []) := by
  have hparse : parseTarHeader manifestHeader = .ok manifestStream.current := by decide +kernel
  show (if manifestHeader.length = 512 then takeBlock [] (tarStreamNew ⟨[], []⟩) manifestHeader
    else _) = _
  rw [if_pos manifestHeader_length, takeBlock, hparse]
  decide +kernel

theorem tarStep_manifestHeader (rest : Bytes) :
    tarStep (tarStreamNew ⟨[], []⟩, []) (manifestHeader ++ rest) =
      .ok ((manifestStream, []), rest) := by
  rw [tarStep_header _ rfl]
  show (blockPiece _ _ ((manifestHeader ++ rest).take 512)).map
    (fun s => (s, (manifestHeader ++ rest).drop 512)) = _
  rw [← manifestHeader_length, take_left, drop_left, blockPiece_manifestHeader]
  rfl

theorem feed_manifestHeader (rest : Bytes) :
    tarStreamFeed [] (tarStreamNew ⟨[], []⟩) (manifestHeader ++ rest) =
      tarStreamFeed [] manifestStream rest := by
  have hne : manifestHeader ++ rest ≠ [] := by
    intro hnil
    have hlen := congrArg length (append_eq_nil_iff.mp hnil).1
    rw [manifestHeader_length] at hlen
    cases hlen
  rw [tarStreamFeed_eq_feed, tarStreamFeed_eq_feed]
  exact steady_tarStep.feed_step (tarStreamNew_ready _) hne (tarStep_manifestHeader rest)

theorem writePiece_long {stage : Stage} {current : TarHeader} {offset : ℕ} {piece : Bytes}
    (h : 65536 < piece.length) :
      ∃ problem, writePiece stage current offset piece = .error problem := by
  rcases hwrite : writePiece stage current offset piece with problem | stage'
  · exact ⟨problem, rfl⟩
  have hok := writePiece_ok hwrite
  unfold stageWrite at hok
  split at hok
  · cases hok
  · rw [if_pos (.inl h)] at hok
    cases hok

theorem replicate_ne_nil (h : count ≠ 0) : replicate count (0 : UInt8) ≠ [] :=
  fun hnil => h (by rw [← @List.length_replicate _ count (0 : UInt8), hnil]; rfl)

theorem tarZero_replicate (count : ℕ) : tarZero (replicate count 0) = true := by
  rw [tarZero, all_replicate]
  simp

theorem unpack_manifest_whole (hcnt : 65537 ≤ count) :
    (unpack ⟨[], []⟩ [manifestHeader ++ replicate count 0]).isOk = false := by
  have hlong : 65536 < ((replicate count (0 : UInt8)).take manifestStream.remaining).length := by
    rw [length_take, length_replicate]
    show 65536 < min 65537 count
    omega
  obtain ⟨problem, hprob⟩ := @writePiece_long [] manifestStream.current
    (manifestStream.current.size - manifestStream.remaining) _ hlong
  have hstep : tarStep (manifestStream, []) (replicate count 0) = .error problem := by
    rw [tarStep_file _ rfl, filePiece, hprob]
    rfl
  rw [unpack, feedAll, feed_manifestHeader, tarStreamFeed_eq_feed,
    feed_error (replicate_ne_nil (by omega)) hstep]
  rfl

theorem stageParent_manifest : stageParent [] (asciiBytes "panack.json") =
    .ok ([], asciiBytes "panack.json") := by
  decide +kernel

theorem writePiece_manifest (stage : Stage) (offset : ℕ) (piece : Bytes) :
    writePiece stage manifestStream.current offset piece =
      (stageWrite stage (asciiBytes "panack.json") piece offset).mapError fun code =>
        problemLabel (packageProblem .filesystem
          ("Cannot write an extracted package file: " ++ hostDetail code)) "Archive entry"
          (asciiBytes "panack.json") := by
  have hpath : pathFromText manifestStream.current.path = some (asciiBytes "panack.json") := by
    decide +kernel
  rw [writePiece, hpath]
  rfl

theorem feed_manifest_start (hcnt : count = 65536) :
    tarStreamFeed [] manifestStream (replicate count 0) =
      .ok ({ manifestStream with remaining := 1 },
        put [] [asciiBytes "panack.json"] (.file (replicate count 0))) := by
  have hwrite : writePiece [] manifestStream.current
      (manifestStream.current.size - manifestStream.remaining) (replicate count 0) =
        .ok (put [] [asciiBytes "panack.json"] (.file (replicate count 0))) := by
    show writePiece [] manifestStream.current 0 _ = _
    rw [writePiece_manifest, stageWrite, stageParent_manifest]
    simp only [length_replicate, if_neg (show ¬ (count > 65536 ∨ 0 > 268435456) by omega)]
    rfl
  have hleft : manifestStream.remaining - (replicate count (0 : UInt8)).length = 1 := by
    rw [length_replicate]
    show 65537 - count = 1
    omega
  rw [tarStreamFeed_file rfl (replicate_ne_nil (by omega)) ?_, filePiece, hwrite]
  · simp only [hleft]
    rfl
  · rw [length_replicate]
    show count ≤ 65537
    omega

theorem blockPiece_zeros (hbuf : state.buffer = []) :
    blockPiece stage state (replicate 512 0) = .ok ({ state with
      buffer := []
      zeroHeaders := state.zeroHeaders + 1
      mode := if state.zeroHeaders + 1 = 2 then .finished else .header }, stage) := by
  rw [blockPiece, hbuf, nil_append, if_pos length_replicate, takeBlock,
    if_pos (tarZero_replicate 512)]

theorem tarStep_zeros {stage : Stage} {state : TarStream} {count : ℕ} (hmode : state.mode = .header)
    (hbuf : state.buffer = []) (hcnt : 512 ≤ count) :
    tarStep (state, stage) (replicate count 0) = .ok (({ state with
      buffer := []
      zeroHeaders := state.zeroHeaders + 1
      mode := if state.zeroHeaders + 1 = 2 then .finished else .header }, stage),
        replicate (count - 512) 0) := by
  rw [tarStep_header _ hmode, hbuf, length_nil, Nat.sub_zero, take_replicate,
    min_eq_left hcnt, blockPiece_zeros hbuf, drop_replicate]
  rfl

theorem tarStep_firstZeros {stage : Stage} {state : TarStream} {count : ℕ}
    (hmode : state.mode = .header) (hbuf : state.buffer = []) (hzero : state.zeroHeaders = 0)
    (hcnt : 512 ≤ count) : tarStep (state, stage) (replicate count 0) =
      .ok (({ state with buffer := [], zeroHeaders := 1, mode := .header }, stage),
        replicate (count - 512) 0) := by
  rw [tarStep_zeros hmode hbuf hcnt]
  simp only [hzero]
  rfl

theorem tarStep_lastByte (hmode : state.mode = .file) (hrem : state.remaining = 1)
    (hpad : state.padding ≠ 0) (hcnt : 1 ≤ count)
    (hwrite : writePiece stage state.current (state.current.size - 1) [0] = .ok stage') :
    tarStep (state, stage) (replicate count 0) =
      .ok (({ state with remaining := 0, mode := .padding }, stage'), replicate (count - 1) 0) := by
  rw [tarStep_file _ hmode, hrem, take_replicate, min_eq_left hcnt, drop_replicate, filePiece, hrem]
  simp only [replicate_one, hwrite, length_singleton, TarStream.afterData, if_neg hpad]
  rfl

theorem tarStep_paddingZeros {stage : Stage} {state : TarStream} {count : ℕ}
    (hmode : state.mode = .padding) (hcnt : state.padding ≤ count) :
    tarStep (state, stage) (replicate count 0) =
      .ok (({ state with padding := 0, mode := .header }, stage),
        replicate (count - state.padding) 0) := by
  rw [tarStep_padding _ hmode, take_replicate, Nat.min_eq_left hcnt, drop_replicate,
    paddingPiece, tarZero_replicate, length_replicate]
  simp only [Nat.sub_self]
  rfl

theorem feed_zeros_end (hready : state.Ready) (hmode : state.mode = .file)
    (hrem : state.remaining = 1) (hpadding : state.padding ≠ 0) (hbuf : state.buffer = [])
    (hzero : state.zeroHeaders = 0) (hcnt : count = 1 + state.padding + 1024)
    (hwrite : writePiece stage state.current (state.current.size - 1) [0] = .ok stage') :
    tarStreamFeed stage state (replicate count 0) = .ok ({ state with
      remaining := 0, padding := 0, buffer := [], zeroHeaders := 2, mode := .finished },
        stage') := by
  have hfile := tarStep_lastByte hmode hrem hpadding (by omega : 1 ≤ count) hwrite
  have hready₁ := (tarStep_keeps hready (replicate_ne_nil (by omega)) hfile).1
  have hpad := @tarStep_paddingZeros stage' { state with remaining := 0, mode := .padding }
    (count - 1) rfl (show state.padding ≤ count - 1 by omega)
  have hready₂ := (tarStep_keeps hready₁ (replicate_ne_nil (by omega)) hpad).1
  have hfirst := @tarStep_firstZeros stage'
    { state with remaining := 0, padding := 0, mode := .header } (count - 1 - state.padding) rfl
    hbuf hzero (by omega)
  have hready₃ := (tarStep_keeps hready₂ (replicate_ne_nil (by omega)) hfirst).1
  have hsec := @tarStep_zeros stage'
    { state with remaining := 0, padding := 0, mode := .header, buffer := [], zeroHeaders := 1 }
    (count - 1 - state.padding - 512) rfl rfl (by omega)
  rw [tarStreamFeed_eq_feed, steady_tarStep.feed_step hready (replicate_ne_nil (by omega)) hfile,
    steady_tarStep.feed_step hready₁ (replicate_ne_nil (by omega)) hpad,
    steady_tarStep.feed_step hready₂ (replicate_ne_nil (by omega)) hfirst,
    steady_tarStep.feed_step hready₃ (replicate_ne_nil (by omega)) hsec,
    show count - 1 - state.padding - 512 - 512 = 0 by omega]
  rfl

theorem unpack_manifest_pieces (hcnt : count = 65536) :
    (unpack ⟨[], []⟩ [manifestHeader, replicate count 0, replicate 1536 0]).isOk = true := by
  have hready : { manifestStream with remaining := 1 }.Ready :=
    ⟨fun _ => by decide, nofun, fun _ => by decide, nofun,
      fun _ _ h => by cases h⟩
  have hwrite : writePiece (put [] [asciiBytes "panack.json"] (.file (replicate count 0)))
      manifestStream.current 65536 [0] =
      .ok (put [] [asciiBytes "panack.json"] (.file (replicate count 0 ++ [0]))) := by
    have hpar := stageParent_put stageParent_manifest (.file (replicate count 0))
    have hcont := @stageWrite_continue _ _ [0] (replicate count 0) _ _ 65536 hpar
      (by rw [get_put, if_pos rfl]) (by rw [length_replicate, hcnt]) (by decide)
      (by decide) (by decide)
    rw [nil_append, put_put] at hcont
    rw [writePiece_manifest, hcont]
    rfl
  have hend := feed_zeros_end hready rfl rfl (by decide) rfl rfl
    (show 1536 = 1 + manifestStream.padding + 1024 by decide) hwrite
  rw [unpack, feedAll, ← append_nil manifestHeader, feed_manifestHeader, tarStreamFeed_nil]
  simp only [feedAll, feed_manifest_start hcnt]
  rw [hend]
  rfl

/-- A manifest of 65537 bytes is accepted in pieces and refused at once. -/
theorem unpack_whole_refused :
    [manifestHeader, replicate 65536 0, replicate 1536 0].flatten =
        [manifestHeader ++ replicate 67072 0].flatten ∧
      (unpack ⟨[], []⟩ [manifestHeader ++ replicate 67072 0]).isOk = false ∧
      (unpack ⟨[], []⟩ [manifestHeader, replicate 65536 0, replicate 1536 0]).isOk = true := by
  refine ⟨?_, unpack_manifest_whole (by omega), unpack_manifest_pieces rfl⟩
  rw [flatten_cons, flatten_cons, flatten_cons, flatten_cons, flatten_nil,
    append_nil, append_nil, replicate_append_replicate]

/-- A directory, a file in it, and a manifest. -/
def treeArchive : Bytes :=
  tarHeader "A/" "00000000000" "002744" 53 ++ tarHeader "A/b" "00000000001" "003102" 48 ++
    98 :: replicate 511 0 ++ tarHeader "panack.json" "00000000002" "004707" 48 ++
    asciiBytes "\x7b\x7d" ++ replicate 1534 0

theorem unpack_treeArchive : unpack letterFolder [treeArchive] =
    .ok ([⟨asciiBytes "A", 0, true, true⟩, ⟨asciiBytes "A/b", 1, false, true⟩,
      ⟨asciiBytes "panack.json", 2, false, true⟩],
      [([asciiBytes "panack.json"], .file (asciiBytes "\x7b\x7d")),
        ([[65], [98]], .file [98]), ([[65]], .directory)]) := by
  decide +kernel

theorem unpack_cuts_treeArchive :
    unpack letterFolder [treeArchive.take 700, treeArchive.drop 700] =
        unpack letterFolder [treeArchive] ∧
      (unpack letterFolder [treeArchive]).isOk = true ∧
      ∃ parent leaf, stageParent [] [97] = .ok (parent, leaf) ∧
        [([[97]], Node.file [1, 2])] = put [] (parent ++ [leaf]) (.file [[1], [2]].flatten) := by
  have hcuts := unpack_cuts letterFolder
    (show ∀ piece ∈ [treeArchive.take 700, treeArchive.drop 700], piece.length ≤ 65536 by
      decide +kernel)
    (show ∀ piece ∈ [treeArchive], piece.length ≤ 65536 by decide +kernel) (by simp)
  refine ⟨hcuts.1, by rw [unpack_treeArchive]; rfl, hcuts.2 [] _ { tarStreamNew ⟨[], []⟩ with
    mode := .file, current := ⟨[97], 2, .file⟩, remaining := 2 } { tarStreamNew ⟨[], []⟩ with
    current := ⟨[97], 2, .file⟩ } [[1], [2]] rfl (by decide) rfl rfl ?_⟩
  decide +kernel

end Panackelty.Packages
