import LibUdp.Text.Printing

/-!
# The header of a log line

`format_header` walks from the end of the path of the source file to the last slash, the text
after it goes into the header. The walk stops at the first character, whatever that is, and the
assertion behind it wants a slash there that is not the first character.
-/

namespace Logger

open Text

inductive Level where
  | debug
  | trace
  | info
  | warn
  | error
  | fatal
  deriving DecidableEq

/-- `Logger::level_to_string`. -/
def levelToString : Level → Text
  | .debug => "DBG".toList
  | .trace => "TRC".toList
  | .info  => "INF".toList
  | .warn  => "WRN".toList
  | .error => "ERR".toList
  | .fatal => "FTL".toList

/-- What can happen instead of a header. -/
inductive Fault where
  | assertion
  | outOfBounds
  deriving DecidableEq

/-- `assert(condition)`, which is only evaluated when assertions are compiled in. -/
def assert (asserts : Bool) (condition : Except Fault Bool) : Except Fault Unit :=
  if asserts then do
    if ← condition then pure () else throw .assertion
  else pure ()

/-- `*ptr`. A pointer into the path is its offset. -/
def read (file : Text) (ptr : ℕ) : Except Fault Char :=
  match file[ptr]? with
  | some c => .ok c
  | none   => .error .outOfBounds

/-- `while (ptr != file && *ptr != '/') { --ptr; }`. -/
def scan (file : Text) : ℕ → Except Fault ℕ
  | 0       => .ok 0
  | ptr + 1 => do
    if (← read file (ptr + 1)) ≠ '/' then scan file ptr else pure (ptr + 1)

/-- The scan from the last character of the path. For the empty path that is in front of it. -/
def scanBack (file : Text) : Except Fault ℕ :=
  match file.length with
  | 0       => .error .outOfBounds
  | len + 1 => scan file len

/-- The file name and the line as `format_header` has them. -/
def location (asserts : Bool) (file : Text) (line : Int32) : Except Fault Text := do
  assert asserts (.ok (0 < file.length))
  let ptr ← scanBack file
  assert asserts (if ptr ≠ 0 then (· == '/') <$> read file ptr else .ok false)
  pure (file.drop (ptr + 1) ++ ":".toList ++ ofInt line.toInt)

/-- What is streamed into the header. -/
def header (date : Text) (ms : ℕ) (level : Level) (location thread : Text) : Text :=
  date ++ ".".toList ++ List.replicate (3 - (decimal ms).length) '0' ++ decimal ms ++
    " [".toList ++ levelToString level ++ "] ".toList ++ location ++ " ".toList ++ thread ++
    " ".toList

/-- `Logger::format_header`, with what `put_time` prints for the date, the milliseconds of the
second and the printed id of the thread. -/
def formatHeader (asserts : Bool) (file : Text) (line : Int32) (level : Level) (date : Text)
    (ms : ℕ) (thread : Text) : Except Fault Text := do
  let location ← location asserts file line
  pure (header date ms level location thread)

/-- The scan ends inside the path, no assertion fails, and the header shows the text after the last
slash, the whole path when there is none, and the line. -/
def WellDefined (asserts : Bool) (file : Text) (line : Int32) (level : Level) (date : Text)
    (ms : ℕ) (thread : Text) : Prop :=
  (∃ ptr < file.length, scanBack file = .ok ptr) ∧
    formatHeader asserts file line level date ms thread =
      .ok (header date ms level (afterLast '/' file ++ ":".toList ++ ofInt line.toInt) thread)

/-! ### The scan -/

variable {file s t : Text} {c : Char}

lemma read_of_lt {ptr : ℕ} (h : ptr < file.length) : read file ptr = .ok file[ptr] := by
  rw [read, List.getElem?_eq_getElem h]

lemma scan_succ {ptr : ℕ} (h : ptr + 1 < file.length) :
    scan file (ptr + 1) = if file[ptr + 1] = '/' then .ok (ptr + 1) else scan file ptr := by
  rw [scan, read_of_lt h, ← ite_not]
  rfl

/-- The pieces of a path that is cut at its last slash, or at its first character when there is no
slash behind that. -/
structure IsStop (s : Text) (c : Char) (t : Text) : Prop where
  rest : '/' ∉ t
  stop : s = [] ∨ c = '/'

/-- The scan goes from one character behind which there is no slash to another, until it stops. -/
lemma scan_spec {ptr : ℕ} (hlt : ptr < file.length) (hrest : '/' ∉ file.drop (ptr + 1)) :
    ∃ s c t, file = s ++ c :: t ∧ scan file ptr = .ok s.length ∧ IsStop s c t := by
  induction ptr with
  | zero =>
    obtain ⟨c, t, rfl⟩ := List.exists_cons_of_length_pos hlt
    exact ⟨[], c, t, rfl, rfl, hrest, .inl rfl⟩
  | succ ptr ih =>
    by_cases hc : file[ptr + 1] = '/'
    · refine ⟨file.take (ptr + 1), file[ptr + 1], file.drop (ptr + 2), ?_, ?_, hrest, .inr hc⟩
      · rw [List.getElem_cons_drop, List.take_append_drop]
      · rw [scan_succ hlt, if_pos hc, List.length_take_of_le hlt.le]
    · have hrest' : '/' ∉ file.drop (ptr + 1) := by
        rw [← List.getElem_cons_drop hlt, List.mem_cons, not_or]
        exact ⟨Ne.symm hc, hrest⟩
      obtain ⟨s, c, t, hfile, hscan, hstop⟩ := ih (Nat.lt_of_succ_lt hlt) hrest'
      refine ⟨s, c, t, hfile, ?_, hstop⟩
      rw [scan_succ hlt, if_neg hc, hscan]

/-- A path is cut where the scan stops. -/
lemma scanBack_of_ne_nil (hne : file ≠ []) :
    ∃ s c t, file = s ++ c :: t ∧ scanBack file = .ok s.length ∧ IsStop s c t := by
  obtain ⟨len, hlen⟩ := Nat.exists_eq_add_one_of_ne_zero (mt List.length_eq_zero_iff.mp hne)
  have hrest : '/' ∉ file.drop (len + 1) := by
    rw [List.drop_of_length_le hlen.le]
    exact List.not_mem_nil
  rw [scanBack, hlen]
  exact scan_spec (by omega) hrest

namespace IsStop

lemma afterLast_eq (h : IsStop s c t) :
    afterLast '/' (s ++ c :: t) = if c = '/' then t else c :: t := by
  split_ifs with hc
  · rw [hc, afterLast_append_cons h.rest]
  · rw [h.stop.resolve_right hc, List.nil_append]
    exact afterLast_of_not_mem (List.not_mem_cons_of_ne_of_not_mem (Ne.symm hc) h.rest)

lemma slash_mem_iff (h : IsStop s c t) : '/' ∈ s ++ c :: t ↔ c = '/' := by
  constructor
  · intro hmem
    rcases h.stop with rfl | hc
    · exact ((List.mem_cons.mp hmem).resolve_right h.rest).symm
    · exact hc
  · rintro rfl
    exact List.mem_append_right s List.mem_cons_self

lemma slash_mem_tail_iff (h : IsStop s c t) : '/' ∈ (s ++ c :: t).tail ↔ s ≠ [] := by
  rcases s with _ | ⟨d, s⟩
  · simpa using h.rest
  · simp [h.stop.resolve_left (List.cons_ne_nil d s)]

end IsStop

/-! ### The location -/

lemma assert_ok (asserts holds : Bool) :
    assert asserts (.ok holds) =
      if asserts = true ∧ holds = false then .error .assertion else .ok () := by
  cases asserts <;> cases holds <;> rfl

/-- The second assertion fails exactly when the scan stops at the first character. -/
lemma location_of_scan (asserts : Bool) (line : Int32)
    (hscan : scanBack (s ++ c :: t) = .ok s.length) (hstop : IsStop s c t) :
    location asserts (s ++ c :: t) line =
      if asserts = true ∧ s = [] then .error .assertion
      else .ok (t ++ ":".toList ++ ofInt line.toInt) := by
  have hpos : decide (0 < (s ++ c :: t).length) = true := by simp
  have hread : read (s ++ c :: t) s.length = .ok c := by simp [read]
  have hdrop : (s ++ c :: t).drop (s.length + 1) = t := by simp
  have hslash : (if s.length ≠ 0 then (· == '/') <$> read (s ++ c :: t) s.length else .ok false) =
      .ok (decide (s ≠ [])) := by
    rcases s with _ | ⟨d, s⟩
    · rfl
    · rw [hread, hstop.stop.resolve_left (List.cons_ne_nil d s)]
      rfl
  have hrun : location asserts (s ++ c :: t) line =
      assert asserts (.ok (decide (s ≠ []))) >>= fun _ =>
        pure (t ++ ":".toList ++ ofInt line.toInt) := by
    rw [location, assert_ok, hpos, hscan, if_neg (by simp), ← hslash]
    simp only [hdrop, bind, Except.bind]
  rw [hrun, assert_ok]
  by_cases hs : s = [] <;> cases asserts <;> simp [hs]

lemma location_eq_ok_iff (asserts : Bool) (line : Int32)
    (hscan : scanBack (s ++ c :: t) = .ok s.length) (hstop : IsStop s c t) :
    location asserts (s ++ c :: t) line =
        .ok (afterLast '/' (s ++ c :: t) ++ ":".toList ++ ofInt line.toInt) ↔
      ¬(asserts = true ∧ s = []) ∧ c = '/' := by
  rw [location_of_scan asserts line hscan hstop, hstop.afterLast_eq]
  by_cases hs : asserts = true ∧ s = []
  · rw [if_pos hs]
    exact ⟨nofun, fun h => absurd hs h.1⟩
  · rw [if_neg hs]
    by_cases hc : c = '/'
    · simp [hs, hc]
    · simp [hs, hc]

lemma header_injective (date : Text) (ms : ℕ) (level : Level) (thread : Text) :
    Function.Injective (header date ms level · thread) := by
  intro p p' h
  simpa [header] using h

lemma formatHeader_eq_ok_iff {asserts : Bool} {line : Int32} {level : Level} {date : Text} {ms : ℕ}
    {thread place : Text} :
    formatHeader asserts file line level date ms thread =
        .ok (header date ms level place thread) ↔
      location asserts file line = .ok place := by
  rw [formatHeader]
  cases location asserts file line with
  | error fault => exact ⟨nofun, nofun⟩
  | ok place' =>
    change (.ok (header date ms level place' thread) : Except Fault Text) =
        .ok (header date ms level place thread) ↔ _
    rw [Except.ok.injEq, Except.ok.injEq]
    exact (header_injective date ms level thread).eq_iff

/-- With assertions a path needs a slash that is not its first character, without them any slash
will do. -/
theorem wellDefined_iff (asserts : Bool) (hne : file ≠ []) (line : Int32) (level : Level)
    (date : Text) (ms : ℕ) (thread : Text) :
    WellDefined asserts file line level date ms thread ↔
      if asserts then '/' ∈ file.tail else '/' ∈ file := by
  obtain ⟨s, c, t, rfl, hscan, hstop⟩ := scanBack_of_ne_nil hne
  have hinside : ∃ ptr < (s ++ c :: t).length, scanBack (s ++ c :: t) = .ok ptr :=
    ⟨s.length, by simp, hscan⟩
  rw [WellDefined, and_iff_right hinside, formatHeader_eq_ok_iff,
    location_eq_ok_iff asserts line hscan hstop, hstop.slash_mem_iff, hstop.slash_mem_tail_iff]
  cases asserts with
  | false => simp
  | true =>
    simp only [true_and, if_true]
    exact ⟨And.left, fun hs => ⟨hs, hstop.stop.resolve_left hs⟩⟩

theorem wellDefined_node_cc :
    "mesh/node.cc".toList ≠ [] ∧
      WellDefined true "mesh/node.cc".toList 7 .info "2025-01-01 00:00:00".toList 5 "1".toList :=
  ⟨by decide, (wellDefined_iff true (by decide) _ _ _ _ _).mpr (by decide)⟩

/-- A path without a slash and one with a slash in front only fail the second assertion. Without
assertions the first character of the former is lost. -/
theorem not_wellDefined :
    location true "main.cc".toList 7 = .error .assertion ∧
      location true "/main.cc".toList 7 = .error .assertion ∧
      location false "main.cc".toList 7 = .ok "ain.cc:7".toList ∧
      ¬ ∀ asserts file, file ≠ [] → ∀ line level date ms thread,
        WellDefined asserts file line level date ms thread := by
  refine ⟨rfl, rfl, rfl, ?_⟩
  intro h
  obtain ⟨-, hheader⟩ := h true "main.cc".toList (by decide) 7 .info [] 0 []
  cases hheader

end Logger
