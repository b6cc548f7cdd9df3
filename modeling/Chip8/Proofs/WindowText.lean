import Chip8.Memory.Hexdump
import Chip8.Proofs.Bare.Basic
import Chip8.Proofs.Disassembly
import Chip8.Proofs.Reading

/-!
# Reading hexdumps

A hexdump is made byte by byte, and where a byte stands in its line is counted from the beginning of
the window. So the dump of a window falls apart wherever a line ends, and each of its lines can be
read by itself: the address in front of the colon, and the bytes behind it.

* `Memory.dumpWith` is the dump of bytes that begins at an address, with any labels;
  `dumpWith_append` is the law by which dumps are put together.
* `Memory.exists_lines_dumpWith` takes the first line off a dump, and the two theorems behind it
  read all labels and all bytes.
* `Memory.hexdump_lossless` puts these together.
-/

namespace Chip8

open Text

namespace Checked

/-- The entries of a list from `start` to before `stop`, which there have to be. -/
def slice? {α : Type} (l : List α) (start stop : Nat) : Option (List α) :=
  if start ≤ stop ∧ stop ≤ l.length then some ((l.take stop).drop start) else none

end Checked

namespace Memory

/-! ## The bytes of a window -/

/-- The bytes from one address to before another one. -/
def between (m : Memory) (first stop : Nat) : List UInt8 :=
  (List.range' first (stop - first)).map m.read

theorem bytes_eq_between (m : Memory) (first stop : Nat) :
    m.bytes first (stop - first) = m.between first stop := by
  rw [bytes, between, List.range'_eq_map_range, List.map_map]
  rfl

theorem length_between (m : Memory) (first stop : Nat) :
    (m.between first stop).length = stop - first := by
  rw [between, List.length_map, List.length_range']

theorem between_append (m : Memory) {a b c : Nat} (hab : a ≤ b) (hbc : b ≤ c) :
    m.between a b ++ m.between b c = m.between a c := by
  have hlength : c - a = (b - a) + (c - b) := by omega
  have hnext : b = a + (b - a) := by omega
  rw [between, between, between, ← List.map_append, hlength, ← List.range'_append_1, ← hnext]

/-! ## Dumps with any labels -/

/-- The dump of bytes of which the first one stands at `start`, with a label in front of each
line. -/
def dumpWith (label : Nat → String) (start : Nat) (bytes : List UInt8) : String :=
  String.join (bytes.mapIdx fun index b =>
    (if index % 16 = 0 then label (start + index) else "") ++ hex 2 b.toNat
      ++ gapAfter (index % 16))

theorem window_eq_dumpWith (m : Memory) (start stop : Nat) :
    m.window start stop = dumpWith lineLabel (windowStart start stop)
      (m.between (windowStart start stop) (windowStop stop)) := by
  rw [← bytes_eq_between]
  rfl

/-- **Whole lines in front of others** are dumped by themselves. -/
theorem dumpWith_append (label : Nat → String) (start : Nat) {bytes : List UInt8}
    (h : bytes.length % 16 = 0) (more : List UInt8) :
    dumpWith label start (bytes ++ more) =
      dumpWith label start bytes ++ dumpWith label (start + bytes.length) more := by
  have hplace : ∀ index, (index + bytes.length) % 16 = index % 16 := by omega
  have haddress : ∀ index, start + (index + bytes.length) = start + bytes.length + index := by omega
  simp only [dumpWith, List.mapIdx_append, String.join_append, hplace, haddress]

/-- The bytes of one line, with the gaps behind them. -/
def lineBody (bytes : List UInt8) : String :=
  String.join (bytes.mapIdx fun place b => hex 2 b.toNat ++ gapAfter place)

/-- A line has one label, at its beginning. -/
theorem dumpWith_of_length_le (label : Nat → String) (start : Nat) {bytes : List UInt8}
    (hne : bytes ≠ []) (h : bytes.length ≤ 16) :
    dumpWith label start bytes = label start ++ lineBody bytes := by
  cases bytes with
  | nil => exact absurd rfl hne
  | cons b rest =>
    have hrest : rest.mapIdx (fun index b =>
          (if (index + 1) % 16 = 0 then label (start + (index + 1)) else "") ++ hex 2 b.toNat
            ++ gapAfter ((index + 1) % 16)) =
        rest.mapIdx fun index b => hex 2 b.toNat ++ gapAfter (index + 1) := by
      refine List.ext_getElem (by simp) fun index hindex _ => ?_
      have hlt : index + 1 < 16 := by
        simp only [List.length_mapIdx, List.length_cons] at hindex h
        omega
      simp [Nat.mod_eq_of_lt hlt]
    simp only [dumpWith, lineBody, List.mapIdx_cons, String.join_cons, hrest]
    simp [String.append_assoc]

/-! ## What a terminal shows -/

/-- A label without its style. -/
def plainLabel (a : Nat) : String :=
  hex 3 a ++ ": "

theorem shows_lineLabel (a : Nat) : Shows (lineLabel a) (plainLabel a) := by
  have haddress : Shows (addressStyle.paint (hex 3 a)) (hex 3 a) :=
    (shows_hex 3 a).paint _
  have hcolon : Shows (addressStyle.paint ":") ":" := (Shows.refl (by decide)).paint _
  have hblank : Shows " " " " := Shows.refl (by decide)
  have hplain : plainLabel a = hex 3 a ++ ":" ++ " " := by
    rw [plainLabel, String.append_assoc]
    rfl
  rw [hplain]
  exact (haddress.append hcolon).append hblank

theorem isWhitespace_of_mem_gapAfter {place : Nat} {c : Char} (h : c ∈ (gapAfter place).toList) :
    c.isWhitespace = true := by
  have hall : (gapAfter place).toList.all Char.isWhitespace = true := by
    unfold gapAfter
    split
    · decide
    · split
      · decide
      · split
        · decide
        · decide
  exact List.all_eq_true.1 hall c h

theorem shows_dumpWith {label label' : Nat → String} (h : ∀ a, Shows (label a) (label' a))
    (start : Nat) (bytes : List UInt8) :
    Shows (dumpWith label start bytes) (dumpWith label' start bytes) := by
  simp only [dumpWith, List.mapIdx_eq_zipIdx_map]
  refine Shows.join fun ⟨b, index⟩ _ => ?_
  have hlabel : Shows (if index % 16 = 0 then label (start + index) else "")
      (if index % 16 = 0 then label' (start + index) else "") := by
    split
    · exact h _
    · exact Shows.refl (by decide)
  have hgap : '\x1b' ∉ (gapAfter (index % 16)).toList := fun hc =>
    absurd (isWhitespace_of_mem_gapAfter hc) (by decide)
  exact (hlabel.append (shows_hex 2 _)).append (Shows.refl hgap)

/-! ## One line -/

/-- The address in a line: what stands in front of the colon. -/
def lineAddress (line : String) : String :=
  String.ofList (line.toList.takeWhile (· ≠ ':'))

/-- A text without its white space. -/
def unspaced (text : String) : String :=
  String.ofList (text.toList.filter fun c => !c.isWhitespace)

/-- The bytes in a line: what stands behind the colon, without white space. -/
def lineBytes (line : String) : String :=
  unspaced (String.ofList ((line.toList.dropWhile (· ≠ ':')).drop 1))

theorem unspaced_append (text text' : String) :
    unspaced (text ++ text') = unspaced text ++ unspaced text' := by
  simp [unspaced, String.ofList_append]

theorem unspaced_join (parts : List String) :
    unspaced (String.join parts) = String.join (parts.map unspaced) := by
  induction parts with
  | nil => rfl
  | cons part rest ih =>
    rw [List.map_cons, String.join_cons, String.join_cons, unspaced_append, ih]

theorem unspaced_hex (width n : Nat) : unspaced (hex width n) = hex width n := by
  have hdigit : ∀ d < 16, (!(Nat.digitChar d).isWhitespace) = true := by decide
  rw [unspaced, List.filter_eq_self.2 fun c hc => ?_, String.ofList_toList]
  obtain ⟨d, hd, rfl⟩ := exists_digitChar_of_mem_hex hc
  exact hdigit d hd

theorem unspaced_gapAfter (place : Nat) : unspaced (gapAfter place) = "" := by
  have hnil : (gapAfter place).toList.filter (fun c => !c.isWhitespace) = [] := by
    refine List.filter_eq_nil_iff.2 fun c hc => ?_
    rw [isWhitespace_of_mem_gapAfter hc]
    decide
  rw [unspaced, hnil]

/-- The gaps apart, a line shows the digits of its bytes. -/
theorem unspaced_lineBody (bytes : List UInt8) : unspaced (lineBody bytes) = hexBytes bytes := by
  have hcell : ∀ (place : Nat) (b : UInt8),
      unspaced (hex 2 b.toNat ++ gapAfter place) = hex 2 b.toNat := by
    intro place b
    rw [unspaced_append, unspaced_hex, unspaced_gapAfter, String.append_empty]
  rw [lineBody, unspaced_join, hexBytes]
  refine congrArg String.join (List.ext_getElem (by simp) fun place hplace _ => ?_)
  rw [List.getElem_map, List.getElem_mapIdx, List.getElem_map, hcell]

theorem colon_not_mem_hex (width n : Nat) :
    ∀ c ∈ (hex width n).toList, decide (c ≠ ':') = true := by
  intro c hc
  refine decide_eq_true ?_
  rintro rfl
  exact not_mem_hex (fun _ => Nat.digitChar_ne ':' rfl) width n hc

/-- The address in front of a line is read again. -/
theorem lineAddress_plainLabel (a : Nat) (body : String) :
    lineAddress (plainLabel a ++ body) = hex 3 a := by
  have hline : (plainLabel a ++ body).toList = (hex 3 a).toList ++ ':' :: ' ' :: body.toList := by
    simp [plainLabel]
  rw [lineAddress, hline, List.takeWhile_append_of_pos (colon_not_mem_hex 3 a),
    List.takeWhile_cons_of_neg (by decide), List.append_nil, String.ofList_toList]

/-- So are the bytes behind it. -/
theorem lineBytes_plainLabel (a : Nat) (body : String) :
    lineBytes (plainLabel a ++ body) = unspaced body := by
  have hline : (plainLabel a ++ body).toList = (hex 3 a).toList ++ ':' :: ' ' :: body.toList := by
    simp [plainLabel]
  have hblank : (!(' ' : Char).isWhitespace) = false := by decide
  rw [lineBytes, hline, List.dropWhile_append_of_pos (colon_not_mem_hex 3 a),
    List.dropWhile_cons_of_neg (by decide), List.drop_one, List.tail_cons, unspaced,
    String.toList_ofList, List.filter_cons_of_neg (by decide)]
  rfl

/-! ## The lines of a dump -/

/-- Before the sixteenth byte the line goes on. -/
theorem newline_not_mem_gapAfter {place : Nat} (h : place < 15) :
    '\n' ∉ (gapAfter place).toList := by
  rw [gapAfter, if_neg (by omega)]
  split
  · decide
  · split
    · decide
    · decide

theorem newline_not_mem_lineBody {bytes : List UInt8} (h : bytes.length ≤ 15) :
    '\n' ∉ (lineBody bytes).toList := by
  rw [lineBody, String.toList_join, List.mem_flatMap]
  rintro ⟨cell, hcell, hnewline⟩
  obtain ⟨place, hplace, rfl⟩ := List.mem_mapIdx.1 hcell
  rw [String.toList_append, List.mem_append] at hnewline
  rcases hnewline with hdigit | hgap
  · exact oneLine_hex 2 _ hdigit
  · exact newline_not_mem_gapAfter (by omega) hgap

/-- Behind the sixteenth byte the line ends. -/
theorem exists_lineBody_eq {bytes : List UInt8} (h : bytes.length = 16) :
    ∃ body, lineBody bytes = body ++ "\n" ∧ '\n' ∉ body.toList := by
  have hne : bytes ≠ [] := List.ne_nil_of_length_pos (by omega)
  obtain ⟨front, last, rfl⟩ : ∃ front last, bytes = front ++ [last] :=
    ⟨_, _, (List.dropLast_concat_getLast hne).symm⟩
  have hlength : front.length = 15 := by simpa using h
  refine ⟨lineBody front ++ hex 2 last.toNat, ?_, ?_⟩
  · simp [lineBody, List.mapIdx_append, String.join_append, hlength, gapAfter, String.append_assoc]
  · rw [String.toList_append, List.mem_append, not_or]
    exact ⟨newline_not_mem_lineBody (Nat.le_of_eq hlength), oneLine_hex 2 _⟩

theorem newline_not_mem_plainLabel (a : Nat) : '\n' ∉ (plainLabel a).toList := by
  rw [plainLabel, String.toList_append, List.mem_append, not_or]
  exact ⟨oneLine_hex 3 a, by decide⟩

/-- **The first line of a dump**: a label, and the bytes up to the end or up to sixteen. -/
theorem exists_lines_dumpWith (start : Nat) {bytes more : List UInt8} (hne : bytes ≠ [])
    (h : bytes.length < 16 ∧ more = [] ∨ bytes.length = 16) :
    ∃ body, unspaced body = hexBytes bytes ∧
      lines (dumpWith plainLabel start (bytes ++ more)) =
        (plainLabel start ++ body) :: lines (dumpWith plainLabel (start + 16) more) := by
  rcases h with ⟨hlt, rfl⟩ | hfull
  · refine ⟨lineBody bytes, unspaced_lineBody bytes, ?_⟩
    have hnewline : '\n' ∉ (plainLabel start ++ lineBody bytes).toList := by
      rw [String.toList_append, List.mem_append, not_or]
      exact ⟨newline_not_mem_plainLabel start, newline_not_mem_lineBody (by omega)⟩
    have hsome : plainLabel start ++ lineBody bytes ≠ "" := by
      intro hempty
      simpa [plainLabel] using congrArg String.toList hempty
    rw [List.append_nil, dumpWith_of_length_le _ _ hne (by omega),
      lines_of_not_mem hnewline hsome]
    rfl
  · obtain ⟨body, hbody, hnewline⟩ := exists_lineBody_eq hfull
    refine ⟨body, ?_, ?_⟩
    · have hbreak : unspaced "\n" = "" := rfl
      rw [← unspaced_lineBody, hbody, unspaced_append, hbreak, String.append_empty]
    · have hline : '\n' ∉ (plainLabel start ++ body).toList := by
        rw [String.toList_append, List.mem_append, not_or]
        exact ⟨newline_not_mem_plainLabel start, hnewline⟩
      rw [dumpWith_append _ _ (by omega), dumpWith_of_length_le _ _ hne (by omega), hbody, hfull,
        ← String.append_assoc, lines_append hline]

/-- What holds of no bytes, and holds of bytes in front of which a line is put, holds of all. -/
theorem lineInduction {P : Nat → List UInt8 → Prop} (nil : ∀ start, P start [])
    (line : ∀ start (bytes more : List UInt8), bytes ≠ [] →
      bytes.length < 16 ∧ more = [] ∨ bytes.length = 16 → P (start + 16) more →
      P start (bytes ++ more))
    (start : Nat) (bytes : List UInt8) : P start bytes := by
  induction hn : bytes.length using Nat.strongRecOn generalizing start bytes with
  | ind n ih =>
    by_cases hnil : bytes = []
    · rw [hnil]
      exact nil start
    · have hpos : 0 < bytes.length := List.length_pos_iff.2 hnil
      rw [← List.take_append_drop 16 bytes]
      refine line start _ _ (by simpa using hnil) ?_
        (ih (bytes.drop 16).length (by rw [List.length_drop]; omega) _ _ rfl)
      rw [List.length_take, List.drop_eq_nil_iff]
      omega

/-- **The labels of a dump** are the addresses at a distance of sixteen. -/
theorem map_lineAddress_lines (start : Nat) (bytes : List UInt8) :
    (lines (dumpWith plainLabel start bytes)).map lineAddress =
      (List.range ((bytes.length + 15) / 16)).map fun j => hex 3 (start + 16 * j) := by
  refine lineInduction (P := fun start bytes =>
    (lines (dumpWith plainLabel start bytes)).map lineAddress =
      (List.range ((bytes.length + 15) / 16)).map fun j => hex 3 (start + 16 * j))
    (fun start => ?_) (fun start bytes more hne hlength ih => ?_) start bytes
  · rfl
  · obtain ⟨body, -, hlines⟩ := exists_lines_dumpWith start hne hlength
    have hpos : 0 < bytes.length := List.length_pos_iff.2 hne
    have hcount : ((bytes ++ more).length + 15) / 16 = (more.length + 15) / 16 + 1 := by
      rw [List.length_append]
      rcases hlength with ⟨hlt, rfl⟩ | hfull
      · simp only [List.length_nil]
        omega
      · omega
    have haddress : ∀ j, start + 16 * (j + 1) = start + 16 + 16 * j := by omega
    rw [hlines, hcount, List.map_cons, lineAddress_plainLabel, ih, List.range_succ_eq_map,
      List.map_cons, List.map_map]
    simp only [Function.comp_def, Nat.succ_eq_add_one, haddress, Nat.mul_zero, Nat.add_zero]

/-- **The bytes of a dump** are read again. -/
theorem join_lineBytes_lines (start : Nat) (bytes : List UInt8) :
    String.join ((lines (dumpWith plainLabel start bytes)).map lineBytes) = hexBytes bytes := by
  refine lineInduction (P := fun start bytes =>
    String.join ((lines (dumpWith plainLabel start bytes)).map lineBytes) = hexBytes bytes)
    (fun start => ?_) (fun start bytes more hne hlength ih => ?_) start bytes
  · rfl
  · obtain ⟨body, hbody, hlines⟩ := exists_lines_dumpWith start hne hlength
    rw [hlines, List.map_cons, String.join_cons, lineBytes_plainLabel, hbody, ih, hexBytes,
      hexBytes, hexBytes, List.map_append, String.join_append]

/-- Different bytes have different digits, as each has two. -/
theorem hexBytes_injective : Function.Injective hexBytes := by
  intro bytes bytes' h
  have hlength : ∀ b : UInt8, (hex 2 b.toNat).toList.length = 2 := fun b =>
    length_hex (by decide) b.toNat_lt
  have hne : ∀ b : UInt8, (hex 2 b.toNat).toList ≠ [] := fun b =>
    List.ne_nil_of_length_pos (by rw [hlength]; decide)
  have hdigits : bytes.flatMap (fun b => (hex 2 b.toNat).toList) =
      bytes'.flatMap fun b => (hex 2 b.toNat).toList := by
    have htoList := congrArg String.toList h
    simpa [hexBytes, String.toList_join, List.flatMap_map] using htoList
  clear h
  induction bytes generalizing bytes' with
  | nil =>
    cases bytes' with
    | nil => rfl
    | cons b' rest' => exact absurd (List.append_eq_nil_iff.1 hdigits.symm).1 (hne b')
  | cons b rest ih =>
    cases bytes' with
    | nil => exact absurd (List.append_eq_nil_iff.1 hdigits).1 (hne b)
    | cons b' rest' =>
      rw [List.flatMap_cons, List.flatMap_cons] at hdigits
      obtain ⟨hfirst, hrest⟩ := List.append_inj hdigits ((hlength b).trans (hlength b').symm)
      have hb : b = b' := UInt8.toNat_inj.1 (hex_injective 2 (String.toList_inj.1 hfirst))
      rw [hb, ih hrest]

/-! ## Windows -/

/-- The window with the access to the cells checked. -/
def window? (m : Memory) (start stop : Nat) : Option String :=
  (Checked.slice? m.cells.toList (windowStart start stop) (windowStop stop)).map
    (dumpWith lineLabel (windowStart start stop))

/-- **A window never asks for cells that there are not.** -/
theorem window?_eq_some (m : Memory) (start stop : Nat) :
    m.window? start stop = some (m.window start stop) := by
  have hle : windowStart start stop ≤ windowStop stop := Nat.min_le_right _ _
  have hsize : windowStop stop ≤ 4096 := Nat.min_le_right _ _
  rw [window_eq_dumpWith, window?]
  generalize windowStart start stop = first at *
  generalize windowStop stop = last at *
  have hlength : m.cells.toList.length = 4096 := Vector.length_toList
  have hshown : (m.cells.toList.take last).drop first = m.between first last := by
    refine List.ext_getElem ?_ fun k hk _ => ?_
    · rw [List.length_drop, List.length_take, hlength, length_between]
      omega
    · rw [List.length_drop, List.length_take, hlength] at hk
      have hmod : (first + k) % 4096 = first + k := Nat.mod_eq_of_lt (by omega)
      simp [between, read, hmod]
  rw [Checked.slice?, if_pos ⟨hle, by rw [hlength]; exact hsize⟩, hshown]
  rfl

/-- A window put together from two of which the first one has whole lines only. -/
theorem window_append (m : Memory) {a b c : Nat} (hab : a ≤ b) (hbc : b ≤ c) (hb : b ≤ memorySize)
    (h : (b - a) % 16 = 0) : m.window a c = m.window a b ++ m.window b c := by
  have hac : windowStart a c = a := by unfold windowStart windowStop; omega
  have haa : windowStart a b = a := by unfold windowStart windowStop; omega
  have hbb : windowStart b c = b := by unfold windowStart windowStop; omega
  have hstop : windowStop b = b := Nat.min_eq_left hb
  have hle : b ≤ windowStop c := by unfold windowStop; omega
  have hlength : (m.between a b).length = b - a := m.length_between a b
  rw [window_eq_dumpWith, window_eq_dumpWith, window_eq_dumpWith, hac, haa, hbb, hstop,
    ← m.between_append hab hle, dumpWith_append _ _ (by rw [hlength]; exact h), hlength,
    Nat.add_sub_cancel' hab]

/-- **A hexdump loses nothing, and hexdumps can be put together.**

Take any memory and any two numbers. The window between them begins at `first` and ends before
`last`, and asks for no other cells. What a terminal shows of it has a line for each sixteen bytes:
the line with the number `j` begins with the three digits of the address `first + 16 * j`, and
behind the colons stand, the white space apart, the digits of the bytes from `first` to before
`last`, in order. So the windows of two memories are the same exactly if these bytes are.

If a window can be divided behind whole lines, its text is that of both parts, one behind the
other. -/
theorem hexdump_lossless (m : Memory) :
    (∀ start stop,
      let last := min stop 4096
      let first := min start last
      let shown := lines (visible (m.window start stop))
      m.window? start stop = some (m.window start stop) ∧
      shown.map lineAddress =
        ((List.range ((last - first + 15) / 16)).map fun j => hex 3 (first + 16 * j)) ∧
      (∀ line ∈ shown, (lineAddress line).toList.length = 3) ∧
      String.join (shown.map lineBytes) =
        hexBytes ((List.range' first (last - first)).map m.read) ∧
      ∀ m' : Memory, m'.window start stop = m.window start stop ↔
        ∀ a, first ≤ a → a < last → m'.read a = m.read a) ∧
    ∀ a b c, a ≤ b → b ≤ c → b ≤ 4096 → (b - a) % 16 = 0 →
      m.window a c = m.window a b ++ m.window b c := by
  refine ⟨fun start stop => ?_, fun a b c hab hbc hb h => m.window_append hab hbc hb h⟩
  intro last first shown
  have hvisible : ∀ m' : Memory, visible (m'.window start stop) =
      dumpWith plainLabel first (m'.between first last) := fun m' => by
    rw [window_eq_dumpWith]
    exact (shows_dumpWith shows_lineLabel _ _).visible_eq
  have hbytes : ∀ m' : Memory,
      String.join ((lines (visible (m'.window start stop))).map lineBytes) =
        hexBytes (m'.between first last) := fun m' => by
    rw [hvisible, join_lineBytes_lines]
  have haddresses : shown.map lineAddress =
      (List.range ((last - first + 15) / 16)).map fun j => hex 3 (first + 16 * j) := by
    show (lines (visible (m.window start stop))).map lineAddress = _
    rw [hvisible, map_lineAddress_lines, length_between]
  refine ⟨m.window?_eq_some start stop, haddresses, fun line hline => ?_, hbytes m, fun m' => ?_⟩
  · have hmem := List.mem_map_of_mem (f := lineAddress) hline
    rw [haddresses] at hmem
    obtain ⟨j, hj, haddress⟩ := List.mem_map.1 hmem
    have hlt : j < (last - first + 15) / 16 := List.mem_range.1 hj
    have hlast : last ≤ 4096 := Nat.min_le_right _ _
    rw [← haddress]
    exact length_hex (by decide) (by omega)
  · constructor
    · intro h a hfirst hlast
      have hdigits := (hbytes m').symm.trans ((congrArg
        (fun text => String.join ((lines (visible text)).map lineBytes)) h).trans (hbytes m))
      have hread := List.map_inj_left.1 (hexBytes_injective hdigits)
      exact hread a (List.mem_range'_1.2 (by omega))
    · intro h
      have hsame : m'.between first last = m.between first last := by
        refine List.map_congr_left fun a ha => ?_
        have hin := List.mem_range'_1.1 ha
        exact h a hin.1 (by omega)
      rw [window_eq_dumpWith, window_eq_dumpWith]
      exact congrArg (dumpWith lineLabel first) hsame

end Memory

end Chip8
