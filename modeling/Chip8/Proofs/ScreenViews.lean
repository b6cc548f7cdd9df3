import Chip8.Proofs.Disassembly
import Chip8.Proofs.Reading
import Chip8.Screen.Text
import Mathlib.Data.Nat.Bitwise

/-!
# Views of the screen

The screen is looked at in several ways: as pixels, as words of bits, as a list of pixels, as a text
with a character for each pixel, and as a text with a braille character for each block of pixels.
Each of them is read pixel by pixel here, so that all show the same.

* `Text.binaryDigits_eq` says which bit each digit of a binary numeral shows. With it,
  `Screen.cells_eq_substitute` finds the pixels of a row in the digits of its word.
* `Screen.testBit_brailleBits` says which dots a braille character has,
  `Screen.brailleBits_eq_foldl` that they come from the list of pixels, and
  `Screen.toNat_brailleChar` that they can be read off it.
* `Screen.views_agree` puts these together.
-/

namespace Chip8

open Text

namespace Text

/-! ## Binary numerals -/

/-- The digits of `n` in base two, with zeros in front up to `width` digits. -/
def binaryDigits (width n : Nat) : List Char :=
  (Nat.toDigits 2 n).leftpad width '0'

/-- The text with another character for each `old` one. -/
def substitute (old new : Char) (text : List Char) : List Char :=
  text.map fun c => if c = old then new else c

/-- The last binary digit, and the others. -/
theorem binaryDigits_succ {width : Nat} (hw : 0 < width) (n : Nat) :
    binaryDigits (width + 1) n = binaryDigits width (n / 2) ++ [Nat.digitChar (n % 2)] := by
  have hsingle : List.leftpad width '0' ['0'] = List.replicate width '0' := by
    obtain ⟨k, rfl⟩ : ∃ k, width = k + 1 := ⟨width - 1, by omega⟩
    rw [List.leftpad, List.replicate_succ']
    rfl
  rw [binaryDigits, binaryDigits, Nat.toDigits_eq_if (by decide) (n := n)]
  split
  · rename_i hlt
    have hzero : n / 2 = 0 := by omega
    have hdigits : Nat.toDigits 2 0 = ['0'] := rfl
    rw [hzero, hdigits, hsingle, Nat.mod_eq_of_lt hlt]
    rfl
  · simp [List.leftpad, List.append_assoc]

/-- **The digits of a binary numeral are its bits**, the highest one first. -/
theorem binaryDigits_eq {width n : Nat} (hw : 0 < width) (h : n < 2 ^ width) :
    binaryDigits width n =
      (List.range width).map fun k => if n.testBit (width - 1 - k) then '1' else '0' := by
  obtain ⟨w, rfl⟩ : ∃ w, width = w + 1 := ⟨width - 1, by omega⟩
  clear hw
  have hlast : ∀ n : Nat, Nat.digitChar (n % 2) = if n.testBit 0 then '1' else '0' := by
    intro n
    rw [Nat.testBit_zero]
    rcases Nat.mod_two_eq_zero_or_one n with hmod | hmod <;> rw [hmod] <;> rfl
  induction w generalizing n with
  | zero =>
    have hdigit := hlast n
    rw [Nat.mod_eq_of_lt (by simpa using h)] at hdigit
    rw [binaryDigits, Nat.toDigits_of_lt_base (by simpa using h), hdigit]
    rfl
  | succ w ih =>
    have hhalf : n / 2 < 2 ^ (w + 1) := by rw [Nat.pow_succ] at h; omega
    rw [binaryDigits_succ (by omega), ih hhalf, List.range_succ (n := w + 1), List.map_append,
      List.map_singleton, hlast]
    congr 1
    · refine List.map_congr_left fun k hk => ?_
      have hplace : w + 1 - 1 - k + 1 = w + 1 + 1 - 1 - k := by
        have := List.mem_range.1 hk
        omega
      rw [Nat.testBit_div_two, hplace]
    · have hplace : w + 1 + 1 - 1 - (w + 1) = 0 := by omega
      rw [hplace]

end Text

/-- An entry of rows that are all of one length. -/
theorem getElem?_flatMap_of_length {α β : Type} {row : α → List β} {width : Nat}
    (hrow : ∀ a, (row a).length = width) (l : List α) {x : Nat} (hx : x < width) (y : Nat) :
    (l.flatMap row)[width * y + x]? = l[y]?.bind fun a => (row a)[x]? := by
  induction l generalizing y with
  | nil => simp
  | cons a l ih =>
    rw [List.flatMap_cons]
    cases y with
    | zero =>
      rw [Nat.mul_zero, Nat.zero_add, List.getElem?_append_left (by rw [hrow]; exact hx)]
      rfl
    | succ y =>
      have hbehind : width * (y + 1) + x - width = width * y + x := by rw [Nat.mul_succ]; omega
      rw [List.getElem?_append_right (by rw [hrow, Nat.mul_succ]; omega), hrow, hbehind, ih]
      rfl

namespace Screen

/-! ## Pixels and words -/

/-- A pixel is a bit of the word of its row, the leftmost one the highest. -/
theorem pixel_eq_testBit (s : Screen) (x : Nat) {y : Nat} (hy : y < 32) :
    s.pixel x y = s.rows[y].toNat.testBit (63 - x % 64) := by
  have hx : x % 64 < 64 := Nat.mod_lt _ (by decide)
  simp [pixel, BitVec.getMsbD, BitVec.testBit_toNat, hx, Nat.mod_eq_of_lt hy]

theorem length_pixels (s : Screen) : s.pixels.length = 2048 := by
  simp only [pixels, List.length_flatMap, List.length_map, List.length_range]
  decide

/-- The list of pixels goes through the rows, and through each row from the left. -/
theorem getElem?_pixels (s : Screen) {x y : Nat} (hx : x < 64) (hy : y < 32) :
    s.pixels[64 * y + x]? = some (x, y, s.pixel x y) := by
  have hrow : ∀ y, ((List.range width).map fun x => (x, y, s.pixel x y)).length = 64 := by
    intro y
    rw [List.length_map, List.length_range]
    rfl
  have hline : (List.range height)[y]? = some y := List.getElem?_range hy
  have hplace : (List.range width)[x]? = some x := List.getElem?_range hx
  rw [pixels, getElem?_flatMap_of_length hrow _ hx, hline, Option.bind_some, List.getElem?_map,
    hplace, Option.map_some]

theorem isBlank_iff (s : Screen) : s.isBlank = true ↔ ∀ x y, s.pixel x y = false := by
  rw [isBlank, List.all_eq_true]
  constructor
  · intro h x y
    have hrow : s.rows[y % 32] ∈ s.rows.toList := Vector.mem_toList_iff.2 (Vector.getElem_mem _)
    rw [pixel, beq_iff_eq.1 (h _ hrow)]
    exact BitVec.getMsbD_zero
  · intro h row hrow
    have hblank : s = blank := by
      ext x y
      rw [h, pixel_blank]
    rw [hblank, blank, Vector.toList_replicate] at hrow
    exact beq_iff_eq.2 (List.mem_replicate.1 hrow).2

/-! ## A character for each pixel -/

/-- The characters of a row. -/
def cells (s : Screen) (y : Nat) : List Char :=
  (List.range width).map fun x => if s.pixel x y then '█' else ' '

theorem length_cells (s : Screen) (y : Nat) : (s.cells y).length = 64 := by
  rw [cells, List.length_map, List.length_range]
  rfl

theorem getElem?_cells (s : Screen) {x : Nat} (hx : x < 64) (y : Nat) :
    (s.cells y)[x]? = some (if s.pixel x y then '█' else ' ') := by
  have hplace : (List.range width)[x]? = some x := List.getElem?_range hx
  rw [cells, List.getElem?_map, hplace, Option.map_some]

/-- **The characters of a row are the binary digits of its word**, a blank for each zero and a block
for each one. -/
theorem cells_eq_substitute (s : Screen) {y : Nat} (hy : y < 32) :
    s.cells y = substitute '1' '█' (substitute '0' ' ' (binaryDigits 64 s.rows[y].toNat)) := by
  rw [binaryDigits_eq (by decide) s.rows[y].isLt, substitute, substitute, List.map_map,
    List.map_map]
  refine List.map_congr_left fun x hx => ?_
  have hlt : x < 64 := List.mem_range.1 hx
  simp only [s.pixel_eq_testBit x hy, Nat.mod_eq_of_lt hlt, Function.comp_apply]
  cases s.rows[y].toNat.testBit (63 - x) <;> rfl

/-- The line of a row, without its end. -/
def rowLine (s : Screen) (y : Nat) : String :=
  hex 2 y ++ "|" ++ String.ofList (s.cells y) ++ "|"

theorem oneLine_rowLine (s : Screen) (y : Nat) : OneLine (s.rowLine y) := by
  have hcells : OneLine (String.ofList (s.cells y)) := by
    rw [OneLine, String.toList_ofList, cells]
    intro hnewline
    obtain ⟨x, -, hx⟩ := List.mem_map.1 hnewline
    split at hx
    · exact absurd hx (by decide)
    · exact absurd hx (by decide)
  simp only [rowLine, oneLine_append]
  exact ⟨⟨⟨oneLine_hex 2 y, by decide⟩, hcells⟩, by decide⟩

theorem lines_text (s : Screen) : lines s.text = (List.range 32).map s.rowLine := by
  have htext : s.text = String.join (((List.range 32).map s.rowLine).map (· ++ "\n")) := by
    rw [text, List.map_map]
    refine congrArg String.join (List.map_congr_left fun y _ => ?_)
    have hend : "|\n" = "|" ++ "\n" := rfl
    rw [rowText, Function.comp_apply, rowLine, hend, ← String.append_assoc]
    rfl
  rw [htext, lines_join]
  intro line hline
  obtain ⟨y, -, rfl⟩ := List.mem_map.1 hline
  exact s.oneLine_rowLine y

/-! ## Braille -/

/-- The number of a dot less one, by its place in the character: the dots are counted down the left
column and down the right one, and those of the lowest row come last. -/
def brailleDot (dx dy : Nat) : Nat :=
  if dy < 3 then 3 * dx + dy else 6 + dx

theorem brailleDot_lt {dx dy : Nat} (hx : dx < 2) : brailleDot dx dy < 8 := by
  unfold brailleDot
  split <;> omega

theorem brailleDot_inj {dx dy dx' dy' : Nat} (hx : dx < 2) (hy : dy < 4) (hx' : dx' < 2)
    (hy' : dy' < 4) (h : brailleDot dx dy = brailleDot dx' dy') : dx = dx' ∧ dy = dy' := by
  unfold brailleDot at h
  split at h <;> split at h <;> omega

/-- The table of the dots has a bit for each dot. -/
theorem mem_brailleDots {dx dy bit : Nat} :
    (dx, dy, bit) ∈ brailleDots ↔ dx < 2 ∧ dy < 4 ∧ bit = 2 ^ brailleDot dx dy := by
  constructor
  · intro h
    have hall : ∀ dot ∈ brailleDots,
        dot.1 < 2 ∧ dot.2.1 < 4 ∧ dot.2.2 = 2 ^ brailleDot dot.1 dot.2.1 := by decide
    exact hall _ h
  · rintro ⟨hx, hy, rfl⟩
    have hall : ∀ dx < 2, ∀ dy < 4, (dx, dy, 2 ^ brailleDot dx dy) ∈ brailleDots := by decide
    exact hall dx hx dy hy

/-- A bit of numbers that are put together where a condition holds. -/
theorem testBit_foldl_or {α : Type} (p : α → Bool) (f : α → Nat) (l : List α) (bits i : Nat) :
    (l.foldl (fun bits a => if p a then bits ||| f a else bits) bits).testBit i = true ↔
      bits.testBit i = true ∨ ∃ a ∈ l, p a = true ∧ (f a).testBit i = true := by
  induction l generalizing bits with
  | nil => simp
  | cons a l ih =>
    simp only [List.foldl_cons, ih, List.mem_cons, exists_eq_or_imp, ← or_assoc]
    refine or_congr_left ?_
    cases p a with
    | false => simp
    | true => simp

/-- **The bits of a braille character** are those of the dots that are lit. -/
theorem testBit_brailleBits (s : Screen) (column line i : Nat) :
    (s.brailleBits column line).testBit i = true ↔ ∃ dx < 2, ∃ dy < 4,
      brailleDot dx dy = i ∧ s.litAt (2 * column + dx) (4 * line + dy) = true := by
  have hfold := testBit_foldl_or
    (fun dot : Nat × Nat × Nat => s.litAt (2 * column + dot.1) (4 * line + dot.2.1))
    (fun dot => dot.2.2) brailleDots 0 i
  refine hfold.trans ?_
  rw [Nat.zero_testBit]
  constructor
  · rintro (h | ⟨⟨dx, dy, bit⟩, hdot, hlit, hbit⟩)
    · exact absurd h (by decide)
    · obtain ⟨hx, hy, rfl⟩ := mem_brailleDots.1 hdot
      rw [Nat.testBit_two_pow, decide_eq_true_eq] at hbit
      exact ⟨dx, hx, dy, hy, hbit, hlit⟩
  · rintro ⟨dx, hx, dy, hy, rfl, hlit⟩
    exact .inr ⟨_, mem_brailleDots.2 ⟨hx, hy, rfl⟩, hlit, by simp⟩

/-- Each dot has a bit to itself. -/
theorem testBit_brailleBits_brailleDot (s : Screen) (column line : Nat) {dx dy : Nat} (hx : dx < 2)
    (hy : dy < 4) :
    (s.brailleBits column line).testBit (brailleDot dx dy) =
      s.litAt (2 * column + dx) (4 * line + dy) := by
  rw [Bool.eq_iff_iff, testBit_brailleBits]
  constructor
  · rintro ⟨dx', hx', dy', hy', hdot, hlit⟩
    obtain ⟨rfl, rfl⟩ := brailleDot_inj hx' hy' hx hy hdot
    exact hlit
  · intro hlit
    exact ⟨dx, hx, dy, hy, rfl, hlit⟩

theorem mem_pixels {s : Screen} {x y : Nat} {lit : Bool} :
    (x, y, lit) ∈ s.pixels ↔ x < 64 ∧ y < 32 ∧ lit = s.pixel x y := by
  simp only [pixels, List.mem_flatMap, List.mem_map, List.mem_range, Prod.mk.injEq]
  constructor
  · rintro ⟨y, hy, x, hx, rfl, rfl, rfl⟩
    exact ⟨hx, hy, rfl⟩
  · rintro ⟨hx, hy, rfl⟩
    exact ⟨y, hy, x, hx, rfl, rfl, rfl⟩

/-- **The braille characters are drawn from the list of pixels**: each lit one sets its dot in the
character of its block. -/
theorem brailleBits_eq_foldl (s : Screen) (column line : Nat) :
    s.brailleBits column line =
      (s.pixels.filter fun p => p.2.2).foldl
        (fun bits p =>
          if decide (p.1 / 2 = column ∧ p.2.1 / 4 = line) then
            bits ||| 2 ^ brailleDot (p.1 % 2) (p.2.1 % 4)
          else bits) 0 := by
  refine Nat.eq_of_testBit_eq fun i => ?_
  rw [Bool.eq_iff_iff, testBit_brailleBits,
    testBit_foldl_or (fun p : Nat × Nat × Bool => p.1 / 2 = column ∧ p.2.1 / 4 = line)
      fun p => 2 ^ brailleDot (p.1 % 2) (p.2.1 % 4), Nat.zero_testBit]
  constructor
  · rintro ⟨dx, hx, dy, hy, rfl, hlit⟩
    simp only [litAt, Bool.and_eq_true, decide_eq_true_eq] at hlit
    obtain ⟨⟨hwidth, hheight⟩, hpixel⟩ := hlit
    have hmem : (2 * column + dx, 4 * line + dy, true) ∈ s.pixels :=
      mem_pixels.2 ⟨hwidth, hheight, hpixel.symm⟩
    have hdx : (2 * column + dx) % 2 = dx := by omega
    have hdy : (4 * line + dy) % 4 = dy := by omega
    have hcolumn : (2 * column + dx) / 2 = column := by omega
    have hline : (4 * line + dy) / 4 = line := by omega
    refine .inr ⟨_, List.mem_filter.2 ⟨hmem, rfl⟩, decide_eq_true ⟨hcolumn, hline⟩, ?_⟩
    rw [hdx, hdy, Nat.testBit_two_pow_self]
  · rintro (h | ⟨⟨x, y, lit⟩, hmem, hblock, hbit⟩)
    · exact absurd h (by decide)
    · obtain ⟨hpixels, hlit⟩ := List.mem_filter.1 hmem
      obtain ⟨hx, hy, hpixel⟩ := mem_pixels.1 hpixels
      obtain ⟨rfl, rfl⟩ := of_decide_eq_true hblock
      rw [Nat.testBit_two_pow, decide_eq_true_eq] at hbit
      refine ⟨x % 2, by omega, y % 4, by omega, hbit, ?_⟩
      have hcolumn : 2 * (x / 2) + x % 2 = x := Nat.div_add_mod x 2
      have hline : 4 * (y / 4) + y % 4 = y := Nat.div_add_mod y 4
      have hwidth : x < width := hx
      have hheight : y < height := hy
      rw [hcolumn, hline, litAt, decide_eq_true hwidth, decide_eq_true hheight, ← hpixel]
      exact hlit

theorem brailleBits_lt (s : Screen) (column line : Nat) : s.brailleBits column line < 256 := by
  refine Nat.lt_pow_two_of_testBit (n := 8) _ fun i hi => ?_
  rw [Bool.eq_false_iff]
  intro hbit
  obtain ⟨dx, hx, dy, -, rfl, -⟩ := (s.testBit_brailleBits column line i).1 hbit
  exact absurd (brailleDot_lt hx) (Nat.not_lt.2 hi)

theorem brailleBits_eq_zero_iff (s : Screen) (column line : Nat) :
    s.brailleBits column line = 0 ↔
      ∀ dx < 2, ∀ dy < 4, s.litAt (2 * column + dx) (4 * line + dy) = false := by
  constructor
  · intro hzero dx hx dy hy
    rw [← s.testBit_brailleBits_brailleDot column line hx hy, hzero, Nat.zero_testBit]
  · intro hdark
    refine Nat.zero_of_testBit_eq_false fun i => ?_
    rw [Bool.eq_false_iff]
    intro hbit
    obtain ⟨dx, hx, dy, hy, -, hlit⟩ := (s.testBit_brailleBits column line i).1 hbit
    rw [hdark dx hx dy hy] at hlit
    exact absurd hlit (by decide)

/-- The number of a character with dots. -/
theorem toNat_ofNat_braille {dots : Nat} (h : dots < 256) :
    (Char.ofNat (0x2800 + dots)).toNat = 0x2800 + dots := by
  have hvalid : (0x2800 + dots).isValidChar := .inl (by omega)
  rw [Char.ofNat, dif_pos hvalid]
  rfl

/-- **The dots of a braille character can be read off it**, a blank having none. -/
theorem toNat_brailleChar (s : Screen) (column line : Nat) :
    (s.brailleChar column line).toNat - 0x2800 = s.brailleBits column line := by
  simp only [brailleChar]
  split
  · rename_i hzero
    rw [hzero]
    rfl
  · rw [toNat_ofNat_braille (s.brailleBits_lt column line)]
    omega

theorem brailleChar_eq_blank_iff (s : Screen) (column line : Nat) :
    s.brailleChar column line = ' ' ↔ s.brailleBits column line = 0 := by
  constructor
  · intro h
    rw [← toNat_brailleChar, h]
    rfl
  · intro h
    simp only [brailleChar, if_pos h]

theorem brailleChar_ne_newline (s : Screen) (column line : Nat) :
    s.brailleChar column line ≠ '\n' := by
  intro h
  have hzero : s.brailleBits column line = 0 := by
    rw [← toNat_brailleChar, h]
    rfl
  rw [(s.brailleChar_eq_blank_iff column line).2 hzero] at h
  exact absurd h (by decide)

/-- In front of the margins, the lights around the screen make no difference. -/
theorem litAt_of_lt (s : Screen) {column line dx dy : Nat} (hc : column < 32) (hl : line < 8)
    (hx : dx < 2) (hy : dy < 4) :
    s.litAt (2 * column + dx) (4 * line + dy) = s.pixel (2 * column + dx) (4 * line + dy) := by
  have hwidth : 2 * column + dx < width := by unfold width; omega
  have hheight : 4 * line + dy < height := by unfold height; omega
  simp [litAt, hwidth, hheight]

/-- On the margins there is no light. -/
theorem brailleBits_margin (s : Screen) {column line : Nat} (h : 32 ≤ column ∨ 8 ≤ line) :
    s.brailleBits column line = 0 := by
  refine (s.brailleBits_eq_zero_iff column line).2 fun dx _ dy _ => ?_
  have hout : ¬2 * column + dx < width ∨ ¬4 * line + dy < height := by
    unfold width height
    omega
  rcases hout with hx | hy
  · simp [litAt, hx]
  · simp [litAt, hy]

/-- A line of braille characters. -/
def brailleLine (s : Screen) (line : Nat) : String :=
  String.ofList ((List.range brailleColumns).map fun column => s.brailleChar column line)

theorem length_brailleLine (s : Screen) (line : Nat) : (s.brailleLine line).toList.length = 33 := by
  rw [brailleLine, String.toList_ofList, List.length_map, List.length_range]
  rfl

theorem lines_brailleText (s : Screen) :
    lines s.brailleText = (List.range 9).map s.brailleLine := by
  have htext : s.brailleText =
      String.join (((List.range 9).map s.brailleLine).map (· ++ "\n")) :=
    intercalate_append_newline (by simp [brailleLines])
  rw [htext, lines_join]
  intro line hline hnewline
  obtain ⟨l, -, rfl⟩ := List.mem_map.1 hline
  rw [brailleLine, String.toList_ofList] at hnewline
  obtain ⟨c, -, hc⟩ := List.mem_map.1 hnewline
  exact s.brailleChar_ne_newline c l hc

theorem charAt_brailleText (s : Screen) {column line : Nat} (hc : column < 33) (hl : line < 9) :
    charAt s.brailleText column line = some (s.brailleChar column line) := by
  have hplace : (List.range brailleColumns)[column]? = some column := List.getElem?_range hc
  rw [charAt, lines_brailleText, List.getElem?_map, List.getElem?_range hl, Option.map_some,
    Option.bind_some, brailleLine, String.toList_ofList, List.getElem?_map, hplace, Option.map_some]

/-! ## Nothing is lost -/

theorem text_injective : Function.Injective text := by
  intro s s' h
  ext x y
  have hy : y % 32 < 32 := Nat.mod_lt _ (by decide)
  have hx : x % 64 < 64 := Nat.mod_lt _ (by decide)
  have hlines : (List.range 32).map s.rowLine = (List.range 32).map s'.rowLine := by
    rw [← lines_text, h, lines_text]
  have hline := List.map_inj_left.1 hlines (y % 32) (List.mem_range.2 hy)
  have hcells : s.cells (y % 32) = s'.cells (y % 32) := by
    have hlist := congrArg String.toList hline
    simpa [rowLine] using hlist
  have hcell : (if s.pixel (x % 64) (y % 32) then '█' else ' ') =
      if s'.pixel (x % 64) (y % 32) then '█' else ' ' := by
    refine Option.some.inj ?_
    rw [← getElem?_cells s hx, hcells, getElem?_cells s' hx]
  rw [pixel_mod, pixel_mod] at hcell
  revert hcell
  cases s.pixel x y <;> cases s'.pixel x y <;> decide

theorem brailleText_injective : Function.Injective brailleText := by
  intro s s' h
  ext x y
  obtain ⟨column, hcolumn⟩ : ∃ column, column = x % 64 / 2 := ⟨_, rfl⟩
  obtain ⟨line, hline⟩ : ∃ line, line = y % 32 / 4 := ⟨_, rfl⟩
  have hx : 2 * column + x % 64 % 2 = x % 64 := by omega
  have hy : 4 * line + y % 32 % 4 = y % 32 := by omega
  have hchar : s.brailleChar column line = s'.brailleChar column line := by
    refine Option.some.inj ?_
    rw [← charAt_brailleText s (by omega) (by omega), h,
      charAt_brailleText s' (by omega) (by omega)]
  have hbits : s.brailleBits column line = s'.brailleBits column line := by
    rw [← toNat_brailleChar, hchar, toNat_brailleChar]
  have hdot : ∀ t : Screen, (t.brailleBits column line).testBit
      (brailleDot (x % 64 % 2) (y % 32 % 4)) = t.pixel x y := by
    intro t
    rw [testBit_brailleBits_brailleDot _ _ _ (by omega) (by omega),
      t.litAt_of_lt (by omega) (by omega) (by omega) (by omega), hx, hy, pixel_mod]
  rw [← hdot s, hbits, hdot s']

/-- **All views show the same pixels, and each text shows all of them.**

Take any screen. Its list of pixels has 2048 entries, row after row and each row from the left, with
what there is at each place. The pixel at any place is the one that the place is counted round the
edges to, and a bit of the word of its row, the leftmost one the highest.

The text has a line for each row: its number in two digits, and between bars the binary digits of
its word, with a blank for each zero and a block for each one. These are 64 characters, a block for
each pixel that is lit and a blank for each that is not.

The braille text has nine lines of 33 characters, of which the last line and the last character of
each line are blanks. Any other character stands for a block of two by four pixels: it is a blank
exactly if all of them are dark, and else the braille character whose dots are those that are lit.

The screen is blank exactly if no pixel is lit, and is given by its text as well as by its braille
text. -/
theorem views_agree (s : Screen) :
    (s.pixels.length = 2048 ∧
      ∀ x < 64, ∀ y < 32, s.pixels[64 * y + x]? = some (x, y, s.pixel x y)) ∧
    (∀ x y, s.pixel x y = s.pixel (x % 64) (y % 32) ∧
      ∃ row, s.rows[y % 32]? = some row ∧ s.pixel x y = row.toNat.testBit (63 - x % 64)) ∧
    ((lines s.text).length = 32 ∧
      ∀ y (hy : y < 32),
        let shown := substitute '1' '█' (substitute '0' ' ' (binaryDigits 64 s.rows[y].toNat))
        (lines s.text)[y]? = some (hex 2 y ++ "|" ++ String.ofList shown ++ "|") ∧
        (hex 2 y).toList.length = 2 ∧ shown.length = 64 ∧
        ∀ x < 64, shown[x]? = some (if s.pixel x y then '█' else ' ')) ∧
    ((lines s.brailleText).length = 9 ∧
      (∀ line ∈ lines s.brailleText, line.toList.length = 33) ∧
      (∀ column < 33, ∀ line < 9, column = 32 ∨ line = 8 →
        charAt s.brailleText column line = some ' ') ∧
      ∀ column < 32, ∀ line < 8, ∃ c, charAt s.brailleText column line = some c ∧
        (c = ' ' ↔ ∀ dx < 2, ∀ dy < 4, s.pixel (2 * column + dx) (4 * line + dy) = false) ∧
        (c ≠ ' ' → ∃ dots < 256, c = Char.ofNat (0x2800 + dots) ∧
          ∀ dx < 2, ∀ dy < 4,
            dots.testBit (brailleDot dx dy) = s.pixel (2 * column + dx) (4 * line + dy))) ∧
    (s.isBlank = true ↔ ∀ x y, s.pixel x y = false) ∧
    ∀ s' : Screen, (s'.text = s.text ↔ s' = s) ∧ (s'.brailleText = s.brailleText ↔ s' = s) := by
  refine ⟨⟨s.length_pixels, fun x hx y hy => s.getElem?_pixels hx hy⟩,
    fun x y => ⟨(s.pixel_mod x y).symm, ?word⟩,
    ⟨by rw [lines_text, List.length_map, List.length_range], fun y hy => ?text⟩,
    ⟨by rw [lines_brailleText, List.length_map, List.length_range], fun line hline => ?width,
      fun column hc line hl hmargin => ?margin, fun column hc line hl => ?block⟩,
    s.isBlank_iff, fun s' => ⟨text_injective.eq_iff, brailleText_injective.eq_iff⟩⟩
  case word =>
    have hy : y % 32 < 32 := Nat.mod_lt _ (by decide)
    refine ⟨_, Vector.getElem?_eq_getElem hy, ?_⟩
    rw [← pixel_mod, s.pixel_eq_testBit _ hy, Nat.mod_mod]
  case text =>
    intro shown
    have hshown : shown = s.cells y := (s.cells_eq_substitute hy).symm
    rw [hshown, lines_text, List.getElem?_map, List.getElem?_range hy]
    have hnumber : y < 16 ^ 2 := by omega
    exact ⟨rfl, length_hex (by decide) hnumber, s.length_cells y, fun x hx => s.getElem?_cells hx y⟩
  case width =>
    rw [lines_brailleText] at hline
    obtain ⟨l, -, rfl⟩ := List.mem_map.1 hline
    exact s.length_brailleLine l
  case margin =>
    have hzero : s.brailleBits column line = 0 := s.brailleBits_margin (by omega)
    rw [s.charAt_brailleText hc hl, (s.brailleChar_eq_blank_iff column line).2 hzero]
  case block =>
    have hlit : ∀ dx < 2, ∀ dy < 4, s.litAt (2 * column + dx) (4 * line + dy) =
        s.pixel (2 * column + dx) (4 * line + dy) :=
      fun dx hx dy hy => s.litAt_of_lt hc hl hx hy
    refine ⟨_, s.charAt_brailleText (by omega) (by omega), ?_, fun hne => ?_⟩
    · rw [brailleChar_eq_blank_iff, brailleBits_eq_zero_iff]
      exact forall₄_congr fun dx hx dy hy => by rw [hlit dx hx dy hy]
    · have hbits : s.brailleBits column line ≠ 0 :=
        fun hzero => hne ((s.brailleChar_eq_blank_iff column line).2 hzero)
      refine ⟨s.brailleBits column line, s.brailleBits_lt column line, ?_, fun dx hx dy hy => ?_⟩
      · simp only [brailleChar, if_neg hbits]
      · rw [s.testBit_brailleBits_brailleDot column line hx hy, hlit dx hx dy hy]

end Screen

end Chip8
