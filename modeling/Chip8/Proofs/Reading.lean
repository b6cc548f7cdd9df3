import Chip8.CommandLine.Unsigned
import Chip8.Text.Numeral
import Chip8.Text.Style
import Mathlib.Algebra.GroupWithZero.Nat

/-!
# Reading texts

The texts of this library can be read again. This module reads the parts that they have in common:
numbers, coloured passages, lines.

* `hexValue` reads hexadecimal digits of either case; `hexValue_hexDigits` and `hexValue_upperHex`
  say that it gives back the number that was written.
* `visible` is what a terminal shows of a text, the escape sequences left out. `Shows` says the same
  of a part of a text, and `Shows.paint` that a style changes nothing about it.
* `lines` are the lines of a text, and `lines_append` takes one off.
-/

namespace Chip8.Text

open CommandLine

/-! ## Characters -/

/-- A character of joined parts is one of the separator or of a part. -/
theorem mem_intercalate {separator : String} {parts : List String} {c : Char}
    (h : c ∈ (separator.intercalate parts).toList) :
    c ∈ separator.toList ∨ ∃ part ∈ parts, c ∈ part.toList := by
  rw [String.toList_intercalate] at h
  induction parts with
  | nil => cases h
  | cons part rest ih =>
    cases rest with
    | nil =>
      rw [List.map_singleton, List.intercalate_singleton] at h
      exact .inr ⟨part, List.mem_cons_self, h⟩
    | cons next rest =>
      rw [List.map_cons, List.map_cons, List.intercalate_cons_cons, ← List.map_cons] at h
      rcases List.mem_append.1 h with h | h
      · rcases List.mem_append.1 h with h | h
        · exact .inr ⟨part, List.mem_cons_self, h⟩
        · exact .inl h
      · exact (ih h).imp_right fun ⟨other, hmem, hc⟩ => ⟨other, List.mem_cons_of_mem _ hmem, hc⟩

/-- The digits of a number are digits, by recursion on the number. -/
theorem exists_digitChar_of_mem_toDigits {base : Nat} (hb : 1 < base) {n : Nat} {c : Char}
    (h : c ∈ Nat.toDigits base n) : ∃ d < base, c = Nat.digitChar d := by
  induction n using Nat.strongRecOn with
  | ind n ih =>
    rw [Nat.toDigits_eq_if hb] at h
    split at h
    · rename_i hlt
      exact ⟨n, hlt, List.mem_singleton.1 h⟩
    · have hlt : n / base < n := Nat.div_lt_self (by omega) hb
      rcases List.mem_append.1 h with h | h
      · exact ih _ hlt h
      · exact ⟨n % base, Nat.mod_lt _ (by omega), List.mem_singleton.1 h⟩

theorem not_mem_toDigits {base : Nat} (hb : 1 < base) {c : Char} (hc : ∀ d, Nat.digitChar d ≠ c)
    (n : Nat) : c ∉ Nat.toDigits base n := by
  intro h
  obtain ⟨d, -, hd⟩ := exists_digitChar_of_mem_toDigits hb h
  exact hc d hd.symm

theorem exists_digitChar_of_mem_hex {width n : Nat} {c : Char} (h : c ∈ (hex width n).toList) :
    ∃ d < 16, c = Nat.digitChar d := by
  rw [toList_hex, hexDigits, List.leftpad] at h
  rcases List.mem_append.1 h with h | h
  · exact ⟨0, by decide, (List.mem_replicate.1 h).2⟩
  · exact exists_digitChar_of_mem_toDigits (by decide) h

theorem not_mem_hex {c : Char} (hc : ∀ d, Nat.digitChar d ≠ c) (width n : Nat) :
    c ∉ (hex width n).toList := by
  intro h
  obtain ⟨d, -, hd⟩ := exists_digitChar_of_mem_hex h
  exact hc d hd.symm

theorem exists_digitChar_of_mem_upperHex {n : Nat} {c : Char} (h : c ∈ (upperHex n).toList) :
    ∃ d < 16, c = (Nat.digitChar d).toUpper := by
  rw [toList_upperHex] at h
  obtain ⟨c, hc, rfl⟩ := List.mem_map.1 h
  obtain ⟨d, hd, rfl⟩ := exists_digitChar_of_mem_toDigits (by decide) hc
  exact ⟨d, hd, rfl⟩

/-- A number that fits has as many digits as there is room for. -/
theorem length_hex {width n : Nat} (hw : 0 < width) (h : n < 16 ^ width) :
    (hex width n).toList.length = width := by
  have hle := (Nat.length_toDigits_le_iff (by decide) hw).2 h
  rw [toList_hex, hexDigits, List.length_leftpad, Nat.max_eq_left hle]

/-! ## Numbers -/

/-- The number that hexadecimal digits stand for. -/
def hexValue (digits : List Char) : Nat :=
  digits.foldl (fun value c => 16 * value + (digitValue? 16 c).getD 0) 0

theorem hexValue_append_singleton (digits : List Char) (c : Char) :
    hexValue (digits ++ [c]) = 16 * hexValue digits + (digitValue? 16 c).getD 0 := by
  simp [hexValue]

/-- Digits are read again, also if each is written in another way `f`, as in capitals. -/
theorem hexValue_map_toDigits {f : Char → Char}
    (hf : ∀ d < 16, digitValue? 16 (f (Nat.digitChar d)) = some d) (n : Nat) :
    hexValue ((Nat.toDigits 16 n).map f) = n := by
  induction n using Nat.strongRecOn with
  | ind n ih =>
    rw [Nat.toDigits_eq_if (by decide)]
    split
    · rename_i hlt
      simp [hexValue, hf n hlt]
    · have hlt : n / 16 < n := by omega
      rw [List.map_append, List.map_singleton, hexValue_append_singleton, ih _ hlt,
        hf _ (by omega), Option.getD_some]
      omega

/-- Zeros in front make no difference. -/
theorem hexValue_replicate_append (k : Nat) (digits : List Char) :
    hexValue (List.replicate k '0' ++ digits) = hexValue digits := by
  have hzero : (digitValue? 16 '0').getD 0 = 0 := by decide
  induction k with
  | zero => rfl
  | succ k ih =>
    rw [List.replicate_succ, List.cons_append, ← ih]
    simp only [hexValue, List.foldl_cons, hzero]

/-- **A number in hexadecimal digits is read again.** -/
theorem hexValue_hexDigits (width n : Nat) : hexValue (hexDigits width n) = n := by
  have hdigit : ∀ d < 16, digitValue? 16 (id (Nat.digitChar d)) = some d := by decide
  have hdigits := hexValue_map_toDigits hdigit n
  rw [List.map_id] at hdigits
  rw [hexDigits, List.leftpad, hexValue_replicate_append, hdigits]

theorem hexValue_upperHex (n : Nat) : hexValue (upperHex n).toList = n := by
  rw [toList_upperHex]
  exact hexValue_map_toDigits (by decide) n

theorem hex_injective (width : Nat) : Function.Injective (hex width) := by
  intro n n' h
  have hdigits : hexDigits width n = hexDigits width n' := by rw [← toList_hex, h, toList_hex]
  rw [← hexValue_hexDigits width n, hdigits, hexValue_hexDigits]

/-! ## Escape sequences -/

/-- The characters that are seen; `escaped` says whether the text begins inside of an escape
sequence, which ends with the letter `m`. -/
def seen (escaped : Bool) : List Char → List Char
  | [] => []
  | c :: rest =>
    if escaped then seen (c != 'm') rest
    else if c = '\x1b' then seen true rest
    else c :: seen false rest

/-- What a terminal shows of a text. -/
def visible (text : String) : String :=
  String.ofList (seen false text.toList)

/-- In any place, a terminal shows of the text `text` just what `shown` is. -/
def Shows (text shown : String) : Prop :=
  ∀ rest, seen false (text.toList ++ rest) = shown.toList ++ seen false rest

namespace Shows

theorem visible_eq {text shown : String} (h : Shows text shown) : visible text = shown := by
  have hseen := h []
  rw [List.append_nil, seen, List.append_nil] at hseen
  rw [visible, hseen, String.ofList_toList]

theorem append {text text' shown shown' : String} (h : Shows text shown)
    (h' : Shows text' shown') : Shows (text ++ text') (shown ++ shown') := by
  intro rest
  rw [String.toList_append, String.toList_append, List.append_assoc, List.append_assoc, h, h']

theorem join {α : Type} {xs : List α} {text shown : α → String}
    (h : ∀ x ∈ xs, Shows (text x) (shown x)) :
    Shows (String.join (xs.map text)) (String.join (xs.map shown)) := by
  induction xs with
  | nil => exact fun _ => rfl
  | cons x xs ih =>
    rw [List.map_cons, List.map_cons, String.join_cons, String.join_cons]
    exact (h x List.mem_cons_self).append (ih fun y hy => h y (List.mem_cons_of_mem _ hy))

/-- A text without escape sequences is shown as it is. -/
theorem refl {text : String} (h : '\x1b' ∉ text.toList) : Shows text text := by
  intro rest
  generalize text.toList = characters at h
  induction characters with
  | nil => rfl
  | cons c characters ih =>
    obtain ⟨hc, hrest⟩ := not_or.1 (mt List.mem_cons.2 h)
    rw [List.cons_append, seen, if_neg (by decide), if_neg (Ne.symm hc), ih hrest, List.cons_append]

/-- Inside of an escape sequence nothing is seen up to its end. -/
theorem seen_of_not_mem {characters : List Char} (h : 'm' ∉ characters) (rest : List Char) :
    seen true (characters ++ 'm' :: rest) = seen false rest := by
  induction characters with
  | nil => rfl
  | cons c characters ih =>
    obtain ⟨hc, hrest⟩ := not_or.1 (mt List.mem_cons.2 h)
    have hin : (c != 'm') = true := bne_iff_ne.2 (Ne.symm hc)
    rw [List.cons_append, seen, if_pos rfl, hin, ih hrest]

/-- Of an escape sequence nothing is seen. -/
theorem attributes (codes : List Nat) : Shows (attributes codes) "" := by
  have hcodes : 'm' ∉ (";".intercalate (codes.map Nat.repr)).toList := by
    intro hm
    rcases mem_intercalate hm with hm | ⟨part, hpart, hm⟩
    · exact absurd hm (by decide)
    · obtain ⟨n, -, rfl⟩ := List.mem_map.1 hpart
      rw [Nat.toList_repr] at hm
      exact not_mem_toDigits (by decide) (fun _ => Nat.digitChar_ne 'm' rfl) n hm
  intro rest
  have hstart : "\x1b[".toList = ['\x1b', '['] := rfl
  have hend : "m".toList = ['m'] := rfl
  rw [Text.attributes, String.toList_append, String.toList_append, hstart, hend, List.append_assoc]
  exact seen_of_not_mem hcodes rest

/-- Nothing is seen of the sequences around a text. -/
theorem escaped {text shown : String} (h : Shows text shown) (codes codes' : List Nat) :
    Shows (Text.attributes codes ++ text ++ Text.attributes codes') shown := by
  have hescaped := ((attributes codes).append h).append (attributes codes')
  rwa [String.empty_append, String.append_empty] at hescaped

theorem paint {text shown : String} (h : Shows text shown) (s : Style) :
    Shows (s.paint text) shown := by
  unfold Style.paint
  split
  · exact h
  · exact h.escaped s.codes [0]

theorem tint {text shown : String} (h : Shows text shown) (c : Colour) :
    Shows (c.tint text) shown :=
  h.escaped [c.foregroundCode] [39]

end Shows

theorem shows_hex (width n : Nat) : Shows (hex width n) (hex width n) :=
  Shows.refl (not_mem_hex (fun _ => Nat.digitChar_ne '\x1b' rfl) width n)

theorem shows_column (width n : Nat) : Shows (column width n) (column width n) := by
  refine Shows.refl fun h => ?_
  rw [toList_column, List.leftpad] at h
  rcases List.mem_append.1 h with h | h
  · cases (List.mem_replicate.1 h).2
  · exact not_mem_toDigits (by decide) (fun _ => Nat.digitChar_ne '\x1b' rfl) n h

/-! ## Lines -/

/-- The lines of a text. What stands behind the last line break is a line too, unless it is
empty. -/
def lines (text : String) : List String :=
  let pieces := text.toList.splitOn '\n'
  (if pieces.getLast? = some [] then pieces.dropLast else pieces).map String.ofList

/-- A line that is not the last one. -/
theorem lines_append {line : String} (h : '\n' ∉ line.toList) (rest : String) :
    lines (line ++ "\n" ++ rest) = line :: lines rest := by
  have hpieces : (line ++ "\n" ++ rest).toList.splitOn '\n' =
      line.toList :: rest.toList.splitOn '\n' := by
    rw [String.toList_append, String.toList_append, List.append_assoc]
    exact List.splitOn_append_cons_self_of_not_mem h _
  have hne : rest.toList.splitOn '\n' ≠ [] := List.splitOn_ne_nil _ _
  simp only [lines, hpieces, List.getLast?_cons_of_ne_nil hne, List.dropLast_cons_of_ne_nil hne]
  split
  · rw [List.map_cons, String.ofList_toList]
  · rw [List.map_cons, String.ofList_toList]

theorem lines_of_not_mem {line : String} (h : '\n' ∉ line.toList) (hne : line ≠ "") :
    lines line = [line] := by
  have hlast : line.toList ≠ [] := fun hnil => hne (String.toList_inj.1 hnil)
  simp [lines, List.splitOn_eq_singleton h, hlast]

/-- Lines that are put together are found again. -/
theorem lines_join {texts : List String} (h : ∀ line ∈ texts, '\n' ∉ line.toList) :
    lines (String.join (texts.map (· ++ "\n"))) = texts := by
  induction texts with
  | nil => rfl
  | cons line rest ih =>
    rw [List.map_cons, String.join_cons, lines_append (h line List.mem_cons_self),
      ih fun other hmem => h other (List.mem_cons_of_mem _ hmem)]

/-- Parts with line breaks between them and behind them are lines. -/
theorem intercalate_append_newline {parts : List String} (h : parts ≠ []) :
    "\n".intercalate parts ++ "\n" = String.join (parts.map (· ++ "\n")) := by
  refine String.toList_inj.1 ?_
  rw [String.toList_append, String.toList_intercalate, String.toList_join]
  induction parts with
  | nil => exact absurd rfl h
  | cons part rest ih =>
    cases rest with
    | nil => simp
    | cons next rest =>
      rw [List.map_cons, List.map_cons, List.intercalate_cons_cons, ← List.map_cons,
        List.append_assoc, List.append_assoc, ih (List.cons_ne_nil _ _)]
      simp

/-- The character in a place of a text. -/
def charAt (text : String) (column line : Nat) : Option Char :=
  (lines text)[line]?.bind fun characters => characters.toList[column]?

end Chip8.Text
