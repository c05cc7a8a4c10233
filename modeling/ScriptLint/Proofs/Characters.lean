import ScriptLint.Proofs.Strings
import ScriptLint.Proofs.Texts

/-! Findings do not cut characters.

The scanner goes byte by byte and may well stand inside a character, but both ends of every
range that it reports lie beside an ASCII byte or at the end of the text (`Beside`).  In a
text these are boundaries between characters (`isBoundary_of_beside`), so what a range cuts
out is a text again. -/

namespace ScriptLint

/-! ## Boundaries of a text -/

theorem Bytes.ofString_append (s t : String) : ofString (s ++ t) = ofString s ++ ofString t := by
  rw [ofString, String.toList_append, List.flatMap_append]
  rfl

namespace Utf8

variable {text : Bytes} {i j : Nat}

/-- Offset `i` lies before or behind an ASCII byte, or at the end. -/
inductive Beside (text : Bytes) : Nat → Prop
  | before {i : Nat} {b : UInt8} : text[i]? = some b → b < 0x80 → Beside text i
  | behind {i : Nat} {b : UInt8} : text[i]? = some b → b < 0x80 → Beside text (i + 1)
  | stop : Beside text text.length

theorem isTrailing_of_ascii {b : UInt8} (hb : b < 0x80) : isTrailing b = false := by
  rw [Bool.eq_false_iff, Ne, isTrailing_iff]
  exact fun h => absurd h.1 (UInt8.not_le.mpr hb)

theorem isBoundary_length (h : IsText text) : IsBoundary text text.length := by
  obtain ⟨s, rfl⟩ := h
  exact ⟨s, "", (List.append_nil _).symm, rfl⟩

theorem isBoundary_before {b : UInt8} (h : IsText text) (hi : text[i]? = some b) (hb : b < 0x80) :
    IsBoundary text i := by
  obtain ⟨hlt, rfl⟩ := List.getElem?_eq_some_iff.mp hi
  exact (isBoundary_iff h (List.drop_eq_getElem_cons hlt)).mpr (isTrailing_of_ascii hb)

/-- An ASCII byte is a character of its own. -/
theorem exists_ascii {b : UInt8} (hb : b < 0x80) : ∃ s, [b] = Bytes.ofString s := by
  refine ⟨String.ofList [Char.ofNat b.toNat], ?_⟩
  rw [Bytes.ofString_ofList, List.flatMap_singleton, encode_one hb]

theorem IsBoundary.isText_take (h : IsBoundary text i) : IsText (text.take i) := by
  obtain ⟨front, back, rfl, rfl⟩ := h
  rw [List.take_left]
  exact ⟨front, rfl⟩

/-- What stands between two boundaries is a text. -/
theorem isText_between (hi : IsBoundary text i) (hj : IsBoundary text j) (hij : i ≤ j) :
    IsText ((text.drop i).take (j - i)) := by
  obtain ⟨front, hfront⟩ := hi.isText_take
  have htake : text.take j = Bytes.ofString front ++ (text.drop i).take (j - i) := by
    rw [← hfront, ← List.take_add, Nat.add_sub_cancel' hij]
  have hj := hj.isText_take
  rwa [htake, isText_append_iff] at hj

theorem isBoundary_behind {b : UInt8} (h : IsText text) (hi : text[i]? = some b) (hb : b < 0x80) :
    IsBoundary text (i + 1) := by
  obtain ⟨front, back, rfl, rfl⟩ := isBoundary_before h hi hb
  obtain ⟨c, hc⟩ := exists_ascii hb
  rw [List.getElem?_append_right (Nat.le_refl _), Nat.sub_self] at hi
  obtain ⟨rest, hrest⟩ : ∃ rest, Bytes.ofString back = [b] ++ rest := by
    obtain ⟨rest, hrest⟩ := List.head?_eq_some_iff.mp (List.head?_eq_getElem?.trans hi)
    exact ⟨rest, hrest⟩
  -- the rest is a text, as the byte before it is one
  have hback : IsText (Bytes.ofString back) := ⟨back, rfl⟩
  rw [hrest, hc, isText_append_iff] at hback
  obtain ⟨tail, rfl⟩ := hback
  refine ⟨front ++ c, tail, ?_, ?_⟩
  · rw [hrest, hc, Bytes.ofString_append, List.append_assoc]
  · rw [Bytes.ofString_append, ← hc, List.length_append, List.length_singleton]

theorem isBoundary_of_beside (h : IsText text) (hi : Beside text i) : IsBoundary text i := by
  cases hi with
  | before hi hb => exact isBoundary_before h hi hb
  | behind hi hb => exact isBoundary_behind h hi hb
  | stop => exact isBoundary_length h

theorem IsBoundary.le_length (h : IsBoundary text i) : i ≤ text.length := by
  obtain ⟨front, back, rfl, rfl⟩ := h
  rw [List.length_append]
  exact Nat.le_add_right _ _

end Utf8

namespace Lexer

open Grammar (LineBreak marks)
open Utf8 (Beside IsBoundary IsText)

variable {text : Bytes} {i n : Nat}

/-! ## Ends of strings -/

theorem beside_of_stopsAt {q : UInt8} (hq : q < 0x80) (h : StopsAt q text i n) : Beside text n := by
  induction h with
  | quote hi => exact .before hi hq
  | lineBreak hi hbreak =>
    refine .before hi ?_
    rcases hbreak with rfl | rfl <;> decide
  | stop => exact .stop
  | escapedBreak _ _ _ _ ih => exact ih
  | escape _ _ _ _ ih => exact ih
  | lastBackslash _ _ _ ih => exact ih
  | byte _ _ _ _ _ ih => exact ih

theorem getElem?_of_nextLine {j : Nat} {b : UInt8} (h : (nextLine text n)[j]? = some b) :
    text[n + breakWidth text n + j]? = some b := by
  obtain ⟨hj, rfl⟩ := List.getElem?_eq_some_iff.mp h
  rw [← List.getElem?_drop]
  exact List.prefix_iff_getElem?.mp (List.takeWhile_prefix _) j hj

/-- A string in quotes ends where its text stops, or behind a quote of the next line. -/
theorem beside_of_extent {q : UInt8} {stop : Nat} (hq : q < 0x80) (hn : Beside text n)
    (h : Extent q text n stop) : Beside text stop := by
  by_cases hend : n = text.length
  · rwa [h.atEnd hend]
  · by_cases hcount : (nextLine text n).count q = 1
    · obtain ⟨j, hj, rfl⟩ := h.onNextLine hend hcount
      exact .behind (getElem?_of_nextLine hj) hq
    · rwa [h.atBreak hend hcount]

/-! ## Ends of findings -/

/-- An item at fault begins at an ASCII byte, and its range ends beside one or with the text. -/
theorem beside_of_read {m : Mark} {rest : List Mark} {kind : Kind} {width : Nat}
    (hd : marks (text.drop i) = m :: rest) (hr : Lexeme.read m rest = .fault kind width n) :
    Beside text i ∧ Beside text (i + (width + 1)) := by
  cases Lexeme.fault_of_read hr with
  | @string q =>
    obtain ⟨hquote, rfl⟩ := byte_of_marks hd rfl
    have hq : q.byte < 0x80 := by cases q <;> decide
    have hlt := (List.getElem?_eq_some_iff.mp hquote).1
    obtain ⟨j, hstops, -, hextent⟩ := extent_of_string hlt hr
    have hstop := beside_of_extent hq (beside_of_stopsAt hq hstops) hextent
    rw [Nat.succ_add_eq_add_succ] at hstop
    exact ⟨.before hquote hq, hstop⟩
  | unclosed _ =>
    obtain ⟨hslash, hstar⟩ := byte_of_marks hd rfl
    obtain ⟨hstar, -⟩ := byte_of_marks hstar rfl
    exact ⟨.before hslash (by decide), .behind hstar (by decide)⟩
  | unopened =>
    obtain ⟨hstar, hslash⟩ := byte_of_marks hd rfl
    obtain ⟨hslash, -⟩ := byte_of_marks hslash rfl
    exact ⟨.before hstar (by decide), .behind hslash (by decide)⟩
  | strayAt =>
    obtain ⟨hat, -⟩ := byte_of_marks hd rfl
    exact ⟨.before hat (by decide), .behind hat (by decide)⟩
  | strayHash _ =>
    obtain ⟨hhash, -⟩ := byte_of_marks hd rfl
    exact ⟨.before hhash (by decide), .behind hhash (by decide)⟩

theorem beside_of_arises {f : Finding} (h : Descent.Arises 0 (marks text) f) :
    ∀ span ∈ f.span :: f.args, Beside text span.first ∧ Beside text span.stop := by
  intro span hspan
  cases h with
  | @fault i width n m rest kind hd hr =>
    rw [Scan.mem_ranges_faultAt hspan, Nat.zero_add]
    rw [← Grammar.marks_drop] at hd
    exact beside_of_read hd hr
  | @template i rest hd =>
    rw [List.mem_singleton.mp hspan, Nat.zero_add, Nat.zero_add]
    rw [← Grammar.marks_drop] at hd
    obtain ⟨hbacktick, -⟩ := byte_of_marks hd rfl
    have hlt := (List.getElem?_eq_some_iff.mp hbacktick).1
    have hlen : (marks text).length = text.length := List.length_map _
    refine ⟨.before hbacktick (by decide), ?_⟩
    rw [hlen, Scan.stop_unclosedTemplate (Nat.le_of_lt hlt)]
    exact .stop

/-! ## Top theorem -/

/-- Of a script that is a text, both ends of every range that a finding reports or quotes lie
between characters, and the range cuts out a text. -/
theorem analyze_boundaries {text : Bytes} (h : IsText text) (hlen : text.length ≤ maxOffset) :
    ∃ findings, analyze text = .ok findings ∧ ∀ f ∈ findings, ∀ span ∈ f.span :: f.args,
      IsBoundary text span.first ∧ IsBoundary text span.stop ∧
      ∃ slice, span.slice? text = some slice ∧ IsText slice := by
  refine ⟨scan (marks text), analyze_of_length_le hlen, fun f hf span hspan => ?_⟩
  rw [scan_eq_descent] at hf
  have hmem := (List.mergeSort_perm _ _).mem_iff.mp hf
  obtain ⟨hfirst, hstop⟩ := beside_of_arises (Descent.arises_of_mem_findings hmem) span hspan
  have hfirst := Utf8.isBoundary_of_beside h hfirst
  have hstop := Utf8.isBoundary_of_beside h hstop
  exact ⟨hfirst, hstop, _, if_pos hstop.le_length,
    Utf8.isText_between hfirst hstop span.first_le_stop⟩

/-- A string and a name in which the scanner stops inside a character: an escaped `é` before
the break, and a `→` behind `#`. -/
def insideCharacters : String :=
  "'\\é\né'#→@"

def insideCharactersFindings : List Finding :=
  [⟨.unclosedString, .ofLength 0 8, []⟩, ⟨.strayAt, .ofLength 12 1, [.ofLength 12 1]⟩]

theorem analyze_insideCharacters :
    analyze (Bytes.ofString insideCharacters) = .ok insideCharactersFindings :=
  analyze_of_perm (by decide) (by decide +kernel) (by decide)

theorem boundaries_insideCharacters :
    IsText (Bytes.ofString insideCharacters) ∧
    (Bytes.ofString insideCharacters).length ≤ maxOffset ∧
    analyze (Bytes.ofString insideCharacters) = .ok insideCharactersFindings ∧
    ∀ f ∈ insideCharactersFindings, ∀ span ∈ f.span :: f.args,
      IsBoundary (Bytes.ofString insideCharacters) span.first ∧
      IsBoundary (Bytes.ofString insideCharacters) span.stop ∧
      ∃ slice, span.slice? (Bytes.ofString insideCharacters) = some slice ∧ IsText slice := by
  have htext : IsText (Bytes.ofString insideCharacters) := ⟨_, rfl⟩
  have hlen : (Bytes.ofString insideCharacters).length ≤ maxOffset := by decide
  obtain ⟨findings, hfindings, hboundaries⟩ := analyze_boundaries htext hlen
  rw [analyze_insideCharacters] at hfindings
  cases hfindings
  exact ⟨htext, hlen, analyze_insideCharacters, hboundaries⟩

end Lexer

end ScriptLint
