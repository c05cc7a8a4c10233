import Mathlib.Data.List.DropRight
import Mathlib.Data.List.Forall2
import ScriptLint.Text.Blank

/-! What trimming leaves of a name.

* `Trims raw name`: `raw` is `name` between blanks, and `name` neither begins nor ends with one.
* `Padded s s'`, `PaddedList l l'`: the same name, or list of names, with more blanks.

Trimming is this relation, and padding is lost on it:

    nonBlank? raw = some name ↔ Trims raw name                  (nonBlank?_eq_some_iff)
    Padded s s' → nonBlank? s' = nonBlank? s                    (Padded.nonBlank?_eq)
-/

namespace ScriptLint.Text

/-- Nothing but blanks. -/
def Blank (cs : List Char) : Prop :=
  ∀ c ∈ cs, isBlank c = true

instance (cs : List Char) : Decidable (Blank cs) :=
  decidable_of_iff (cs.all isBlank = true) List.all_eq_true

/-- `name` is what is left of `raw` without the blanks at its ends; something is left. -/
structure Trims (raw name : String) : Prop where
  between : ∃ left right, Blank left ∧ Blank right ∧ raw.toList = left ++ name.toList ++ right
  head : ∃ c, name.toList.head? = some c ∧ isBlank c = false
  last : ∃ c, name.toList.getLast? = some c ∧ isBlank c = false

/-- The names of a list, trimmed; blank ones are left out. -/
def Entries (raws names : List String) : Prop :=
  List.Forall₂ Trims (raws.filter fun raw => !raw.toList.all isBlank) names

/-- The same name with blanks around it. -/
def Padded (s s' : String) : Prop :=
  ∃ left right, Blank left ∧ Blank right ∧ s'.toList = left ++ s.toList ++ right

/-- The same list with blanks around its names and blank names between them. -/
inductive PaddedList : List String → List String → Prop
  | nil : PaddedList [] []
  | cons {s s' : String} {l l' : List String} :
      Padded s s' → PaddedList l l' → PaddedList (s :: l) (s' :: l')
  | blank {s : String} {l l' : List String} :
      Blank s.toList → PaddedList l l' → PaddedList l (s :: l')

/-! ## Characters -/

theorem trimChars_eq_nil_iff {cs : List Char} : trimChars cs = [] ↔ Blank cs := by
  have h : trimChars cs = (cs.dropWhile isBlank).rdropWhile isBlank := rfl
  rw [h, List.rdropWhile_eq_nil_iff]
  constructor
  · intro hall c hc
    rw [← List.takeWhile_append_dropWhile (p := isBlank) (l := cs), List.mem_append] at hc
    rcases hc with hc | hc
    · exact List.mem_takeWhile_imp hc
    · exact hall c hc
  · intro hblank c hc
    exact hblank c ((List.dropWhile_sublist isBlank).subset hc)

/-- Blanks at the ends are lost. -/
theorem trimChars_append {left cs right : List Char} (hleft : Blank left) (hright : Blank right) :
    trimChars (left ++ cs ++ right) = trimChars cs := by
  by_cases hcs : Blank cs
  · have hall : Blank (left ++ cs ++ right) := by
      intro c hc
      simp only [List.mem_append] at hc
      rcases hc with (hc | hc) | hc
      · exact hleft c hc
      · exact hcs c hc
      · exact hright c hc
    rw [trimChars_eq_nil_iff.mpr hall, trimChars_eq_nil_iff.mpr hcs]
  · have hne : (cs.dropWhile isBlank).isEmpty = false := by
      rw [List.isEmpty_eq_false_iff, Ne, List.dropWhile_eq_nil_iff]
      exact hcs
    have hright' : ∀ c ∈ right.reverse, isBlank c = true := fun c hc =>
      hright c (List.mem_reverse.mp hc)
    unfold trimChars
    rw [List.append_assoc, List.dropWhile_append_of_pos hleft, List.dropWhile_append, hne,
      if_neg Bool.false_ne_true, List.reverse_append, List.dropWhile_append_of_pos hright']

/-- Nothing but blanks is lost. -/
theorem exists_trimChars (cs : List Char) :
    ∃ left right, Blank left ∧ Blank right ∧ cs = left ++ trimChars cs ++ right := by
  refine ⟨cs.takeWhile isBlank, (cs.dropWhile isBlank).rtakeWhile isBlank, ?_, ?_, ?_⟩
  · exact fun c hc => List.mem_takeWhile_imp hc
  · exact fun c hc => List.mem_rtakeWhile_imp hc
  · have hrest : trimChars cs ++ (cs.dropWhile isBlank).rtakeWhile isBlank =
        cs.dropWhile isBlank :=
      List.rdropWhile_append_rtakeWhile
    rw [List.append_assoc, hrest, List.takeWhile_append_dropWhile]

/-- What is left begins and ends with something else than a blank. -/
theorem ends_of_trimChars {cs : List Char} (h : trimChars cs ≠ []) :
    (∃ c, (trimChars cs).head? = some c ∧ isBlank c = false) ∧
    ∃ c, (trimChars cs).getLast? = some c ∧ isBlank c = false := by
  constructor
  · -- what is cut from the end leaves a prefix, with the same head
    have hprefix : trimChars cs <+: cs.dropWhile isBlank := List.rdropWhile_prefix isBlank _
    obtain ⟨c, tail, htrim⟩ := List.exists_cons_of_ne_nil h
    obtain ⟨right, hright⟩ := hprefix
    have hhead := List.head?_dropWhile_not isBlank cs
    rw [← hright, htrim] at hhead
    exact ⟨c, by rw [htrim]; rfl, hhead⟩
  · have hlast := List.rdropWhile_last_not isBlank (cs.dropWhile isBlank) h
    exact ⟨_, List.getLast?_eq_some_getLast h, Bool.eq_false_iff.mpr hlast⟩

theorem trimChars_eq_self {cs : List Char} (hhead : ∃ c, cs.head? = some c ∧ isBlank c = false)
    (hlast : ∃ c, cs.getLast? = some c ∧ isBlank c = false) : trimChars cs = cs := by
  obtain ⟨c, hc, hcblank⟩ := hhead
  obtain ⟨e, he, heblank⟩ := hlast
  have hdrop : cs.dropWhile isBlank = cs := by
    cases cs with
    | nil => rfl
    | cons first rest =>
      cases hc
      exact List.dropWhile_cons_of_neg (Bool.eq_false_iff.mp hcblank)
  have hself : trimChars cs = cs.rdropWhile isBlank := by
    unfold trimChars
    rw [hdrop]
    rfl
  rw [hself, List.rdropWhile_eq_self_iff]
  intro hne
  rw [List.getLast?_eq_some_getLast hne] at he
  rw [Option.some.inj he, heblank]
  exact Bool.false_ne_true

/-! ## Names -/

theorem nonBlank?_eq_none_iff {raw : String} : nonBlank? raw = none ↔ Blank raw.toList := by
  rw [← trimChars_eq_nil_iff]
  unfold nonBlank?
  split
  next h => simp [h]
  next h => simpa using h

theorem nonBlank?_eq_some_iff {raw name : String} : nonBlank? raw = some name ↔ Trims raw name := by
  constructor
  · intro h
    unfold nonBlank? at h
    split at h
    next => cases h
    next hne =>
      cases h
      obtain ⟨hhead, hlast⟩ := ends_of_trimChars hne
      rw [← String.toList_ofList (l := trimChars raw.toList)] at hhead hlast
      refine ⟨?_, hhead, hlast⟩
      rw [String.toList_ofList]
      exact exists_trimChars raw.toList
  · rintro ⟨⟨left, right, hleft, hright, hraw⟩, hhead, hlast⟩
    have htrim : trimChars raw.toList = name.toList := by
      rw [hraw, trimChars_append hleft hright, trimChars_eq_self hhead hlast]
    obtain ⟨c, hc, -⟩ := hhead
    unfold nonBlank?
    rw [htrim]
    split
    next hnil =>
      rw [hnil] at hc
      cases hc
    next => rw [String.ofList_toList]

/-- What is trimmed already stays as it is. -/
theorem nonBlank?_of_nonBlank? {raw name : String} (h : nonBlank? raw = some name) :
    nonBlank? name = some name := by
  obtain ⟨-, hhead, hlast⟩ := nonBlank?_eq_some_iff.mp h
  exact nonBlank?_eq_some_iff.mpr ⟨⟨[], [], nofun, nofun, by simp⟩, hhead, hlast⟩

theorem Padded.nonBlank?_eq {s s' : String} (h : Padded s s') : nonBlank? s' = nonBlank? s := by
  obtain ⟨left, right, hleft, hright, hs'⟩ := h
  unfold nonBlank?
  rw [hs', trimChars_append hleft hright]

/-! ## Lists of names -/

theorem entries_iff {raws names : List String} :
    Entries raws names ↔ names = raws.filterMap nonBlank? := by
  unfold Entries
  induction raws generalizing names with
  | nil => simp
  | cons raw raws ih =>
    have hall : (raw.toList.all isBlank) = true ↔ Blank raw.toList := List.all_eq_true
    cases hraw : nonBlank? raw with
    | none =>
      have hblank := hall.mpr (nonBlank?_eq_none_iff.mp hraw)
      rw [List.filterMap_cons_none hraw, List.filter_cons_of_neg (by simp [hblank])]
      exact ih
    | some name =>
      have hblank : raw.toList.all isBlank = false := by
        rw [Bool.eq_false_iff, Ne, hall, ← nonBlank?_eq_none_iff, hraw]
        exact Option.some_ne_none name
      rw [List.filterMap_cons_some hraw, List.filter_cons_of_pos (by simp [hblank]),
        List.forall₂_cons_left_iff]
      constructor
      · rintro ⟨name', names', htrims, hrest, rfl⟩
        rw [← nonBlank?_eq_some_iff, hraw] at htrims
        rw [Option.some.inj htrims, ih.mp hrest]
      · rintro rfl
        exact ⟨name, _, nonBlank?_eq_some_iff.mp hraw, ih.mpr rfl, rfl⟩

theorem PaddedList.filterMap_eq {l l' : List String} (h : PaddedList l l') :
    l'.filterMap nonBlank? = l.filterMap nonBlank? := by
  induction h with
  | nil => rfl
  | cons hs hl ih => rw [List.filterMap_cons, List.filterMap_cons, hs.nonBlank?_eq, ih]
  | blank hs hl ih => rw [List.filterMap_cons_none (nonBlank?_eq_none_iff.mpr hs), ih]

end ScriptLint.Text
