import Mathlib.Data.Fintype.Powerset
import Mathlib.Data.List.TakeDrop
import Mathlib.Data.List.TakeWhile
import Mathlib.Data.Prod.Lex
import ScriptLint.Locale.Name

/-! The sub-names of a locale name, and the order in which they stand in for it.

* `Split`: a name cut at its separators.  A separator may introduce an empty part.  A part
  may hold the separators of earlier parts, never those of parts still to come, so each
  name has one split (`exists_text`, `text_injective`).
* `Split.keep S`: the name with only those of its optional parts that are in `S`.
* `rank S`: how much keeping `S` counts; the modifier decides before the territory, and
  the territory before the codeset.

The candidates of a name keep each set of parts that are there, by descending rank:

    candidates s.text = (subsets s.present).map fun S => (s.keep S).text     (candidates_text)
-/

namespace ScriptLint.Locale

/-! ## Splits -/

/-- None of the stops is in `cs`. -/
def Free (stops cs : List Char) : Prop :=
  ∀ c ∈ cs, c ∉ stops

/-- Nothing follows, or one of the stops does. -/
def Closes (stops rest : List Char) : Prop :=
  ∀ c ∈ rest.head?, c ∈ stops

/-- The optional parts of a name, in the order in which they are written. -/
inductive Part where
  | territory
  | codeset
  | modifier
  deriving DecidableEq

namespace Part

instance : Fintype Part where
  elems := {territory, codeset, modifier}
  complete p := by cases p <;> decide

/-- What introduces a part. -/
def separator : Part → Char
  | territory => '_'
  | codeset => '.'
  | modifier => '@'

/-- What ends a part: the separators of the parts that may follow. -/
def stops : Part → List Char
  | territory => ['.', '@']
  | codeset => ['@']
  | modifier => []

/-- A part as it is written; `none` is not written at all. -/
def spell (p : Part) : Option (List Char) → List Char
  | none => []
  | some cs => p.separator :: cs

/-- Nothing in the part ends it. -/
def Fits (p : Part) (part : Option (List Char)) : Prop :=
  ∀ cs, part = some cs → Free p.stops cs

end Part

/-- A name cut at its separators; `some []` is a separator with nothing behind it. -/
@[ext]
structure Split where
  language : List Char
  part : Part → Option (List Char)
  language_free : Free ['_', '.', '@'] language
  fits : ∀ p : Part, p.Fits (part p)

namespace Split

def chars (s : Split) : List Char :=
  s.language ++ (Part.territory.spell (s.part .territory) ++
    (Part.codeset.spell (s.part .codeset) ++ Part.modifier.spell (s.part .modifier)))

def text (s : Split) : String :=
  String.ofList s.chars

/-- What an optional part says; nothing when it is missing. -/
def content (s : Split) (p : Part) : List Char :=
  (s.part p).getD []

/-- The optional parts that are there and not empty. -/
def present (s : Split) : Finset Part :=
  Finset.univ.filter fun p => s.content p ≠ []

/-- The name with those of its optional parts that are in `S`. -/
def keep (s : Split) (S : Finset Part) : Split where
  language := s.language
  part p := if p ∈ S then s.part p else none
  language_free := s.language_free
  fits p cs h := by
    split at h
    next => exact s.fits p cs h
    next => cases h

/-- No separator introduces an empty part. -/
def Full (s : Split) : Prop :=
  ∀ p, s.part p ≠ some []

end Split

/-! ## Reading a split back -/

section
variable {stops cs cs' rest rest' : List Char}

theorem closes_nil : Closes stops [] :=
  nofun

/-- What is free of stops is taken up to the stop. -/
theorem span_append (hcs : Free stops cs) (hrest : Closes stops rest) :
    (cs ++ rest).span (! stops.contains ·) = (cs, rest) := by
  have hall : ∀ c ∈ cs, (! stops.contains c) = true := by
    intro c hc
    simpa using hcs c hc
  rw [List.span_eq_takeWhile_dropWhile, List.takeWhile_append_of_pos hall,
    List.dropWhile_append_of_pos hall]
  cases rest with
  | nil => rw [List.takeWhile_nil, List.dropWhile_nil, List.append_nil]
  | cons c rest =>
    have hc : c ∈ stops := hrest c rfl
    simp [hc]

/-- Every text is cut by a first stop, or has none. -/
theorem exists_free_append (stops cs : List Char) :
    ∃ front rest, cs = front ++ rest ∧ Free stops front ∧ Closes stops rest := by
  refine ⟨cs.takeWhile (! stops.contains ·), cs.dropWhile (! stops.contains ·),
    List.takeWhile_append_dropWhile.symm, ?_, ?_⟩
  · intro c hc
    simpa using List.mem_takeWhile_imp hc
  · intro c hc
    have hhead := List.head?_dropWhile_not (! stops.contains ·) cs
    rw [Option.mem_def.mp hc] at hhead
    simpa using hhead

/-- The cut is the only one. -/
theorem append_inj_of_free (hcs : Free stops cs) (hrest : Closes stops rest)
    (hcs' : Free stops cs') (hrest' : Closes stops rest') (h : cs ++ rest = cs' ++ rest') :
    cs = cs' ∧ rest = rest' := by
  have hspan := span_append hcs hrest
  rw [h, span_append hcs' hrest'] at hspan
  exact ⟨(congrArg Prod.fst hspan).symm, (congrArg Prod.snd hspan).symm⟩

end

namespace Part

section
variable {p : Part} {part part' : Option (List Char)} {rest rest' : List Char}

theorem separator_not_mem_stops (p : Part) : p.separator ∉ p.stops := by
  cases p <;> decide

/-- A part that is written, and what may follow, begin with its separator or with a stop. -/
theorem closes_spell (hrest : Closes p.stops rest) :
    Closes (p.separator :: p.stops) (p.spell part ++ rest) := by
  intro c hc
  cases part with
  | none => exact List.mem_cons_of_mem _ (hrest c hc)
  | some cs =>
    cases hc
    exact List.mem_cons_self

theorem takePart_spell (hpart : p.Fits part) (hrest : Closes p.stops rest) :
    Name.takePart p.separator p.stops (p.spell part ++ rest) = (part.getD [], rest) := by
  cases part with
  | none =>
    cases rest with
    | nil => rfl
    | cons c rest =>
      have hc : c ≠ p.separator := by
        rintro rfl
        exact p.separator_not_mem_stops (hrest _ rfl)
      exact if_neg hc
  | some cs =>
    have htake : Name.takePart p.separator p.stops (p.spell (some cs) ++ rest) =
        (cs ++ rest).span (! p.stops.contains ·) := if_pos rfl
    rw [htake, span_append (hpart cs rfl) hrest]
    rfl

theorem spell_inj (h : p.spell part = p.spell part') : part = part' := by
  cases part <;> cases part' <;> simp_all [spell]

theorem spell_append_inj (hpart : p.Fits part) (hrest : Closes p.stops rest)
    (hpart' : p.Fits part') (hrest' : Closes p.stops rest')
    (h : p.spell part ++ rest = p.spell part' ++ rest') :
    part = part' ∧ rest = rest' := by
  have htake := takePart_spell hpart hrest
  rw [h, takePart_spell hpart' hrest'] at htake
  obtain rfl : rest' = rest := congrArg Prod.snd htake
  exact ⟨spell_inj (List.append_cancel_right h), rfl⟩

/-- Where the part may come, it does or it is missing. -/
theorem exists_spell_append {cs : List Char} (h : Closes (p.separator :: p.stops) cs) :
    ∃ part rest, cs = p.spell part ++ rest ∧ p.Fits part ∧ Closes p.stops rest := by
  cases cs with
  | nil => exact ⟨none, [], rfl, nofun, closes_nil⟩
  | cons c cs =>
    rcases List.mem_cons.mp (h c rfl) with rfl | hc
    · obtain ⟨front, rest, rfl, hfront, hrest⟩ := exists_free_append p.stops cs
      refine ⟨some front, rest, rfl, ?_, hrest⟩
      rintro _ ⟨⟩
      exact hfront
    · refine ⟨none, c :: cs, rfl, nofun, ?_⟩
      rintro _ ⟨⟩
      exact hc

end

end Part

namespace Split

variable (s : Split)

theorem closes_modifier : Closes ['@'] (Part.modifier.spell (s.part .modifier)) := by
  have h : Closes ['@'] (Part.modifier.spell (s.part .modifier) ++ []) :=
    Part.closes_spell closes_nil
  rwa [List.append_nil] at h

theorem closes_codeset : Closes ['.', '@']
    (Part.codeset.spell (s.part .codeset) ++ Part.modifier.spell (s.part .modifier)) :=
  Part.closes_spell s.closes_modifier

theorem closes_territory : Closes ['_', '.', '@'] (Part.territory.spell (s.part .territory) ++
    (Part.codeset.spell (s.part .codeset) ++ Part.modifier.spell (s.part .modifier))) :=
  Part.closes_spell s.closes_codeset

theorem ofChars_chars : Name.ofChars s.chars =
    ⟨s.language, s.content .territory, s.content .codeset, s.content .modifier⟩ := by
  have hl := span_append s.language_free s.closes_territory
  have ht : Name.takePart '_' ['.', '@'] _ = _ :=
    Part.takePart_spell (s.fits .territory) s.closes_codeset
  have hc : Name.takePart '.' ['@'] _ = _ := Part.takePart_spell (s.fits .codeset) s.closes_modifier
  have hm : Name.takePart '@' [] (Part.modifier.spell (s.part .modifier) ++ []) = _ :=
    Part.takePart_spell (s.fits .modifier) closes_nil
  rw [List.append_nil] at hm
  unfold Name.ofChars chars
  simp only [hl, ht, hc, hm]
  rfl

/-- A name has at most one split. -/
theorem chars_injective : Function.Injective chars := by
  intro s s' h
  -- from the left, each part ends at the first stop on both sides
  obtain ⟨hl, h⟩ := append_inj_of_free s.language_free s.closes_territory s'.language_free
    s'.closes_territory h
  obtain ⟨ht, h⟩ := Part.spell_append_inj (s.fits .territory) s.closes_codeset
    (s'.fits .territory) s'.closes_codeset h
  obtain ⟨hc, h⟩ := Part.spell_append_inj (s.fits .codeset) s.closes_modifier
    (s'.fits .codeset) s'.closes_modifier h
  have hm := Part.spell_inj h
  ext1
  · exact hl
  · funext p
    cases p <;> assumption

/-- A name has a split. -/
theorem exists_chars (cs : List Char) : ∃ s : Split, s.chars = cs := by
  obtain ⟨language, cs, rfl, hl, h⟩ := exists_free_append ['_', '.', '@'] cs
  obtain ⟨territory, cs, rfl, ht, h⟩ := Part.exists_spell_append (p := .territory) h
  obtain ⟨codeset, cs, rfl, hc, h⟩ := Part.exists_spell_append (p := .codeset) h
  obtain ⟨modifier, cs, rfl, hm, h⟩ := Part.exists_spell_append (p := .modifier) h
  -- a modifier has no stops, so nothing is left behind it
  obtain rfl : cs = [] := by
    cases cs with
    | nil => rfl
    | cons c cs => exact absurd (h c rfl) List.not_mem_nil
  refine ⟨⟨language, fun | .territory => territory | .codeset => codeset | .modifier => modifier,
    hl, ?_⟩, ?_⟩
  · rintro (_ | _ | _)
    · exact ht
    · exact hc
    · exact hm
  · simp [chars]

theorem text_injective : Function.Injective text := by
  intro s s' h
  exact chars_injective (String.ofList_injective h)

theorem exists_text (name : String) : ∃ s : Split, s.text = name := by
  obtain ⟨s, hs⟩ := exists_chars name.toList
  exact ⟨s, by rw [text, hs, String.ofList_toList]⟩

end Split

/-! ## Keeping some parts -/

namespace Split

variable {s : Split} {S S' : Finset Part} {p : Part}

theorem mem_present : p ∈ s.present ↔ s.content p ≠ [] := by
  simp [present]

@[simp]
theorem language_keep : (s.keep S).language = s.language :=
  rfl

@[simp]
theorem part_keep_of_mem (h : p ∈ S) : (s.keep S).part p = s.part p :=
  if_pos h

@[simp]
theorem part_keep_of_notMem (h : p ∉ S) : (s.keep S).part p = none :=
  if_neg h

/-- What a name keeps is all it has. -/
theorem present_keep (h : S ⊆ s.present) : (s.keep S).present = S := by
  ext p
  rw [mem_present, content]
  by_cases hp : p ∈ S
  · rw [part_keep_of_mem hp]
    exact iff_of_true (mem_present.mp (h hp)) hp
  · rw [part_keep_of_notMem hp]
    exact iff_of_false (not_not.mpr rfl) hp

/-- To keep some of what was kept is to keep it at once. -/
theorem keep_keep (h : S' ⊆ S) : (s.keep S).keep S' = s.keep S' := by
  ext1
  · rfl
  · funext p
    by_cases hp : p ∈ S'
    · rw [part_keep_of_mem hp, part_keep_of_mem hp, part_keep_of_mem (h hp)]
    · rw [part_keep_of_notMem hp, part_keep_of_notMem hp]

theorem full_keep (h : S ⊆ s.present) : (s.keep S).Full := by
  intro p hp
  have hmem : p ∈ S := by
    by_contra hmem
    rw [part_keep_of_notMem hmem] at hp
    cases hp
  rw [← present_keep h, mem_present, content, hp] at hmem
  exact hmem rfl

/-- Only empty parts are lost when all that is there is kept. -/
theorem keep_present_eq_self_iff : s.keep s.present = s ↔ s.Full := by
  refine ⟨fun h => h ▸ full_keep (Finset.Subset.refl _), fun hfull => ?_⟩
  ext1
  · rfl
  · funext p
    by_cases hp : p ∈ s.present
    · exact part_keep_of_mem hp
    · have hnone : s.part p = none := by
        rw [mem_present, not_not, content] at hp
        cases hpart : s.part p with
        | none => rfl
        | some cs =>
          rw [hpart] at hp
          exact absurd (hpart.trans (congrArg some hp)) (hfull p)
      rw [part_keep_of_notMem hp, hnone]

/-- Different parts kept give different names. -/
theorem text_keep_inj (h : S ⊆ s.present) (h' : S' ⊆ s.present)
    (htext : (s.keep S).text = (s.keep S').text) : S = S' := by
  rw [← present_keep h, text_injective htext, present_keep h']

end Split

/-! ## Ranks -/

namespace Part

/-- How much it counts to keep `S`; the first difference from the left decides. -/
def rank (S : Finset Part) : Bool ×ₗ Bool ×ₗ Bool :=
  toLex (decide (modifier ∈ S), toLex (decide (territory ∈ S), decide (codeset ∈ S)))

/-- All sets of optional parts, by descending rank. -/
def ranked : List (Finset Part) :=
  [{modifier, territory, codeset}, {modifier, territory}, {modifier, codeset}, {modifier},
    {territory, codeset}, {territory}, {codeset}, ∅]

/-- The subsets of `P`, by descending rank. -/
def subsets (P : Finset Part) : List (Finset Part) :=
  ranked.filter (· ⊆ P)

section
variable {P S : Finset Part}

theorem mem_ranked : ∀ S, S ∈ ranked := by
  decide

theorem pairwise_ranked : ranked.Pairwise fun S S' => rank S' < rank S := by
  decide

theorem mem_subsets : S ∈ subsets P ↔ S ⊆ P := by
  simp [subsets, mem_ranked]

theorem pairwise_subsets (P : Finset Part) :
    (subsets P).Pairwise fun S S' => rank S' < rank S :=
  pairwise_ranked.filter _

theorem nodup_subsets (P : Finset Part) : (subsets P).Nodup :=
  (pairwise_subsets P).imp fun h heq => absurd (heq ▸ h) (lt_irrefl _)

theorem length_subsets (P : Finset Part) : (subsets P).length = 2 ^ P.card := by
  have hset : (subsets P).toFinset = P.powerset := by
    ext S
    rw [List.mem_toFinset, mem_subsets, Finset.mem_powerset]
  rw [← Finset.card_powerset, ← hset, List.toFinset_card_of_nodup (nodup_subsets P)]

theorem subsets_sublist (h : S ⊆ P) : (subsets S).Sublist (subsets P) := by
  apply List.monotone_filter_right
  intro S' hS'
  simpa using (of_decide_eq_true hS').trans h

/-- The ways to treat one part: to keep it, if it is there, then to leave it out. -/
def choices (P : Finset Part) (p : Part) : List (Finset Part) :=
  if p ∈ P then [{p}, ∅] else [∅]

theorem subset_of_mem_choices {p : Part} (h : S ∈ choices P p) : S ⊆ {p} := by
  unfold choices at h
  split at h
  next =>
    rw [List.mem_pair] at h
    rcases h with rfl | rfl
    · exact Finset.Subset.refl _
    · exact Finset.empty_subset _
  next =>
    rw [List.mem_singleton.mp h]
    exact Finset.empty_subset _

/-- A subset is a choice for each of the parts, and the modifier is decided first. -/
theorem subsets_eq_flatMap : ∀ P, subsets P =
    (choices P modifier).flatMap fun M => (choices P territory).flatMap fun T =>
      (choices P codeset).map fun C => M ∪ T ∪ C := by
  decide

/-- The choice for one part is what a subset says about it. -/
theorem mem_union_choices {M T C : Finset Part} (hM : M ⊆ {modifier}) (hT : T ⊆ {territory})
    (hC : C ⊆ {codeset}) :
    (modifier ∈ M ∪ T ∪ C ↔ modifier ∈ M) ∧ (territory ∈ M ∪ T ∪ C ↔ territory ∈ T) ∧
      (codeset ∈ M ∪ T ∪ C ↔ codeset ∈ C) := by
  have hout : ∀ {S : Finset Part} {p q : Part}, S ⊆ {p} → q ≠ p → q ∉ S :=
    fun h hne hq => hne (Finset.mem_singleton.mp (h hq))
  simp only [Finset.mem_union]
  refine ⟨?_, ?_, ?_⟩
  · simp [hout hT (show modifier ≠ territory by decide), hout hC (show modifier ≠ codeset by decide)]
  · simp [hout hM (show territory ≠ modifier by decide), hout hC (show territory ≠ codeset by decide)]
  · simp [hout hM (show codeset ≠ modifier by decide), hout hT (show codeset ≠ territory by decide)]

/-- The first subset with some property is the one of highest rank. -/
theorem rank_le_of_find? {q : Finset Part → Bool} (h : (subsets P).find? q = some S) :
    ∀ S' ⊆ P, q S' = true → rank S' ≤ rank S := by
  obtain ⟨-, before, after, hsplit, hbefore⟩ := List.find?_eq_some_iff_append.mp h
  have horder := pairwise_subsets P
  rw [hsplit, List.pairwise_append, List.pairwise_cons] at horder
  intro S' hS' hq
  rw [← mem_subsets, hsplit, List.mem_append, List.mem_cons] at hS'
  rcases hS' with hS' | rfl | hS'
  · have hnot := hbefore S' hS'
    rw [hq] at hnot
    cases hnot
  · exact le_refl _
  · exact le_of_lt (horder.2.1.1 S' hS')

/-- The whole set ranks above its subsets. -/
theorem head?_subsets : ∀ P, (subsets P).head? = some P := by
  decide

theorem getLast?_subsets : ∀ P, (subsets P).getLast? = some ∅ := by
  decide

end

end Part

/-! ## Candidates -/

namespace Split

variable {s : Split} {S : Finset Part}

/-- What a set of kept parts makes of one part. -/
def kept (s : Split) (S : Finset Part) (p : Part) : List Char :=
  if p ∈ S then p.separator :: s.content p else []

theorem spell_keep (h : S ⊆ s.present) (p : Part) : p.spell ((s.keep S).part p) = s.kept S p := by
  unfold kept
  split
  next hp =>
    have hne := mem_present.mp (h hp)
    unfold content at hne ⊢
    rw [part_keep_of_mem hp]
    cases hs : s.part p with
    | none =>
      rw [hs] at hne
      exact absurd rfl hne
    | some cs => rfl
  next hp =>
    rw [part_keep_of_notMem hp]
    rfl

theorem choices_content (s : Split) (p : Part) :
    Name.choices p.separator (s.content p) =
      (Part.choices s.present p).map fun S => s.kept S p := by
  unfold Name.choices Part.choices kept
  split
  next h =>
    rw [if_neg fun hp => mem_present.mp hp h]
    simp
  next h =>
    rw [if_pos (mem_present.mpr h)]
    simp

theorem kept_congr {S S' : Finset Part} {p : Part} (h : p ∈ S ↔ p ∈ S') :
    s.kept S p = s.kept S' p := by
  simp only [kept, h]

/-- The candidates of a name keep the subsets of its parts, in the same order. -/
theorem candidates_chars (s : Split) :
    (Name.ofChars s.chars).candidates = (Part.subsets s.present).map fun S => (s.keep S).chars := by
  have hkeep : ∀ S ∈ Part.subsets s.present, (s.keep S).chars =
      s.language ++ (s.kept S .territory ++ (s.kept S .codeset ++ s.kept S .modifier)) := by
    intro S hS
    have h := Part.mem_subsets.mp hS
    rw [chars, spell_keep h, spell_keep h, spell_keep h]
    rfl
  have hm : Name.choices '@' (s.content .modifier) = _ := s.choices_content .modifier
  have ht : Name.choices '_' (s.content .territory) = _ := s.choices_content .territory
  have hc : Name.choices '.' (s.content .codeset) = _ := s.choices_content .codeset
  rw [List.map_congr_left hkeep, ofChars_chars, Part.subsets_eq_flatMap]
  unfold Name.candidates
  rw [hm, ht, hc, List.flatMap_map, List.map_flatMap]
  -- part by part, both sides go through the same choices
  refine List.flatMap_congr fun M hM => ?_
  rw [List.flatMap_map, List.map_flatMap]
  refine List.flatMap_congr fun T hT => ?_
  rw [List.map_map, List.map_map]
  refine List.map_congr_left fun C hC => ?_
  obtain ⟨hmodifier, hterritory, hcodeset⟩ := Part.mem_union_choices
    (Part.subset_of_mem_choices hM) (Part.subset_of_mem_choices hT) (Part.subset_of_mem_choices hC)
  simp only [Function.comp, kept_congr hmodifier, kept_congr hterritory, kept_congr hcodeset,
    List.append_assoc]

end Split

theorem candidates_text (s : Split) :
    candidates s.text = (Part.subsets s.present).map fun S => (s.keep S).text := by
  unfold candidates Split.text
  rw [String.toList_ofList, s.candidates_chars, List.map_map]
  rfl

theorem mem_candidates {s : Split} {name : String} :
    name ∈ candidates s.text ↔ ∃ S ⊆ s.present, (s.keep S).text = name := by
  simp only [candidates_text, List.mem_map, Part.mem_subsets]

theorem nodup_candidates (name : String) : (candidates name).Nodup := by
  obtain ⟨s, rfl⟩ := Split.exists_text name
  rw [candidates_text]
  refine (Part.nodup_subsets s.present).map_on fun S hS S' hS' => ?_
  exact Split.text_keep_inj (Part.mem_subsets.mp hS) (Part.mem_subsets.mp hS')

/-- The most specific candidate of a name has all of its parts that are there. -/
theorem head?_candidates (s : Split) :
    (candidates s.text).head? = some (s.keep s.present).text := by
  rw [candidates_text, List.head?_map, Part.head?_subsets]
  rfl

/-- A name is a candidate for itself, and then the first one, unless it has an empty part. -/
theorem head?_candidates_eq_self_iff (s : Split) :
    (candidates s.text).head? = some s.text ↔ s.Full := by
  rw [head?_candidates, Option.some_inj, Split.text_injective.eq_iff,
    Split.keep_present_eq_self_iff]

theorem getLast?_candidates (s : Split) :
    (candidates s.text).getLast? = some (String.ofList s.language) := by
  have hbare : (s.keep ∅).text = String.ofList s.language := by
    simp [Split.text, Split.chars, Part.spell]
  rw [candidates_text, List.getLast?_map, Part.getLast?_subsets, Option.map_some, hbare]

/-! ## Candidates of candidates -/

section
variable {name candidate : String}

/-- No separator of a candidate introduces an empty part. -/
theorem full_of_mem_candidates {s : Split} (h : s.text ∈ candidates name) : s.Full := by
  obtain ⟨whole, rfl⟩ := Split.exists_text name
  obtain ⟨S, hS, htext⟩ := mem_candidates.mp h
  rw [← Split.text_injective htext]
  exact Split.full_keep hS

theorem head?_candidates_of_mem (h : candidate ∈ candidates name) :
    (candidates candidate).head? = some candidate := by
  obtain ⟨s, rfl⟩ := Split.exists_text candidate
  exact (head?_candidates_eq_self_iff s).mpr (full_of_mem_candidates h)

/-- Splitting a candidate recovers the parts that it kept, so it leads to nothing new. -/
theorem candidates_sublist_of_mem (h : candidate ∈ candidates name) :
    (candidates candidate).Sublist (candidates name) := by
  obtain ⟨s, rfl⟩ := Split.exists_text name
  obtain ⟨S, hS, rfl⟩ := mem_candidates.mp h
  have hkeep : ∀ S' ∈ Part.subsets S, ((s.keep S).keep S').text = (s.keep S').text := by
    intro S' hS'
    rw [Split.keep_keep (Part.mem_subsets.mp hS')]
  rw [candidates_text, candidates_text, Split.present_keep hS, List.map_congr_left hkeep]
  exact (Part.subsets_sublist hS).map _

end

/-! ## Top theorem -/

/-- A name has one split, and its candidates are its sub-names: without duplicates, one for
each set of optional parts that are there and not empty, by descending rank, down to the
bare language; the name itself comes first unless a separator introduces an empty part. -/
theorem candidates_descend (name : String) :
    ∃ s : Split, s.text = name ∧ (∀ s' : Split, s'.text = name → s' = s) ∧
      (∃ sets : List (Finset Part), (∀ S, S ∈ sets ↔ S ⊆ s.present) ∧
        sets.Pairwise (fun S S' => Part.rank S' < Part.rank S) ∧
        candidates name = sets.map fun S => (s.keep S).text) ∧
      (candidates name).Nodup ∧
      (candidates name).length = 2 ^ s.present.card ∧
      (candidates name).getLast? = some (String.ofList s.language) ∧
      ((candidates name).head? = some name ↔ s.Full) := by
  obtain ⟨s, rfl⟩ := Split.exists_text name
  refine ⟨s, rfl, fun s' h => Split.text_injective h, ?_, nodup_candidates _, ?_,
    getLast?_candidates s, head?_candidates_eq_self_iff s⟩
  · exact ⟨Part.subsets s.present, fun S => Part.mem_subsets, Part.pairwise_subsets _,
      candidates_text s⟩
  · rw [candidates_text, List.length_map, Part.length_subsets]

/-- The territory is empty, and the `_` behind the `.` belongs to the codeset. -/
example : candidates "en_.ISO_8859-1" = ["en.ISO_8859-1", "en"] := by
  decide +kernel

end ScriptLint.Locale
