import ScriptLint.Proofs.Closest

/-! Language tags, and the locales they stand for.

A tag is well-formed when its subtags are a language, perhaps a script, perhaps a region, and
variants, in this order (`Tag.Form`).  A subtag of four letters can be a script or a variant;
both are passed over, so the tag is the same (`ofSubtags?_eq_some_iff`).  Case and dividers
are lost on a tag, and only its language and region are spelled:

    tagSpelling? name = some p ↔ '-' ∈ name.toList ∧ ∃ f, f.Reads name ∧ p = f.spelling
    candidates f.spelling = f.names                              (candidates_spelling)

Here `f.names` is the name with the region, if there is one, and then the language alone. -/

namespace ScriptLint.Locale

namespace Tag

/-! ## Forms -/

/-- The subtags of a well-formed tag, each in its place. -/
structure Form where
  language : List Char
  script : Option (List Char)
  region : Option (List Char)
  variants : List (List Char)
  isLanguage_language : isLanguage language = true
  isScript_script : ∀ s ∈ script, isScript s = true
  isRegion_region : ∀ r ∈ region, isRegion r = true
  isVariant_variants : ∀ v ∈ variants, isVariant v = true

/-- Subtags in lower case. -/
def lowered (subtags : List (List Char)) : List (List Char) :=
  subtags.map (·.map Char.toLower)

namespace Form

variable (f : Form)

/-- The subtags in the order in which they are written. -/
def subtags : List (List Char) :=
  f.language :: (f.script.toList ++ (f.region.toList ++ f.variants))

/-- A name whose subtags these are, whatever divides them. -/
def Reads (name : String) : Prop :=
  f.subtags = Tag.subtags name.toList

/-- The language as a locale name. -/
def plain : String :=
  String.ofList (f.language.map Char.toLower)

/-- The locale name of the language in a region. -/
def regional (region : List Char) : String :=
  String.ofList (f.language.map Char.toLower ++ '_' :: region.map Char.toUpper)

/-- The locale names that a tag stands for, the more specific one first. -/
def names : List String :=
  match f.region with
  | none => [f.plain]
  | some region => [f.regional region, f.plain]

/-- The first of them. -/
def spelling : String :=
  match f.region with
  | none => f.plain
  | some region => f.regional region

def tag : Tag :=
  ⟨f.language.map Char.toLower, f.region.map (·.map Char.toUpper)⟩

theorem ofList_spelling_tag : String.ofList f.tag.spelling = f.spelling := by
  unfold tag Tag.spelling spelling
  cases f.region <;> rfl

end Form

/-! ## Case -/

/-- What holds of the ASCII characters one by one, and of all others, holds of every character. -/
theorem forall_char {P : Char → Prop} (hascii : ∀ n, n < 128 → P (Char.ofNat n))
    (hother : ∀ c : Char, 128 ≤ c.toNat → P c) (c : Char) : P c := by
  by_cases hc : c.toNat < 128
  · rw [← Char.ofNat_toNat c]
    exact hascii c.toNat hc
  · exact hother c (Nat.le_of_not_lt hc)

/-- Only ASCII letters have case. -/
theorem case_eq_self {c : Char} (h : 128 ≤ c.toNat) : c.toLower = c ∧ c.toUpper = c := by
  have hval : 128 ≤ c.val.toNat := h
  constructor
  · refine dif_neg fun hupper => ?_
    have hle : c.val.toNat ≤ 90 := UInt32.le_iff_toNat_le.mp hupper.2
    omega
  · refine dif_neg fun hlower => ?_
    have hle : c.val.toNat ≤ 122 := UInt32.le_iff_toNat_le.mp hlower.2
    omega

section
variable (c : Char)

@[simp]
theorem isAlpha_toLower : c.toLower.isAlpha = c.isAlpha := by
  revert c
  exact forall_char (by decide) fun c hc => by rw [(case_eq_self hc).1]

@[simp]
theorem isAlpha_toUpper : c.toUpper.isAlpha = c.isAlpha := by
  revert c
  exact forall_char (by decide) fun c hc => by rw [(case_eq_self hc).2]

@[simp]
theorem toLower_toLower : c.toLower.toLower = c.toLower := by
  revert c
  exact forall_char (by decide) fun c hc => by rw [(case_eq_self hc).1, (case_eq_self hc).1]

@[simp]
theorem toUpper_toLower : c.toLower.toUpper = c.toUpper := by
  revert c
  exact forall_char (by decide) fun c hc => by rw [(case_eq_self hc).1]

theorem isDigit_toLower : c.toLower.isDigit = c.isDigit := by
  revert c
  exact forall_char (by decide) fun c hc => by rw [(case_eq_self hc).1]

theorem isDigit_toUpper : c.toUpper.isDigit = c.isDigit := by
  revert c
  exact forall_char (by decide) fun c hc => by rw [(case_eq_self hc).2]

theorem isAlphanum_toLower : c.toLower.isAlphanum = c.isAlphanum := by
  rw [Char.isAlphanum, Char.isAlphanum, isAlpha_toLower, isDigit_toLower]

/-- Lower case does not lead into or out of ASCII, nor to NUL. -/
theorem isPlain_toLower :
    (decide (c.toLower.toNat < 128) && c.toLower != '\x00') =
      (decide (c.toNat < 128) && c != '\x00') := by
  revert c
  exact forall_char (by decide) fun c hc => by rw [(case_eq_self hc).1]

end

section
variable (s : List Char) (l : List (List Char))

@[simp]
theorem isLanguage_lower : isLanguage (s.map Char.toLower) = isLanguage s := by
  simp [isLanguage, Function.comp_def]

@[simp]
theorem isScript_lower : isScript (s.map Char.toLower) = isScript s := by
  simp [isScript, Function.comp_def]

@[simp]
theorem isRegion_lower : isRegion (s.map Char.toLower) = isRegion s := by
  simp [isRegion, Function.comp_def, isDigit_toLower]

@[simp]
theorem isVariant_lower : isVariant (s.map Char.toLower) = isVariant s := by
  simp only [isVariant, List.length_map, List.all_map, ← List.map_take, ← List.map_drop,
    Function.comp_def, isAlphanum_toLower, isDigit_toLower, isPlain_toLower]

theorem regionOf?_lowered : regionOf? (lowered l) = regionOf? l := by
  unfold lowered
  cases l with
  | nil => rfl
  | cons s l => simp [regionOf?, Function.comp_def]

end

/-! ## Reading subtags -/

/-- What follows the script, if a script comes first. -/
def afterScript (l : List (List Char)) : List (List Char) :=
  match l with
  | s :: after => if isScript s then after else l
  | [] => []

/-- Reads a tag from its subtags. -/
def ofSubtags? (l : List (List Char)) : Option Tag :=
  match l with
  | [] => none
  | language :: rest =>
    if isLanguage language then
      (regionOf? (afterScript rest)).map fun region => ⟨language.map Char.toLower, region⟩
    else none

theorem ofChars?_eq (cs : List Char) : ofChars? cs = ofSubtags? (subtags cs) :=
  rfl

theorem afterScript_lowered (l : List (List Char)) :
    afterScript (lowered l) = lowered (afterScript l) := by
  unfold lowered
  cases l with
  | nil => rfl
  | cons s l =>
    simp only [afterScript, List.map_cons, isScript_lower]
    split <;> rfl

/-- A tag is read alike in lower case. -/
theorem ofSubtags?_lowered (l : List (List Char)) : ofSubtags? (lowered l) = ofSubtags? l := by
  cases l with
  | nil => rfl
  | cons language rest =>
    have hafter : regionOf? (afterScript (lowered rest)) = regionOf? (afterScript rest) := by
      rw [afterScript_lowered, regionOf?_lowered]
    have hcons : lowered (language :: rest) = language.map Char.toLower :: lowered rest := rfl
    simp [hcons, ofSubtags?, hafter, Function.comp_def]

/-! ## Well-formed tags -/

section
variable {s : List Char}

/-- Regions are shorter than scripts and variants. -/
theorem length_of_isRegion (h : isRegion s = true) : s.length ≤ 3 := by
  simp only [isRegion, Bool.or_eq_true, Bool.and_eq_true, beq_iff_eq] at h
  omega

theorem length_of_isVariant (h : isVariant s = true) : 4 ≤ s.length := by
  simp only [isVariant, Bool.or_eq_true, Bool.and_eq_true, beq_iff_eq, decide_eq_true_eq] at h
  omega

theorem length_of_isScript (h : isScript s = true) : s.length = 4 := by
  simp only [isScript, Bool.and_eq_true, beq_iff_eq] at h
  exact h.1

end

section
variable {region : Option (List Char)} {variants : List (List Char)}

theorem regionOf?_append (hregion : ∀ r ∈ region, isRegion r = true)
    (hvariants : ∀ v ∈ variants, isVariant v = true) :
    regionOf? (region.toList ++ variants) = some (region.map (·.map Char.toUpper)) := by
  cases region with
  | some r =>
    have hall : variants.all isVariant = true := List.all_eq_true.mpr hvariants
    simp [regionOf?, hregion r rfl, hall]
  | none =>
    cases variants with
    | nil => rfl
    | cons v variants =>
      have hall : (v :: variants).all isVariant = true := List.all_eq_true.mpr hvariants
      have hv : ¬ isRegion v = true := by
        intro h
        have := length_of_isRegion h
        have := length_of_isVariant (hvariants v List.mem_cons_self)
        omega
      show regionOf? (v :: variants) = _
      rw [regionOf?, if_neg hv, if_pos hall]
      rfl

/-- A variant that is taken for a script makes no difference. -/
theorem regionOf?_afterScript (hregion : ∀ r ∈ region, isRegion r = true)
    (hvariants : ∀ v ∈ variants, isVariant v = true) :
    regionOf? (afterScript (region.toList ++ variants)) =
      some (region.map (·.map Char.toUpper)) := by
  cases region with
  | some r =>
    have hr : ¬ isScript r = true := by
      intro h
      have := length_of_isScript h
      have := length_of_isRegion (hregion r rfl)
      omega
    have hafter : afterScript (r :: variants) = r :: variants := if_neg hr
    show regionOf? (afterScript (r :: variants)) = _
    rw [hafter]
    exact regionOf?_append hregion hvariants
  | none =>
    cases variants with
    | nil => rfl
    | cons v variants =>
      show regionOf? (if isScript v = true then variants else v :: variants) = _
      split
      · exact regionOf?_append hregion fun w hw => hvariants w (List.mem_cons_of_mem v hw)
      · exact regionOf?_append hregion hvariants

theorem exists_of_regionOf? {l : List (List Char)} {upper : Option (List Char)}
    (h : regionOf? l = some upper) :
    ∃ (region : Option (List Char)) (variants : List (List Char)),
      l = region.toList ++ variants ∧ (∀ r ∈ region, isRegion r = true) ∧
      (∀ v ∈ variants, isVariant v = true) ∧ upper = region.map (·.map Char.toUpper) := by
  cases l with
  | nil =>
    cases h
    exact ⟨none, [], rfl, nofun, nofun, rfl⟩
  | cons s variants =>
    rw [regionOf?] at h
    split at h
    next hs =>
      split at h
      next hall =>
        cases h
        refine ⟨some s, variants, rfl, ?_, List.all_eq_true.mp hall, rfl⟩
        rintro _ ⟨⟩
        exact hs
      next => cases h
    next =>
      split at h
      next hall =>
        cases h
        exact ⟨none, s :: variants, rfl, nofun, List.all_eq_true.mp hall, rfl⟩
      next => cases h

theorem exists_script (l : List (List Char)) :
    ∃ script : Option (List Char), l = script.toList ++ afterScript l ∧
      ∀ s ∈ script, isScript s = true := by
  cases l with
  | nil => exact ⟨none, rfl, nofun⟩
  | cons s l =>
    by_cases hs : isScript s = true
    · have hafter : afterScript (s :: l) = l := if_pos hs
      refine ⟨some s, by rw [hafter]; rfl, ?_⟩
      rintro _ ⟨⟩
      exact hs
    · have hafter : afterScript (s :: l) = s :: l := if_neg hs
      exact ⟨none, by rw [hafter]; rfl, nofun⟩

end

theorem ofSubtags?_of_form (f : Form) : ofSubtags? f.subtags = some f.tag := by
  have hregion : regionOf? (afterScript (f.script.toList ++ (f.region.toList ++ f.variants))) =
      some (f.region.map (·.map Char.toUpper)) := by
    cases hscript : f.script with
    | none => exact regionOf?_afterScript f.isRegion_region f.isVariant_variants
    | some s =>
      have hs := f.isScript_script s hscript
      have hafter : afterScript (s :: (f.region.toList ++ f.variants)) =
          f.region.toList ++ f.variants := if_pos hs
      show regionOf? (afterScript (s :: (f.region.toList ++ f.variants))) = _
      rw [hafter]
      exact regionOf?_append f.isRegion_region f.isVariant_variants
  rw [Form.subtags, ofSubtags?, if_pos f.isLanguage_language, hregion]
  rfl

/-- Exactly the well-formed tags are read, and as what they say. -/
theorem ofSubtags?_eq_some_iff {l : List (List Char)} {t : Tag} :
    ofSubtags? l = some t ↔ ∃ f : Form, f.subtags = l ∧ f.tag = t := by
  constructor
  · intro h
    cases l with
    | nil => cases h
    | cons language rest =>
      rw [ofSubtags?] at h
      split at h
      next hlanguage =>
        obtain ⟨upper, hupper, rfl⟩ := Option.map_eq_some_iff.mp h
        obtain ⟨script, hrest, hscript⟩ := exists_script rest
        obtain ⟨region, variants, hafter, hregion, hvariants, rfl⟩ := exists_of_regionOf? hupper
        rw [hafter] at hrest
        refine ⟨⟨language, script, region, variants, hlanguage, hscript, hregion, hvariants⟩,
          ?_, rfl⟩
        exact congrArg (language :: ·) hrest.symm
      next => cases h
  · rintro ⟨f, rfl, rfl⟩
    exact ofSubtags?_of_form f

/-! ## Names of a tag -/

namespace Form

variable (f : Form)

theorem isAlpha_of_mem_language {c : Char} (h : c ∈ f.language) : c.isAlpha = true := by
  have hall := f.isLanguage_language
  simp only [isLanguage, Bool.and_eq_true] at hall
  exact List.all_eq_true.mp hall.2 c h

theorem language_free : Free ['_', '.', '@'] (f.language.map Char.toLower) := by
  intro c hc hstop
  obtain ⟨c, hmem, rfl⟩ := List.mem_map.mp hc
  have halpha := f.isAlpha_of_mem_language hmem
  have hstops : ∀ d ∈ ['_', '.', '@'], d.isAlpha = false := by simp
  rw [← isAlpha_toLower, hstops _ hstop] at halpha
  cases halpha

theorem region_fits {region : List Char} (h : isRegion region = true) :
    Free ['.', '@'] (region.map Char.toUpper) := by
  have hclass : ∀ c ∈ region, c.isAlpha = true ∨ c.isDigit = true := by
    simp only [isRegion, Bool.or_eq_true, Bool.and_eq_true, List.all_eq_true] at h
    rcases h with h | h
    · exact fun c hc => .inl (h.2 c hc)
    · exact fun c hc => .inr (h.2 c hc)
  intro c hc hstop
  obtain ⟨c, hmem, rfl⟩ := List.mem_map.mp hc
  have hstops : ∀ d ∈ ['.', '@'], d.isAlpha = false ∧ d.isDigit = false := by simp
  rcases hclass c hmem with halpha | hdigit
  · rw [← isAlpha_toUpper, (hstops _ hstop).1] at halpha
    cases halpha
  · rw [← isDigit_toUpper, (hstops _ hstop).2] at hdigit
    cases hdigit

/-- The spelling of a tag, cut at its separator. -/
def split : Split where
  language := f.language.map Char.toLower
  part
    | .territory => f.region.map (·.map Char.toUpper)
    | _ => none
  language_free := f.language_free
  fits p cs h := by
    cases p with
    | territory =>
      obtain ⟨region, hregion, rfl⟩ := Option.map_eq_some_iff.mp h
      exact region_fits (f.isRegion_region region hregion)
    | codeset => cases h
    | modifier => cases h

theorem part_territory : f.split.part .territory = f.region.map (·.map Char.toUpper) :=
  rfl

theorem text_split : f.split.text = f.spelling := by
  have hchars : f.split.chars = f.language.map Char.toLower ++
      (Part.territory.spell (f.region.map (·.map Char.toUpper)) ++ ([] ++ [])) := rfl
  unfold Split.text spelling
  rw [hchars]
  cases f.region with
  | none => simp [Part.spell, plain]
  | some region => simp [Part.spell, Part.separator, regional]

theorem text_keep_empty : (f.split.keep ∅).text = f.plain := by
  simp [Split.text, Split.chars, split, Part.spell, plain]

theorem nil_notMem_region : [] ∉ f.region :=
  fun h => absurd (f.isRegion_region [] h) (by decide)

/-- Only a region can be there beside the language, and it is not empty. -/
theorem present_split : f.split.present = if f.region.isSome then {Part.territory} else ∅ := by
  ext p
  rw [Split.mem_present, Split.content]
  cases p with
  | territory =>
    rw [part_territory]
    cases hregion : f.region with
    | none => simp
    | some region =>
      have hne : region ≠ [] := by
        rintro rfl
        exact f.nil_notMem_region hregion
      simpa using hne
  | codeset => cases f.region <;> simp [split]
  | modifier => cases f.region <;> simp [split]

theorem full_split : f.split.Full := by
  intro p hp
  cases p with
  | territory =>
    rw [part_territory] at hp
    obtain ⟨region, hregion, hempty⟩ := Option.map_eq_some_iff.mp hp
    rw [List.map_eq_nil_iff.mp hempty] at hregion
    exact f.nil_notMem_region hregion
  | codeset => cases hp
  | modifier => cases hp

end Form

end Tag

/-- The locale names that are looked for in place of a tag's spelling. -/
theorem candidates_spelling (f : Tag.Form) : candidates f.spelling = f.names := by
  have hkeep : f.split.keep f.split.present = f.split :=
    Split.keep_present_eq_self_iff.mpr f.full_split
  have hpresent := f.present_split
  have hspelling := f.text_split
  unfold Tag.Form.names
  rw [← hspelling, candidates_text]
  unfold Tag.Form.spelling at hspelling
  cases hregion : f.region with
  | none =>
    have hsubsets : Part.subsets ∅ = [∅] := by decide
    rw [hregion] at hpresent
    rw [show f.split.present = ∅ from hpresent, hsubsets, List.map_singleton, f.text_keep_empty]
  | some region =>
    have hsubsets : Part.subsets {Part.territory} = [{Part.territory}, ∅] := by decide
    rw [hregion] at hpresent hspelling
    rw [show f.split.present = {Part.territory} from hpresent] at hkeep ⊢
    rw [hsubsets, List.map_cons, List.map_singleton, f.text_keep_empty, hkeep, hspelling]

/-! ## Spellings -/

/-- Only the letters of language and region are spelled. -/
theorem Tag.Form.spelling_congr {f f' : Tag.Form}
    (hlanguage : f.language.map Char.toLower = f'.language.map Char.toLower)
    (hregion : f.region.map (·.map Char.toLower) = f'.region.map (·.map Char.toLower)) :
    f.spelling = f'.spelling := by
  have hupper : ∀ g : Form, g.tag.region =
      (g.region.map (·.map Char.toLower)).map (·.map Char.toUpper) := by
    intro g
    simp [Form.tag, Function.comp_def]
  have htag : f.tag = f'.tag := by
    rw [Tag.mk.injEq]
    exact ⟨hlanguage, by rw [hupper, hupper, hregion]⟩
  rw [← ofList_spelling_tag, ← ofList_spelling_tag, htag]

theorem tagSpelling?_eq_some_iff {name p : String} :
    tagSpelling? name = some p ↔
      '-' ∈ name.toList ∧ ∃ f : Tag.Form, f.Reads name ∧ p = f.spelling := by
  unfold tagSpelling? Tag.Form.Reads
  rw [Tag.ofChars?_eq]
  constructor
  · intro h
    split at h
    next hyphen =>
      obtain ⟨t, ht, rfl⟩ := Option.map_eq_some_iff.mp h
      obtain ⟨f, hf, rfl⟩ := Tag.ofSubtags?_eq_some_iff.mp ht
      exact ⟨by simpa using hyphen, f, hf, f.ofList_spelling_tag⟩
    next => cases h
  · rintro ⟨hyphen, f, hf, rfl⟩
    have hcontains : name.toList.contains '-' = true := by simpa using hyphen
    rw [if_pos hcontains, ← hf, Tag.ofSubtags?_of_form, Option.map_some, f.ofList_spelling_tag]

/-- Case and dividers are lost on a tag. -/
theorem tagSpelling?_congr {name name' : String} (h : '-' ∈ name.toList) (h' : '-' ∈ name'.toList)
    (hsame : Tag.lowered (Tag.subtags name.toList) = Tag.lowered (Tag.subtags name'.toList)) :
    tagSpelling? name = tagSpelling? name' := by
  have hcontains : name.toList.contains '-' = true := by simpa using h
  have hcontains' : name'.toList.contains '-' = true := by simpa using h'
  unfold tagSpelling?
  rw [if_pos hcontains, if_pos hcontains', Tag.ofChars?_eq, Tag.ofChars?_eq,
    ← Tag.ofSubtags?_lowered, hsame, Tag.ofSubtags?_lowered]

namespace Directory

/-- Where none of a tag's own candidates is listed, its language in its region decides, and
then its language. -/
theorem closest?_of_reads {d : Directory} {name : String} {f : Tag.Form}
    (hyphen : '-' ∈ name.toList) (hf : f.Reads name) (h : ∀ n ∈ candidates name, n ∉ d.names) :
    d.closest? name = d.firstListed? f.names := by
  have hspelling : tagSpelling? name = some f.spelling :=
    tagSpelling?_eq_some_iff.mpr ⟨hyphen, f, hf, rfl⟩
  have hown : d.firstListed? (candidates name) = none := firstListed?_eq_none_iff.mpr h
  unfold closest? requests
  rw [hspelling, Option.map_some, Option.getD_some, candidates_spelling]
  unfold firstListed? at hown ⊢
  rw [List.findSome?_append, hown, Option.none_or]

/-! ## Top theorem -/

/-- Names with a hyphen that differ only in case and dividers have one spelling as a tag, and
only tags in good form have one.  It is the language in its region, or the language alone if
there is no region, whatever the script and the variants are; its candidates are these two
names.  So a tag none of whose own candidates is listed leads to its language in its region, then
to its language, and then to nothing. -/
theorem closest?_tag :
    (∀ name name' : String, '-' ∈ name.toList → '-' ∈ name'.toList →
      Tag.lowered (Tag.subtags name.toList) = Tag.lowered (Tag.subtags name'.toList) →
      tagSpelling? name = tagSpelling? name') ∧
    (∀ name p : String, tagSpelling? name = some p ↔
      '-' ∈ name.toList ∧ ∃ f : Tag.Form, f.Reads name ∧ p = f.spelling) ∧
    (∀ f : Tag.Form,
      (f.region = none ∧ f.spelling = f.plain ∧ candidates f.spelling = [f.plain]) ∨
      ∃ region, f.region = some region ∧ f.spelling = f.regional region ∧
        candidates f.spelling = [f.regional region, f.plain]) ∧
    (∀ f f' : Tag.Form, f.language.map Char.toLower = f'.language.map Char.toLower →
      f.region.map (·.map Char.toLower) = f'.region.map (·.map Char.toLower) →
      f.spelling = f'.spelling) ∧
    ∀ (d : Directory) (name : String) (f : Tag.Form), '-' ∈ name.toList → f.Reads name →
      (∀ n ∈ candidates name, n ∉ d.names) →
      d.closest? name =
        match f.region with
        | some region => (d.find? (f.regional region)).or (d.find? f.plain)
        | none => d.find? f.plain := by
  refine ⟨fun _ _ => tagSpelling?_congr, fun _ _ => tagSpelling?_eq_some_iff, ?_,
    fun _ _ => Tag.Form.spelling_congr, ?_⟩
  · intro f
    rw [candidates_spelling]
    unfold Tag.Form.names Tag.Form.spelling
    cases f.region with
    | none => exact .inl ⟨rfl, rfl, rfl⟩
    | some region => exact .inr ⟨region, rfl, rfl, rfl⟩
  · intro d name f hyphen hf h
    rw [closest?_of_reads hyphen hf h]
    unfold firstListed? Tag.Form.names
    cases f.region with
    | none => exact List.findSome?_singleton
    | some region =>
      show ([f.regional region] ++ [f.plain]).findSome? d.find? = _
      rw [List.findSome?_append, List.findSome?_singleton, List.findSome?_singleton]

/-- Portuguese as it is written in Brazil, with a script and a variant. -/
def brazilian : Tag.Form where
  language := ['P', 'T']
  script := some ['l', 'a', 't', 'n']
  region := some ['b', 'r']
  variants := [['A', 'B', 'L', '1', '9', '4', '3']]
  isLanguage_language := by decide
  isScript_script := by decide
  isRegion_region := by decide
  isVariant_variants := by decide

theorem closest?_tag_brazilian :
    tagSpelling? "pt-Latn-BR-abl1943" = tagSpelling? "PT_latn-br_ABL1943" ∧
    tagSpelling? "PT_latn-br_ABL1943" = some "pt_BR" ∧
    candidates "pt_BR" = ["pt_BR", "pt"] ∧
    (∀ n ∈ candidates "PT_latn-br_ABL1943", n ∉ modified.names) ∧
    modified.closest? "PT_latn-br_ABL1943" = some 2 ∧
    (⟨["pt"]⟩ : Directory).closest? "PT_latn-br_ABL1943" = some 0 := by
  obtain ⟨hcase, hspelling, hnames, -, hclosest⟩ := closest?_tag
  have hyphen : '-' ∈ "PT_latn-br_ABL1943".toList := by decide
  have hreads : brazilian.Reads "PT_latn-br_ABL1943" := by
    unfold Tag.Form.Reads
    decide +kernel
  have hown : ∀ n ∈ candidates "PT_latn-br_ABL1943", n ∉ modified.names := by decide +kernel
  have hown' : ∀ n ∈ candidates "PT_latn-br_ABL1943", n ∉ ["pt"] := by decide +kernel
  refine ⟨hcase _ _ (by decide) hyphen (by decide +kernel),
    (hspelling _ _).mpr ⟨hyphen, brazilian, hreads, rfl⟩, ?_, hown,
    (hclosest _ _ brazilian hyphen hreads hown).trans (by decide +kernel),
    (hclosest ⟨["pt"]⟩ _ brazilian hyphen hreads hown').trans (by decide +kernel)⟩
  rcases hnames brazilian with ⟨hnone, -, -⟩ | ⟨_, ⟨⟩, -, hcandidates⟩
  · cases hnone
  · exact hcandidates

end Directory

end ScriptLint.Locale
