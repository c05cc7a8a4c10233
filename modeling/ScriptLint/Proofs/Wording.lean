import ScriptLint.Session
import ScriptLint.Proofs.Packing
import ScriptLint.Proofs.Placeholders
import ScriptLint.Proofs.Unwinding

/-! The wording of diagnostics.

The message of a fault in a locale (`Kind.message`) is the built-in template of that
locale, or the default text, with the stray character in place of `{0}`.  A lint
of a session that uses the scanner gives a diagnostic for each finding, worded so.

    analyze s.text = .ok findings →
      (s.lint t).result = .ok (findings.map (Finding.worded locale))     (lint_of_analyze)

A message quotes only a stray character, and the quoted byte is that character
(`quotation_of_analyze`).  The built-in templates hold no braces but those of `{0}`,
so that writing them out is a replacement (`formatChars_eq_fill`). -/

namespace ScriptLint

/-! ## What the messages say -/

namespace Kind

/-- The character that a message names. -/
def character? : Kind → Option Char
  | .strayAt => some '@'
  | .strayHash => some '#'
  | _ => none

/-- The built-in message of a fault. -/
def entry (kind : Kind) : Catalog.Entry :=
  Catalog.builtinSource.rows.get ⟨kind.messageId, by cases kind <;> decide⟩

/-- The template of a fault's message: the locale's own, or the default text. -/
def template (kind : Kind) (locale : Option String) : String :=
  (locale.bind fun name =>
    ((Catalog.builtinLocales.zip kind.entry.translations).lookup name).join).getD kind.entry.default

/-- A template with the character `c` in place of its `\x7b0\x7d`. -/
def fill (c : Char) : List Char → List Char
  | [] => []
  | '\x7b' :: '0' :: '\x7d' :: rest => c :: fill c rest
  | x :: rest => x :: fill c rest

/-- A template written out for a fault. -/
def write (kind : Kind) (template : String) : String :=
  match kind.character? with
  | none => template
  | some c => String.ofList (fill c template.toList)

/-- The message of a fault in a locale. -/
def message (kind : Kind) (locale : Option String) : String :=
  kind.write (kind.template locale)

end Kind

/-! ## The catalog of the linter -/

namespace Catalog

/-- The linter's own messages can be packed and loaded, and are what they were written as. -/
theorem rows_builtin : builtin.rows = builtinSource.described := by
  delta builtin
  exact Source.rows_of_builds (by decide +kernel)

theorem locales_builtin : builtin.locales = ⟨builtinLocales⟩ := by
  rw [← locales_rows, rows_builtin]
  rfl

theorem localeCount_builtin : builtin.localeCount = 5 :=
  congrArg Locale.Directory.size locales_builtin

theorem lookup?_builtin (id locale : Nat) :
    builtin.lookup? id locale = builtinSource.described.lookup? id locale := by
  rw [← lookup?_rows, rows_builtin]

end Catalog

/-! ## Messages -/

namespace Message

theorem formatChars_first {c : Char} {rest : List Char} :
    formatChars [[c]] ('\x7b' :: '0' :: '\x7d' :: rest) = c :: formatChars [[c]] rest := by
  have hp : placeholder? [[c]] ('0' :: '\x7d' :: rest) = some ([c], rest) := rfl
  exact formatChars_of_placeholder (by simp) hp

/-- Whether the braces of a template are only those of its `\x7b0\x7d`. -/
def onlyFirst : List Char → Bool
  | [] => true
  | '\x7b' :: '0' :: '\x7d' :: rest => onlyFirst rest
  | x :: rest => x != '\x7b' && x != '\x7d' && onlyFirst rest

theorem formatChars_eq_fill {c : Char} {template : List Char} (h : onlyFirst template = true) :
    formatChars [[c]] template = Kind.fill c template := by
  fun_induction Kind.fill c template with
  | case1 => rw [formatChars]
  | case2 rest ih =>
    rw [formatChars_first, ih h]
  | case3 x rest hne ih =>
    rw [onlyFirst, Bool.and_eq_true, Bool.and_eq_true, bne_iff_ne, bne_iff_ne] at h
    · rw [formatChars_other h.1.1 h.1.2, ih h.2]
    · exact hne

theorem formatChars_eq_self {args : List (List Char)} {template : List Char}
    (h : ∀ x ∈ template, x ≠ '\x7b' ∧ x ≠ '\x7d') : formatChars args template = template := by
  have hself := formatChars_braceFree args h []
  rwa [formatChars_nil, List.append_nil] at hself

end Message

namespace Kind

/-- What a message quotes of the script. -/
def quoted (kind : Kind) : List String :=
  kind.character?.toList.map Char.toString

/-- Whether a template can be written out for a fault: it names the stray
character, if there is one, and nothing else. -/
def suits (kind : Kind) (template : String) : Bool :=
  template.toList.all (· ≠ '\x00') &&
    match kind.character? with
    | none => template.toList.all fun x => x ≠ '\x7b' ∧ x ≠ '\x7d'
    | some _ => Message.onlyFirst template.toList

theorem format_of_suits {kind : Kind} {template : String} (h : kind.suits template = true) :
    Message.format template kind.quoted = kind.write template := by
  have hshape := (Bool.and_eq_true_iff.mp h).2
  unfold Message.format quoted write
  cases hc : kind.character? with
  | none =>
    rw [hc] at hshape
    have hbraces : ∀ x ∈ template.toList, x ≠ '\x7b' ∧ x ≠ '\x7d' := fun x hx =>
      of_decide_eq_true (List.all_eq_true.mp hshape x hx)
    rw [Message.formatChars_eq_self hbraces, String.ofList_toList]
  | some c =>
    rw [hc] at hshape
    have hargs : ((some c).toList.map Char.toString).map String.toList = [[c]] := by
      simp [Char.toString]
    rw [hargs, Message.formatChars_eq_fill hshape]

theorem mem_fill {c x : Char} {template : List Char} (h : x ∈ fill c template) :
    x = c ∨ x ∈ template := by
  fun_induction fill c template with
  | case1 => cases h
  | case2 rest ih => grind
  | case3 y rest _ ih => grind

theorem nul_notMem_write {kind : Kind} {template : String} (h : kind.suits template = true) :
    '\x00' ∉ (kind.write template).toList := by
  have hnul : '\x00' ∉ template.toList := by
    intro hmem
    exact of_decide_eq_true (List.all_eq_true.mp (Bool.and_eq_true_iff.mp h).1 _ hmem) rfl
  unfold write
  cases hc : kind.character? with
  | none => exact hnul
  | some c =>
    rw [String.toList_ofList]
    intro hmem
    rcases mem_fill hmem with rfl | hmem
    · cases kind <;> cases hc
    · exact hnul hmem

/-- The catalog of the linter gives each fault its template, in its five locales and
in default text. -/
theorem translate?_all : ∀ kind ∈ all, ∀ active, active < 6 →
    Translator.translate? ⟨Catalog.builtin, active⟩ kind.messageId =
      some (kind.template (Catalog.builtin.locales.name? active)) := by
  simp only [Translator.translate?, Catalog.lookup?_builtin, Catalog.locales_builtin]
  decide +kernel

theorem suits_all : ∀ kind ∈ all, ∀ active, active < 6 →
    kind.suits (kind.template (Catalog.builtin.locales.name? active)) = true := by
  rw [Catalog.locales_builtin]
  decide +kernel

theorem mem_all (kind : Kind) : kind ∈ all := by
  cases kind <;> decide

end Kind

/-! ## Quotations -/

namespace Lexer

/-- A range of one byte quotes the text with that byte alone. -/
theorem quotation_ofLength_one {text : Bytes} {i : Nat} {b : UInt8} {s : Bytes} {c : String}
    (h : text.drop i = b :: s) (hc : Bytes.ofString c = [b]) :
    Session.quotation text (.ofLength i 1) = c := by
  have hslice : (Span.ofLength i 1).slice? text = some [b] := slice?_ofLength [] h
  rw [Session.quotation, hslice, ← hc]
  exact Utf8.decodeLossy_ofString c

theorem quotation_of_arises {text : Bytes} {f : Finding}
    (h : Descent.Arises 0 (text.map Mark.ofByte) f) :
    f.args.map (Session.quotation text) = f.kind.quoted := by
  cases h with
  | template => rfl
  | @fault i width n m rest kind hd hr =>
    rw [← List.map_drop] at hd
    obtain ⟨b, s, hb, hm, -⟩ := List.map_eq_cons_iff.mp hd
    rw [Nat.zero_add]
    cases Lexeme.fault_of_read hr with
    | string => rfl
    | unclosed => rfl
    | unopened => rfl
    | strayAt =>
      obtain rfl : b = 0x40 := eq_of_ofByte hm rfl
      exact congrArg ([·]) (quotation_ofLength_one hb rfl)
    | strayHash =>
      obtain rfl : b = 0x23 := eq_of_ofByte hm rfl
      exact congrArg ([·]) (quotation_ofLength_one hb rfl)

/-- A message quotes the very character that is stray. -/
theorem quotation_of_analyze {text : Bytes} {findings : List Finding}
    (h : analyze text = .ok findings) :
    ∀ f ∈ findings, f.args.map (Session.quotation text) = f.kind.quoted := by
  intro f hf
  rw [analyze_eq_scan] at h
  split at h
  next =>
    cases h
    rw [scan_eq_descent] at hf
    have hmem := (List.mergeSort_perm _ _).mem_iff.mp hf
    exact quotation_of_arises (Descent.arises_of_mem_findings hmem)
  next => cases h

end Lexer

/-! ## The locale -/

/-- A translator has the linter's own messages and speaks a locale; `none` is default text. -/
structure Translator.Speaks (t : Translator) (locale : Option String) : Prop where
  catalog_eq : t.catalog = Catalog.builtin
  active_lt : t.active < 6
  locale_eq : Catalog.builtin.locales.name? t.active = locale

theorem Translator.speaks_default : (Translator.ofCatalog Catalog.builtin).Speaks none where
  catalog_eq := rfl
  active_lt := Nat.lt_of_le_of_lt (Nat.le_of_eq Catalog.localeCount_builtin) (by decide)
  locale_eq := List.getElem?_eq_none (Nat.le_refl _)

theorem Translator.Speaks.render?_eq {t : Translator} {locale : Option String}
    (h : t.Speaks locale) (kind : Kind) :
    t.render? kind.messageId kind.quoted = some (kind.message locale) := by
  obtain ⟨catalog, active⟩ := t
  obtain ⟨rfl, hlt, rfl⟩ := h
  have htext := kind.translate?_all kind.mem_all active hlt
  have hsuits := kind.suits_all kind.mem_all active hlt
  rw [render?, htext]
  exact congrArg some (Kind.format_of_suits hsuits)

theorem Translator.Speaks.nul_notMem {t : Translator} {locale : Option String}
    (h : t.Speaks locale) (kind : Kind) : '\x00' ∉ (kind.message locale).toList := by
  obtain ⟨-, hlt, rfl⟩ := h
  exact Kind.nul_notMem_write (Kind.suits_all kind kind.mem_all _ hlt)

/-! ## Diagnostics -/

/-- A finding with its message in a locale. -/
def Finding.worded (locale : Option String) (f : Finding) : Diagnostic :=
  ⟨f.kind, f.span, f.kind.message locale⟩

theorem mapM_eq_ok {ε α β : Type} {f : α → Except ε β} {g : α → β} {l : List α}
    (h : ∀ x ∈ l, f x = .ok (g x)) : l.mapM f = .ok (l.map g) := by
  induction l with
  | nil => rfl
  | cons x l ih =>
    obtain ⟨hx, hl⟩ := List.forall_mem_cons.mp h
    rw [List.mapM_cons, hx, ih hl]
    rfl

namespace Session

variable {s : Session} {t : Translator} {locale : Option String}

theorem render_eq (ht : t.Speaks locale) {text : Bytes} {f : Finding}
    (hf : f.args.map (quotation text) = f.kind.quoted) :
    render t text f = .ok (f.worded locale) := by
  rw [render, hf, ht.render?_eq]
  rfl

theorem outcome_answer (hs : s.engine = .lexer) (earlier : List Bytes) :
    (s.engine.answer earlier s.text).outcome = Lexer.analyze s.text := by
  rw [hs]
  show (Engine.report s.text.length (Lexer.analyze s.text)).outcome = _
  cases Lexer.analyze s.text <;> rfl

/-- A lint words every finding. -/
theorem lint_of_analyze (hs : s.engine = .lexer) (ht : t.Speaks locale) {findings : List Finding}
    (h : Lexer.analyze s.text = .ok findings) :
    (s.lint t).result = .ok (findings.map (Finding.worded locale)) := by
  have hrender := mapM_eq_ok fun f hf => render_eq ht (Lexer.quotation_of_analyze h f hf)
  unfold lint
  simp only [outcome_answer hs, h, hrender]

/-- A lint of a text that is too large fails as the scanner does. -/
theorem lint_of_analyze_error (hs : s.engine = .lexer) {fault : Fault}
    (h : Lexer.analyze s.text = .error fault) : (s.lint t).result = .error (.engine fault) := by
  unfold lint
  simp only [outcome_answer hs, h]

/-- A lint changes neither the text nor the engine. -/
theorem lint_keeps (s : Session) (t : Translator) :
    (s.lint t).state.engine = s.engine ∧ (s.lint t).state.text = s.text := by
  unfold lint
  dsimp only
  split
  next => exact ⟨rfl, rfl⟩
  next => split <;> exact ⟨rfl, rfl⟩

end Session

end ScriptLint
