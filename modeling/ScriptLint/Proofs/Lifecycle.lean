import Mathlib.Data.List.Induction
import ScriptLint.Proofs.Choosing
import ScriptLint.Proofs.Quotations
import ScriptLint.Proofs.Verdicts

/-! The diagnostics of a session are never stale, and never incomplete.

A lint fails with the engine, stops at a message that the catalog lacks, or shows
every finding (`lint_outcome`); which of these it was decides the session that it
leaves behind (`state_lint`).  So a session with diagnostics was linted last, its
text has not changed since, and the diagnostics show what the engine answered then
(`diagnostics_fresh`). -/

namespace ScriptLint

/-! ## One lint -/

namespace Session

/-- A diagnostic shows a finding: its kind (and so its code), its range, and the
kind's message in a locale, with what its arguments quote of the text. -/
structure Shows (c : Catalog) (locale : Nat) (text : Bytes) (f : Finding) (d : Diagnostic) :
    Prop where
  kind_eq : d.kind = f.kind
  span_eq : d.span = f.span
  message_eq : ∃ template quoted, c.lookup? f.kind.messageId locale = some template ∧
    List.Forall₂ (Quotes text) f.args quoted ∧ d.message = Message.format template quoted

/-- What the engine answers when the session is linted. -/
def answer (s : Session) : Except Fault (List Finding) :=
  (s.engine.answer s.calls.reverse s.text).outcome

/-- The catalog has the message of a finding. -/
def Known (c : Catalog) (f : Finding) : Prop :=
  f.kind.messageId < c.messageCount

/-- The error for a finding whose message the catalog lacks. -/
def Unknown (c : Catalog) (f : Finding) (e : LintError) : Prop :=
  c.messageCount ≤ f.kind.messageId ∧ e = .unknownMessage f.kind.messageId

/-- What a lint gives back, by the engine's answer. -/
inductive Outcome (c : Catalog) (locale : Nat) (s : Session) :
    Except LintError (List Diagnostic) → Prop
  | failed {fault : Fault} (h : s.answer = .error fault) :
      Outcome c locale s (.error (.engine fault))
  | unknown {findings : List Finding} {e : LintError} (h : s.answer = .ok findings)
      (hf : FirstOf (Known c) (Unknown c) findings e) : Outcome c locale s (.error e)
  | shown {findings : List Finding} {diagnostics : List Diagnostic} (h : s.answer = .ok findings)
      (hd : List.Forall₂ (Shows c locale s.text) findings diagnostics) :
      Outcome c locale s (.ok diagnostics)

theorem render_eq_ok_iff {t : Translator} {text : Bytes} {f : Finding} {d : Diagnostic} :
    render t text f = .ok d ↔ Shows t.catalog t.active text f d := by
  unfold render Translator.render? Translator.translate?
  constructor
  · intro h
    cases htemplate : t.catalog.lookup? f.kind.messageId t.active with
    | none =>
      rw [htemplate] at h
      cases h
    | some template =>
      rw [htemplate] at h
      cases h
      exact ⟨rfl, rfl, template, _, htemplate, forall₂_quotes_iff.mpr rfl, rfl⟩
  · obtain ⟨kind, span, message⟩ := d
    rintro ⟨rfl, rfl, template, quoted, htemplate, hquoted, rfl⟩
    rw [htemplate, forall₂_quotes_iff.mp hquoted]
    rfl

theorem judges_render (t : Translator) (text : Bytes) (f : Finding) :
    Judges (render t text f) (Known t.catalog f) (Unknown t.catalog f) := by
  have hnone := t.catalog.lookup?_eq_none_iff f.kind.messageId t.active
  unfold render Translator.render? Translator.translate? Known Unknown
  cases hlookup : t.catalog.lookup? f.kind.messageId t.active with
  | none =>
    have hle := hnone.mp hlookup
    refine judges_of_total (fun h => ?_) ?_ (.inr ⟨_, hle, rfl⟩)
    · omega
    · rintro e ⟨-, rfl⟩
      rfl
  | some template =>
    have hlt : f.kind.messageId < t.catalog.messageCount := by
      apply Nat.lt_of_not_le
      intro hle
      rw [hnone.mpr hle] at hlookup
      cases hlookup
    refine judges_of_total (fun _ => ⟨_, rfl⟩) ?_ (.inl hlt)
    rintro e ⟨hle, -⟩
    omega

theorem judges_renderAll (t : Translator) (text : Bytes) (findings : List Finding) :
    Judges (findings.mapM (render t text)) (∀ f ∈ findings, Known t.catalog f)
      (FirstOf (Known t.catalog) (Unknown t.catalog) findings) :=
  Judges.mapM fun f _ => judges_render t text f

theorem lint_outcome (s : Session) (t : Translator) :
    Outcome t.catalog t.active s (s.lint t).result := by
  unfold lint
  dsimp only
  split
  next fault ha => exact .failed ha
  next findings ha =>
    split
    next e hm => exact .unknown ha (((judges_renderAll t s.text findings).2 e).mp hm)
    next diagnostics hm =>
      refine .shown ha ((mapM_eq_ok_iff.mp hm).imp ?_)
      intro f d hd
      exact render_eq_ok_iff.mp hd

/-- The session that a lint leaves behind, by its outcome. -/
def settled (s : Session) (outcome : Except LintError (List Diagnostic)) : Session :=
  let cleared := { s with diagnostics := [], calls := s.text :: s.calls }
  match outcome with
  | .ok diagnostics => { cleared with diagnostics, phase := .linted }
  | .error (.engine _) => { cleared with phase := if s.phase = .empty then .empty else .textSet }
  | .error (.unknownMessage _) => cleared

theorem state_lint (s : Session) (t : Translator) :
    (s.lint t).state = s.settled (s.lint t).result := by
  unfold lint
  dsimp only
  split
  next fault ha =>
    have hphase : (if s.phase = .linted then .textSet else s.phase) =
        if s.phase = .empty then .empty else .textSet := by
      cases s.phase <;> rfl
    rw [hphase]
    rfl
  next findings ha =>
    split
    next e hm =>
      obtain ⟨before, f, after, -, -, -, rfl⟩ :=
        ((judges_renderAll t s.text findings).2 e).mp hm
      rfl
    next => rfl

end Session

/-! ## Sessions in a workspace -/

namespace Workspace

/-- How an action changes session `i`, when the translator is `t` and `count` sessions are open. -/
def Action.change (t : Translator) (count i : Nat) (s : Option Session) : Action → Option Session
  | .choose _ => s
  | .openSession engine => if i = count then some (.ofEngine engine) else s
  | .setText j text => s.map fun s => if j = i then s.setText text else s
  | .lint j => s.map fun s => if j = i then (s.lint t).state else s

theorem sessions_setText (w : Workspace) (j : Nat) (text : Bytes) :
    (w.act (.setText j text)).state.sessions = w.sessions.modify j (·.setText text) := by
  rw [List.modify_eq_set_getElem?]
  dsimp only [act]
  cases w.sessions[j]? <;> rfl

theorem sessions_lint (w : Workspace) (j : Nat) :
    (w.act (.lint j)).state.sessions =
      w.sessions.modify j fun s => (s.lint w.translator).state := by
  rw [List.modify_eq_set_getElem?]
  dsimp only [act]
  cases w.sessions[j]? <;> rfl

theorem sessions_act (w : Workspace) (a : Action) (i : Nat) :
    (w.act a).state.sessions[i]? = a.change w.translator w.sessions.length i w.sessions[i]? := by
  cases a with
  | choose choice => rfl
  | openSession engine =>
    show (w.sessions ++ [Session.ofEngine engine])[i]? = if i = w.sessions.length then _ else _
    by_cases hi : i = w.sessions.length
    · rw [if_pos hi, hi, List.getElem?_concat_length]
    · rw [if_neg hi]
      rcases Nat.lt_or_gt_of_ne hi with hlt | hgt
      · rw [List.getElem?_append_left hlt]
      · rw [List.getElem?_eq_none (Nat.le_of_lt hgt), List.getElem?_eq_none]
        rw [List.length_append, List.length_singleton]
        omega
  | setText j text =>
    rw [sessions_setText, List.getElem?_modify]
    rfl
  | lint j =>
    rw [sessions_lint, List.getElem?_modify]
    rfl

/-- The session whose text an action sets, or which it lints. -/
def Action.target? : Action → Option Nat
  | .setText j _ => some j
  | .lint j => some j
  | _ => none

/-- The index that an action moves the translator to. -/
def Action.index? (d : Locale.Directory) : Action → Option Nat
  | .choose choice => choice.index? d
  | _ => none

theorem translator_act (w : Workspace) (a : Action) :
    (w.act a).state.translator = w.translator.moved (a.index? w.translator.catalog.locales) := by
  cases a with
  | choose choice => exact state_choose w.translator choice
  | openSession engine => rfl
  | setText j text =>
    dsimp only [act]
    cases w.sessions[j]? <;> rfl
  | lint j =>
    dsimp only [act]
    cases w.sessions[j]? <;> rfl

/-! ## Runs -/

/-- The workspace after some actions. -/
def after (w : Workspace) (actions : List Action) : Workspace :=
  actions.foldl (fun w a => (w.act a).state) w

theorem after_concat (w : Workspace) (actions : List Action) (a : Action) :
    w.after (actions ++ [a]) = ((w.after actions).act a).state := by
  rw [after, List.foldl_append]
  rfl

theorem catalog_after (w : Workspace) (actions : List Action) :
    (w.after actions).translator.catalog = w.translator.catalog := by
  induction actions generalizing w with
  | nil => rfl
  | cons a actions ih =>
    refine (ih (w.act a).state).trans ?_
    rw [translator_act, Translator.catalog_moved]

/-- The diagnostics of a session show what the engine answered to its latest lint
among `actions`, in the locale of that lint; its text has not been set since. -/
def Reflects (w : Workspace) (actions : List Action) (i : Nat) (s : Session) : Prop :=
  ∃ before later s₀ findings, actions = before ++ .lint i :: later ∧
    (∀ a ∈ later, a.target? ≠ some i) ∧
    (w.after before).sessions[i]? = some s₀ ∧ s₀.text = s.text ∧ s₀.answer = .ok findings ∧
    List.Forall₂ (Session.Shows w.translator.catalog (w.after before).translator.active s.text)
      findings s.diagnostics

/-- What holds of every session after a run: it shows diagnostics only of a lint that is
still good, and it has no text before one is set. -/
structure Current (w : Workspace) (actions : List Action) (i : Nat) (s : Session) : Prop where
  linted : s.diagnostics ≠ [] → s.phase = .linted ∧ Reflects w actions i s
  empty : s.phase = .empty → s.text = []

theorem Reflects.concat {w : Workspace} {actions : List Action} {i : Nat} {s : Session}
    (h : Reflects w actions i s) {a : Action} (ha : a.target? ≠ some i) :
    Reflects w (actions ++ [a]) i s := by
  obtain ⟨before, later, s₀, findings, rfl, hlater, hrest⟩ := h
  refine ⟨before, later ++ [a], s₀, findings, ?_, ?_, hrest⟩
  · rw [List.append_assoc, List.cons_append]
  · intro b hb
    rcases List.mem_append.mp hb with hb | hb
    · exact hlater b hb
    · rwa [List.mem_singleton.mp hb]

theorem Current.concat {w : Workspace} {actions : List Action} {i : Nat} {s : Session}
    (h : Current w actions i s) {a : Action} (ha : a.target? ≠ some i) :
    Current w (actions ++ [a]) i s :=
  ⟨fun hd => ⟨(h.linted hd).1, (h.linted hd).2.concat ha⟩, h.empty⟩

/-- A session without diagnostics has none that could be stale. -/
theorem current_of_nil {w : Workspace} {actions : List Action} {i : Nat} {s : Session}
    (hd : s.diagnostics = []) (h : s.phase = .empty → s.text = []) : Current w actions i s :=
  ⟨fun hne => absurd hd hne, h⟩

theorem Current.lint {w : Workspace} {actions : List Action} {i : Nat} {s : Session}
    (hs : (w.after actions).sessions[i]? = some s) (h : Current w actions i s) :
    Current w (actions ++ [.lint i]) i (s.lint (w.after actions).translator).state := by
  have houtcome := s.lint_outcome (w.after actions).translator
  rw [catalog_after] at houtcome
  rw [s.state_lint]
  generalize (s.lint (w.after actions).translator).result = outcome at houtcome
  cases houtcome with
  | failed ha =>
    -- the phase is empty afterwards only if it was empty before
    refine current_of_nil rfl fun hphase => h.empty ?_
    by_cases he : s.phase = .empty
    · exact he
    · exact absurd ((if_neg he).symm.trans hphase) nofun
  | unknown ha hf =>
    obtain ⟨before, f, after, -, -, -, rfl⟩ := hf
    exact current_of_nil rfl h.empty
  | shown ha hd =>
    refine ⟨fun _ => ⟨rfl, ?_⟩, nofun⟩
    exact ⟨actions, [], s, _, rfl, nofun, hs, rfl, ha, hd⟩

/-- An action keeps every session current. -/
theorem current_act {w : Workspace} {actions : List Action}
    (h : ∀ i s, (w.after actions).sessions[i]? = some s → Current w actions i s) (a : Action) :
    ∀ i s, (w.after (actions ++ [a])).sessions[i]? = some s → Current w (actions ++ [a]) i s := by
  intro i s hs
  rw [after_concat, sessions_act] at hs
  cases a with
  | choose choice => exact (h i s hs).concat nofun
  | openSession engine =>
    by_cases hi : i = (w.after actions).sessions.length
    · cases (if_pos hi).symm.trans hs
      exact current_of_nil rfl fun _ => rfl
    · exact (h i s ((if_neg hi).symm.trans hs)).concat nofun
  | setText j text =>
    obtain ⟨s₀, hs₀, rfl⟩ := Option.map_eq_some_iff.mp hs
    by_cases hj : j = i
    · rw [if_pos hj]
      exact current_of_nil rfl nofun
    · rw [if_neg hj]
      exact (h i s₀ hs₀).concat fun ht => hj (Option.some.inj ht)
  | lint j =>
    obtain ⟨s₀, hs₀, rfl⟩ := Option.map_eq_some_iff.mp hs
    by_cases hj : j = i
    · rw [if_pos hj, hj]
      exact (h i s₀ hs₀).lint hs₀
    · rw [if_neg hj]
      exact (h i s₀ hs₀).concat fun ht => hj (Option.some.inj ht)

theorem current_after (c : Catalog) (actions : List Action) : ∀ i s,
    ((ofCatalog c).after actions).sessions[i]? = some s → Current (ofCatalog c) actions i s := by
  induction actions using List.reverseRecOn with
  | nil => exact nofun
  | append_singleton actions a ih => exact current_act ih a

/-- What the lint of an open session reports, and the session that it leaves. -/
theorem act_lint {w : Workspace} {i : Nat} {s : Session} (h : w.sessions[i]? = some s) :
    (w.act (.lint i)).result = .linted (s.lint w.translator).result ∧
    (w.act (.lint i)).state.sessions[i]? = some (s.settled (s.lint w.translator).result) := by
  constructor
  · dsimp only [act]
    rw [h]
    rfl
  · rw [sessions_act, h]
    exact congrArg some ((if_pos rfl).trans (s.state_lint w.translator))

/-- After any run, a session with diagnostics has been linted, and they are all of
what its latest lint showed of a text that it still has; a session that is empty
has no text.  The next lint shows every finding or fails, and then leaves no
diagnostics; it never changes the text. -/
theorem diagnostics_fresh (c : Catalog) (actions : List Action) (i : Nat) (s : Session)
    (h : ((ofCatalog c).after actions).sessions[i]? = some s) :
    Current (ofCatalog c) actions i s ∧
    ∃ outcome, s.Outcome c ((ofCatalog c).after actions).translator.active outcome ∧
      (((ofCatalog c).after actions).act (.lint i)).result = .linted outcome ∧
      (((ofCatalog c).after actions).act (.lint i)).state.sessions[i]? =
        some (s.settled outcome) := by
  refine ⟨current_after c actions i s h, _, ?_, act_lint h⟩
  have houtcome := s.lint_outcome ((ofCatalog c).after actions).translator
  rw [catalog_after] at houtcome
  exact houtcome

/-- One message in two languages. -/
def bilingual : Catalog where
  locales := ⟨["de"]⟩
  pool := Bytes.ofString "open '\x7b0\x7d\x7b1\x7d'offen: '\x7b0\x7d\x7b1\x7d'"
  defaults := #[⟨0, 13⟩]
  translations := #[.translated ⟨13, 15⟩]
  laidOut := ⟨rfl, by decide +kernel, by decide +kernel⟩

/-- Lints in one locale and goes back to the other; the engine works only once.  Its finding
quotes an ill-formed byte, and a range past the end. -/
def visit : List Action :=
  [.openSession (.sequence
      (.scripted [⟨.unclosedBlockComment, .ofLength 0 2, [.ofLength 0 3, .ofLength 2 5]⟩])
      [.failing (.internal "down")]),
    .setText 0 [0x2F, 0x2A, 0xFF], .choose (.exact "de"), .lint 0, .choose .defaultText]

theorem diagnostics_visit : ∃ s, ((ofCatalog bilingual).after visit).sessions[0]? = some s ∧
    s.diagnostics = [⟨.unclosedBlockComment, .ofLength 0 2, "offen: '/*\uFFFD'"⟩] ∧
    s.phase = .linted ∧ Reflects (ofCatalog bilingual) visit 0 s ∧
    (((ofCatalog bilingual).after visit).act (.lint 0)).result =
      .linted (.error (.engine (.internal "down"))) ∧
    ∃ s', (((ofCatalog bilingual).after visit).act (.lint 0)).state.sessions[0]? = some s' ∧
      s'.text = s.text ∧ s'.diagnostics = [] ∧ s'.phase = .textSet := by
  obtain ⟨hcurrent, outcome, -, hresult, hstate⟩ := diagnostics_fresh bilingual visit 0 _ rfl
  have hfailed : (((ofCatalog bilingual).after visit).act (.lint 0)).result =
      .linted (.error (.engine (.internal "down"))) := rfl
  cases hfailed.symm.trans hresult
  obtain ⟨hphase, hreflects⟩ := hcurrent.linted nofun
  exact ⟨_, rfl, by decide +kernel, hphase, hreflects, hfailed, _, hstate, rfl, rfl, rfl⟩

end Workspace

end ScriptLint
